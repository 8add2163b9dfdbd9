import Libpulp.Bytes
/-!
# Rfc1320 — the MD4 message digest

The algorithm of RFC 1320 on whole bytes, in tables: a round is its function, its constant, the order in which it takes
the words and its four shifts, and an operation moves the four words on by one place, so that after sixteen of them they
are back in theirs.
-/
namespace Rfc1320

open Bytes (Byte toLE ofLE)

abbrev Word := BitVec 32

/-- The four words of the buffer. -/
structure Digest where
  a : Word
  b : Word
  c : Word
  d : Word
deriving DecidableEq

structure Round where
  fn       : Word → Word → Word → Word
  constant : Word
  index    : Nat → Nat
  shifts   : List Nat

def round1 : Round := ⟨fun x y z => (x &&& y) ||| (~~~x &&& z), 0, fun i => i, [3, 7, 11, 19]⟩

def round2 : Round :=
  ⟨fun x y z => (x &&& y) ||| (x &&& z) ||| (y &&& z), 0x5A827999, fun i => 4 * (i % 4) + i / 4, [3, 5, 9, 13]⟩

/-- The words of round 3 are taken in the order of their numbers read backwards in binary. -/
def round3 : Round :=
  ⟨fun x y z => x ^^^ y ^^^ z, 0x6ED9EBA1, fun i => 8 * (i % 2) + 4 * (i / 2 % 2) + 2 * (i / 4 % 2) + i / 8,
    [3, 9, 11, 15]⟩

namespace Round

variable (r : Round)

def shift (i : Nat) : Nat := r.shifts.getD (i % 4) 0

/-- The operation `i` of a round on the words `x`: `a = (a + fn(b, c, d) + x[k] + constant) <<< s`, and the next one is
on `d`, `a`, `b`, `c`. -/
def op (x : List Word) (s : Digest) (i : Nat) : Digest :=
  ⟨s.d, (s.a + r.fn s.b s.c s.d + x.getD (r.index i) 0 + r.constant).rotateLeft (r.shift i), s.b, s.c⟩

def run (x : List Word) (s : Digest) : Digest := (List.range 16).foldl (r.op x) s

end Round

def Digest.add (s t : Digest) : Digest := ⟨s.a + t.a, s.b + t.b, s.c + t.c, s.d + t.d⟩

/-- One block of sixteen words. -/
def compress (s : Digest) (x : List Word) : Digest := (round3.run x (round2.run x (round1.run x s))).add s

def initial : Digest := ⟨0x67452301, 0xefcdab89, 0x98badcfe, 0x10325476⟩

/-- How many zero bytes bring a message with its first byte of padding to 56 bytes modulo 64. -/
def zeros (length : Nat) : Nat := (119 - length % 64) % 64

/-- The message, a bit that is set, zeros, and the length in bits. -/
def pad (message : List Byte) : List Byte :=
  message ++ 0x80 :: (List.replicate (zeros message.length) 0 ++ toLE 8 (8 * message.length))

/-- The word at an offset, low-order byte first. -/
def wordAt (bytes : List Byte) (offset : Nat) : Word := BitVec.ofNat 32 (ofLE ((bytes.drop offset).take 4))

def block (bytes : List Byte) (i : Nat) : List Word := (List.range 16).map (fun j => wordAt bytes (64 * i + 4 * j))

/-- The state after the first `n` blocks. -/
def state (bytes : List Byte) (n : Nat) : Digest :=
  (List.range n).foldl (fun s i => compress s (block bytes i)) initial

def Digest.bytes (s : Digest) : List Byte := toLE 4 s.a.toNat ++ toLE 4 s.b.toNat ++ toLE 4 s.c.toNat ++ toLE 4 s.d.toNat

/-- **The digest of a message.** -/
def digest (message : List Byte) : List Byte := (state (pad message) ((pad message).length / 64)).bytes

/-- The digest of `abc`. -/
example : digest [97, 98, 99] = [0xa4, 0x48, 0x01, 0x7a, 0xaf, 0x21, 0xd8, 0x52, 0x5f, 0xc1, 0x0a, 0xe8, 0x7a, 0xa6,
    0x72, 0x9d] := by
  decide +kernel

theorem length_pad (message : List Byte) : (pad message).length = message.length + 1 + zeros message.length + 8 := by
  unfold pad
  simp only [List.length_append, List.length_cons, List.length_replicate, Bytes.length_toLE]
  omega

theorem dvd_length_pad (message : List Byte) : 64 ∣ (pad message).length := by
  rw [length_pad]
  unfold zeros
  omega

end Rfc1320
