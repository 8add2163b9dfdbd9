import Libpulp.Common
/-!
# InsnQueue — the instruction queue (include/insn_queue.h, lib/insn_queue.c, common/insn_queue.c)

libpulp does not write to code memory: it appends instructions to a buffer that the `ulp` tool interprets once the
hijacked call is over.  An instruction starts with a word holding its type (8 bits) and its size (a signed 24-bit
field); a WRITE goes on with `n`, the address and `n` bytes, a PRINT with a NUL-terminated string.  What the
interpretation does to the outside is a parameter (`InsnHandlers`): the tool and the library have their own
`insn_interpret_write`.
-/
namespace Libpulp

open Bytes (Byte Addr Buf toLE ofLE)

def insnBufferMax : Nat := 2 * 1024 * 1024
def insnqCurrVersion : Int := 1

structure InsnQueue where
  version  : Int
  numInsns : Int
  size     : Int
  buffer   : Buf

/-- Conversion to a C `int`. -/
def int32 (x : Int) : Int := Int.bmod x (2 ^ 32)

/-- Conversion to `size_t`. -/
def sizeT (x : Int) : Nat := (x % 2 ^ 64).toNat

/-- `align_to`, for `bytes` a power of two. -/
def alignTo (val bytes : Int) : Int := int32 (val + (bytes - 1)) - int32 (val + (bytes - 1)) % bytes

/-- `insnq_get_writable_area`: the offset reserved and the queue that has it, `none` if the message does not fit. -/
def insnqGetWritableArea (q : InsnQueue) (msgSize : Nat) : Option (Nat × InsnQueue) :=
  if msgSize = 0 then none
  else if insnBufferMax < (msgSize + sizeT q.size) % 2 ^ 64 then none
  else some (q.size.toNat, { q with size := int32 (q.size + msgSize), numInsns := int32 (q.numInsns + 1) })

/-- `struct ulp_insn`: the type and the size in one little-endian word. -/
def insnBase (type : Byte) (size : Int) : List Byte := type :: toLE 3 (size % 2 ^ 24).toNat

/-- `insnq_insert_print`; `none` where it returns `EINSNQ`.  The length of the string is cut to an `int`, and only as many
bytes are copied. -/
def insnqInsertPrint (q : InsnQueue) (string : List Byte) : Option InsnQueue :=
  let stringSize := int32 (string.length + 1)
  let insnSize := alignTo (int32 (4 + stringSize)) 4
  (insnqGetWritableArea q (sizeT insnSize)).map (fun (o, q') =>
    { q' with buffer := q'.buffer.write o (insnBase 1 insnSize ++ (string ++ [0]).take (sizeT stringSize)) })

/-- `insnq_insert_write(addr, n, bytes)` with the `n` bytes given, `n` an `int`; `none` where it returns `EINSNQ`. -/
def insnqInsertWrite (q : InsnQueue) (addr : Addr) (bytes : List Byte) : Option InsnQueue :=
  let insnSize := alignTo (int32 (16 + bytes.length)) 8
  (insnqGetWritableArea q (sizeT insnSize)).map (fun (o, q') =>
    { q' with buffer :=
        q'.buffer.write o (insnBase 2 insnSize ++ (toLE 4 bytes.length ++ (toLE 8 addr.toNat ++ bytes))) })

/-- `insnq_ensure_emptiness` finds the queue not empty. -/
def insnqNotEmpty (q : InsnQueue) : Bool := decide (0 < q.numInsns) || decide (0 < q.size)

/-! ## The interpreter -/

/-- The effects of PRINT and WRITE.  A WRITE gets the instruction's size and returns what is added to the program
counter: the size on success, something else on failure. -/
structure InsnHandlers (σ : Type) where
  print : List Byte → σ → σ
  write : Addr → List Byte → Int → σ → σ × Int

def insnType (b : Buf) (pc : Nat) : Byte := b pc

def insnSize (b : Buf) (pc : Nat) : Int := Int.bmod (ofLE (b.read (pc + 1) 3)) (2 ^ 24)

/-- The string at `o`, if it ends within the next `k` bytes. -/
def bufString (b : Buf) : Nat → Nat → Option (List Byte)
  | 0, _     => none
  | k + 1, o => if b o = 0 then some [] else (bufString b k (o + 1)).map (b o :: ·)

/-- The loop of `insnq_interpret` with `k` instructions to go: the state reached and the code returned, `none` when an
access leaves the buffer. -/
def insnqInterpretFrom {σ : Type} (h : InsnHandlers σ) (q : InsnQueue) : Nat → Int → σ → σ × Option UlpError
  | 0, pc, st     =>
    (st, some (if pc ≠ q.size then EINSNQ else if (q.numInsns.toNat : Int) ≠ q.numInsns then EINSNQ else ENONE))
  | k + 1, pc, st =>
    if pc < 0 ∨ (insnBufferMax : Int) ≤ pc then (st, none)
    else if insnType q.buffer pc.toNat = 0 then
      insnqInterpretFrom h q k (int32 (pc + 4)) st
    else if insnType q.buffer pc.toNat = 1 then
      match bufString q.buffer (insnBufferMax - (pc.toNat + 4)) (pc.toNat + 4) with
      | none   => (st, none)
      | some s => insnqInterpretFrom h q k (int32 (pc + insnSize q.buffer pc.toNat)) (h.print s st)
    else if insnType q.buffer pc.toNat = 2 then
      let n := ofLE (q.buffer.read (pc.toNat + 4) 4)
      if insnBufferMax < pc.toNat + 16 + n then (st, none)
      else
        let r := h.write (BitVec.ofNat 64 (ofLE (q.buffer.read (pc.toNat + 8) 8))) (q.buffer.read (pc.toNat + 16) n)
          (insnSize q.buffer pc.toNat) st
        insnqInterpretFrom h q k (int32 (pc + r.2)) r.1
    else (st, some EINSNQ)

def insnqInterpret {σ : Type} (h : InsnHandlers σ) (q : InsnQueue) (st : σ) : σ × Option UlpError :=
  insnqInterpretFrom h q q.numInsns.toNat 0 st

/-- What one round of the loop comes to. -/
inductive Outcome (σ : Type) where
  | next (pc : Int) (st : σ)
  | invalid
  | outside

/-- The number of bytes a WRITE at `pc` says it has. -/
def insnN (b : Buf) (pc : Nat) : Nat := ofLE (b.read (pc + 4) 4)

def insnAddress (b : Buf) (pc : Nat) : Addr := BitVec.ofNat 64 (ofLE (b.read (pc + 8) 8))

def insnBytes (b : Buf) (pc : Nat) : List Byte := b.read (pc + 16) (insnN b pc)

def insnStep {σ : Type} (h : InsnHandlers σ) (b : Buf) (pc : Int) (st : σ) : Outcome σ :=
  if pc < 0 ∨ (insnBufferMax : Int) ≤ pc then .outside
  else if insnType b pc.toNat = 0 then .next (int32 (pc + 4)) st
  else if insnType b pc.toNat = 1 then
    match bufString b (insnBufferMax - (pc.toNat + 4)) (pc.toNat + 4) with
    | none   => .outside
    | some s => .next (int32 (pc + insnSize b pc.toNat)) (h.print s st)
  else if insnType b pc.toNat = 2 then
    if insnBufferMax < pc.toNat + 16 + insnN b pc.toNat then .outside
    else
      let r := h.write (insnAddress b pc.toNat) (insnBytes b pc.toNat) (insnSize b pc.toNat) st
      .next (int32 (pc + r.2)) r.1
  else .invalid

theorem insnqInterpretFrom_succ {σ : Type} (h : InsnHandlers σ) (q : InsnQueue) (k : Nat) (pc : Int) (st : σ) :
    insnqInterpretFrom h q (k + 1) pc st = match insnStep h q.buffer pc st with
      | .next pc' st' => insnqInterpretFrom h q k pc' st'
      | .invalid      => (st, some EINSNQ)
      | .outside      => (st, none) := by
  rw [insnqInterpretFrom]
  unfold insnStep insnAddress insnBytes insnN
  split
  · rfl
  split
  · rfl
  split
  · cases bufString q.buffer (insnBufferMax - (pc.toNat + 4)) (pc.toNat + 4) <;> rfl
  split
  · simp only
    split <;> rfl
  · rfl

section Step

variable {σ : Type} {h : InsnHandlers σ} {b : Buf} {pc : Int} {st : σ}

theorem insnStep_nop (h0 : 0 ≤ pc) (hlt : pc < insnBufferMax) (ht : insnType b pc.toNat = 0) :
    insnStep h b pc st = .next (int32 (pc + 4)) st := by
  rw [insnStep, if_neg (by omega), if_pos ht]

theorem insnStep_print (h0 : 0 ≤ pc) (hlt : pc < insnBufferMax) (ht : insnType b pc.toNat = 1) {s : List Byte}
    (hs : bufString b (insnBufferMax - (pc.toNat + 4)) (pc.toNat + 4) = some s) :
    insnStep h b pc st = .next (int32 (pc + insnSize b pc.toNat)) (h.print s st) := by
  rw [insnStep, if_neg (by omega), ht, if_neg (by decide), if_pos rfl, hs]

theorem insnStep_write (h0 : 0 ≤ pc) (ht : insnType b pc.toNat = 2)
    (hn : pc.toNat + 16 + insnN b pc.toNat ≤ insnBufferMax) :
    insnStep h b pc st =
      .next (int32 (pc + (h.write (insnAddress b pc.toNat) (insnBytes b pc.toNat) (insnSize b pc.toNat) st).2))
        (h.write (insnAddress b pc.toNat) (insnBytes b pc.toNat) (insnSize b pc.toNat) st).1 := by
  rw [insnStep, if_neg (by omega), ht, if_neg (by decide), if_neg (by decide), if_pos rfl, if_neg (by omega)]

end Step

/-! ## What a queue holds -/

inductive Insn where
  | print (string : List Byte)
  | write (addr : Addr) (bytes : List Byte)
deriving DecidableEq

namespace Insn

def size : Insn → Nat
  | print s    => (4 + (s.length + 1) + 3) / 4 * 4
  | write _ bs => (16 + bs.length + 7) / 8 * 8

def code : Insn → List Byte
  | print s    => insnBase 1 (size (print s)) ++ (s ++ [0])
  | write a bs => insnBase 2 (size (write a bs)) ++ (toLE 4 bs.length ++ (toLE 8 a.toNat ++ bs))

/-- The strings that can be printed are C strings. -/
def Ok : Insn → Prop
  | print s   => (0 : Byte) ∉ s
  | write _ _ => True

def exec {σ : Type} (h : InsnHandlers σ) (st : σ) : Insn → σ
  | print s    => h.print s st
  | write a bs => (h.write a bs (size (write a bs)) st).1

theorem length_code_le (i : Insn) : i.code.length ≤ i.size := by
  cases i <;> simp only [code, size, insnBase, List.length_append, List.length_cons, Bytes.length_toLE,
    List.length_nil] <;> omega

theorem four_le_length_code (i : Insn) : 4 ≤ i.code.length := by
  cases i <;> simp only [code, insnBase, List.length_append, List.length_cons, Bytes.length_toLE] <;> omega

end Insn

/-- The total size of a list of instructions. -/
def insnsSize (is : List Insn) : Nat := (is.map Insn.size).sum

@[simp] theorem insnsSize_nil : insnsSize [] = 0 := rfl

@[simp] theorem insnsSize_cons (i : Insn) (is : List Insn) : insnsSize (i :: is) = i.size + insnsSize is := by
  simp [insnsSize]

@[simp] theorem insnsSize_append (is js : List Insn) : insnsSize (is ++ js) = insnsSize is + insnsSize js := by
  simp [insnsSize]

/-- The buffer holds the code of `is` from `o` on. -/
def Encoded (b : Buf) : Nat → List Insn → Prop
  | _, []      => True
  | o, i :: is => b.read o i.code.length = i.code ∧ i.Ok ∧ Encoded b (o + i.size) is

/-- **The queue holds exactly the instructions `is`.** -/
structure QueueHolds (q : InsnQueue) (is : List Insn) : Prop where
  version : q.version = insnqCurrVersion
  size    : q.size = insnsSize is
  num     : q.numInsns = is.length
  fits    : insnsSize is ≤ insnBufferMax
  code    : Encoded q.buffer 0 is

theorem queueHolds_empty (b : Buf) : QueueHolds ⟨insnqCurrVersion, 0, 0, b⟩ [] :=
  ⟨rfl, rfl, rfl, Nat.zero_le _, trivial⟩

theorem insnqNotEmpty_eq_false {q : InsnQueue} (h : QueueHolds q []) : insnqNotEmpty q = false := by
  simp [insnqNotEmpty, h.size, h.num]

theorem int32_of_range {x : Int} (h₀ : -2 ^ 31 ≤ x) (h₁ : x < 2 ^ 31) : int32 x = x := by
  unfold int32 Int.bmod
  simp only
  split <;> omega

theorem encoded_append (b : Buf) : ∀ (is js : List Insn) (o : Nat),
    Encoded b o (is ++ js) ↔ Encoded b o is ∧ Encoded b (o + insnsSize is) js
  | [], js, o      => by simp [Encoded]
  | i :: is, js, o => by
    rw [List.cons_append, Encoded, Encoded, encoded_append b is js, insnsSize_cons, Nat.add_assoc]
    tauto

theorem encoded_write (b : Buf) (bs : List Byte) : ∀ (is : List Insn) (o e : Nat), o + insnsSize is ≤ e →
    Encoded b o is → Encoded (b.write e bs) o is
  | [], _, _, _, _          => trivial
  | i :: is, o, e, hle, h => by
    rw [insnsSize_cons] at hle
    have := i.length_code_le
    obtain ⟨hi, hok, his⟩ := h
    exact ⟨by rw [Buf.read_write_before bs (by omega), hi], hok, encoded_write b bs is _ e (by omega) his⟩

/-- A reservation that fits, appended with the code of an instruction. -/
theorem holds_reserve {q : InsnQueue} {is : List Insn} (h : QueueHolds q is) (i : Insn) (hi : i.Ok) (hpos : 0 < i.size)
    (hlt : i.size < 2 ^ 31) :
    (insnsSize is + i.size ≤ insnBufferMax →
      ∃ q', (insnqGetWritableArea q i.size).map (fun (o, q') => { q' with buffer := q'.buffer.write o i.code }) =
        some q' ∧ QueueHolds q' (is ++ [i])) ∧
    (insnBufferMax < insnsSize is + i.size →
      (insnqGetWritableArea q i.size).map (fun (o, q') => { q' with buffer := q'.buffer.write o i.code }) = none) := by
  have hmax : insnBufferMax = 2097152 := rfl
  have hfit := h.fits
  have hn : is.length ≤ insnsSize is := by
    clear hfit h
    induction is with
    | nil => exact Nat.le_refl _
    | cons j js ih =>
      have := j.length_code_le
      have := j.four_le_length_code
      rw [insnsSize_cons, List.length_cons]
      omega
  have hsum : (i.size + sizeT q.size) % 2 ^ 64 = insnsSize is + i.size := by
    rw [h.size, sizeT]
    omega
  unfold insnqGetWritableArea
  rw [if_neg (by omega), hsum]
  refine ⟨fun hle => ?_, fun hgt => ?_⟩
  · rw [if_neg (by omega), Option.map_some]
    refine ⟨_, rfl, h.version, ?_, ?_, ?_, ?_⟩
    · simp only [insnsSize_append, insnsSize_cons, insnsSize_nil, h.size]
      rw [int32_of_range (by omega) (by omega)]
      push_cast
      omega
    · simp only [h.num, List.length_append, List.length_cons, List.length_nil]
      rw [int32_of_range (by omega) (by omega)]
      push_cast
      omega
    · simpa using hle
    · have ho : q.size.toNat = insnsSize is := by rw [h.size]; rfl
      simp only [ho]
      rw [encoded_append]
      refine ⟨encoded_write _ _ _ _ _ (by omega) h.code, ?_, hi, trivial⟩
      rw [Nat.zero_add]
      exact Buf.read_write_self _ _ _
  · rw [if_pos (by omega)]
    rfl

theorem insnqInsertWrite_eq (q : InsnQueue) (a : Addr) (bs : List Byte) (hb : bs.length < 2 ^ 30) :
    insnqInsertWrite q a bs = (insnqGetWritableArea q (Insn.write a bs).size).map
      (fun (o, q') => { q' with buffer := q'.buffer.write o (Insn.write a bs).code }) := by
  have hsize : alignTo (int32 (16 + bs.length)) 8 = ((Insn.write a bs).size : Int) := by
    have h16 : int32 (16 + bs.length) = 16 + bs.length := int32_of_range (by omega) (by omega)
    rw [h16, alignTo, int32_of_range (by omega) (by omega), Insn.size]
    push_cast
    omega
  have hs : sizeT ((Insn.write a bs).size : Int) = (Insn.write a bs).size := by
    have : (Insn.write a bs).size < 2 ^ 64 := by rw [Insn.size]; omega
    rw [sizeT]
    omega
  unfold insnqInsertWrite
  simp only [hsize, hs, Insn.code]

/-- **`insnq_insert_write` appends the instruction if it fits and refuses it otherwise.** -/
theorem insnqInsertWrite_spec {q : InsnQueue} {is : List Insn} (h : QueueHolds q is) (a : Addr) (bs : List Byte)
    (hb : bs.length < 2 ^ 30) :
    (insnsSize is + (Insn.write a bs).size ≤ insnBufferMax →
      ∃ q', insnqInsertWrite q a bs = some q' ∧ QueueHolds q' (is ++ [.write a bs])) ∧
    (insnBufferMax < insnsSize is + (Insn.write a bs).size → insnqInsertWrite q a bs = none) := by
  rw [insnqInsertWrite_eq q a bs hb]
  exact holds_reserve h (.write a bs) trivial (by rw [Insn.size]; omega) (by rw [Insn.size]; omega)

/-! ## Insertions of any size -/

theorem int32_cases (x : Int) : ∃ k : Int, int32 x = x - 2 ^ 32 * k ∧ -2 ^ 31 ≤ int32 x ∧ int32 x < 2 ^ 31 := by
  refine ⟨(x - int32 x) / 2 ^ 32, ?_⟩
  unfold int32 Int.bmod
  simp only
  split <;> omega

/-- `align_to` of a size that does not fit in the queue, be it that the sum wraps around. -/
theorem alignTo_large {n pad : Nat} (h : 2 ^ 30 ≤ n) (h' : n ≤ 2 ^ 31 + 2 ^ 5) (hp : pad = 4 ∨ pad = 8) :
    insnBufferMax < sizeT (alignTo (int32 n) pad) ∧ sizeT (alignTo (int32 n) pad) + insnBufferMax < 2 ^ 64 := by
  have hmax : insnBufferMax = 2097152 := rfl
  obtain ⟨k, hk, hk₁, hk₂⟩ := int32_cases n
  obtain ⟨l, hl, hl₁, hl₂⟩ := int32_cases (int32 n + ((pad : Int) - 1))
  unfold alignTo sizeT
  generalize int32 (int32 n + ((pad : Int) - 1)) = w at *
  generalize int32 n = v at *
  rcases hp with rfl | rfl <;> omega

theorem getWritableArea_none {q : InsnQueue} {is : List Insn} (h : QueueHolds q is) {n : Nat} (hn : insnBufferMax < n)
    (hn' : n + insnBufferMax < 2 ^ 64) : insnqGetWritableArea q n = none := by
  have hmax : insnBufferMax = 2097152 := rfl
  have hfit := h.fits
  have hsum : (n + sizeT q.size) % 2 ^ 64 = n + insnsSize is := by
    rw [h.size, sizeT]
    omega
  rw [insnqGetWritableArea, if_neg (by omega), hsum, if_pos (by omega)]

theorem insnqInsertWrite_large {q : InsnQueue} {is : List Insn} (h : QueueHolds q is) (a : Addr) {bs : List Byte}
    (hb : 2 ^ 30 ≤ bs.length) (hb' : bs.length < 2 ^ 31) : insnqInsertWrite q a bs = none := by
  obtain ⟨h₁, h₂⟩ := @alignTo_large (16 + bs.length) 8 (by omega) (by omega) (Or.inr rfl)
  unfold insnqInsertWrite
  push_cast at h₁ h₂
  simp only
  rw [getWritableArea_none h h₁ h₂]
  rfl

theorem insnqInsertPrint_large {q : InsnQueue} {is : List Insn} (h : QueueHolds q is) {s : List Byte}
    (hs : 2 ^ 30 ≤ s.length) (hs' : s.length + 1 < 2 ^ 31) : insnqInsertPrint q s = none := by
  obtain ⟨h₁, h₂⟩ := @alignTo_large (4 + (s.length + 1)) 4 (by omega) (by omega) (Or.inl rfl)
  have hsize : int32 (s.length + 1) = s.length + 1 := int32_of_range (by omega) (by omega)
  unfold insnqInsertPrint
  push_cast at h₁ h₂
  simp only
  rw [hsize, getWritableArea_none h h₁ h₂]
  rfl

theorem insnqInsertPrint_eq (q : InsnQueue) {s : List Byte} (hs : s.length < 2 ^ 30) :
    insnqInsertPrint q s = (insnqGetWritableArea q (Insn.print s).size).map
      (fun (o, q') => { q' with buffer := q'.buffer.write o (Insn.print s).code }) := by
  have hstr : int32 (s.length + 1) = s.length + 1 := int32_of_range (by omega) (by omega)
  have h4 : int32 (4 + (s.length + 1)) = 4 + (s.length + 1) := int32_of_range (by omega) (by omega)
  have hsize : alignTo (4 + (s.length + 1)) 4 = ((Insn.print s).size : Int) := by
    rw [alignTo, int32_of_range (by omega) (by omega), Insn.size]
    push_cast
    omega
  have hsz : sizeT ((Insn.print s).size : Int) = (Insn.print s).size := by
    have : (Insn.print s).size < 2 ^ 64 := by rw [Insn.size]; omega
    rw [sizeT]
    omega
  have hcopy : sizeT (s.length + 1) = (s ++ [0]).length := by
    rw [sizeT, List.length_append, List.length_singleton]
    omega
  unfold insnqInsertPrint
  simp only [hstr, h4, hsize, hsz, hcopy, List.take_length]
  rfl

theorem getWritableArea_before {q q' : InsnQueue} {n : Nat} {code : List Byte}
    (h : (insnqGetWritableArea q n).map (fun (o, q') => { q' with buffer := q'.buffer.write o code }) = some q') {j : Nat}
    (hj : (j : Int) < q.size) : q'.buffer j = q.buffer j := by
  unfold insnqGetWritableArea at h
  split at h
  · cases h
  split at h
  · cases h
  · obtain rfl := Option.some.inj h
    exact Buf.write_before _ (by omega)

theorem insnqInsertWrite_before {q q' : InsnQueue} {a : Addr} {bs : List Byte} (h : insnqInsertWrite q a bs = some q')
    {j : Nat} (hj : (j : Int) < q.size) : q'.buffer j = q.buffer j := by
  unfold insnqInsertWrite at h
  simp only at h
  exact getWritableArea_before h hj

theorem insnqInsertPrint_before {q q' : InsnQueue} {s : List Byte} (h : insnqInsertPrint q s = some q') {j : Nat}
    (hj : (j : Int) < q.size) : q'.buffer j = q.buffer j := by
  unfold insnqInsertPrint at h
  simp only at h
  exact getWritableArea_before h hj

theorem insnqInsertPrint_wraps {q : InsnQueue} (hq : q.size = 0) {s : List Byte} (hs : s.length + 1 = 2 ^ 32) :
    insnqInsertPrint q s ≠ none := by
  have h0 : int32 (s.length + 1) = 0 := by
    rw [show (s.length : Int) + 1 = 2 ^ 32 by omega]
    decide
  unfold insnqInsertPrint
  simp only [h0]
  unfold insnqGetWritableArea
  rw [if_neg (by decide), hq, if_neg (by decide)]
  simp

/-- The size `insnq_insert_print` asks for, the length of the string cut to an `int`. -/
def printSize (s : List Byte) : Nat := sizeT (alignTo (int32 (4 + int32 (s.length + 1))) 4)

/-- That size is not 0 and fits in what is left of the queue. -/
def CutFits (q : InsnQueue) (s : List Byte) : Prop :=
  printSize s ≠ 0 ∧ (printSize s + sizeT q.size) % 2 ^ 64 ≤ insnBufferMax

theorem insnqInsertPrint_eq_none {q : InsnQueue} {s : List Byte} : insnqInsertPrint q s = none ↔ ¬ CutFits q s := by
  unfold insnqInsertPrint CutFits
  change Option.map _ (insnqGetWritableArea q (printSize s)) = none ↔ _
  rw [Option.map_eq_none_iff, insnqGetWritableArea]
  split
  · rename_i h
    exact ⟨fun _ hf => hf.1 h, fun _ => rfl⟩
  split
  · rename_i h
    exact ⟨fun _ hf => absurd hf.2 (Nat.not_le_of_lt h), fun _ => rfl⟩
  · rename_i h₁ h₂
    refine ⟨fun h => ?_, fun h => absurd ⟨h₁, Nat.le_of_not_lt h₂⟩ h⟩
    cases h

-- from here on an insertion is known by its specification only
attribute [irreducible] insnqInsertWrite insnqInsertPrint

/-- What can be passed to an insertion: a C string, or as many bytes as an `int` can say. -/
def Insn.Arg : Insn → Prop
  | print s    => (0 : Byte) ∉ s
  | write _ bs => bs.length < 2 ^ 31

def insnqInsert (q : InsnQueue) : Insn → Option InsnQueue
  | .print s    => insnqInsertPrint q s
  | .write a bs => insnqInsertWrite q a bs

/-- **An insertion is refused or appends the instruction.** -/
theorem insnqInsert_spec {q : InsnQueue} {is : List Insn} (h : QueueHolds q is) {i : Insn} (hi : i.Arg)
    (hp : ∀ s, i = .print s → s.length + 1 < 2 ^ 31) :
    insnqInsert q i = none ∨ ∃ q', insnqInsert q i = some q' ∧ QueueHolds q' (is ++ [i]) := by
  cases i with
  | write a bs =>
    by_cases hb : bs.length < 2 ^ 30
    · obtain ⟨h₁, h₂⟩ := insnqInsertWrite_spec h a bs hb
      rcases Nat.lt_or_ge insnBufferMax (insnsSize is + (Insn.write a bs).size) with hlt | hle
      · exact Or.inl (h₂ hlt)
      · exact Or.inr (h₁ hle)
    · exact Or.inl (insnqInsertWrite_large h a (Nat.le_of_not_lt hb) hi)
  | print s =>
    by_cases hs : s.length < 2 ^ 30
    · obtain ⟨h₁, h₂⟩ := holds_reserve h (.print s) hi (by rw [Insn.size]; omega) (by rw [Insn.size]; omega)
      have he : insnqInsert q (.print s) = _ := insnqInsertPrint_eq q hs
      rcases Nat.lt_or_ge insnBufferMax (insnsSize is + (Insn.print s).size) with hlt | hle
      · exact Or.inl (he.trans (h₂ hlt))
      · obtain ⟨q', hq, hh⟩ := h₁ hle
        exact Or.inr ⟨q', he.trans hq, hh⟩
    · exact Or.inl (insnqInsertPrint_large h (Nat.le_of_not_lt hs) (hp s rfl))

/-! ## Interpreting what a queue holds -/

theorem length_bufString (b : Buf) : ∀ {k o : Nat} {s : List Byte}, bufString b k o = some s → s.length < k
  | 0, _, _, h     => by cases h
  | k + 1, o, s, h => by
    rw [bufString] at h
    split at h
    · obtain rfl := Option.some.inj h
      exact Nat.succ_pos _
    · obtain ⟨t, ht, rfl⟩ := Option.map_eq_some_iff.1 h
      have := length_bufString b ht
      rw [List.length_cons]
      omega

theorem bufString_read (b : Buf) : ∀ (s : List Byte) (k o : Nat), (0 : Byte) ∉ s → s.length < k →
    b.read o (s.length + 1) = s ++ [0] → bufString b k o = some s
  | [], k, o, _, hk, h => by
    cases k with
    | zero => omega
    | succ k =>
      have : b o = 0 := by simpa [Buf.read] using h
      simp [bufString, this]
  | x :: s, k, o, h0, hk, h => by
    cases k with
    | zero => omega
    | succ k =>
      rw [List.length_cons, Nat.add_comm (s.length + 1) 1, Buf.read_add] at h
      have h' : b.read o 1 ++ b.read (o + 1) (s.length + 1) = [x] ++ (s ++ [0]) := by simpa using h
      obtain ⟨hx, hs⟩ := List.append_inj h' (by simp)
      have hx' : b o = x := by simpa [Buf.read] using hx
      have hne : b o ≠ 0 := fun h => h0 (by rw [← h, hx']; simp)
      rw [bufString, if_neg hne, bufString_read b s k (o + 1) (fun h => h0 (by simp [h])) (by simpa using hk) hs, hx']
      rfl

theorem int24_of_lt {x : Nat} (h : x < 2 ^ 23) : Int.bmod x (2 ^ 24) = x := by
  unfold Int.bmod
  simp only
  split <;> omega

theorem insnSize_read {b : Buf} {o size : Nat} (h : b.read (o + 1) 3 = toLE 3 size) (hs : size < 2 ^ 23) :
    insnSize b o = size := by
  have h3 : ofLE (toLE 3 size) = size := Bytes.ofLE_toLE_of_lt (by omega)
  unfold insnSize
  rw [h, h3]
  exact int24_of_lt hs

/-- The base word of an instruction gives back its type and its size. -/
theorem insnBase_read {b : Buf} {o n : Nat} {type : Byte} {size : Nat} {t : List Byte} (hs : size < 2 ^ 23)
    (h : b.read o n = insnBase type size ++ t) :
    insnType b o = type ∧ insnSize b o = size ∧ b.read (o + 4) (n - 4) = t := by
  obtain ⟨hb, ht⟩ := Buf.read_eq_append h
  have hl : (insnBase type (size : Int)).length = 4 := by simp [insnBase]
  rw [hl] at hb ht
  have hsz : ((size : Int) % 2 ^ 24).toNat = size := by omega
  have hb' : b.read o 1 ++ b.read (o + 1) 3 = [type] ++ toLE 3 size := by
    rw [← Buf.read_add, hb, insnBase, List.singleton_append, hsz]
  obtain ⟨h₁, h₃⟩ := List.append_inj hb' (by simp)
  exact ⟨by simpa [Buf.read, insnType] using h₁, insnSize_read h₃ hs, ht⟩

theorem print_fields {b : Buf} {o : Nat} {s : List Byte} (hfit : o + (Insn.print s).size ≤ insnBufferMax)
    (hs : (0 : Byte) ∉ s) (hc : b.read o (Insn.print s).code.length = (Insn.print s).code) :
    insnType b o = 1 ∧ insnSize b o = (Insn.print s).size ∧ bufString b (insnBufferMax - (o + 4)) (o + 4) = some s := by
  have hmax : insnBufferMax = 2097152 := rfl
  obtain ⟨ht, hsz, hr⟩ := insnBase_read (by omega) hc
  have hlen : (Insn.print s).code.length - 4 = s.length + 1 := by
    simp only [Insn.code, insnBase, List.length_append, List.length_cons, Bytes.length_toLE, List.length_nil]
    omega
  rw [hlen] at hr
  exact ⟨ht, hsz, bufString_read b s _ _ hs (by simp only [Insn.size] at hfit; omega) hr⟩

theorem write_fields {b : Buf} {o : Nat} {a : Addr} {bs : List Byte} (hfit : o + (Insn.write a bs).size ≤ insnBufferMax)
    (hc : b.read o (Insn.write a bs).code.length = (Insn.write a bs).code) :
    insnType b o = 2 ∧ insnSize b o = (Insn.write a bs).size ∧ insnN b o = bs.length ∧ insnAddress b o = a ∧
      insnBytes b o = bs := by
  have hmax : insnBufferMax = 2097152 := rfl
  obtain ⟨ht, hs, hr⟩ := insnBase_read (by omega) hc
  obtain ⟨hn, hr⟩ := Buf.read_eq_append hr
  obtain ⟨ha, hr⟩ := Buf.read_eq_append hr
  simp only [Bytes.length_toLE, Nat.add_assoc, Nat.reduceAdd] at hn ha hr
  have hlen : (Insn.write a bs).code.length - 4 - 4 - 8 = bs.length := by
    simp only [Insn.code, insnBase, List.length_append, List.length_cons, Bytes.length_toLE]
    omega
  rw [hlen] at hr
  simp only [Insn.size] at hfit
  have hb : insnN b o = bs.length := by
    rw [insnN, hn]
    exact Bytes.ofLE_toLE_of_lt (by omega)
  refine ⟨ht, hs, hb, ?_, by rw [insnBytes, hb, hr]⟩
  rw [insnAddress, ha]
  exact Bytes.addrOfLE_toLE a

/-- **One instruction is interpreted as it was encoded**, and the program counter moves past it. -/
theorem insnStep_encoded {σ : Type} (h : InsnHandlers σ) (hok : ∀ a bs k st, (h.write a bs k st).2 = k) {b : Buf}
    {o : Nat} {i : Insn} (st : σ) (hfit : o + i.size ≤ insnBufferMax) (hi : i.Ok)
    (hc : b.read o i.code.length = i.code) :
    insnStep h b o st = .next ((o + i.size : Nat) : Int) (i.exec h st) := by
  have hmax : insnBufferMax = 2097152 := rfl
  have hle := i.length_code_le
  have h4 := i.four_le_length_code
  have hpc : int32 ((o : Int) + i.size) = ((o + i.size : Nat) : Int) := by
    rw [int32_of_range (by omega) (by omega)]
    push_cast
    rfl
  cases i with
  | print s =>
    obtain ⟨ht, hs, hstr⟩ := print_fields hfit hi hc
    rw [@insnStep_print σ h b o st (Int.natCast_nonneg o) (by omega) ht s hstr, Int.toNat_natCast, hs, hpc]
    rfl
  | write a bs =>
    obtain ⟨ht, hs, hn, ha, hr⟩ := write_fields hfit hc
    have hn' : o + 16 + insnN b o ≤ insnBufferMax := by
      rw [hn]
      simp only [Insn.size] at hfit
      omega
    rw [@insnStep_write σ h b o st (Int.natCast_nonneg o) ht hn', Int.toNat_natCast, hok, ha, hs, hr, hpc]
    rfl

theorem interpret_encoded {σ : Type} (h : InsnHandlers σ) (hok : ∀ a bs k st, (h.write a bs k st).2 = k)
    (q : InsnQueue) : ∀ (is : List Insn) (o : Nat) (st : σ), o + insnsSize is ≤ insnBufferMax → Encoded q.buffer o is →
      insnqInterpretFrom h q is.length o st =
        insnqInterpretFrom h q 0 ((o + insnsSize is : Nat) : Int) (is.foldl (Insn.exec h) st)
  | [], o, st, _, _         => by simp
  | i :: is, o, st, hfit, ⟨hc, hi, he⟩ => by
    rw [insnsSize_cons] at hfit
    rw [List.length_cons, insnqInterpretFrom_succ, insnStep_encoded h hok st (by omega) hi hc]
    simp only
    rw [interpret_encoded h hok q is (o + i.size) _ (by omega) he, insnsSize_cons, List.foldl_cons, Nat.add_assoc]

/-- **A queue is interpreted instruction by instruction** when every WRITE succeeds, and 0 is returned. -/
theorem insnqInterpret_holds {σ : Type} (h : InsnHandlers σ) (hok : ∀ a bs k st, (h.write a bs k st).2 = k)
    {q : InsnQueue} {is : List Insn} (hq : QueueHolds q is) (st : σ) :
    insnqInterpret h q st = (is.foldl (Insn.exec h) st, some ENONE) := by
  have hn : q.numInsns.toNat = is.length := by rw [hq.num]; rfl
  have he := interpret_encoded h hok q is 0 st (by simpa using hq.fits) hq.code
  rw [Nat.zero_add, ← hq.size] at he
  rw [insnqInterpret, hn]
  apply he.trans
  simp [insnqInterpretFrom, hq.num]

end Libpulp
