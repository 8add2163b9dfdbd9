import Libpulp.Rfc1320
import Mathlib.Logic.Function.Basic
import Mathlib.Order.Bounds.Defs
/-!
# Md4 — the message digest of the packer (tools/md4.c)

`MD4` pads its input in a buffer of its own and runs the three rounds in place, on registers whose roles change from one
step to the next.  Seen from the roles it is the algorithm of RFC 1320, whatever the length of the input (`md4_conforms`).
Every access to a buffer is checked here: `none` is an access outside of it.
-/
namespace Libpulp
namespace Md4

open Bytes (Byte toLE ofLE)
open Rfc1320 (Word)

def BYTE_LENGTH : Nat := 8
def BLOCK_LENGTH : Nat := 512 / BYTE_LENGTH
def BLOCK_PADDING : Nat := 448 / BYTE_LENGTH
def SIZE_FIELD : Nat := BLOCK_LENGTH - BLOCK_PADDING

/-! ## The padded buffer -/

/-- `*(buffer + i) = value`. -/
def poke (buffer : List Byte) (i : Nat) (value : Byte) : Option (List Byte) :=
  if i < buffer.length then some (buffer.set i value) else none

/-- `memcpy(buffer, input, length)`. -/
def memcpy (buffer input : List Byte) : Option (List Byte) :=
  if input.length ≤ buffer.length then some (input ++ buffer.drop input.length) else none

/-- The number of zero bytes; `total` is the size with the byte `0x80`. -/
def zeros (total : Nat) : Nat :=
  let zeros := total % BLOCK_LENGTH
  if zeros ≤ BLOCK_PADDING then BLOCK_PADDING - zeros else BLOCK_LENGTH - (zeros - BLOCK_PADDING)

/-- The size of the buffer, in 64 bits. -/
def total (length : Nat) : Nat :=
  let total := (length + 1) % 2 ^ 64
  ((total + zeros total) % 2 ^ 64 + SIZE_FIELD) % 2 ^ 64

/-- The buffer from `malloc` to the size field. -/
def padded (input : List Byte) : Option (List Byte) :=
  let length := input.length
  let buffer := List.replicate (total length) 0
  (memcpy buffer input).bind (fun buffer =>
    (poke buffer length 0x80).bind (fun buffer =>
      (List.range SIZE_FIELD).foldlM (fun buffer i =>
        poke buffer (length + 1 + zeros ((length + 1) % 2 ^ 64) + i)
          (UInt8.ofNat ((length * BYTE_LENGTH % 2 ^ 64) >>> (BYTE_LENGTH * i)))) buffer))

/-! ## The rounds -/

/-- One of the words `X`; a `char` is sign-extended before its low byte is taken. -/
def readWord (buffer : List Byte) (bufptr : Nat) : Option Word :=
  (List.range 4).foldlM (fun x k =>
    (buffer[bufptr + (3 - k)]?).map (fun c => x <<< BYTE_LENGTH ||| (0x00ff#32 &&& c.toBitVec.signExtend 32))) 0

inductive Reg where
  | A
  | B
  | C
  | D
deriving DecidableEq

abbrev Regs := Reg → Word

/-- The arguments of `R1`, `R2` and `R3`. -/
structure Step where
  w : Reg
  x : Reg
  y : Reg
  z : Reg
  i : Nat
  s : Nat
deriving DecidableEq

/-- `{ A = (A + F(B, C, D) + X[i] + constant); A = (A << s) | (A >> (32 - s)); }` -/
def Step.exec (fn : Word → Word → Word → Word) (constant : Word) (X : List Word) (r : Regs) (p : Step) : Regs :=
  let a := r p.w + fn (r p.x) (r p.y) (r p.z) + X.getD p.i 0 + constant
  Function.update r p.w (a <<< p.s ||| a >>> (32 - p.s))

def F (x y z : Word) : Word := (x &&& y) ||| (~~~x &&& z)
def G (x y z : Word) : Word := (x &&& y) ||| (x &&& z) ||| (y &&& z)
def H (x y z : Word) : Word := x ^^^ y ^^^ z

open Reg

def R1 : List Step :=
  [⟨A, B, C, D, 0, 3⟩, ⟨D, A, B, C, 1, 7⟩, ⟨C, D, A, B, 2, 11⟩, ⟨B, C, D, A, 3, 19⟩,
   ⟨A, B, C, D, 4, 3⟩, ⟨D, A, B, C, 5, 7⟩, ⟨C, D, A, B, 6, 11⟩, ⟨B, C, D, A, 7, 19⟩,
   ⟨A, B, C, D, 8, 3⟩, ⟨D, A, B, C, 9, 7⟩, ⟨C, D, A, B, 10, 11⟩, ⟨B, C, D, A, 11, 19⟩,
   ⟨A, B, C, D, 12, 3⟩, ⟨D, A, B, C, 13, 7⟩, ⟨C, D, A, B, 14, 11⟩, ⟨B, C, D, A, 15, 19⟩]

def R2 : List Step :=
  [⟨A, B, C, D, 0, 3⟩, ⟨D, A, B, C, 4, 5⟩, ⟨C, D, A, B, 8, 9⟩, ⟨B, C, D, A, 12, 13⟩,
   ⟨A, B, C, D, 1, 3⟩, ⟨D, A, B, C, 5, 5⟩, ⟨C, D, A, B, 9, 9⟩, ⟨B, C, D, A, 13, 13⟩,
   ⟨A, B, C, D, 2, 3⟩, ⟨D, A, B, C, 6, 5⟩, ⟨C, D, A, B, 10, 9⟩, ⟨B, C, D, A, 14, 13⟩,
   ⟨A, B, C, D, 3, 3⟩, ⟨D, A, B, C, 7, 5⟩, ⟨C, D, A, B, 11, 9⟩, ⟨B, C, D, A, 15, 13⟩]

def R3 : List Step :=
  [⟨A, B, C, D, 0, 3⟩, ⟨D, A, B, C, 8, 9⟩, ⟨C, D, A, B, 4, 11⟩, ⟨B, C, D, A, 12, 15⟩,
   ⟨A, B, C, D, 2, 3⟩, ⟨D, A, B, C, 10, 9⟩, ⟨C, D, A, B, 6, 11⟩, ⟨B, C, D, A, 14, 15⟩,
   ⟨A, B, C, D, 1, 3⟩, ⟨D, A, B, C, 9, 9⟩, ⟨C, D, A, B, 5, 11⟩, ⟨B, C, D, A, 13, 15⟩,
   ⟨A, B, C, D, 3, 3⟩, ⟨D, A, B, C, 11, 9⟩, ⟨C, D, A, B, 7, 11⟩, ⟨B, C, D, A, 15, 15⟩]

/-- One block: the words, the rounds and the final additions. -/
def processBlock (buffer : List Byte) (r : Regs) (i : Nat) : Option Regs :=
  ((List.range 16).mapM (fun j => readWord buffer (BLOCK_LENGTH * i + 4 * j))).map (fun X =>
    let r' := R1.foldl (Step.exec F 0 X) r
    let r' := R2.foldl (Step.exec G 0x5A827999 X) r'
    let r' := R3.foldl (Step.exec H 0x6ED9EBA1 X) r'
    fun k => r' k + r k)

def initial : Regs
  | A => 0x67452301
  | B => 0xefcdab89
  | C => 0x98badcfe
  | D => 0x10325476

/-- `APPEND`, with `resptr` in front and the result behind. -/
def append (item : Word) (s : Nat × List Byte) : Option (Nat × List Byte) :=
  (List.range 4).foldlM (fun (resptr, result) i =>
    (poke result resptr (UInt8.ofNat ((item >>> (BYTE_LENGTH * i)) &&& 0x0ff#32).toNat)).map (fun result =>
      (resptr + 1, result))) s

def MD4_LENGTH : Nat := 16

/-- `MD4` with what the two calls of `malloc` return: `some none` is `NULL`. -/
def md4 (bufferAllocated : Bool) (resultAllocated : Option (Vector Byte MD4_LENGTH)) (input : List Byte) :
    Option (Option (List Byte)) :=
  if !bufferAllocated then some none
  else
    (padded input).bind (fun buffer =>
      ((List.range (total input.length / BLOCK_LENGTH)).foldlM (processBlock buffer) initial).bind (fun r =>
        match resultAllocated with
        | none        => some none
        | some result =>
          (append (r A) (0, result.toList)).bind (fun s =>
            (append (r B) s).bind (fun s => (append (r C) s).bind (fun s => (append (r D) s).map (fun s => some s.2))))))

/-! ## Seen from the roles -/

/-- Which register plays `A`, `B`, `C` and `D` in step `n` of a round. -/
def roles : Nat → Reg × Reg × Reg × Reg
  | 0     => (A, B, C, D)
  | n + 1 => ((roles n).2.2.2, (roles n).1, (roles n).2.1, (roles n).2.2.1)

/-- Step `n` as the tables of the round have it. -/
def stepAt (rd : Rfc1320.Round) (n : Nat) : Step :=
  ⟨(roles n).1, (roles n).2.1, (roles n).2.2.1, (roles n).2.2.2, rd.index n, rd.shift n⟩

/-- The registers in their roles before step `n`. -/
def view (n : Nat) (r : Regs) : Rfc1320.Digest := ⟨r (roles n).1, r (roles n).2.1, r (roles n).2.2.1, r (roles n).2.2.2⟩

/-- **The unrolled rounds are the tables.** -/
theorem rounds_eq : R1 = (List.range 16).map (stepAt Rfc1320.round1) ∧ R2 = (List.range 16).map (stepAt Rfc1320.round2) ∧
    R3 = (List.range 16).map (stepAt Rfc1320.round3) := by
  decide

theorem roles_nodup : ∀ n, [(roles n).1, (roles n).2.1, (roles n).2.2.1, (roles n).2.2.2].Nodup
  | 0     => by decide
  | n + 1 => by
    have h := roles_nodup n
    simp only [List.nodup_cons, List.mem_cons, List.not_mem_nil, or_false, not_or, not_false_eq_true, List.nodup_nil,
      and_true, roles] at h ⊢
    obtain ⟨⟨hwx, hwy, hwz⟩, ⟨hxy, hxz⟩, hyz⟩ := h
    exact ⟨⟨Ne.symm hwz, Ne.symm hxz, Ne.symm hyz⟩, ⟨hwx, hwy⟩, hxy⟩

theorem rotate_eq (x : Word) {s : Nat} (hs : s < 32) : x <<< s ||| x >>> (32 - s) = x.rotateLeft s := by
  rw [BitVec.rotateLeft_def, Nat.mod_eq_of_lt hs]

/-- **One step is one operation.** -/
theorem view_exec (rd : Rfc1320.Round) (X : List Word) (r : Regs) (n : Nat) (hs : rd.shift n < 32) :
    view (n + 1) (Step.exec rd.fn rd.constant X r (stepAt rd n)) = rd.op X (view n r) n := by
  have h := roles_nodup n
  simp only [List.nodup_cons, List.mem_cons, List.not_mem_nil, or_false, not_or] at h
  obtain ⟨⟨hwx, hwy, hwz⟩, -, -⟩ := h
  unfold view Step.exec Rfc1320.Round.op stepAt
  simp only [roles]
  rw [Function.update_self, Function.update_of_ne (Ne.symm hwx), Function.update_of_ne (Ne.symm hwy),
    Function.update_of_ne (Ne.symm hwz), rotate_eq _ hs]

/-- **The first `n` steps of a round.** -/
theorem view_steps (rd : Rfc1320.Round) (hs : ∀ n, rd.shift n < 32) (X : List Word) (r : Regs) : ∀ n,
    view n (((List.range n).map (stepAt rd)).foldl (Step.exec rd.fn rd.constant X) r) =
      (List.range n).foldl (rd.op X) (view 0 r)
  | 0     => rfl
  | n + 1 => by
    rw [List.range_succ, List.map_append, List.foldl_append, List.foldl_append, ← view_steps rd hs X r n]
    exact view_exec rd X _ n (hs n)

theorem shift_lt {rd : Rfc1320.Round} (h : ∀ k < 4, rd.shifts.getD k 0 < 32) (n : Nat) : rd.shift n < 32 :=
  h (n % 4) (Nat.mod_lt n (by decide))

/-- After sixteen steps every register is back in its role. -/
theorem view_round (rd : Rfc1320.Round) (h : ∀ k < 4, rd.shifts.getD k 0 < 32) (X : List Word) (r : Regs) :
    view 0 (((List.range 16).map (stepAt rd)).foldl (Step.exec rd.fn rd.constant X) r) = rd.run X (view 0 r) :=
  view_steps rd (shift_lt h) X r 16

theorem view_add (r r' : Regs) : view 0 (fun k => r k + r' k) = (view 0 r).add (view 0 r') := rfl

/-! ## Words and blocks -/

theorem mapM_some {α β : Type} {f : α → β} {g : α → Option β} : ∀ l : List α, (∀ x ∈ l, g x = some (f x)) →
    l.mapM g = some (l.map f)
  | [], _     => rfl
  | x :: l, h => by
    rw [List.mapM_cons, h x List.mem_cons_self, mapM_some l (fun y hy => h y (List.mem_cons_of_mem _ hy))]
    rfl

/-- The low byte of a sign-extended `char` is the byte. -/
theorem low_byte (c : Byte) : 0x00ff#32 &&& c.toBitVec.signExtend 32 = BitVec.ofNat 32 c.toNat := by
  have h : ∀ x : BitVec 8, 0x00ff#32 &&& x.signExtend 32 = BitVec.ofNat 32 x.toNat := by decide +kernel
  exact h c.toBitVec

theorem toNat_shift_or (x : Word) (c : Byte) (hx : x.toNat < 2 ^ 24) :
    (x <<< BYTE_LENGTH ||| (0x00ff#32 &&& c.toBitVec.signExtend 32)).toNat = c.toNat + 256 * x.toNat := by
  have hc : c.toNat < 2 ^ 8 := UInt8.toNat_lt c
  have hmod : c.toNat % 2 ^ 32 = c.toNat := Nat.mod_eq_of_lt (by omega)
  have hshift : x.toNat <<< 8 % 2 ^ 32 = x.toNat <<< 8 := by
    rw [Nat.shiftLeft_eq]
    exact Nat.mod_eq_of_lt (by omega)
  rw [low_byte, BitVec.toNat_or, BitVec.toNat_shiftLeft, BitVec.toNat_ofNat, hmod, BYTE_LENGTH, hshift,
    ← Nat.shiftLeft_add_eq_or_of_lt hc, Nat.shiftLeft_eq]
  omega

/-- **The words are read low-order byte first.** -/
theorem readWord_eq {buffer : List Byte} {p : Nat} (h : p + 4 ≤ buffer.length) :
    readWord buffer p = some (Rfc1320.wordAt buffer p) := by
  obtain ⟨c₀, c₁, c₂, c₃, t, hdrop⟩ : ∃ c₀ c₁ c₂ c₃ t, buffer.drop p = c₀ :: c₁ :: c₂ :: c₃ :: t := by
    rw [List.drop_eq_getElem_cons (by omega), List.drop_eq_getElem_cons (by omega), List.drop_eq_getElem_cons (by omega),
      List.drop_eq_getElem_cons (by omega)]
    exact ⟨_, _, _, _, _, rfl⟩
  have hget : ∀ k, buffer[p + k]? = (c₀ :: c₁ :: c₂ :: c₃ :: t)[k]? := by
    intro k
    rw [← hdrop, List.getElem?_drop]
  have hrange : List.range 4 = [0, 1, 2, 3] := rfl
  unfold readWord Rfc1320.wordAt
  rw [hdrop, hrange]
  simp only [List.foldlM_cons, List.foldlM_nil, hget, Nat.sub_zero, Nat.reduceSub, List.getElem?_cons_succ,
    List.getElem?_cons_zero, Option.map_some, Option.bind_eq_bind, Option.bind_some, Option.pure_def, Option.some.injEq,
    List.take_succ_cons, List.take_zero, ofLE]
  have h₀ := UInt8.toNat_lt c₀
  have h₁ := UInt8.toNat_lt c₁
  have h₂ := UInt8.toNat_lt c₂
  have h₃ := UInt8.toNat_lt c₃
  have hx₃ := toNat_shift_or 0#32 c₃ (by decide)
  have hx₂ := toNat_shift_or _ c₂ (by rw [hx₃, BitVec.toNat_ofNat]; omega)
  have hx₁ := toNat_shift_or _ c₁ (by rw [hx₂, hx₃, BitVec.toNat_ofNat]; omega)
  have hx₀ := toNat_shift_or _ c₀ (by rw [hx₁, hx₂, hx₃, BitVec.toNat_ofNat]; omega)
  apply BitVec.eq_of_toNat_eq
  rw [BitVec.toNat_ofNat]
  refine Eq.trans hx₀ ?_
  rw [hx₁, hx₂, hx₃, BitVec.toNat_ofNat]
  omega

/-- **One block.** -/
theorem processBlock_eq {buffer : List Byte} {i : Nat} (h : 64 * i + 64 ≤ buffer.length) (r : Regs) :
    ∃ r', processBlock buffer r i = some r' ∧ view 0 r' = Rfc1320.compress (view 0 r) (Rfc1320.block buffer i) := by
  have hwords : (List.range 16).mapM (fun j => readWord buffer (BLOCK_LENGTH * i + 4 * j)) =
      some (Rfc1320.block buffer i) := by
    apply mapM_some
    intro j hj
    rw [List.mem_range] at hj
    exact readWord_eq (show 64 * i + 4 * j + 4 ≤ buffer.length by omega)
  obtain ⟨h₁, h₂, h₃⟩ := rounds_eq
  refine ⟨_, by rw [processBlock, hwords, Option.map_some], ?_⟩
  rw [h₁, h₂, h₃, view_add, Rfc1320.compress, ← view_round Rfc1320.round1 (by decide),
    ← view_round Rfc1320.round2 (by decide), ← view_round Rfc1320.round3 (by decide)]
  rfl

/-- **All blocks.** -/
theorem processBlocks_eq (buffer : List Byte) : ∀ n, 64 * n ≤ buffer.length →
    ∃ r, (List.range n).foldlM (processBlock buffer) initial = some r ∧ view 0 r = Rfc1320.state buffer n
  | 0, _     => ⟨initial, rfl, rfl⟩
  | n + 1, h => by
    obtain ⟨r, hrun, hview⟩ := processBlocks_eq buffer n (by omega)
    have hroom : 64 * n + 64 ≤ buffer.length := by omega
    obtain ⟨r', hblock, hview'⟩ := processBlock_eq hroom r
    refine ⟨r', ?_, ?_⟩
    · rw [List.range_succ, List.foldlM_append, hrun]
      simp only [List.foldlM_cons, List.foldlM_nil, Option.bind_eq_bind, Option.bind_some, hblock, Option.pure_def]
    · rw [hview', hview, Rfc1320.state, Rfc1320.state, List.range_succ, List.foldl_append, List.foldl_cons,
        List.foldl_nil]

/-! ## The buffers -/

theorem poke_middle (l r : List Byte) (x v : Byte) : poke (l ++ x :: r) l.length v = some (l ++ v :: r) := by
  rw [poke, if_pos (by simp), List.set_append_right _ _ (Nat.le_refl _), Nat.sub_self, List.set_cons_zero]

/-- **A loop that fills a gap.** -/
theorem foldlM_poke (l : List Byte) (v : Nat → Byte) : ∀ (mid r : List Byte),
    (List.range mid.length).foldlM (fun b i => poke b (l.length + i) (v i)) (l ++ mid ++ r) =
      some (l ++ (List.range mid.length).map v ++ r) := by
  intro mid
  induction mid using List.reverseRecOn with
  | nil => intro r; rfl
  | append_singleton mid x ih =>
    intro r
    have hmiddle : l ++ (mid ++ [x]) ++ r = l ++ mid ++ x :: r := by simp
    rw [hmiddle, List.length_append, List.length_singleton, List.range_succ, List.foldlM_append, ih (x :: r)]
    have hpos : (l ++ (List.range mid.length).map v).length = l.length + mid.length := by simp
    have hpoke := poke_middle (l ++ (List.range mid.length).map v) r x (v mid.length)
    rw [hpos] at hpoke
    simp only [List.foldlM_cons, List.foldlM_nil, Option.bind_eq_bind, Option.bind_some, hpoke, Option.pure_def,
      List.map_append, List.map_cons, List.map_nil]
    simp

theorem toLE_eq_map (w n : Nat) : toLE w n = (List.range w).map (fun i => UInt8.ofNat (n >>> (8 * i))) := by
  induction w generalizing n with
  | zero => rfl
  | succ w ih =>
    rw [toLE, ih, List.range_succ_eq_map, List.map_cons, List.map_map]
    congr 1
    apply List.map_congr_left
    intro i _
    have h8 : n / 256 = n >>> (8 * 1) := (Nat.shiftRight_eq_div_pow n 8).symm
    rw [Function.comp_apply, Nat.succ_eq_add_one, Nat.mul_add, Nat.add_comm, Nat.shiftRight_add, h8]

/-- The size with the padding, for a length that leaves room in 64 bits. -/
theorem total_eq {length : Nat} (h : length < 2 ^ 60) : zeros ((length + 1) % 2 ^ 64) = Rfc1320.zeros length ∧
    total length = length + 1 + Rfc1320.zeros length + 8 := by
  have hmod : (length + 1) % 2 ^ 64 = length + 1 := Nat.mod_eq_of_lt (by omega)
  have hz : zeros (length + 1) = Rfc1320.zeros length := by
    unfold zeros Rfc1320.zeros BLOCK_LENGTH BLOCK_PADDING BYTE_LENGTH
    simp only
    split <;> omega
  have hlt : Rfc1320.zeros length < 64 := Nat.mod_lt _ (by decide)
  refine ⟨by rw [hmod, hz], ?_⟩
  unfold total SIZE_FIELD BLOCK_LENGTH BLOCK_PADDING BYTE_LENGTH
  simp only [hmod, hz]
  omega

/-- **The padded buffer is the padded message.** -/
theorem padded_eq {input : List Byte} (h : input.length < 2 ^ 60) : padded input = some (Rfc1320.pad input) := by
  obtain ⟨hz, ht⟩ := total_eq h
  have hbits : input.length * BYTE_LENGTH % 2 ^ 64 = 8 * input.length := by
    unfold BYTE_LENGTH
    omega
  have hcopy : memcpy (List.replicate (total input.length) 0) input =
      some (input ++ 0 :: (List.replicate (Rfc1320.zeros input.length) 0 ++ List.replicate 8 0)) := by
    rw [memcpy, if_pos (by rw [List.length_replicate, ht]; omega), List.drop_replicate, ht,
      show input.length + 1 + Rfc1320.zeros input.length + 8 - input.length =
        Rfc1320.zeros input.length + 8 + 1 by omega, List.replicate_succ, List.replicate_add]
  have hfront : input ++ 0x80 :: (List.replicate (Rfc1320.zeros input.length) 0 ++ List.replicate 8 0) =
      (input ++ 0x80 :: List.replicate (Rfc1320.zeros input.length) 0) ++ List.replicate 8 0 ++ [] := by simp
  have hlen : (input ++ (0x80 : Byte) :: List.replicate (Rfc1320.zeros input.length) 0).length =
      input.length + 1 + Rfc1320.zeros input.length := by
    simp only [List.length_append, List.length_cons, List.length_replicate]
    omega
  have hfill := foldlM_poke (input ++ 0x80 :: List.replicate (Rfc1320.zeros input.length) 0)
    (fun i => UInt8.ofNat ((8 * input.length) >>> (8 * i))) (List.replicate 8 0) []
  rw [List.length_replicate, hlen, ← toLE_eq_map] at hfill
  rw [padded, hcopy, Option.bind_some, poke_middle, Option.bind_some, hz, hbits, hfront]
  refine Eq.trans hfill ?_
  unfold Rfc1320.pad
  simp

theorem append_eq_poke (item : Word) (p : Nat) (b : List Byte) : append item (p, b) =
    ((List.range 4).foldlM (fun b i => poke b (p + i) (UInt8.ofNat (item.toNat >>> (8 * i)))) b).map
      (fun b => (p + 4, b)) := by
  have hbyte : ∀ i, UInt8.ofNat ((item >>> (BYTE_LENGTH * i)) &&& 0x0ff#32).toNat =
      UInt8.ofNat (item.toNat >>> (8 * i)) := by
    intro i
    have h255 : (0x0ff#32).toNat = 2 ^ 8 - 1 := rfl
    rw [BitVec.toNat_and, BitVec.toNat_ushiftRight, h255, Nat.and_two_pow_sub_one_eq_mod, BYTE_LENGTH, ← UInt8.toNat_inj,
      UInt8.toNat_ofNat', UInt8.toNat_ofNat', Nat.mod_mod]
  have hloop : ∀ n, (List.range n).foldlM (fun (s : Nat × List Byte) i =>
        (poke s.2 s.1 (UInt8.ofNat (item.toNat >>> (8 * i)))).map (fun result => (s.1 + 1, result))) (p, b) =
      ((List.range n).foldlM (fun b i => poke b (p + i) (UInt8.ofNat (item.toNat >>> (8 * i)))) b).map
        (fun b => (p + n, b)) := by
    intro n
    induction n with
    | zero => rfl
    | succ n ih =>
      rw [List.range_succ, List.foldlM_append, List.foldlM_append, ih]
      cases (List.range n).foldlM (fun b i => poke b (p + i) (UInt8.ofNat (item.toNat >>> (8 * i)))) b with
      | none    => rfl
      | some b' =>
        simp only [Option.map_some, Option.bind_eq_bind, Option.bind_some, List.foldlM_cons, List.foldlM_nil]
        cases poke b' (p + n) (UInt8.ofNat (item.toNat >>> (8 * n))) <;> rfl
  unfold append
  simp only [hbyte]
  exact hloop 4

/-- **Four bytes of the result**, low-order byte first. -/
theorem append_eq (item : Word) (l mid r : List Byte) (h : mid.length = 4) :
    append item (l.length, l ++ mid ++ r) =
      some ((l ++ toLE 4 item.toNat).length, l ++ toLE 4 item.toNat ++ r) := by
  have hfill := foldlM_poke l (fun i => UInt8.ofNat (item.toNat >>> (8 * i))) mid r
  rw [h, ← toLE_eq_map] at hfill
  rw [append_eq_poke, hfill, Option.map_some, List.length_append, Bytes.length_toLE]

theorem four_words (v : Vector Byte MD4_LENGTH) : ∃ w₀ w₁ w₂ w₃ : List Byte, v.toList = w₀ ++ w₁ ++ w₂ ++ w₃ ∧
    w₀.length = 4 ∧ w₁.length = 4 ∧ w₂.length = 4 ∧ w₃.length = 4 := by
  have hlen : v.toList.length = 16 := v.length_toList
  refine ⟨v.toList.take 4, (v.toList.drop 4).take 4, (v.toList.drop 8).take 4, v.toList.drop 12, ?_, ?_, ?_, ?_, ?_⟩
  · conv => lhs; rw [← List.take_append_drop 12 v.toList]
    congr 1
    rw [show 12 = 4 + 4 + 4 from rfl, List.take_add, List.take_add]
  all_goals simp [hlen]

/-- **The result is the four words.** -/
theorem appended (v : Vector Byte MD4_LENGTH) (a b c d : Word) :
    ((append a (0, v.toList)).bind (fun s => (append b s).bind (fun s => (append c s).bind (fun s =>
      (append d s).map (fun s => some s.2))))) = some (some (Rfc1320.Digest.bytes ⟨a, b, c, d⟩)) := by
  obtain ⟨w₀, w₁, w₂, w₃, hv, h₀, h₁, h₂, h₃⟩ := four_words v
  have ha := append_eq a [] w₀ (w₁ ++ w₂ ++ w₃) h₀
  have hb := append_eq b (toLE 4 a.toNat) w₁ (w₂ ++ w₃) h₁
  have hc := append_eq c (toLE 4 a.toNat ++ toLE 4 b.toNat) w₂ w₃ h₂
  have hd := append_eq d (toLE 4 a.toNat ++ toLE 4 b.toNat ++ toLE 4 c.toNat) w₃ [] h₃
  simp only [List.nil_append, List.append_assoc, List.append_nil, List.length_nil] at ha hb hc hd
  rw [hv]
  simp only [List.append_assoc]
  rw [ha, Option.bind_some, hb, Option.bind_some, hc, Option.bind_some, hd, Option.map_some]
  simp only [Rfc1320.Digest.bytes, List.append_assoc]

/-- **`MD4` returns the digest of RFC 1320.**  For every input shorter than 2^60 bytes no access is outside the buffers,
and the padded length is the smallest multiple of 64 that has room for the input, a byte and the size field. -/
theorem md4_conforms (bufferAllocated : Bool) (resultAllocated : Option (Vector Byte MD4_LENGTH)) (input : List Byte)
    (h : input.length < 2 ^ 60) :
    md4 bufferAllocated resultAllocated input =
      some (if bufferAllocated = true ∧ resultAllocated.isSome = true then some (Rfc1320.digest input) else none) ∧
    IsLeast {n | 64 ∣ n ∧ input.length + 1 + 8 ≤ n} (total input.length) := by
  obtain ⟨-, ht⟩ := total_eq h
  have hpad := Rfc1320.length_pad input
  rw [← ht] at hpad
  have hdvd := Rfc1320.dvd_length_pad input
  rw [hpad] at hdvd
  refine ⟨?_, ⟨⟨hdvd, by omega⟩, ?_⟩⟩
  · unfold md4
    cases bufferAllocated with
    | false => rfl
    | true =>
      have hblocks : total input.length / BLOCK_LENGTH = (Rfc1320.pad input).length / 64 := by rw [hpad]; rfl
      obtain ⟨r, hrun, hview⟩ := processBlocks_eq (Rfc1320.pad input) ((Rfc1320.pad input).length / 64) (by omega)
      rw [padded_eq h, if_neg (by decide), Option.bind_some, hblocks, hrun, Option.bind_some]
      cases resultAllocated with
      | none   => rfl
      | some v =>
        simp only [appended, Option.isSome_some, and_self, if_true, Option.some.injEq]
        rw [Rfc1320.digest, ← hview]
        rfl
  · rintro n ⟨hn, hroom⟩
    have hlt : Rfc1320.zeros input.length < 64 := Nat.mod_lt _ (by decide)
    rw [ht] at hdvd ⊢
    omega

theorem md4_conforms_abc :
    md4 true (some (Vector.replicate MD4_LENGTH 0)) [97, 98, 99] = some (some (Rfc1320.digest [97, 98, 99])) ∧
    IsLeast {n | 64 ∣ n ∧ 3 + 1 + 8 ≤ n} (total 3) :=
  md4_conforms true (some (Vector.replicate MD4_LENGTH 0)) [97, 98, 99] (by decide)

end Md4
end Libpulp
