import Libpulp.Accept
import Libpulp.Power
/-!
# Livepatchable — which functions libpulp takes, on both architectures

`ulp_patch_addr` decides on the bytes at the entry whether a function is livepatchable, and `check_preamble` of the `ulp`
tool (tools/arch/x86_64/post-arch.c, tools/arch/powerpc64le/post-arch.c) decides the same on bytes it reads from the
process.  The decisions are compared here, and so is what a refused function leaves in the instruction queue.
-/
namespace Libpulp

open Bytes (Byte Addr Mem)

inductive Arch where
  | x86_64
  | powerpc64le
deriving DecidableEq

/-- `ulp_patch_addr` of each architecture. -/
def Arch.ulpPatchAddr (trampolineRoutine oldFaddr newFaddr : Addr) (enable : Bool) (s : State) :
    Arch → UlpError × State
  | x86_64      => Libpulp.ulpPatchAddr oldFaddr newFaddr enable s
  | powerpc64le => Power.ulpPatchAddr trampolineRoutine oldFaddr newFaddr enable s

/-- `check_preamble` of each architecture; `readMemory` answers `none` where the bytes cannot be read. -/
def Arch.checkPreamble (readMemory : Addr → Nat → Option (List Byte)) (symAddress : Addr) : Arch → Bool
  | x86_64 =>
    match readMemory symAddress 2 with
    | some [b₀, b₁] => (b₀ == 0x90 || b₀ == 0x66) && b₁ == 0x90
    | _             => false
  | powerpc64le =>
    match readMemory symAddress 12 with
    | some bytes => bytes.take 4 == Power.gNop || (bytes.drop 8).take 4 == Power.gNop
    | none       => false

/-! ## A refused function and the queue -/

/-- Two writes of the longest prologue fit into the queue. -/
def InsnQueue.HasRoom (q : InsnQueue) : Prop := 0 ≤ q.size ∧ q.size + 96 ≤ insnBufferMax

theorem ulpPatchAddr_refused {f a : Addr} {enable : Bool} {s : State} (h : (ulpPatchAddr f a enable s).1 ≠ ENONE) :
    (ulpPatchAddr f a enable s).2 = s := by
  unfold ulpPatchAddr at h ⊢
  by_cases hl : livepatchable s.mem f = true
  · by_cases he : enable = true <;> simp [hl, he] at h
  · simp [hl]

theorem memwrite_grows {s : State} (hroom : s.queue.HasRoom) (dest : Addr) {src : List Byte} (hlen : src.length ≤ 52) :
    (memwrite dest src s).queue.size = s.queue.size + (Insn.write dest src).size := by
  have hmax : insnBufferMax = 2097152 := rfl
  obtain ⟨h0, hle⟩ := hroom
  have hsize : (Insn.write dest src).size ≤ 72 ∧ 0 < (Insn.write dest src).size := by
    rw [Insn.size]
    omega
  have hsum : ((Insn.write dest src).size + sizeT s.queue.size) % 2 ^ 64 =
      (Insn.write dest src).size + s.queue.size.toNat := by
    rw [sizeT]
    omega
  rw [memwrite, insnqInsertWrite_eq _ _ _ (by omega), insnqGetWritableArea, if_neg (by omega), hsum, if_neg (by omega)]
  exact int32_of_range (by omega) (by omega)

/-- **Patching a function is all or nothing for the queue, except on powerpc64le for a function without a NOP or a branch
of libpulp: its prologue is queued before it is refused.** -/
theorem refused_leaves_queue_iff (arch : Arch) (trampolineRoutine oldFaddr newFaddr : Addr) (enable : Bool) (s : State)
    (hroom : s.queue.HasRoom) :
    ((arch.ulpPatchAddr trampolineRoutine oldFaddr newFaddr enable s).1 ≠ ENONE →
      (arch.ulpPatchAddr trampolineRoutine oldFaddr newFaddr enable s).2.queue = s.queue) ↔
    (arch = .x86_64 ∨ enable = false ∨ Power.NopAt s.mem oldFaddr ∨ Power.BranchAt s.mem oldFaddr) := by
  cases arch with
  | x86_64 =>
    refine ⟨fun _ => Or.inl rfl, fun _ h => ?_⟩
    rw [Arch.ulpPatchAddr, ulpPatchAddr_refused h]
  | powerpc64le =>
    have hnone := Power.getBranchOffset_eq_none s.mem oldFaddr
    simp only [Arch.ulpPatchAddr, Power.ulpPatchAddr_refuses, reduceCtorEq, false_or]
    by_cases hoff : Power.getBranchOffset s.mem oldFaddr = none
    · rw [Power.ulpPatchAddr_refused hoff]
      obtain ⟨hn, hb⟩ := hnone.1 hoff
      by_cases he : enable = true
      · have hgrows := memwrite_grows hroom (oldFaddr - BitVec.ofNat 64 (Power.insnSize * Power.preNopsLen))
          (Nat.le_of_eq (Power.length_prolog trampolineRoutine newFaddr))
        simp only [he, hoff, hn, hb, if_true, true_implies, Bool.true_eq_false, or_self, iff_false]
        intro h
        rw [Power.ulpPatchPrologueLayout] at h
        rw [h, Insn.size] at hgrows
        omega
      · simp [he]
    · have hsome : Power.NopAt s.mem oldFaddr ∨ Power.BranchAt s.mem oldFaddr := by
        by_contra hne
        exact hoff (hnone.2 (not_or.1 hne))
      exact ⟨fun _ => Or.inr hsome, fun _ h => absurd h hoff⟩

theorem demoStart_hasRoom : demoStart.queue.HasRoom := ⟨Int.le_refl 0, by decide⟩

theorem refused_leaves_queue_at_disabled :
    (Arch.powerpc64le.ulpPatchAddr 0x4000 0x6100 0x7000 false demoStart).1 ≠ ENONE ∧
      (Arch.powerpc64le.ulpPatchAddr 0x4000 0x6100 0x7000 false demoStart).2.queue = demoStart.queue := by
  have h : (Arch.powerpc64le.ulpPatchAddr 0x4000 0x6100 0x7000 false demoStart).1 ≠ ENONE := by decide
  exact ⟨h, (refused_leaves_queue_iff .powerpc64le 0x4000 0x6100 0x7000 false demoStart demoStart_hasRoom).2
    (Or.inr (Or.inl rfl)) h⟩

/-- A function that starts with zeros is refused, and the fifty-two bytes before it are queued. -/
theorem power_refused_queues_prologue :
    ¬ ∀ (arch : Arch) (trampolineRoutine oldFaddr newFaddr : Addr) (enable : Bool) (s : State), s.queue.HasRoom →
      (arch.ulpPatchAddr trampolineRoutine oldFaddr newFaddr enable s).1 ≠ ENONE →
      (arch.ulpPatchAddr trampolineRoutine oldFaddr newFaddr enable s).2.queue = s.queue := by
  intro h
  have hq := h .powerpc64le 0x4000 0x6100 0x7000 true demoStart demoStart_hasRoom (by decide +kernel)
  have hsize : (Arch.powerpc64le.ulpPatchAddr 0x4000 0x6100 0x7000 true demoStart).2.queue.size = 72 := by
    decide +kernel
  rw [hq] at hsize
  exact absurd hsize (by decide)

/-! ## The functions that are taken on x86_64 -/

/-- The bytes libpulp itself writes at the entry. -/
def ownJump (mem : Mem) (f : Addr) : Bool :=
  mem.read (f + entryBias (hasEndbr64 mem f)) 2 ==
    if hasEndbr64 mem f then ulpPrologueEndbr64.drop 18 else ulpPrologue.drop 14

/-- The entry is a short jump, to anywhere. -/
def shortJump (mem : Mem) (f : Addr) : Bool := mem (f + entryBias (hasEndbr64 mem f)) == 0xeb

theorem read_two (mem : Mem) (b : Addr) : mem.read b 2 = [mem b, mem (b + 1)] := by simp [Bytes.Mem.read]

theorem jump_back_iff (f k r : Addr) : f + k + 2 + r = f - 14 ↔ r = -(k + 16) := by
  constructor
  · intro h
    grind
  · intro h
    rw [h]
    grind

theorem rel8_injective : Function.Injective rel8 := by
  intro x y h
  unfold rel8 at h
  have hx : (BitVec.signExtend 64 x.toBitVec).toInt = x.toBitVec.toInt := BitVec.toInt_signExtend_of_le (by decide)
  have hy : (BitVec.signExtend 64 y.toBitVec).toInt = y.toBitVec.toInt := BitVec.toInt_signExtend_of_le (by decide)
  rw [h, hy] at hx
  exact UInt8.toBitVec_inj.1 (BitVec.eq_of_toInt_eq hx.symm)

/-- The short jump at the entry leads to the fourteen bytes before the function. -/
def JumpsToPadding (mem : Mem) (f : Addr) : Prop :=
  f + entryBias (hasEndbr64 mem f) + 2 + rel8 (mem (f + entryBias (hasEndbr64 mem f) + 1)) = f - 14

/-- **libpulp's own jump is the one to the padding before the function.** -/
theorem ownJump_iff (mem : Mem) (f : Addr) :
    ownJump mem f = true ↔ shortJump mem f = true ∧ JumpsToPadding mem f := by
  unfold ownJump shortJump JumpsToPadding
  rw [jump_back_iff, beq_iff_eq, beq_iff_eq, read_two]
  by_cases he : hasEndbr64 mem f = true
  · have hr : rel8 0xec = -(entryBias true + 16) := by decide
    have hb : ulpPrologueEndbr64.drop 18 = [0xeb, 0xec] := by decide
    rw [he, ← hr, rel8_injective.eq_iff, if_pos rfl, hb]
    simp
  · have hr : rel8 0xf0 = -(entryBias false + 16) := by decide
    rw [Bool.not_eq_true] at he
    have hb : ulpPrologue.drop 14 = [0xeb, 0xf0] := by decide
    rw [he, ← hr, rel8_injective.eq_iff, if_neg Bool.false_ne_true, hb]
    simp

theorem ulpPatchAddr_eq_zero (f a : Addr) (enable : Bool) (s : State) :
    (ulpPatchAddr f a enable s).1 = ENONE ↔ shortJump s.mem f = true ∨ nopEntry s.mem f = true := by
  have hne : ENOPATCHABLE ≠ ENONE := by decide
  have hl : livepatchable s.mem f = (shortJump s.mem f || nopEntry s.mem f) := rfl
  rw [← Bool.or_eq_true, ← hl]
  unfold ulpPatchAddr
  by_cases h : livepatchable s.mem f = true
  · by_cases he : enable = true <;> simp [h, he]
  · simp [h, hne]

theorem not_nopEntry_of_shortJump {mem : Mem} {f : Addr} (h : shortJump mem f = true) : nopEntry mem f = false := by
  rw [shortJump, beq_iff_eq] at h
  simp [nopEntry, h]

/-- **Only functions prepared for live patching are taken, except those whose entry is a short jump to somewhere else.** -/
theorem taken_prepared_iff (oldFaddr newFaddr : Addr) (enable : Bool) (s : State) :
    ((ulpPatchAddr oldFaddr newFaddr enable s).1 = ENONE →
      nopEntry s.mem oldFaddr = true ∨ ownJump s.mem oldFaddr = true) ↔
    (shortJump s.mem oldFaddr = true → JumpsToPadding s.mem oldFaddr) := by
  rw [ulpPatchAddr_eq_zero, ownJump_iff]
  constructor
  · intro h hj
    rcases h (Or.inl hj) with hn | ho
    · rw [not_nopEntry_of_shortJump hj] at hn
      cases hn
    · exact ho.2
  · rintro h (hj | hn)
    · exact Or.inr ⟨hj, h hj⟩
    · exact Or.inl hn

/-- A function that starts with `jmp .+2` is taken. -/
theorem foreign_jump_taken :
    ¬ ∀ (oldFaddr newFaddr : Addr) (enable : Bool) (s : State),
      (ulpPatchAddr oldFaddr newFaddr enable s).1 = ENONE →
      nopEntry s.mem oldFaddr = true ∨ ownJump s.mem oldFaddr = true := by
  intro h
  have hj := h 0x6100 0x7000 true { demoStart with mem := demoMem.write 0x6100 [0xeb, 0x00] } (by decide +kernel)
  exact absurd hj (by decide +kernel)

/-! ## The tool's answer and the library's -/

/-- What `check_preamble` finds out about readable bytes. -/
def Arch.Preamble (mem : Mem) (f : Addr) : Arch → Prop
  | x86_64      => (mem f = 0x90 ∨ mem f = 0x66) ∧ mem (f + 1) = 0x90
  | powerpc64le => Power.NopAt mem f

theorem checkPreamble_eq_true {readMemory : Addr → Nat → Option (List Byte)} {mem : Mem} {f : Addr}
    (hread : ∀ n ≤ 12, readMemory f n = some (mem.read f n)) (arch : Arch) :
    arch.checkPreamble readMemory f = true ↔ arch.Preamble mem f := by
  cases arch with
  | x86_64 =>
    rw [Arch.checkPreamble, hread 2 (by decide), read_two, Arch.Preamble]
    simp
  | powerpc64le =>
    have h₁ : mem.read f 12 = mem.read f 4 ++ mem.read (f + 4) 8 := Bytes.Mem.read_add mem 8 4 f
    have h₂ : mem.read (f + 4) 8 = mem.read (f + 4) 4 ++ mem.read (f + 4 + 4) 4 := Bytes.Mem.read_add mem 4 4 (f + 4)
    have h₃ : f + 4 + 4 = f + 8 := by grind
    have htake : (mem.read f 12).take 4 = mem.read f 4 := by rw [h₁, List.take_left' (Bytes.Mem.length_read mem 4 f)]
    have hdrop : ((mem.read f 12).drop 8).take 4 = mem.read (f + 8) 4 := by
      rw [h₁, h₂, h₃, ← List.append_assoc, List.drop_left' (by simp), List.take_of_length_le (by simp)]
    rw [Arch.checkPreamble, hread 12 (by decide), Arch.Preamble, Power.NopAt]
    simp only [htake, hdrop, Bool.or_eq_true, beq_iff_eq]

/-- The bytes at the entry on which the tool and the library decide alike. -/
def Arch.DecidedAlike (mem : Mem) (f : Addr) : Arch → Prop
  | x86_64      => shortJump mem f = false ∧ (hasEndbr64 mem f = true → nopEntry mem f = false)
  | powerpc64le => Power.BranchAt mem f → Power.NopAt mem f

theorem endbr64_byte {mem : Mem} {f : Addr} (h : hasEndbr64 mem f = true) : mem f = 0xf3 := by
  rw [hasEndbr64, beq_iff_eq] at h
  exact (List.cons.inj h).1

theorem entryBias_false (f : Addr) : f + entryBias false = f := BitVec.add_zero f

theorem preamble_iff_taken_x86 (mem : Mem) (f : Addr) :
    (Arch.x86_64.Preamble mem f ↔ shortJump mem f = true ∨ nopEntry mem f = true) ↔ Arch.x86_64.DecidedAlike mem f := by
  unfold Arch.DecidedAlike Arch.Preamble
  by_cases he : hasEndbr64 mem f = true
  · -- the tool looks at the endbr64 itself
    have hno : ¬ ((mem f = 0x90 ∨ mem f = 0x66) ∧ mem (f + 1) = 0x90) := by
      rintro ⟨h, -⟩
      rw [endbr64_byte he] at h
      exact absurd h (by decide)
    rw [iff_false_left hno, not_or, Bool.not_eq_true, Bool.not_eq_true]
    simp [he]
  · have hnop : nopEntry mem f = true ↔ (mem f = 0x90 ∨ mem f = 0x66) ∧ mem (f + 1) = 0x90 := by
      rw [Bool.not_eq_true] at he
      rw [nopEntry, he, entryBias_false]
      simp [and_comm]
    rw [← hnop]
    by_cases hj : shortJump mem f = true
    · simp [hj, not_nopEntry_of_shortJump hj]
    · simp [hj, he]

theorem preamble_iff_taken_power (t f a : Addr) (enable : Bool) (s : State) :
    (Arch.powerpc64le.Preamble s.mem f ↔ (Power.ulpPatchAddr t f a enable s).1 = ENONE) ↔
      Arch.powerpc64le.DecidedAlike s.mem f := by
  have htaken : (Power.ulpPatchAddr t f a enable s).1 = ENONE ↔ Power.NopAt s.mem f ∨ Power.BranchAt s.mem f := by
    rw [← not_iff_not, ← ne_eq, Power.ulpPatchAddr_refuses, Power.getBranchOffset_eq_none, not_or]
  rw [htaken, Arch.Preamble, Arch.DecidedAlike, iff_self_or]

/-- **The tool and the library agree on a readable function, except on x86_64 when it starts with a short jump or has its
NOPs behind an `endbr64`, and on powerpc64le when it has only a branch of libpulp's.** -/
theorem checkPreamble_agrees_iff (arch : Arch) (readMemory : Addr → Nat → Option (List Byte))
    (trampolineRoutine oldFaddr newFaddr : Addr) (enable : Bool) (s : State)
    (hread : ∀ n ≤ 12, readMemory oldFaddr n = some (s.mem.read oldFaddr n)) :
    (arch.checkPreamble readMemory oldFaddr = true ↔
      (arch.ulpPatchAddr trampolineRoutine oldFaddr newFaddr enable s).1 = ENONE) ↔
    arch.DecidedAlike s.mem oldFaddr := by
  rw [checkPreamble_eq_true hread]
  cases arch with
  | x86_64 =>
    rw [Arch.ulpPatchAddr, ulpPatchAddr_eq_zero]
    exact preamble_iff_taken_x86 s.mem oldFaddr
  | powerpc64le => exact preamble_iff_taken_power trampolineRoutine oldFaddr newFaddr enable s

theorem checkPreamble_agrees_at_nops :
    Arch.x86_64.checkPreamble (fun a n => some (demoMem.read a n)) 0x6000 = true ↔
      (Arch.x86_64.ulpPatchAddr 0x4000 0x6000 0x7000 true demoStart).1 = ENONE :=
  (checkPreamble_agrees_iff .x86_64 (fun a n => some (demoMem.read a n)) 0x4000 0x6000 0x7000 true demoStart
    (fun _ _ => rfl)).2 ⟨by decide, by decide⟩

/-- The demo process with a function whose NOPs stand behind an `endbr64`. -/
def demoEndbr64 : State := { demoStart with mem := demoMem.write 0x6100 (insnEndbr64 ++ insnNop2) }

/-- The tool does not see them. -/
theorem endbr64_preamble_missed :
    ¬ ∀ (arch : Arch) (readMemory : Addr → Nat → Option (List Byte)) (trampolineRoutine oldFaddr newFaddr : Addr)
      (enable : Bool) (s : State), s.Start → (∀ n ≤ 12, readMemory oldFaddr n = some (s.mem.read oldFaddr n)) →
      (arch.checkPreamble readMemory oldFaddr = true ↔
        (arch.ulpPatchAddr trampolineRoutine oldFaddr newFaddr enable s).1 = ENONE) := by
  intro h
  have hstart : demoEndbr64.Start := ⟨rfl, rfl, rfl, rfl, List.length_replicate, rfl, rfl, queueHolds_empty _⟩
  have ha := h .x86_64 (fun a n => some (demoEndbr64.mem.read a n)) 0x4000 0x6100 0x7000 true demoEndbr64 hstart
    (fun _ _ => rfl)
  exact absurd (ha.2 (by decide +kernel)) (by decide +kernel)

end Libpulp
