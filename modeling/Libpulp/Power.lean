import Libpulp.Patch
/-!
# Power — the function prologue on powerpc64le (lib/arch/powerpc64le/patch.c, ulp_prologue.S)

A livepatchable function has thirteen NOPs before its entry and one more at it, or eight bytes further on when the
function has a global entry point.  Patching fills the thirteen with a copy of `ulp_prologue`, whose last eight bytes hold
the address of the new function, and turns the other NOP into a branch back to them.  Unlike on x86_64 the prologue is
written before anything is known about the entry.
-/
namespace Libpulp
namespace Power

open Bytes (Byte Addr Mem toLE)

def insnSize : Nat := 4
def preNopsLen : Nat := 13

def gNop : List Byte := [0x00, 0x00, 0x00, 0x60]

/-- `generate_branch_to_prologue`. -/
def generateBranchToPrologue (offset : BitVec 32) : BitVec 32 := (offset &&& 0x00FFFFFF#32) ||| (0x4B#32 <<< 24)

/-- `WITH_OFFSET`. -/
def withOffset (offset : Nat) : BitVec 32 := -BitVec.ofNat 32 (insnSize * preNopsLen + offset)

/-- The four bytes of the branch that is written at `offset`. -/
def branch (offset : Nat) : List Byte := toLE 4 (generateBranchToPrologue (withOffset offset)).toNat

/-- The sixteen bits of an address that start at bit `k`. -/
def half (a : Addr) (k : Nat) : Nat := a.toNat / 2 ^ k % 2 ^ 16

/-- `ulp_prologue`: eleven instructions, four of them with a part of the address of `trampoline_routine`, and the slot
`ulp_prologue_new_function_addr`. -/
def ulpPrologue (trampolineRoutine : Addr) : List Byte :=
  toLE 4 0xf8a1fff8 ++ toLE 4 0xf8c1fff0 ++
  toLE 4 (0x3ca00000 + half trampolineRoutine 48) ++ toLE 4 (0x60a50000 + half trampolineRoutine 32) ++
  toLE 4 (0x3d800000 + half trampolineRoutine 16) ++ toLE 4 (0x618c0000 + half trampolineRoutine 0) ++
  toLE 4 0x78ac000e ++ toLE 4 0x7d8903a6 ++ toLE 4 0x7ca802a6 ++ toLE 4 0x48000005 ++ toLE 4 0x4e800420 ++
  toLE 8 0

/-- `ulp_prologue_new_function_offset`. -/
def ulpPrologueNewFunctionOffset : Nat := 44

/-- The prologue with the new address in its slot. -/
def prolog (trampolineRoutine newFentry : Addr) : List Byte :=
  (ulpPrologue trampolineRoutine).take ulpPrologueNewFunctionOffset ++ toLE 8 newFentry.toNat

/-- `ulp_patch_prologue_layout`. -/
def ulpPatchPrologueLayout (trampolineRoutine oldFentry newFentry : Addr) (s : State) : State :=
  memwrite (oldFentry - BitVec.ofNat 64 (insnSize * preNopsLen)) (prolog trampolineRoutine newFentry) s

def validOffsets : List Nat := [0, 8]

/-- `get_branch_offset`: the first offset with a NOP or with the branch to the prologue, `none` for `-INT_MAX`. -/
def getBranchOffset (mem : Mem) (fentry : Addr) : Option Nat :=
  validOffsets.find? (fun offset =>
    mem.read (fentry + BitVec.ofNat 64 offset) 4 == gNop || mem.read (fentry + BitVec.ofNat 64 offset) 4 == branch offset)

/-- `ulp_skip_prologue`. -/
def ulpSkipPrologue (fentry : Addr) (s : State) : UlpError × State :=
  match getBranchOffset s.mem fentry with
  | none        => (ENOPATCHABLE, s)
  | some offset => (ENONE, memwrite (fentry + BitVec.ofNat 64 offset) gNop s)

/-- `ulp_patch_addr_trampoline`. -/
def ulpPatchAddrTrampoline (oldFentry : Addr) (s : State) : UlpError × State :=
  match getBranchOffset s.mem oldFentry with
  | none        => (ENOPATCHABLE, s)
  | some offset => (ENONE, memwrite (oldFentry + BitVec.ofNat 64 offset) (branch offset) s)

def ulpPatchAddr (trampolineRoutine oldFaddr newFaddr : Addr) (enable : Bool) (s : State) : UlpError × State :=
  if enable then ulpPatchAddrTrampoline oldFaddr (ulpPatchPrologueLayout trampolineRoutine oldFaddr newFaddr s)
  else ulpSkipPrologue oldFaddr s

/-! ## What it takes -/

/-- A NOP stands at one of the two places. -/
def NopAt (mem : Mem) (f : Addr) : Prop := mem.read f 4 = gNop ∨ mem.read (f + 8) 4 = gNop

/-- A branch to the prologue of `f` stands at one of the two places. -/
def BranchAt (mem : Mem) (f : Addr) : Prop := mem.read f 4 = branch 0 ∨ mem.read (f + 8) 4 = branch 8

theorem length_prolog (t a : Addr) : (prolog t a).length = insnSize * preNopsLen := by
  simp [prolog, ulpPrologue, ulpPrologueNewFunctionOffset, insnSize, preNopsLen]

theorem getBranchOffset_eq_none (mem : Mem) (f : Addr) :
    getBranchOffset mem f = none ↔ ¬ NopAt mem f ∧ ¬ BranchAt mem f := by
  unfold getBranchOffset NopAt BranchAt
  rw [List.find?_eq_none]
  have h0 : f + BitVec.ofNat 64 0 = f := BitVec.add_zero f
  have h8 : f + BitVec.ofNat 64 8 = f + 8 := rfl
  simp only [validOffsets, List.mem_cons, List.not_mem_nil, or_false, forall_eq_or_imp, forall_eq, h0, h8,
    Bool.or_eq_true, beq_iff_eq]
  tauto

theorem layout_mem (t f a : Addr) (s : State) : (ulpPatchPrologueLayout t f a s).mem = s.mem := (memwrite_same _ _ s).mem

/-- **A function is refused if and only if neither place has a NOP or the branch to the prologue**, whatever `enable`
says. -/
theorem ulpPatchAddr_refuses (t f a : Addr) (enable : Bool) (s : State) :
    (ulpPatchAddr t f a enable s).1 ≠ ENONE ↔ getBranchOffset s.mem f = none := by
  have hne : ENOPATCHABLE ≠ ENONE := by decide
  unfold ulpPatchAddr
  by_cases he : enable = true
  · rw [if_pos he, ulpPatchAddrTrampoline, layout_mem]
    cases getBranchOffset s.mem f <;> simp [hne]
  · rw [if_neg he, ulpSkipPrologue]
    cases getBranchOffset s.mem f <;> simp [hne]

/-- What a refused function leaves: with `enable` the prologue has been queued already. -/
theorem ulpPatchAddr_refused {t f a : Addr} {enable : Bool} {s : State} (h : getBranchOffset s.mem f = none) :
    (ulpPatchAddr t f a enable s).2 = if enable then ulpPatchPrologueLayout t f a s else s := by
  unfold ulpPatchAddr
  by_cases he : enable = true
  · rw [if_pos he, if_pos he, ulpPatchAddrTrampoline, layout_mem, h]
  · rw [if_neg he, if_neg he, ulpSkipPrologue, h]

end Power
end Libpulp
