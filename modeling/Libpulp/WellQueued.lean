import Libpulp.Writes
/-!
# WellQueued — the queue stays well formed

Whatever an operation of libpulp does, also when it fails or when the queue is full, the queue it leaves holds whole
instructions.
-/
namespace Libpulp

open Bytes (Byte Addr)

/-- The queue holds instructions that were inserted into it. -/
def WellQueued (s : State) : Prop := ∃ is, QueueHolds s.queue is

theorem memwrite_wellQueued {s : State} (h : WellQueued s) (dest : Addr) (src : List Byte) (hlen : src.length < 2 ^ 30) :
    WellQueued (memwrite dest src s) := by
  obtain ⟨is, h⟩ := h
  obtain ⟨hfit, hfull⟩ := insnqInsertWrite_spec h dest src hlen
  unfold memwrite
  by_cases hle : insnsSize is + (Insn.write dest src).size ≤ insnBufferMax
  · obtain ⟨q, hq, hh⟩ := hfit hle
    rw [hq]
    exact ⟨_, hh⟩
  · rw [hfull (Nat.lt_of_not_le hle)]
    exact ⟨is, h⟩

theorem ulpPatchAddr_wellQueued {s : State} (h : WellQueued s) (oldFaddr newFaddr : Addr) (enable : Bool) :
    WellQueued (ulpPatchAddr oldFaddr newFaddr enable s).2 := by
  unfold ulpPatchAddr
  split
  · exact h
  · split
    · apply memwrite_wellQueued h _ _
      rw [length_patchedPrologue]
      split <;> decide
    · exact memwrite_wellQueued h _ _ (by decide)

theorem updatePrologue_wellQueued {s : State} (h : WellQueued s) (addr : Addr) (o : Option Detour) :
    WellQueued (updatePrologue addr o s) := by
  cases o with
  | none => exact ulpPatchAddr_wellQueued h _ _ _
  | some d => exact ulpPatchAddr_wellQueued h _ _ _

theorem revertDetours_wellQueued (id : PatchId) (addr : Addr) : ∀ (rest seen : List Detour) {s : State},
    WellQueued s → WellQueued (revertDetours id addr seen rest s).2
  | [], _, _, h           => h
  | d :: rest, seen, s, h => by
    rw [revertDetours]
    split
    · exact revertDetours_wellQueued id addr rest _ (updatePrologue_wellQueued h _ _)
    · exact revertDetours_wellQueued id addr rest _ h

theorem revertRoots_wellQueued (id : PatchId) : ∀ (rs : List DetourRoot) {s : State}, WellQueued s →
    WellQueued (revertRoots id rs s).2
  | [], _, h      => h
  | r :: rs, _, h => revertRoots_wellQueued id rs (revertDetours_wellQueued id r.patchedAddr r.detours [] h)

theorem ulpRevertPatch_wellQueued (id : PatchId) {s : State} (h : WellQueued s) :
    WellQueued (ulpRevertPatch id s).2 :=
  revertRoots_wellQueued id s.roots (s := { s with globalUniverse := s.globalUniverse + 1 }) h

theorem applyUnit_wellQueued (env : Env) (ulp : UlpMetadata) (j : Nat) (unit : UlpUnit) {s : State} (h : WellQueued s) :
    WellQueued (applyUnit env ulp j unit s).2 := by
  unfold applyUnit
  simp only
  split
  · exact h
  split
  · exact h
  cases hr : getOrPushRoot env j (unitAddrs env ulp unit).1 s with
  | none => exact h
  | some t =>
    obtain ⟨roots, counter, rfl⟩ := getOrPushRoot_same hr
    simp only
    split
    · exact h
    · refine ulpPatchAddr_wellQueued ?_ _ _ _
      exact h

theorem applyReferences_wellQueued (env : Env) (ulp : UlpMetadata) {s : State} (h : WellQueued s) :
    WellQueued (applyReferences env ulp s).2 := by
  unfold applyReferences
  simp only
  split
  · exact h
  · split
    · exact h
    · split
      · exact h
      · refine untilError_inv (fun i ref t ht => ?_) _ _ h
        unfold applyReference
        simp only
        split
        · exact ht
        · exact memwrite_wellQueued ht _ _ (Nat.lt_of_le_of_lt (length_referenceBytes_le _ _ _) (by decide))

theorem ulpApplyAllUnits_wellQueued (env : Env) (ulp : UlpMetadata) {s : State} (h : WellQueued s) :
    WellQueued (ulpApplyAllUnits env ulp s).2 := by
  have hu := untilError_inv (P := WellQueued) (fun j u t ht => applyUnit_wellQueued env ulp j u ht) ulp.objs.units 0
    (s := { s with globalUniverse := s.globalUniverse + 1 }) h
  unfold ulpApplyAllUnits
  simp only
  split
  · exact hu
  · exact applyReferences_wellQueued env ulp hu

theorem Loads.wellQueued {env : Env} {s s' : State} {ret : UlpError} (h : Loads env s ret s') (hq : WellQueued s) :
    WellQueued s' := by
  cases h with
  | failed ret b hret => exact hq
  | applied ulp p parsed sane records fits =>
    have hu := ulpApplyAllUnits_wellQueued env ulp (s := s.recorded ulp p) hq
    unfold exitOnError
    split
    · exact hu
    · exact hu
  | reverted ulp can => exact ulpRevertPatch_wellQueued ulp.patchId (s := s.loading ulp) hq

/-- Once the tool is through with the queue, it is empty. -/
theorem interpreted_empty {q : InsnQueue} {is : List Insn} (h : QueueHolds q is) :
    QueueHolds { q with size := 0, numInsns := 0 } [] :=
  ⟨h.version, rfl, rfl, Nat.zero_le _, trivial⟩

end Libpulp
