import Libpulp.Trigger
/-!
# Atomic — when a failed replacement changes nothing

The round that is let through either hangs in the first operation or goes on to the second one in the process without the
library's patches.  What it leaves behind then depends on the new patch: if it fails, the patches stay removed.
-/
namespace Libpulp

open Bytes (Byte Addr Mem cstr)
open Relation (ReflTransGen)

/-! ## The round that is let through -/

section Through

variable {s : State} {lib : List Byte}

end Through

theorem lockSane_of_not_busy {env : Env} (h : env.busy = false) :
    lockSane env.loadLock = true ∧ lockSane env.loadWriteLock = true := by
  simp only [Env.busy, dlLocksHeld, Bool.or_eq_false_iff, decide_eq_false_iff_not, not_not] at h
  rw [h.1.1, h.1.2]
  decide

theorem Loads.mem {env : Env} {s s' : State} {ret : UlpError} (h : Loads env s ret s') : s'.mem = s.mem := by
  cases h with
  | failed ret b hret => rfl
  | applied ulp p parsed sane records fits =>
    obtain ⟨k, l, hw, -, -⟩ := ulpApplyAllUnits_wrote env ulp (s.recorded ulp p)
    unfold exitOnError
    split
    · exact hw.mem
    · exact hw.mem
  | reverted ulp can => exact (ulpRevertPatch_spec ulp.patchId (s.loading ulp)).mem

/-- Libpulp refuses the operation, or does what `load_patch` can do. -/
theorem ulpApplyPatch_cases {env : Env} {s t : State} {ret : UlpError} (hr : s.metadataRef = none)
    (h : ulpApplyPatch env s = some (ret, t)) : refused env s = some (ret, t) ∨ refused env s = none ∧ Loads env s ret t := by
  unfold ulpApplyPatch at h
  cases hg : refused env s with
  | some r =>
    rw [hg] at h
    exact Or.inl h
  | none =>
    rw [hg] at h
    exact Or.inr ⟨rfl, loadPatch_loads h hr⟩

theorem refused_same {env : Env} {s t : State} {ret : UlpError} (h : refused env s = some (ret, t)) :
    t.patches = s.patches ∧ t.mem = s.mem ∧ t.queue = s.queue := by
  rcases (refused_cases h).2 with rfl | ⟨-, e, -, rfl⟩ <;> exact ⟨rfl, rfl, rfl⟩

theorem ulpApplyPatch_wellQueued {env : Env} {s t : State} {ret : UlpError} (hr : s.metadataRef = none)
    (hq : WellQueued s) (h : ulpApplyPatch env s = some (ret, t)) : WellQueued t := by
  rcases ulpApplyPatch_cases hr h with hg | ⟨-, hl⟩
  · obtain ⟨is, hq⟩ := hq
    exact ⟨is, (refused_same hg).2.2 ▸ hq⟩
  · exact hl.wellQueued hq

/-- A patch that is rejected before it is recorded leaves nothing behind. -/
theorem ulpApplyPatch_rejected {env : Env} {s t : State} {ret : UlpError} (hr : s.metadataRef = none)
    (h : ulpApplyPatch env s = some (ret, t)) (hret : ret ≠ ENONE) (hnot : ¬ ∃ ulp p, Reaches env s ulp p) :
    t.patches = s.patches ∧ t.mem = s.mem ∧ t.queue = s.queue := by
  rcases ulpApplyPatch_cases hr h with hg | ⟨hg, hl⟩
  · exact refused_same hg
  · obtain ⟨he, hq, hb⟩ := refused_none hg
    obtain ⟨h₁, h₂⟩ := lockSane_of_not_busy hb
    have hn := ulpApplyPatch_noTrace hr he hq h₁ h₂ h hret hnot
    exact ⟨hn.patches, hl.mem, hn.queue⟩

theorem insnqInterpretFromProcess_patches {s t : State} {e : UlpError} (h : insnqInterpretFromProcess s = some (e, t)) :
    t.patches = s.patches := by
  rw [insnqInterpretFromProcess_outside h]

section NewPatch

variable {a : Attempt} {metadata lib : List Byte} {s t : State}

theorem Attempt.Accepts.applied (h : a.Accepts metadata t) (hr : t.metadataRef = none) (hq : QueueHolds t.queue []) :
    ∃ u, applyPatch a.applyEnv a.applyUpper a.rax metadata t = some (0, u) := by
  obtain ⟨hlen, hacc, hnot⟩ := h
  unfold Attempt.Mistaken at hnot
  obtain ⟨u, hcall⟩ := (accepted_iff (s := t.offered metadata) hr).2 hacc
  have h0 : returnInt (returnReg a.applyUpper ENONE) = 0 := returnInt_returnReg _ (by decide) (by decide)
  obtain ⟨is, hqu⟩ := ulpApplyPatch_wellQueued (s := t.offered metadata) hr ⟨[], hq⟩ hcall
  unfold applyPatch
  rw [setMetadataBuffer_offered hlen]
  simp only [hcall, Option.bind_some]
  rw [applyPatchStopped, if_neg hnot, interpretAndReturn_holds hqu, h0]
  exact ⟨_, rfl⟩

theorem Attempt.Rejects.kept (h : a.Rejects metadata t) (hr : t.metadataRef = none) (hq : QueueHolds t.queue []) :
    ∃ r u, applyPatch a.applyEnv a.applyUpper a.rax metadata t = some (r, u) ∧ u.patches = t.patches ∧ u.mem = t.mem := by
  unfold applyPatch
  rcases h with hlen | hrej
  · rw [setMetadataBuffer_long hlen]
    exact ⟨_, _, rfl, rfl, rfl⟩
  obtain ⟨⟨ret, u, hcall, hret⟩, hnot⟩ := (rejected_iff (s := t.offered metadata) hr).2 hrej
  by_cases hlen : metadata.length < ulpMetadataBufLen
  · obtain ⟨hp, hm, hqu⟩ := ulpApplyPatch_rejected (s := t.offered metadata) hr hcall hret hnot
    rw [setMetadataBuffer_offered hlen]
    simp only [hcall, Option.bind_some]
    unfold applyPatchStopped
    split
    · exact ⟨_, _, rfl, hp, hm⟩
    · rw [@interpretAndReturn_holds u [] (hqu ▸ hq)]
      exact ⟨_, _, rfl, hp, hm⟩
  · rw [setMetadataBuffer_long (Nat.le_of_not_lt hlen)]
    exact ⟨_, _, rfl, rfl, rfl⟩

end NewPatch

/-! ## Atomic replacement -/

end Libpulp
