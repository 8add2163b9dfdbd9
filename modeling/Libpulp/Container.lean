import Libpulp.Outcome
/-!
# Container — the handles of the containers (lib/ulp.c)

The container of a patch is opened while its metadata is parsed.  `State` does not say which containers are open: here
`__ulp_apply_patch` is written down once more with the list of the `dlopen` handles libpulp holds, a handle once for each
time it was opened, and forgetting the list gives back `ulpApplyPatch`.
-/
namespace Libpulp

open Bytes (Byte Addr cstr)

/-- `unload_handlers`; the `dlclose` of an open container succeeds. -/
def unloadHandlers (ulp : UlpMetadata) (handles : List Addr) : List Addr :=
  if ulp.soHandler ≠ 0 then handles.erase ulp.soHandler else handles

/-- `load_so_handlers`: whether the container was opened, and the metadata with its handle. -/
def loadSoHandlers (env : Env) (ulp : UlpMetadata) (handles : List Addr) : Bool × UlpMetadata × List Addr :=
  let ulp := { ulp with soHandler := env.dlopen (cstr ulp.soFilename) }
  if ulp.soHandler = 0 then (false, ulp, unloadHandlers ulp handles) else (true, ulp, ulp.soHandler :: handles)

/-- `parse_metadata` with the handles. -/
def parseMetadataHeld (env : Env) (s : State) (handles : List Addr) :
    Option (Except UlpError UlpMetadata × List Addr) :=
  match parseMetadataFromMem env.calloc s.metadataBuffer env.stackC with
  | .error .overflow => none
  | .error (.err e)  => some (.error e, handles)
  | .ok ulp          =>
    if ulp.type = 2 then some (.ok ulp, handles)
    else
      let (ret, ulp) := checkPatchSanity env s ulp
      if ret ≠ ENONE then some (.error ret, handles)
      else
        let (opened, ulp, handles) := loadSoHandlers env ulp handles
        if opened then some (.ok ulp, handles) else some (.error EDLOPEN, handles)

/-- `load_metadata` with the handles; `free_metadata`, by which it drops metadata that cannot be used, closes nothing. -/
def loadMetadataHeld (env : Env) (s : State) (handles : List Addr) :
    Option (Except UlpError UlpMetadata × State × List Addr) :=
  match s.metadataRef with
  | some ulp => some (.ok ulp, s, handles)
  | none     =>
    if !env.calloc .metadata then some (.error ENOMEM, s, handles)
    else
      (parseMetadataHeld env s handles).map (fun (r, handles) =>
        (r, { s.clearMetadataBuffer with metadataRef := r.toOption }, handles))

/-- `load_patch` with the handles; `unload_metadata` at its end closes nothing either. -/
def loadPatchHeld (env : Env) (s : State) (handles : List Addr) : Option (UlpError × State × List Addr) :=
  (loadMetadataHeld env s handles).map (fun
    | (.error e, s, handles) => (e, s, handles)
    | (.ok ulp, s, handles)  =>
      let (ret, s) := patchLoaded env ulp s
      (ret, { s with metadataRef := none }, handles))

/-- `__ulp_apply_patch` with the handles. -/
def ulpApplyPatchHeld (env : Env) (s : State) (handles : List Addr) : Option (UlpError × State × List Addr) :=
  match refused env s with
  | some (ret, s) => some (ret, s, handles)
  | none          => loadPatchHeld env s handles

/-! ## What is opened -/

/-- The handles after the metadata was parsed. -/
def opened (handles : List Addr) : Except UlpError UlpMetadata → List Addr
  | .error _ => handles
  | .ok ulp  => if ulp.type = 2 then handles else ulp.soHandler :: handles

theorem checkPatchSanity_type (env : Env) (s : State) (ulp : UlpMetadata) :
    (checkPatchSanity env s ulp).2.type = ulp.type := by
  unfold checkPatchSanity checkPatchDependencies
  simp only
  repeat' split
  all_goals rfl

theorem loadSoHandlers_opened {env : Env} {ulp : UlpMetadata} (handles : List Addr)
    (h : env.dlopen (cstr ulp.soFilename) ≠ 0) :
    loadSoHandlers env ulp handles = (true, { ulp with soHandler := env.dlopen (cstr ulp.soFilename) },
      env.dlopen (cstr ulp.soFilename) :: handles) := if_neg h

theorem loadSoHandlers_fails {env : Env} {ulp : UlpMetadata} (handles : List Addr)
    (h : env.dlopen (cstr ulp.soFilename) = 0) :
    loadSoHandlers env ulp handles = (false, { ulp with soHandler := env.dlopen (cstr ulp.soFilename) }, handles) := by
  unfold loadSoHandlers unloadHandlers
  rw [if_pos h, if_neg (not_not.2 h)]

theorem parseMetadataHeld_eq (env : Env) (s : State) (handles : List Addr) :
    parseMetadataHeld env s handles = (parseMetadata env s).map (fun r => (r, opened handles r)) := by
  unfold parseMetadataHeld parseMetadata
  rcases parseMetadataFromMem env.calloc s.metadataBuffer env.stackC with (e | _) | ulp
  · rfl
  · rfl
  · by_cases ht : ulp.type = 2
    · simp only [if_pos ht, Option.map_some, opened]
    · have htype := checkPatchSanity_type env s ulp
      simp only [if_neg ht]
      generalize checkPatchSanity env s ulp = r at htype
      obtain ⟨ret, ulp'⟩ := r
      have ht' : ulp'.type ≠ 2 := by
        rw [htype]
        exact ht
      by_cases hret : ret = ENONE
      · by_cases h0 : env.dlopen (cstr ulp'.soFilename) = 0
        · simp only [hret, ne_eq, not_true_eq_false, if_false, loadSoHandlers_fails handles h0, if_pos h0, Option.map_some,
            opened, Bool.false_eq_true]
        · simp only [hret, ne_eq, not_true_eq_false, if_false, if_true, loadSoHandlers_opened handles h0, if_neg h0,
            Option.map_some, opened, if_neg ht']
      · simp only [ne_eq, hret, not_false_eq_true, if_true, Option.map_some, opened]

/-- **Forgetting the handles gives the call.** -/
theorem ulpApplyPatchHeld_forget (env : Env) (s : State) (handles : List Addr) :
    (ulpApplyPatchHeld env s handles).map (fun r => (r.1, r.2.1)) = ulpApplyPatch env s := by
  unfold ulpApplyPatchHeld ulpApplyPatch
  cases refused env s with
  | some r => rfl
  | none =>
    unfold loadPatchHeld loadPatch loadMetadataHeld loadMetadata
    cases s.metadataRef with
    | some ulp => rfl
    | none =>
      by_cases hc : env.calloc .metadata = true
      · rw [hc, parseMetadataHeld_eq]
        cases parseMetadata env s with
        | none => rfl
        | some r => cases r <;> rfl
      · rw [Bool.eq_false_iff.2 hc]
        rfl

/-! ## A call that fails -/

/-- libpulp gets as far as opening the container, under a handle that is new to it, and then the patch cannot be recorded
or applied. -/
def LeavesContainer (env : Env) (s : State) (handles : List Addr) : Prop :=
  s.metadataRef = none ∧ Admits env s ∧ ∃ ulp, parseMetadata env s = some (.ok ulp) ∧ ulp.type ≠ 2 ∧
    ulp.soHandler ∉ handles ∧
    ¬ (ulp.type = 1 ∧ Recordable env ulp ∧ UnitsFit env ulp s.mem (s.roots.map (·.patchedAddr)) 0 ulp.objs.units ∧
      ReferencesFit env ulp)

theorem Admits.held {env : Env} {s : State} (h : Admits env s) (hr : s.metadataRef = none) (handles : List Addr) :
    ulpApplyPatchHeld env s handles = (parseMetadata env s).map (fun
      | .error e => (e, { s.clearMetadataBuffer with metadataRef := none }, handles)
      | .ok ulp  => ((patchLoaded env ulp (s.loading ulp)).1,
          { (patchLoaded env ulp (s.loading ulp)).2 with metadataRef := none }, opened handles (.ok ulp))) := by
  unfold ulpApplyPatchHeld
  rw [refused_eq_none h.errorState h.queue h.free]
  unfold loadPatchHeld loadMetadataHeld
  rw [hr]
  simp only [h.calloc, parseMetadataHeld_eq]
  cases parseMetadata env s with
  | none => rfl
  | some r => cases r <;> rfl

theorem not_admits_held {env : Env} {s t : State} {handles handles' : List Addr} {ret : UlpError}
    (h : ¬ (s.metadataRef = none ∧ Admits env s)) (hcall : ulpApplyPatchHeld env s handles = some (ret, t, handles')) :
    handles' = handles := by
  unfold ulpApplyPatchHeld at hcall
  cases hg : refused env s with
  | some r =>
    rw [hg] at hcall
    cases hcall
    rfl
  | none =>
    obtain ⟨h₁, h₂, h₃⟩ := refused_none hg
    rw [hg] at hcall
    unfold loadPatchHeld loadMetadataHeld at hcall
    cases hr : s.metadataRef with
    | some ulp =>
      rw [hr] at hcall
      cases hcall
      rfl
    | none =>
      have hc : env.calloc .metadata = false := Bool.eq_false_iff.2 (fun hc => h ⟨hr, h₁, h₂, h₃, hc⟩)
      rw [hr, hc] at hcall
      cases hcall
      rfl

/-- The same containers are open. -/
def SameHandles (handles handles' : List Addr) : Prop := ∀ h, h ∈ handles' ↔ h ∈ handles

theorem sameHandles_cons {handles : List Addr} {h : Addr} : SameHandles handles (h :: handles) ↔ h ∈ handles := by
  constructor
  · intro hs
    exact (hs h).1 List.mem_cons_self
  · intro hmem h'
    rw [List.mem_cons]
    exact ⟨fun hor => hor.elim (fun he => by rw [he]; exact hmem) id, Or.inr⟩

/-- **What a call that opened the container leaves when it fails.** -/
theorem leavesContainer_held {env : Env} {s : State} {handles : List Addr} (h : LeavesContainer env s handles) :
    ∃ ret t handles', ulpApplyPatchHeld env s handles = some (ret, t, handles') ∧ ret ≠ ENONE ∧
      ¬ SameHandles handles handles' := by
  obtain ⟨hr, ha, ulp, hp, ht, hnew, hfail⟩ := h
  refine ⟨(patchLoaded env ulp (s.loading ulp)).1,
    { (patchLoaded env ulp (s.loading ulp)).2 with metadataRef := none }, ulp.soHandler :: handles, ?_, ?_, ?_⟩
  · rw [ha.held hr, hp, Option.map_some]
    simp only [opened, if_neg ht]
  · intro h0
    rcases patchLoaded_eq_zero.1 h0 with hok | hrev
    · exact hfail hok
    · exact ht hrev.1
  · intro hs
    exact hnew (sameHandles_cons.1 hs)

/-- **A failed apply leaves no container behind, unless the container was opened, as a new one, before the failure.** -/
theorem failed_apply_sameHandles_iff (env : Env) (s : State) (handles : List Addr) :
    (∀ ret t handles', ulpApplyPatchHeld env s handles = some (ret, t, handles') → ret ≠ ENONE →
      SameHandles handles handles') ↔ ¬ LeavesContainer env s handles := by
  constructor
  · intro hall hl
    obtain ⟨ret, t, handles', hcall, hne, hs⟩ := leavesContainer_held hl
    exact hs (hall ret t handles' hcall hne)
  · intro hl ret t handles' hcall hne
    by_cases ha : s.metadataRef = none ∧ Admits env s
    · rw [ha.2.held ha.1] at hcall
      obtain ⟨r, hp, heq⟩ := Option.map_eq_some_iff.1 hcall
      cases r with
      | error e =>
        cases heq
        exact fun h => Iff.rfl
      | ok ulp =>
        cases heq
        by_cases ht : ulp.type = 2
        · rw [opened, if_pos ht]
          exact fun h => Iff.rfl
        · rw [opened, if_neg ht, sameHandles_cons]
          by_contra hnew
          refine hl ⟨ha.1, ha.2, ulp, hp, ht, hnew, fun hok => hne ?_⟩
          exact patchLoaded_eq_zero.2 (Or.inl hok)
    · rw [not_admits_held ha hcall]
      exact fun h => Iff.rfl

/-- The process when it is handed a patch whose container has no function `x`. -/
def demoForeign : State :=
  { demoStart with metadataBuffer := bufferOf (createPatchMetadataFile (demoPatch 1 [108] [unitTo 120] [] [])) }

/-- The container of a patch with a missing function stays open. -/
theorem missing_function_leaves_container :
    ¬ ∀ (env : Env) (s : State) (handles : List Addr) (ret : UlpError) (t : State) (handles' : List Addr),
      ulpApplyPatchHeld env s handles = some (ret, t, handles') → ret ≠ ENONE → SameHandles handles handles' := by
  intro hall
  have hready : Ready demoForeign := ⟨rfl, rfl, rfl, demo_buildId⟩
  have hload := demo_loads hready (by decide) rfl (fun d hd => by cases hd) (fun p hp => by cases hp)
  have hleaves : LeavesContainer demoEnv demoForeign [] := by
    refine ⟨rfl, ⟨rfl, rfl, rfl, rfl⟩, _, hload, by decide, List.not_mem_nil, fun hok => ?_⟩
    exact (hok.2.1.units 0 (unitTo 120).parsed rfl).2.2 rfl
  obtain ⟨ret, t, handles', hcall, hne, hs⟩ := leavesContainer_held hleaves
  exact hs (hall demoEnv demoForeign [] ret t handles' hcall hne)

end Libpulp
