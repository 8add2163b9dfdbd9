import Libpulp.ParseSpec
import Libpulp.Ulp
/-!
# Ops — what one operation of libpulp can do

One lemma for each function of `Ulp` that changes the patch list or the detour lists, stated on these lists, and one
inversion lemma for each entry point (`loadPatch_cases`, `revertAllLoop_reverts`): an operation is refused or fails
before it changes a list, records and applies a patch that passed the checks, or reverts patches that may be reverted.
-/
namespace Libpulp

open Bytes (Byte Addr Mem cstr)

/-! ## Prologues -/

theorem ulpPatchAddr_same (oldFaddr newFaddr : Addr) (enable : Bool) (s : State) :
    SameButQueue s (ulpPatchAddr oldFaddr newFaddr enable s).2 := by
  unfold ulpPatchAddr
  split
  · exact .refl s
  · split
    · exact memwrite_same _ _ s
    · exact memwrite_same _ _ s

theorem updatePrologue_same (addr : Addr) (o : Option Detour) (s : State) :
    SameButQueue s (updatePrologue addr o s) := by
  cases o with
  | none => exact ulpPatchAddr_same _ _ _ s
  | some d => exact ulpPatchAddr_same _ _ _ s

/-! ## Reverting -/

def Detour.deactivate (id : PatchId) (d : Detour) : Detour := if d.patchId = id then { d with active := false } else d

def DetourRoot.deactivate (id : PatchId) (r : DetourRoot) : DetourRoot :=
  { r with detours := r.detours.map (·.deactivate id) }

theorem revertDetours_spec (id : PatchId) (addr : Addr) : ∀ (rest seen : List Detour) (s : State),
    (revertDetours id addr seen rest s).1 = seen ++ rest.map (·.deactivate id) ∧
      SameButQueue s (revertDetours id addr seen rest s).2
  | [], seen, s        => by simp [revertDetours, SameButQueue.refl]
  | d :: rest, seen, s => by
    rw [revertDetours]
    split
    · rename_i h
      obtain ⟨h₁, h₂⟩ := revertDetours_spec id addr rest (seen ++ [{ d with active := false }])
        (updatePrologue addr ((seen ++ { d with active := false } :: rest).find? (·.active)) s)
      refine ⟨?_, (updatePrologue_same addr _ s).trans h₂⟩
      rw [h₁, List.map_cons, Detour.deactivate, if_pos h, List.append_assoc, List.singleton_append]
    · rename_i h
      obtain ⟨h₁, h₂⟩ := revertDetours_spec id addr rest (seen ++ [d]) s
      refine ⟨?_, h₂⟩
      rw [h₁, List.map_cons, Detour.deactivate, if_neg h, List.append_assoc, List.singleton_append]

theorem revertRoots_spec (id : PatchId) : ∀ (rs : List DetourRoot) (s : State),
    (revertRoots id rs s).1 = rs.map (·.deactivate id) ∧ SameButQueue s (revertRoots id rs s).2
  | [], s      => ⟨rfl, .refl s⟩
  | r :: rs, s => by
    obtain ⟨h₁, h₂⟩ := revertDetours_spec id r.patchedAddr r.detours [] s
    obtain ⟨h₃, h₄⟩ := revertRoots_spec id rs (revertDetours id r.patchedAddr [] r.detours s).2
    rw [revertRoots]
    refine ⟨?_, h₂.trans h₄⟩
    simp only [h₁, h₃, List.nil_append, List.map_cons, DetourRoot.deactivate]

/-- What `ulp_revert_patch` makes of the lists. -/
structure Reverted (id : PatchId) (s s' : State) : Prop where
  patches          : s'.patches = s.patches.eraseP (·.patchId == id)
  roots            : s'.roots = s.roots.map (·.deactivate id)
  rootIndexCounter : s'.rootIndexCounter = s.rootIndexCounter
  globalUniverse   : s'.globalUniverse = s.globalUniverse + 1
  metadataBuffer   : s'.metadataBuffer = s.metadataBuffer
  metadataRef      : s'.metadataRef = s.metadataRef
  mem              : s'.mem = s.mem
  errorState       : s'.errorState = s.errorState ∨ s'.errorState = EINSNQ

theorem ulpRevertPatch_spec (id : PatchId) (s : State) : Reverted id s (ulpRevertPatch id s).2 := by
  obtain ⟨h₁, h₂⟩ := revertRoots_spec id s.roots { s with globalUniverse := s.globalUniverse + 1 }
  have h : (ulpRevertPatch id s).2 = { (revertRoots id s.roots { s with globalUniverse := s.globalUniverse + 1 }).2 with
      roots := s.roots.map (·.deactivate id)
      patches := s.patches.eraseP (·.patchId == id) } := by
    simp only [ulpRevertPatch, ulpStateRemove, ulpRevertAllUnits, h₁, h₂.patches]
  rw [h]
  exact ⟨rfl, rfl, h₂.rootIndexCounter, h₂.globalUniverse, h₂.metadataBuffer, h₂.metadataRef, h₂.mem, h₂.errorState⟩

theorem ulpRevertPatch_ret (id : PatchId) (s : State) :
    (ulpRevertPatch id s).1 = if (ulpGetAppliedPatch s id).isSome then ENONE else ESTATE := by
  obtain ⟨h₁, h₂⟩ := revertRoots_spec id s.roots { s with globalUniverse := s.globalUniverse + 1 }
  simp only [ulpRevertPatch, ulpStateRemove, ulpRevertAllUnits, ulpGetAppliedPatch, h₂.patches]
  rfl

theorem revertDetours_none {id : PatchId} (addr : Addr) : ∀ {rest : List Detour} (seen : List Detour) (s : State),
    (∀ d ∈ rest, d.patchId ≠ id) → revertDetours id addr seen rest s = (seen ++ rest, s)
  | [], seen, s, _        => by rw [revertDetours, List.append_nil]
  | d :: rest, seen, s, h => by
    rw [revertDetours, if_neg (h d List.mem_cons_self),
      revertDetours_none addr (seen ++ [d]) s (fun e he => h e (List.mem_cons_of_mem _ he)), List.append_assoc]
    rfl

/-- The newest detour of the only function goes: its entry is set to the newest one that stays. -/
theorem ulpRevertPatch_sole {id : PatchId} {s : State} {r : DetourRoot} {d : Detour} {ds : List Detour}
    (hr : s.roots = [r]) (hds : r.detours = d :: ds) (hd : d.patchId = id) (hno : ∀ e ∈ ds, e.patchId ≠ id) :
    (ulpRevertPatch id s).2 = { updatePrologue r.patchedAddr (ds.find? (·.active))
      { s with globalUniverse := s.globalUniverse + 1 } with
        roots := [{ r with detours := { d with active := false } :: ds }]
        patches := s.patches.eraseP (·.patchId == id) } := by
  have hroots : ∀ t : State, revertRoots id s.roots t =
      ([{ r with detours := { d with active := false } :: ds }], updatePrologue r.patchedAddr (ds.find? (·.active)) t) := by
    intro t
    rw [hr, revertRoots, hds, revertDetours, if_pos hd]
    simp [revertDetours_none _ _ _ hno, revertRoots]
  have hp := (updatePrologue_same r.patchedAddr (ds.find? (·.active))
    { s with globalUniverse := s.globalUniverse + 1 }).patches
  simp only [ulpRevertPatch, ulpStateRemove, ulpRevertAllUnits, hroots, hp]

/-! ## Applying -/

/-- The root list and the index counter after a detour of patch `id` from `u.1` to `u.2` was pushed. -/
def pushUnit (id : PatchId) (universeId : BitVec 64) (rc : List DetourRoot × BitVec 32) (u : Addr × Addr) :
    List DetourRoot × BitVec 32 :=
  let d : Detour := { patchId := id, universeId, targetAddr := u.2, active := true }
  if rc.1.any (·.patchedAddr == u.1) then (pushNewDetour u.1 d rc.1, rc.2)
  else (pushNewDetour u.1 d ({ index := rc.2, patchedAddr := u.1, detours := [] } :: rc.1), rc.2 + 1)

/-- What applying the units `us` makes of the lists. -/
structure UnitsApplied (id : PatchId) (us : List (Addr × Addr)) (s s' : State) : Prop where
  patches        : s'.patches = s.patches
  roots          : (s'.roots, s'.rootIndexCounter) =
    us.foldl (pushUnit id s.globalUniverse) (s.roots, s.rootIndexCounter)
  globalUniverse : s'.globalUniverse = s.globalUniverse
  metadataBuffer : s'.metadataBuffer = s.metadataBuffer
  metadataRef    : s'.metadataRef = s.metadataRef
  mem            : s'.mem = s.mem
  errorState     : s'.errorState = s.errorState ∨ s'.errorState = EINSNQ

theorem UnitsApplied.trans {id : PatchId} {us vs : List (Addr × Addr)} {s t u : State} (h : UnitsApplied id us s t)
    (h' : UnitsApplied id vs t u) : UnitsApplied id (us ++ vs) s u := by
  refine ⟨h'.patches.trans h.patches, ?_, h'.globalUniverse.trans h.globalUniverse,
    h'.metadataBuffer.trans h.metadataBuffer, h'.metadataRef.trans h.metadataRef, h'.mem.trans h.mem,
    h'.errorState.elim (fun e => h.errorState.imp e.trans e.trans) Or.inr⟩
  rw [h'.roots, h.globalUniverse, h.roots, List.foldl_append]

theorem SameButQueue.applied {s s' : State} (h : SameButQueue s s') (id : PatchId) : UnitsApplied id [] s s' :=
  ⟨h.patches, by rw [h.roots, h.rootIndexCounter]; rfl, h.globalUniverse, h.metadataBuffer, h.metadataRef, h.mem,
    h.errorState⟩

/-- The state of a unit's function with its root made and the detour pushed, before the prologue is written. -/
def State.withDetour (s : State) (id : PatchId) (u : Addr × Addr) : State :=
  { s with roots := (pushUnit id s.globalUniverse (s.roots, s.rootIndexCounter) u).1
           rootIndexCounter := (pushUnit id s.globalUniverse (s.roots, s.rootIndexCounter) u).2 }

theorem getOrPushRoot_same {env : Env} {j : Nat} {addr : Addr} {s t : State} (h : getOrPushRoot env j addr s = some t) :
    ∃ roots counter, t = { s with roots := roots, rootIndexCounter := counter } := by
  unfold getOrPushRoot at h
  split at h
  · obtain rfl := Option.some.inj h
    exact ⟨s.roots, s.rootIndexCounter, rfl⟩
  · split at h
    · cases h
    · obtain rfl := Option.some.inj h
      exact ⟨_, _, rfl⟩

theorem getOrPushRoot_ok {env : Env} {j : Nat} (hc : env.calloc (.root j) = true) (addr : Addr) (s : State) :
    ∃ t, getOrPushRoot env j addr s = some t := by
  unfold getOrPushRoot
  rw [hc]
  split
  · exact ⟨s, rfl⟩
  · exact ⟨_, rfl⟩

/-- **Once its functions are found, a unit fails only for the preamble.** -/
theorem applyUnit_resolved {env : Env} {ulp : UlpMetadata} {unit : UlpUnit} (hc : ∀ site, env.calloc site = true)
    (j : Nat) (h₁ : (unitAddrs env ulp unit).1 ≠ 0) (h₂ : (unitAddrs env ulp unit).2 ≠ 0) (s : State) :
    (applyUnit env ulp j unit s).1 =
      if livepatchable s.mem (unitAddrs env ulp unit).1 = true then ENONE else ENOPATCHABLE := by
  unfold applyUnit
  simp only [if_neg h₁, if_neg h₂, hc]
  obtain ⟨t, ht⟩ := getOrPushRoot_ok (hc _) (unitAddrs env ulp unit).1 s
  rw [ht]
  obtain ⟨roots, counter, rfl⟩ := getOrPushRoot_same ht
  simp only [ulpPatchAddr]
  cases livepatchable s.mem (unitAddrs env ulp unit).1 <;> rfl

theorem applyUnit_eq (env : Env) (ulp : UlpMetadata) (j : Nat) (unit : UlpUnit) (s : State)
    (hret : (applyUnit env ulp j unit s).1 = ENONE) :
    (unitAddrs env ulp unit).1 ≠ 0 ∧ (unitAddrs env ulp unit).2 ≠ 0 ∧
      livepatchable s.mem (unitAddrs env ulp unit).1 = true ∧
      (applyUnit env ulp j unit s).2 = (ulpPatchAddr (unitAddrs env ulp unit).1 (unitAddrs env ulp unit).2 true
        (s.withDetour ulp.patchId (unitAddrs env ulp unit))).2 := by
  revert hret
  generalize hu : unitAddrs env ulp unit = u
  unfold applyUnit
  rw [hu]
  simp only
  split
  · exact fun h => absurd h (by decide : ENOOLDFUNC ≠ ENONE)
  rename_i h₁
  split
  · exact fun h => absurd h (by decide : ENONEWFUNC ≠ ENONE)
  rename_i h₂
  cases hr : getOrPushRoot env j u.1 s with
  | none => exact fun h => absurd h (by decide : EUNKNOWN ≠ ENONE)
  | some t =>
    simp only
    split
    · exact fun h => absurd h (by decide : EUNKNOWN ≠ ENONE)
    have ht : { t with roots := pushNewDetour u.1 ⟨ulp.patchId, t.globalUniverse, u.2, true⟩ t.roots } =
        s.withDetour ulp.patchId u := by
      unfold getOrPushRoot at hr
      unfold State.withDetour pushUnit
      split at hr
      · rename_i ha
        obtain rfl := Option.some.inj hr
        simp only [ha, if_true]
      · rename_i ha
        split at hr
        · cases hr
        · obtain rfl := Option.some.inj hr
          simp only [ha, if_false, Bool.false_eq_true]
    rw [ht]
    intro hret
    refine ⟨h₁, h₂, ?_, rfl⟩
    by_contra hl
    rw [ulpPatchAddr, if_pos (by simpa [State.withDetour] using hl)] at hret
    exact absurd hret (by decide : ENOPATCHABLE ≠ ENONE)

theorem applyUnit_applied (env : Env) (ulp : UlpMetadata) (j : Nat) (unit : UlpUnit) (s : State)
    (hret : (applyUnit env ulp j unit s).1 = ENONE) :
    UnitsApplied ulp.patchId [unitAddrs env ulp unit] s (applyUnit env ulp j unit s).2 := by
  obtain ⟨-, -, -, h⟩ := applyUnit_eq env ulp j unit s hret
  rw [h]
  have hs := ulpPatchAddr_same (unitAddrs env ulp unit).1 (unitAddrs env ulp unit).2 true
    (s.withDetour ulp.patchId (unitAddrs env ulp unit))
  exact ⟨hs.patches, by rw [hs.roots, hs.rootIndexCounter]; rfl, hs.globalUniverse, hs.metadataBuffer, hs.metadataRef,
    hs.mem, hs.errorState⟩

/-- A unit that fails leaves the patch list alone. -/
theorem applyUnit_patches (env : Env) (ulp : UlpMetadata) (j : Nat) (unit : UlpUnit) (s : State) :
    (applyUnit env ulp j unit s).2.patches = s.patches ∧
      (applyUnit env ulp j unit s).2.globalUniverse = s.globalUniverse := by
  unfold applyUnit
  simp only
  split
  · exact ⟨rfl, rfl⟩
  split
  · exact ⟨rfl, rfl⟩
  cases hr : getOrPushRoot env j (unitAddrs env ulp unit).1 s with
  | none => exact ⟨rfl, rfl⟩
  | some t =>
    obtain ⟨roots, counter, rfl⟩ := getOrPushRoot_same hr
    simp only
    split
    · exact ⟨rfl, rfl⟩
    · exact ⟨(ulpPatchAddr_same _ _ _ _).patches, (ulpPatchAddr_same _ _ _ _).globalUniverse⟩

theorem untilError_units (env : Env) (ulp : UlpMetadata) : ∀ (units : List UlpUnit) (j : Nat) (s : State),
    (untilError (applyUnit env ulp) j units s).1 = ENONE →
      UnitsApplied ulp.patchId (units.map (unitAddrs env ulp)) s (untilError (applyUnit env ulp) j units s).2
  | [], j, s, _            => (SameButQueue.refl s).applied _
  | unit :: units, j, s, h => by
    rw [untilError] at h ⊢
    split at h
    · rename_i hne; exact absurd h hne
    · rename_i hok
      rw [if_neg hok]
      exact (applyUnit_applied env ulp j unit s (not_not.1 hok)).trans (untilError_units env ulp units (j + 1) _ h)

/-- **What every item keeps the loop keeps**, wherever it stops. -/
theorem untilError_inv {α : Type} {f : Nat → α → State → UlpError × State} {P : State → Prop}
    (hf : ∀ j x s, P s → P (f j x s).2) : ∀ (xs : List α) (j : Nat) {s : State}, P s → P (untilError f j xs s).2
  | [], _, _, h      => h
  | x :: xs, j, s, h => by
    rw [untilError]
    split
    · exact hf j x s h
    · exact untilError_inv hf xs (j + 1) (hf j x s h)

theorem untilError_patches (env : Env) (ulp : UlpMetadata) (units : List UlpUnit) (j : Nat) (s : State) :
    (untilError (applyUnit env ulp) j units s).2.patches = s.patches ∧
      (untilError (applyUnit env ulp) j units s).2.globalUniverse = s.globalUniverse := by
  refine untilError_inv (P := fun t => t.patches = s.patches ∧ t.globalUniverse = s.globalUniverse) ?_ units j ⟨rfl, rfl⟩
  intro j unit t ht
  obtain ⟨h₁, h₂⟩ := applyUnit_patches env ulp j unit t
  exact ⟨h₁.trans ht.1, h₂.trans ht.2⟩

theorem applyReference_same (env : Env) (ulp : UlpMetadata) (targetBase : Addr) (tlsIdx : Int) (patchBase : Addr)
    (i : Nat) (ref : UlpReference) (s : State) :
    SameButQueue s (applyReference env ulp targetBase tlsIdx patchBase i ref s).2 := by
  unfold applyReference
  simp only
  split
  · exact .refl s
  · exact memwrite_same _ _ s

theorem untilError_same {α : Type} {f : Nat → α → State → UlpError × State}
    (h : ∀ i x s, SameButQueue s (f i x s).2) (xs : List α) (i : Nat) (s : State) :
    SameButQueue s (untilError f i xs s).2 :=
  untilError_inv (fun i x t ht => ht.trans (h i x t)) xs i (.refl s)

theorem applyReferences_same (env : Env) (ulp : UlpMetadata) (s : State) :
    SameButQueue s (applyReferences env ulp s).2 := by
  unfold applyReferences
  simp only
  split
  · exact .refl s
  · split
    · exact .refl s
    · split
      · exact .refl s
      · exact untilError_same (applyReference_same env ulp _ _ _) _ _ s

/-- **`ulp_apply_all_units` pushes one detour for each unit, in order**, when it returns 0. -/
theorem ulpApplyAllUnits_applied (env : Env) (ulp : UlpMetadata) (s : State)
    (h : (ulpApplyAllUnits env ulp s).1 = ENONE) :
    UnitsApplied ulp.patchId (ulp.objs.units.map (unitAddrs env ulp))
      { s with globalUniverse := s.globalUniverse + 1 } (ulpApplyAllUnits env ulp s).2 := by
  unfold ulpApplyAllUnits at h ⊢
  simp only at h ⊢
  split at h
  · rename_i hne; exact absurd h hne
  · rename_i hok
    rw [if_neg hok]
    have := (untilError_units env ulp _ _ _ (not_not.1 hok)).trans
      ((applyReferences_same env ulp (untilError (applyUnit env ulp) 0 ulp.objs.units
        { s with globalUniverse := s.globalUniverse + 1 }).2).applied ulp.patchId)
    rwa [List.append_nil] at this

theorem ulpApplyAllUnits_patches (env : Env) (ulp : UlpMetadata) (s : State) :
    (ulpApplyAllUnits env ulp s).2.patches = s.patches ∧
      (ulpApplyAllUnits env ulp s).2.globalUniverse = s.globalUniverse + 1 := by
  obtain ⟨h₁, h₂⟩ := untilError_patches env ulp ulp.objs.units 0 { s with globalUniverse := s.globalUniverse + 1 }
  unfold ulpApplyAllUnits
  simp only
  split
  · exact ⟨h₁, h₂⟩
  · have := applyReferences_same env ulp
      (untilError (applyUnit env ulp) 0 ulp.objs.units { s with globalUniverse := s.globalUniverse + 1 }).2
    exact ⟨this.patches.trans h₁, this.globalUniverse.trans h₂⟩

/-! ## Recording -/

/-- The patch `p` that `ulp_state_update` records for `ulp`. -/
structure Records (env : Env) (ulp : UlpMetadata) (p : AppliedPatch) : Prop where
  patchId : p.patchId = ulp.patchId
  libName : p.libName = (getBasename (cstr ulp.objs.name)).take ulpPathLen
  deps    : p.deps = ulp.deps.reverse
  units   : p.units.map (fun u => (u.patchedAddr, u.targetAddr)) = ulp.objs.units.map (unitAddrs env ulp)

theorem updateUnits_map (env : Env) (ulp : UlpMetadata) (mem : Mem) : ∀ (units : List UlpUnit) (j : Nat)
    (as : List AppliedUnit), updateUnits env ulp mem j units = some as →
      as.map (fun u => (u.patchedAddr, u.targetAddr)) = units.map (unitAddrs env ulp)
  | [], j, as, h            => by cases h; rfl
  | unit :: units, j, as, h => by
    simp only [updateUnits, Option.bind_eq_bind, Option.bind_eq_some_iff, Option.pure_def, Option.some.injEq] at h
    obtain ⟨a, ha, as', has, rfl⟩ := h
    rw [List.map_cons, List.map_cons, updateUnits_map env ulp mem units (j + 1) as' has]
    congr 1
    unfold updateUnit at ha
    simp only at ha
    split at ha
    · cases ha
    split at ha
    · cases ha
    split at ha
    · cases ha
    · cases ha; rfl

theorem ulpStateUpdate_spec {env : Env} {ulp : UlpMetadata} {s s' : State} (h : ulpStateUpdate env ulp s = some s') :
    ∃ p, Records env ulp p ∧ s' = { s with patches := p :: s.patches } := by
  simp only [ulpStateUpdate, Option.bind_eq_bind, Option.bind_eq_some_iff, Option.pure_def, Option.some.injEq] at h
  obtain ⟨-, -, -, -, units, hu, rfl⟩ := h
  exact ⟨_, ⟨rfl, rfl, rfl, updateUnits_map env ulp s.mem _ _ _ hu⟩, rfl⟩

/-! ## Checks -/

theorem ulpGetAppliedPatch_isSome {s : State} {id : PatchId} :
    (ulpGetAppliedPatch s id).isSome = true ↔ ∃ p ∈ s.patches, p.patchId = id := by
  simp [ulpGetAppliedPatch, List.find?_isSome]

/-- The metadata passed the checks made before a patch is loaded. -/
structure Sane (s : State) (ulp : UlpMetadata) : Prop where
  fresh : ∀ p ∈ s.patches, p.patchId ≠ ulp.patchId
  deps  : ∀ d ∈ ulp.deps, ∃ p ∈ s.patches, p.patchId = d.depId

theorem checkPatchSanity_sane {env : Env} {s : State} {ulp ulp' : UlpMetadata}
    (h : checkPatchSanity env s ulp = (ENONE, ulp')) (hd : ∀ d ∈ ulp.deps, d.patchIdCheck = false) :
    Sane s ulp' ∧ ulp'.objs.units = ulp.objs.units ∧ ulp'.refs = ulp.refs ∧ ulp'.type = ulp.type := by
  unfold checkPatchSanity checkPatchDependencies at h
  simp only at h
  split at h
  · exact absurd (congrArg Prod.fst h) (by decide : EBUILDID ≠ ENONE)
  split at h
  swap
  · rw [if_pos (by decide)] at h
    exact absurd (congrArg Prod.fst h) (by decide : EDEPEND ≠ ENONE)
  rename_i hall
  rw [if_neg (by decide)] at h
  split at h
  · exact absurd (congrArg Prod.fst h) (by decide : EAPPLIED ≠ ENONE)
  rename_i hfresh
  obtain rfl := congrArg Prod.snd h
  refine ⟨⟨fun p hp e => hfresh (ulpGetAppliedPatch_isSome.2 ⟨p, hp, e⟩), fun d hmem => ?_⟩, rfl, rfl, rfl⟩
  have hc := List.all_eq_true.1 hall d hmem
  obtain ⟨d₀, hd₀, rfl⟩ := List.mem_map.1 hmem
  split at hc
  · rename_i hs
    simp only [hs, if_true]
    exact ulpGetAppliedPatch_isSome.1 hs
  · rw [hd d₀ hd₀] at hc
    cases hc

theorem ulpCanRevertPatch_eq_zero {s : State} {id : PatchId} :
    ulpCanRevertPatch s id = ENONE ↔
      (∃ p ∈ s.patches, p.patchId = id) ∧ ∀ p ∈ s.patches, ∀ d ∈ p.deps, d.depId ≠ id := by
  rw [← ulpGetAppliedPatch_isSome]
  unfold ulpCanRevertPatch
  split
  · rename_i h
    refine ⟨fun e => absurd e (by decide), fun e => ?_⟩
    rw [Option.isNone_iff_eq_none] at h
    rw [h] at e
    exact absurd e.1 (by simp)
  · rename_i h
    have hs : (ulpGetAppliedPatch s id).isSome = true := by
      rw [Option.isSome_iff_ne_none]; simpa using h
    split
    · rename_i hd
      simp only [List.any_eq_true, beq_iff_eq] at hd
      obtain ⟨p, hp, d, hdm, e⟩ := hd
      exact ⟨fun e => absurd e (by decide), fun h => absurd e (h.2 p hp d hdm)⟩
    · rename_i hd
      simp only [List.any_eq_true, beq_iff_eq, not_exists, not_and] at hd
      exact ⟨fun _ => ⟨hs, hd⟩, fun _ => rfl⟩

/-! ## The entry points -/

/-- The state while the metadata `ulp` is loaded. -/
def State.loading (s : State) (ulp : UlpMetadata) : State := { s.clearMetadataBuffer with metadataRef := some ulp }

/-- The state `ulp_apply_all_units` starts from when `p` has been recorded. -/
def State.recorded (s : State) (ulp : UlpMetadata) (p : AppliedPatch) : State :=
  { s.loading ulp with patches := p :: s.patches }

/-- **What `load_patch` can do**: fail before it changes anything but the buffer, record a patch that passed the checks
and apply its units, or revert a patch that may be reverted. -/
inductive Loads (env : Env) (s : State) : UlpError → State → Prop
  | failed (ret : UlpError) (b : List Byte) (hret : ret ≠ ENONE) : Loads env s ret { s with metadataBuffer := b }
  | applied (ulp : UlpMetadata) (p : AppliedPatch) (parsed : parseMetadata env s = some (.ok ulp)) (sane : Sane s ulp)
      (records : Records env ulp p)
      (fits : 16 * ulp.objs.units.length + 25 * ulp.refs.length ≤ s.metadataBuffer.length) :
      Loads env s (ulpApplyAllUnits env ulp (s.recorded ulp p)).1
        { (exitOnError (ulpApplyAllUnits env ulp (s.recorded ulp p))).2 with metadataRef := none }
  | reverted (ulp : UlpMetadata) (can : ulpCanRevertPatch s ulp.patchId = ENONE) :
      Loads env s ENONE { (ulpRevertPatch ulp.patchId (s.loading ulp)).2 with metadataRef := none }

theorem exitOnError_fst (r : UlpError × State) : (exitOnError r).1 = r.1 := by
  unfold exitOnError
  split <;> rfl

theorem parseMetadata_ok {env : Env} {s : State} {ulp : UlpMetadata} (h : parseMetadata env s = some (.ok ulp)) :
    (ulp.type ≠ 2 → Sane s ulp) ∧ 16 * ulp.objs.units.length + 25 * ulp.refs.length ≤ s.metadataBuffer.length := by
  unfold parseMetadata at h
  split at h
  · cases h
  · cases h
  · rename_i m hm
    have hp := parseMetadataFromMem_parsed hm
    split at h
    · rename_i h2
      cases h
      exact ⟨fun hn => absurd h2 hn, hp.fits⟩
    · cases hc : checkPatchSanity env s m with
      | mk ret m' =>
        rw [hc] at h
        simp only at h
        split at h
        · cases h
        · rename_i h0
          obtain rfl : ret = ENONE := not_not.1 h0
          obtain ⟨hs, hu, hr, -⟩ := checkPatchSanity_sane hc hp.deps
          split at h
          · cases h
          · cases h
            exact ⟨fun _ => ⟨hs.fresh, hs.deps⟩, by simp only [hu, hr]; exact hp.fits⟩

/-- What `parse_metadata` may return when it fails. -/
def loadCodes : List UlpError := parseCodes ++ [EBUILDID, EDEPEND, EAPPLIED, EDLOPEN]

theorem checkPatchSanity_code (env : Env) (s : State) (ulp : UlpMetadata) :
    (checkPatchSanity env s ulp).1 = ENONE ∨ (checkPatchSanity env s ulp).1 ∈ loadCodes := by
  have hdeps : ∀ m, (checkPatchDependencies s m).1 = ENONE ∨ (checkPatchDependencies s m).1 ∈ loadCodes := by
    intro m
    unfold checkPatchDependencies
    simp only
    split
    · exact Or.inl rfl
    · exact Or.inr (by decide : EDEPEND ∈ loadCodes)
  unfold checkPatchSanity
  simp only
  split
  · exact Or.inr (by decide : EBUILDID ∈ loadCodes)
  split
  · exact hdeps _
  split
  · exact Or.inr (by decide : EAPPLIED ∈ loadCodes)
  · exact Or.inl rfl

theorem parseMetadata_code {env : Env} {s : State} {e : UlpError} (h : parseMetadata env s = some (.error e)) :
    e ∈ loadCodes := by
  unfold parseMetadata at h
  split at h
  · cases h
  · rename_i hm
    cases h
    exact List.mem_append_left _ (parseMetadataFromMem_error hm)
  · rename_i m _
    split at h
    · cases h
    · simp only at h
      split at h
      · rename_i hne
        cases h
        exact (checkPatchSanity_code env s m).resolve_left hne
      · split at h
        · cases h
          exact (by decide : EDLOPEN ∈ loadCodes)
        · cases h

theorem parseMetadata_error {env : Env} {s : State} {e : UlpError} (h : parseMetadata env s = some (.error e)) :
    e ≠ ENONE := by
  have hno : ENONE ∉ loadCodes := by decide
  exact fun he => hno (he ▸ parseMetadata_code h)

theorem patchLoaded_loads {env : Env} {s : State} {ulp : UlpMetadata} (hp : parseMetadata env s = some (.ok ulp))
    (hr : s.metadataRef = none) :
    Loads env s (patchLoaded env ulp (s.loading ulp)).1
      { (patchLoaded env ulp (s.loading ulp)).2 with metadataRef := none } := by
  obtain ⟨hs, hf⟩ := parseMetadata_ok hp
  have hid : { s.loading ulp with metadataRef := none } =
      { s with metadataBuffer := List.replicate ulpMetadataBufLen 0 } := by
    cases s
    cases hr
    rfl
  unfold patchLoaded
  split
  · rename_i h1
    cases hu : ulpStateUpdate env ulp (s.loading ulp) with
    | none =>
      simp only
      rw [hid]
      exact .failed _ _ (by decide)
    | some t =>
      obtain ⟨p, hrec, rfl⟩ := ulpStateUpdate_spec hu
      simp only
      rw [exitOnError_fst]
      exact .applied ulp p hp (hs (by rw [h1]; decide)) hrec hf
  · split
    · split
      · rename_i hne
        simp only
        rw [hid]
        exact .failed _ _ hne
      · rename_i hcan
        have hcan' : ulpCanRevertPatch s ulp.patchId = ENONE := not_not.1 hcan
        have hret : (ulpRevertPatch ulp.patchId (s.loading ulp)).1 = ENONE := by
          rw [ulpRevertPatch_ret, if_pos]
          exact ulpGetAppliedPatch_isSome.2 (ulpCanRevertPatch_eq_zero.1 hcan').1
        rw [hret]
        exact .reverted ulp hcan'
    · split
      · simp only
        rw [hid]
        exact .failed _ _ (by decide)
      · simp only
        rw [hid]
        exact .failed _ _ (by decide)

/-- **Every result of `load_patch` is one of these.** -/
theorem loadPatch_loads {env : Env} {s s' : State} {ret : UlpError} (h : loadPatch env s = some (ret, s'))
    (hr : s.metadataRef = none) : Loads env s ret s' := by
  unfold loadPatch loadMetadata at h
  rw [hr] at h
  simp only at h
  split at h
  · cases h
    exact .failed _ s.metadataBuffer (by decide)
  · cases hp : parseMetadata env s with
    | none => rw [hp] at h; cases h
    | some r =>
      rw [hp] at h
      cases r with
      | error e =>
        have he := parseMetadata_error hp
        cases h
        cases s
        cases hr
        exact .failed _ _ he
      | ok ulp =>
        cases h
        exact patchLoaded_loads hp hr

/-- `k` patches reverted one after the other, each after `ulp_can_revert_patch` allowed it. -/
inductive Reverts : Nat → State → State → Prop
  | done (s : State) : Reverts 0 s s
  | step {k : Nat} {s s' : State} (id : PatchId) (can : ulpCanRevertPatch s id = ENONE)
      (rest : Reverts k (ulpRevertPatch id s).2 s') : Reverts (k + 1) s s'

/-- **`revert_all_patches_from_lib` reverts patches that may be reverted**, if it comes back. -/
theorem revertAllLoop_reverts {lib : List Byte} : ∀ {fuel : Nat} {rest : List AppliedPatch} {ret r : UlpError}
    {s s' : State}, revertAllLoop lib fuel rest ret s = some (r, s') → ∃ k, Reverts k s s' ∧ k ≤ rest.length
  | 0, _, _, _, _, _, h             => by cases h
  | fuel + 1, [], ret, r, s, s', h  => by
    cases h
    exact ⟨0, .done _, Nat.le_refl _⟩
  | fuel + 1, p :: rest, ret, r, s, s', h => by
    rw [revertAllLoop] at h
    split at h
    · split at h
      · exact revertAllLoop_reverts h
      · rename_i hcan
        simp only at h
        split at h
        · cases h
          exact ⟨1, .step p.patchId (not_not.1 hcan) (.done _), by simp⟩
        · obtain ⟨k, hk, hle⟩ := revertAllLoop_reverts h
          exact ⟨k + 1, .step p.patchId (not_not.1 hcan) hk, by simpa using hle⟩
    · obtain ⟨k, hk, hle⟩ := revertAllLoop_reverts h
      exact ⟨k, hk, Nat.le_succ_of_le hle⟩

theorem revertAllPatchesFromLib_reverts {fuel : Nat} {env : Env} {lib : List Byte} {ret : UlpError} {s s' : State}
    (h : revertAllPatchesFromLib fuel env lib s = some (ret, s')) : ∃ k, Reverts k s s' ∧ k ≤ s.patches.length := by
  unfold revertAllPatchesFromLib at h
  simp only at h
  split at h
  · cases h
    exact ⟨0, .done _, Nat.zero_le _⟩
  · obtain ⟨⟨ret', t⟩, ht, he⟩ := Option.map_eq_some_iff.1 h
    cases he
    exact revertAllLoop_reverts ht

theorem libpulpAssert_cases (expression : Bool) (s : State) :
    libpulpAssert expression s = s ∨ libpulpAssert expression s = { s with errorState := EUNKNOWN } := by
  unfold libpulpAssert
  split
  · exact Or.inl rfl
  · exact Or.inr rfl

/-- **An operation that is refused** returns an error and leaves at most another error state. -/
theorem refused_cases {env : Env} {s t : State} {ret : UlpError} (h : refused env s = some (ret, t)) :
    ret ≠ ENONE ∧ (t = s ∨ s.errorState = ENONE ∧ ∃ e ∈ [EINSNQ, EUNKNOWN], t = { s with errorState := e }) := by
  unfold refused at h
  split at h
  · rename_i he
    cases h
    exact ⟨he, Or.inl rfl⟩
  rename_i he
  split at h
  · cases h
    exact ⟨by decide, Or.inr ⟨not_not.1 he, EINSNQ, by simp, rfl⟩⟩
  split at h
  · cases h
    refine ⟨by decide, ?_⟩
    rcases libpulpAssert_cases (lockSane env.loadLock) s with h₁ | h₁ <;> rw [h₁]
    · rcases libpulpAssert_cases (lockSane env.loadWriteLock) s with h₂ | h₂ <;> rw [h₂]
      · exact Or.inl rfl
      · exact Or.inr ⟨not_not.1 he, EUNKNOWN, by simp, rfl⟩
    · rcases libpulpAssert_cases (lockSane env.loadWriteLock) { s with errorState := EUNKNOWN } with h₂ | h₂ <;> rw [h₂]
      · exact Or.inr ⟨not_not.1 he, EUNKNOWN, by simp, rfl⟩
      · exact Or.inr ⟨not_not.1 he, EUNKNOWN, by simp, rfl⟩
  · cases h

/-! ## Steps of a run -/

/-- **One step of the process as libpulp sees it**: an operation, or something else that writes to the metadata buffer,
to the queue or to memory. -/
inductive Step : State → State → Prop
  | apply {s s' : State} (env : Env) (ret : UlpError) (h : ulpApplyPatch env s = some (ret, s')) : Step s s'
  | revertAll {s s' : State} (fuel : Nat) (env : Env) (ret : UlpError)
      (h : ulpRevertPatchesFromLib fuel env s = some (ret, s')) : Step s s'
  | enableOrDisable (s : State) : Step s (ulpEnableOrDisablePatching s)
  | outside (s : State) (buffer : List Byte) (queue : InsnQueue) (mem : Mem)
      (hlen : buffer.length = ulpMetadataBufLen) : Step s { s with metadataBuffer := buffer, queue, mem }

/-- libpulp is not in an error state, though the user may have blocked it. -/
def Live (s : State) : Prop := s.errorState = ENONE ∨ s.errorState = EUSRBLOCKED

/-- The patch list, the detour lists and the counters are as before. -/
structure SameLists (s s' : State) : Prop where
  patches          : s'.patches = s.patches
  roots            : s'.roots = s.roots
  rootIndexCounter : s'.rootIndexCounter = s.rootIndexCounter
  globalUniverse   : s'.globalUniverse = s.globalUniverse
  metadataRef      : s'.metadataRef = s.metadataRef
  live             : Live s' → Live s

/-- **A step leaves the lists alone, does what `load_patch` can do, or reverts patches one by one.** -/
theorem step_cases {s s' : State} (h : Step s s') (hr : s.metadataRef = none) :
    SameLists s s' ∨ (∃ env ret, Loads env s ret s') ∨ ∃ k, Reverts k s s' ∧ k ≤ s.patches.length := by
  have hguard : ∀ {env ret}, refused env s = some (ret, s') → SameLists s s' := by
    intro env ret hg
    rcases (refused_cases hg).2 with rfl | ⟨he, e, -, rfl⟩
    · exact ⟨rfl, rfl, rfl, rfl, rfl, id⟩
    · exact ⟨rfl, rfl, rfl, rfl, rfl, fun _ => Or.inl he⟩
  cases h with
  | apply env ret h =>
    unfold ulpApplyPatch at h
    cases hg : refused env s with
    | some r => rw [hg] at h; cases h; exact Or.inl (hguard hg)
    | none => rw [hg] at h; exact Or.inr (Or.inl ⟨env, ret, loadPatch_loads h hr⟩)
  | revertAll fuel env ret h =>
    unfold ulpRevertPatchesFromLib at h
    cases hg : refused env s with
    | some r => rw [hg] at h; cases h; exact Or.inl (hguard hg)
    | none => rw [hg] at h; exact Or.inr (Or.inr (revertAllPatchesFromLib_reverts h))
  | enableOrDisable =>
    apply Or.inl
    unfold ulpEnableOrDisablePatching
    split
    · rename_i he
      exact ⟨rfl, rfl, rfl, rfl, rfl, fun _ => Or.inl he⟩
    · split
      · rename_i he
        exact ⟨rfl, rfl, rfl, rfl, rfl, fun _ => Or.inr he⟩
      · exact ⟨rfl, rfl, rfl, rfl, rfl, id⟩
  | outside => exact Or.inl ⟨rfl, rfl, rfl, rfl, rfl, id⟩

end Libpulp
