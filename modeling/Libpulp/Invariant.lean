import Libpulp.Accept
import Libpulp.Blocks
import Libpulp.Detours
import Mathlib.Logic.Relation
/-!
# Invariant — what holds in every state libpulp can reach

Two invariants of the steps of `Ops`.  `Applied` is about the patch list alone and holds in every state, whatever
failed: ids are distinct and a patch depends only on patches further down the list.  `Linked` says that the detour lists
and the patch list agree; a failure inside `ulp_apply_all_units` breaks it, and libpulp is then blocked for good.
-/
namespace Libpulp

open Bytes (Byte Addr Mem)
open Relation (ReflTransGen)

/-- Every patch of the list depends only on patches further down. -/
def DepsBelow : List AppliedPatch → Prop
  | []      => True
  | p :: ps => (∀ d ∈ p.deps, ∃ q ∈ ps, q.patchId = d.depId) ∧ DepsBelow ps

theorem DepsBelow.split : ∀ {newer older : List AppliedPatch} {p : AppliedPatch}, DepsBelow (newer ++ p :: older) →
    ∀ d ∈ p.deps, ∃ q ∈ older, q.patchId = d.depId
  | [], _, _, h     => h.1
  | _ :: _, _, _, h => DepsBelow.split h.2

theorem mem_eraseP_id {q : AppliedPatch} {ps : List AppliedPatch} {id : PatchId} (hq : q ∈ ps) (hne : q.patchId ≠ id) :
    q ∈ ps.eraseP (·.patchId == id) := by
  rw [List.mem_eraseP_of_neg (by simpa using hne)]
  exact hq

theorem DepsBelow.eraseP {id : PatchId} : ∀ {ps : List AppliedPatch}, DepsBelow ps →
    (∀ p ∈ ps, ∀ d ∈ p.deps, d.depId ≠ id) → DepsBelow (ps.eraseP (·.patchId == id))
  | [], _, _       => trivial
  | p :: ps, h, hn => by
    rw [List.eraseP_cons]
    cases hp : p.patchId == id with
    | true => exact h.2
    | false =>
      refine ⟨fun d hd => ?_, h.2.eraseP (fun q hq => hn q (List.mem_cons_of_mem _ hq))⟩
      obtain ⟨q, hq, he⟩ := h.1 d hd
      exact ⟨q, mem_eraseP_id hq (he ▸ hn p List.mem_cons_self d hd), he⟩

/-- **The invariant of the patch list.** -/
structure Applied (s : State) : Prop where
  metadataRef : s.metadataRef = none
  ids         : (s.patches.map (·.patchId)).Nodup
  deps        : DepsBelow s.patches

theorem SameLists.applied {s s' : State} (h : SameLists s s') (ha : Applied s) : Applied s' :=
  ⟨h.metadataRef.trans ha.metadataRef, h.patches ▸ ha.ids, h.patches ▸ ha.deps⟩

theorem Reverted.applied {id : PatchId} {s s' : State} (h : Reverted id s s') (hcan : ulpCanRevertPatch s id = ENONE)
    (hi : (s.patches.map (·.patchId)).Nodup) (hd : DepsBelow s.patches) :
    (s'.patches.map (·.patchId)).Nodup ∧ DepsBelow s'.patches := by
  rw [h.patches]
  exact ⟨hi.sublist (List.eraseP_sublist.map _), hd.eraseP (ulpCanRevertPatch_eq_zero.1 hcan).2⟩

theorem Reverts.applied {k : Nat} {s s' : State} (h : Reverts k s s') (ha : Applied s) : Applied s' := by
  induction h with
  | done s => exact ha
  | @step k s s' id can rest ih =>
    have hr := ulpRevertPatch_spec id s
    obtain ⟨hi, hd⟩ := hr.applied can ha.ids ha.deps
    exact ih ⟨hr.metadataRef.trans ha.metadataRef, hi, hd⟩

theorem Sane.recorded {env : Env} {s : State} {ulp : UlpMetadata} {p : AppliedPatch} (h : Sane s ulp)
    (hr : Records env ulp p) (ha : Applied s) :
    ((p :: s.patches).map (·.patchId)).Nodup ∧ DepsBelow (p :: s.patches) := by
  refine ⟨?_, fun d hd => h.deps d ?_, ha.deps⟩
  · rw [List.map_cons, List.nodup_cons]
    refine ⟨fun hm => ?_, ha.ids⟩
    obtain ⟨q, hq, he⟩ := List.mem_map.1 hm
    exact h.fresh q hq (he.trans hr.patchId)
  · rw [hr.deps] at hd
    exact List.mem_reverse.1 hd

theorem exitOnError_patches (r : UlpError × State) : (exitOnError r).2.patches = r.2.patches := by
  unfold exitOnError
  split <;> rfl

theorem exitOnError_globalUniverse (r : UlpError × State) : (exitOnError r).2.globalUniverse = r.2.globalUniverse := by
  unfold exitOnError
  split <;> rfl

theorem Loads.patches {env : Env} {s s' : State} {ret : UlpError} (h : Loads env s ret s') (ha : Applied s) :
    Applied s' := by
  cases h with
  | failed ret b hret => exact ⟨ha.metadataRef, ha.ids, ha.deps⟩
  | applied ulp p parsed sane records fits =>
    obtain ⟨hi, hd⟩ := sane.recorded records ha
    have hp : (exitOnError (ulpApplyAllUnits env ulp (s.recorded ulp p))).2.patches = p :: s.patches := by
      rw [exitOnError_patches, (ulpApplyAllUnits_patches env ulp _).1]
      rfl
    exact ⟨rfl, hp ▸ hi, hp ▸ hd⟩
  | reverted ulp can =>
    obtain ⟨hi, hd⟩ := (ulpRevertPatch_spec ulp.patchId (s.loading ulp)).applied can ha.ids ha.deps
    exact ⟨rfl, hi, hd⟩

theorem Step.applied {s s' : State} (h : Step s s') (ha : Applied s) : Applied s' := by
  rcases step_cases h ha.metadataRef with h | ⟨env, ret, h⟩ | ⟨k, h, -⟩
  · exact h.applied ha
  · exact h.patches ha
  · exact h.applied ha

theorem State.Start.applied {s : State} (h : s.Start) : Applied s :=
  ⟨h.metadataRef, by simp [h.patches], by rw [h.patches]; trivial⟩

theorem Applied.run {s₀ s : State} (h₀ : Applied s₀) (h : ReflTransGen Step s₀ s) : Applied s := by
  induction h with
  | refl => exact h₀
  | tail _ hst ih => exact hst.applied ih

theorem applied_of_run {s₀ s : State} (h₀ : s₀.Start) (h : ReflTransGen Step s₀ s) : Applied s := h₀.applied.run h

/-- **Dependency closure.**  In every state reachable from start-up, each dependency of an applied patch is applied, and
lies further from the head of the list: it was applied before. -/
theorem deps_applied_before {s₀ s : State} (h₀ : s₀.Start) (h : ReflTransGen Step s₀ s) {newer older : List AppliedPatch}
    {p : AppliedPatch} (hp : s.patches = newer ++ p :: older) : ∀ d ∈ p.deps, ∃ q ∈ older, q.patchId = d.depId :=
  DepsBelow.split (hp ▸ (applied_of_run h₀ h).deps)

/-- A patch that depends on the one applied before it. -/
theorem deps_applied_before_two : ∃ s p q, ReflTransGen Step demoStart s ∧ s.patches = [p, q] ∧
    p.deps.map (·.depId) = [Vector.replicate 32 1] ∧ ∀ d ∈ p.deps, ∃ q' ∈ [q], q'.patchId = d.depId := by
  obtain ⟨q, hq, h₁⟩ := demo_enters (s := demoStart) ⟨rfl, rfl, rfl, demo_buildId⟩ 1 [108] [] (by decide)
    (fun d hd => by cases hd) (fun p hp => by cases hp)
  have hqid : q.patchId = Vector.replicate 32 1 := hq.patchId
  obtain ⟨p, hp, h₂⟩ := demo_enters (s := { demoStart with patches := [q], globalUniverse := 1 })
    ⟨rfl, rfl, rfl, demo_buildId⟩ 2 [108] [Vector.replicate 32 1] (by decide)
    (fun d hd => ⟨q, List.mem_singleton.2 rfl, by rw [List.mem_singleton.1 hd, hqid]⟩)
    (fun p' hp' => by rw [List.mem_singleton.1 hp', hqid]; decide)
  refine ⟨_, p, q, h₁.trans h₂, rfl, by rw [hp.deps]; rfl, ?_⟩
  exact @deps_applied_before _ _ demoStart_start (h₁.trans h₂) [] [q] p rfl

/-! ## The detour lists -/

/-- **The detour lists and the patch list say the same.** -/
structure Linked (s : State) : Prop where
  numbered : Numbered (s.roots, s.rootIndexCounter)
  active   : ∀ a, activeAt s.roots a = unitsAt s.patches a

theorem Reverted.linked {id : PatchId} {s s' : State} (h : Reverted id s s') (hi : (s.patches.map (·.patchId)).Nodup)
    (hl : Linked s) : Linked s' := by
  refine ⟨?_, fun a => ?_⟩
  · rw [h.roots, h.rootIndexCounter]
    exact deactivate_numbered id hl.numbered
  · rw [h.roots, h.patches, deactivate_active, unitsAt_eraseP id a hi, hl.active]

theorem Reverted.live {id : PatchId} {s s' : State} (h : Reverted id s s') (hl : Live s') : Live s := by
  rcases h.errorState with e | e
  · rw [Live, e] at hl
    exact hl
  · rw [Live, e] at hl
    exact absurd hl (by decide)

theorem Reverts.linked {k : Nat} {s s' : State} (h : Reverts k s s') (ha : Applied s) (hlive : Live s')
    (hl : Live s → Linked s) : Linked s' := by
  have : Live s ∧ Linked s' := by
    induction h with
    | done s => exact ⟨hlive, hl hlive⟩
    | @step k s s' id can rest ih =>
      have hr := ulpRevertPatch_spec id s
      have ha' : Applied (ulpRevertPatch id s).2 := (Reverts.step id can (.done _)).applied ha
      obtain ⟨h₁, h₂⟩ := ih ha' hlive (fun h => hr.linked ha.ids (hl (hr.live h)))
      exact ⟨hr.live h₁, h₂⟩
  exact this.2

theorem UnitsApplied.live {id : PatchId} {us : List (Addr × Addr)} {s t : State} (h : UnitsApplied id us s t)
    (hl : t.errorState = ENONE ∨ t.errorState = EUSRBLOCKED) : Live s := by
  rcases h.errorState with e | e
  · rw [e] at hl
    exact hl
  · rw [e] at hl
    exact absurd hl (by decide)

/-- After a patch was recorded and its units applied, the lists agree again. -/
theorem UnitsApplied.linked {env : Env} {ulp : UlpMetadata} {p : AppliedPatch} {s t : State}
    (h : UnitsApplied ulp.patchId (ulp.objs.units.map (unitAddrs env ulp))
      { s.recorded ulp p with globalUniverse := s.globalUniverse + 1 } t)
    (hr : Records env ulp p) (hl : Linked s) : Linked t := by
  have hroots : (t.roots, t.rootIndexCounter) = (ulp.objs.units.map (unitAddrs env ulp)).foldl
      (pushUnit ulp.patchId (s.globalUniverse + 1)) (s.roots, s.rootIndexCounter) := h.roots
  refine ⟨?_, fun a => ?_⟩
  · rw [hroots]
    exact pushUnits_numbered _ _ _ hl.numbered
  · have hr' := congrArg Prod.fst hroots
    simp only at hr'
    rw [hr', pushUnits_active, hl.active, h.patches]
    change _ = (p :: s.patches).flatMap (·.unitsAt a)
    rw [List.flatMap_cons, hr.unitsAt]
    rfl

theorem Loads.linked {env : Env} {s s' : State} {ret : UlpError} (h : Loads env s ret s') (ha : Applied s)
    (hlive : Live s') (hl : Live s → Linked s) : Linked s' := by
  cases h with
  | failed ret b hret =>
    obtain ⟨h₁, h₂⟩ := hl hlive
    exact ⟨h₁, h₂⟩
  | applied ulp p parsed sane records fits =>
    by_cases hok : (ulpApplyAllUnits env ulp (s.recorded ulp p)).1 = ENONE
    · have hu := ulpApplyAllUnits_applied env ulp _ hok
      rw [exitOnError, if_neg (not_not.2 hok)] at hlive ⊢
      have hs : Live s := hu.live hlive
      obtain ⟨h₁, h₂⟩ := hu.linked records (hl hs)
      exact ⟨h₁, h₂⟩
    · rw [exitOnError, if_pos hok] at hlive
      exact absurd hlive (by decide : ¬ (EUNKNOWN = ENONE ∨ EUNKNOWN = EUSRBLOCKED))
  | reverted ulp can =>
    have hr := ulpRevertPatch_spec ulp.patchId (s.loading ulp)
    obtain ⟨h₁, h₂⟩ := hr.linked ha.ids (show Linked (s.loading ulp) from
      ⟨(hl (hr.live hlive)).numbered, (hl (hr.live hlive)).active⟩)
    exact ⟨h₁, h₂⟩

theorem Step.linked {s s' : State} (h : Step s s') (ha : Applied s) (hlive : Live s') (hl : Live s → Linked s) :
    Linked s' := by
  rcases step_cases h ha.metadataRef with h | ⟨env, ret, h⟩ | ⟨k, h, -⟩
  · obtain ⟨h₁, h₂⟩ := hl (h.live hlive)
    exact ⟨by rw [h.roots, h.rootIndexCounter]; exact h₁, by rw [h.roots, h.patches]; exact h₂⟩
  · exact h.linked ha hlive hl
  · exact h.linked ha hlive hl

theorem State.Start.linked {s : State} (h : s.Start) : Linked s := by
  refine ⟨?_, fun a => ?_⟩
  · rw [h.roots, h.counter]
    exact ⟨List.nodup_nil, rfl, rfl⟩
  · rw [h.roots, h.patches]
    rfl

theorem linked_of_run {s₀ s : State} (h₀ : s₀.Start) (h : ReflTransGen Step s₀ s) (hlive : Live s) : Linked s := by
  induction h with
  | refl => exact h₀.linked
  | tail hrun hst ih => exact hst.linked (applied_of_run h₀ hrun) hlive ih

/-! ## Universes -/

/-- The universes of the detours are in order, and there are no more patches than universes. -/
structure Dated (s : State) : Prop where
  layered : Layered s.globalUniverse s.roots
  counted : s.patches.length ≤ s.globalUniverse.toNat

theorem Reverts.globalUniverse {k : Nat} {s s' : State} (h : Reverts k s s') :
    s'.globalUniverse = s.globalUniverse + BitVec.ofNat 64 k := by
  induction h with
  | done s => simp
  | @step k s s' id can rest ih =>
    rw [ih, (ulpRevertPatch_spec id s).globalUniverse, Nat.add_comm k 1, BitVec.ofNat_add, ← BitVec.add_assoc]
    rfl

theorem Reverted.dated {id : PatchId} {s s' : State} (h : Reverted id s s') (hd : Dated s)
    (hle : s.globalUniverse ≤ s'.globalUniverse) : Dated s' := by
  refine ⟨?_, ?_⟩
  · rw [h.roots]
    exact deactivate_layered id (hd.layered.mono hle)
  · rw [h.patches]
    exact Nat.le_trans List.eraseP_sublist.length_le (Nat.le_trans hd.counted hle)

/-- The counter passes from its old to its new value without wrapping around in between. -/
theorem Reverts.dated {k : Nat} {s s' : State} (h : Reverts k s s') (hk : k < 2 ^ 64)
    (hle : s.globalUniverse ≤ s'.globalUniverse) (hd : Dated s) : Dated s' := by
  induction h with
  | done s => exact hd
  | @step k s s' id can rest ih =>
    have hr := ulpRevertPatch_spec id s
    have hu := hr.globalUniverse
    have hu' := rest.globalUniverse
    rw [hu] at hu'
    have h₁ : s.globalUniverse ≤ (ulpRevertPatch id s).2.globalUniverse := by
      rw [hu]
      rw [hu'] at hle
      bv_omega
    have h₂ : (ulpRevertPatch id s).2.globalUniverse ≤ s'.globalUniverse := by
      rw [hu, hu']
      rw [hu'] at hle
      bv_omega
    exact ih (by omega) h₂ (hr.dated hd h₁)

theorem UnitsApplied.dated {us : List (Addr × Addr)} {id : PatchId} {ulp : UlpMetadata} {p : AppliedPatch} {s t : State}
    (h : UnitsApplied id us { s.recorded ulp p with globalUniverse := s.globalUniverse + 1 } t)
    (hle : s.globalUniverse ≤ s.globalUniverse + 1) (hd : Dated s) : Dated t := by
  have hroots := congrArg Prod.fst h.roots
  simp only at hroots
  refine ⟨?_, ?_⟩
  · rw [hroots, h.globalUniverse]
    exact pushUnits_layered _ _ _ (hd.layered.mono hle)
  · rw [h.patches, h.globalUniverse]
    have := hd.counted
    change (p :: s.patches).length ≤ (s.globalUniverse + 1).toNat
    rw [List.length_cons]
    bv_omega

theorem Loads.dated {env : Env} {s s' : State} {ret : UlpError} (h : Loads env s ret s')
    (hlive : Live s') (hle : s.globalUniverse ≤ s'.globalUniverse) (hl : Live s → Dated s) : Dated s' := by
  cases h with
  | failed ret b hret =>
    obtain ⟨h₁, h₂⟩ := hl hlive
    exact ⟨h₁, h₂⟩
  | applied ulp p parsed sane records fits =>
    by_cases hok : (ulpApplyAllUnits env ulp (s.recorded ulp p)).1 = ENONE
    · have hu := ulpApplyAllUnits_applied env ulp _ hok
      rw [exitOnError, if_neg (not_not.2 hok)] at hlive hle ⊢
      have hs : Live s := hu.live hlive
      obtain ⟨h₁, h₂⟩ := hu.dated (by rw [hu.globalUniverse] at hle; exact hle) (hl hs)
      exact ⟨h₁, h₂⟩
    · rw [exitOnError, if_pos hok] at hlive
      exact absurd hlive (by decide : ¬ (EUNKNOWN = ENONE ∨ EUNKNOWN = EUSRBLOCKED))
  | reverted ulp can =>
    have hr := ulpRevertPatch_spec ulp.patchId (s.loading ulp)
    have hd := hl (hr.live hlive)
    obtain ⟨h₁, h₂⟩ := hr.dated (show Dated (s.loading ulp) from ⟨hd.layered, hd.counted⟩) hle
    exact ⟨h₁, h₂⟩

theorem Reverts.live {k : Nat} {s s' : State} (h : Reverts k s s') (hl : Live s') : Live s := by
  induction h with
  | done s => exact hl
  | step id can rest ih => exact (ulpRevertPatch_spec id _).live (ih hl)

theorem Step.dated {s s' : State} (h : Step s s') (ha : Applied s) (hlive : Live s')
    (hle : s.globalUniverse ≤ s'.globalUniverse) (hl : Live s → Dated s) : Dated s' := by
  rcases step_cases h ha.metadataRef with h | ⟨env, ret, h⟩ | ⟨k, h, hk⟩
  · obtain ⟨h₁, h₂⟩ := hl (h.live hlive)
    exact ⟨by rw [h.roots, h.globalUniverse]; exact h₁, by rw [h.patches, h.globalUniverse]; exact h₂⟩
  · exact h.dated hlive hle hl
  · have hd := hl (h.live hlive)
    have := hd.counted
    exact h.dated (by have := s.globalUniverse.isLt; omega) hle hd

/-- A step that does not make the universe counter wrap around. -/
def StepNoWrap (s s' : State) : Prop := Step s s' ∧ s.globalUniverse ≤ s'.globalUniverse

theorem run_of_noWrap {s₀ s : State} (h : ReflTransGen StepNoWrap s₀ s) : ReflTransGen Step s₀ s :=
  ReflTransGen.mono (fun _ _ h => h.1) _ _ h

theorem dated_of_run {s₀ s : State} (h₀ : s₀.Start) (h : ReflTransGen StepNoWrap s₀ s) (hlive : Live s) : Dated s := by
  induction h with
  | refl => exact ⟨by simp [Layered, h₀.roots], by rw [h₀.patches]; exact Nat.zero_le _⟩
  | tail hrun hst ih => exact hst.1.dated (applied_of_run h₀ (run_of_noWrap hrun)) hlive hst.2 ih

/-! ## The patch state -/

/-- **The patch-state invariant.** -/
structure PatchStateOk (s : State) : Prop where
  ids      : (s.patches.map (·.patchId)).Nodup
  addrs    : (s.roots.map (·.patchedAddr)).Nodup
  indexes  : (s.roots.map (·.index)).Nodup
  ordered  : ∀ r ∈ s.roots, (r.detours.map (·.universeId)).Pairwise (· ≥ ·)
  bounded  : ∀ r ∈ s.roots, ∀ d ∈ r.detours, d.universeId ≤ s.globalUniverse
  sound    : ∀ r ∈ s.roots, ∀ d ∈ r.detours, d.active = true →
    ∃ p ∈ s.patches, p.patchId = d.patchId ∧ ∃ u ∈ p.units, u.patchedAddr = r.patchedAddr ∧ u.targetAddr = d.targetAddr
  complete : ∀ p ∈ s.patches, ∀ u ∈ p.units, ∃ r ∈ s.roots, r.patchedAddr = u.patchedAddr ∧
    ∃ d ∈ r.detours, d.active = true ∧ d.patchId = p.patchId ∧ d.targetAddr = u.targetAddr

theorem mem_activeAt {roots : List DetourRoot} {a : Addr} {x : PatchId × Addr} :
    x ∈ activeAt roots a ↔ ∃ r ∈ roots, r.patchedAddr = a ∧ ∃ d ∈ r.detours, d.active = true ∧ d.patchId = x.1 ∧
      d.targetAddr = x.2 := by
  have hlive : ∀ d : Detour, d.live? = some x ↔ d.active = true ∧ d.patchId = x.1 ∧ d.targetAddr = x.2 := by
    intro d
    unfold Detour.live?
    cases d.active <;> simp [Prod.ext_iff]
  unfold activeAt
  rw [List.mem_flatMap]
  constructor
  · rintro ⟨r, hr, hx⟩
    split at hx
    · rename_i ha
      obtain ⟨d, hd, h⟩ := List.mem_filterMap.1 hx
      exact ⟨r, hr, ha, d, hd, (hlive d).1 h⟩
    · cases hx
  · rintro ⟨r, hr, ha, d, hd, h⟩
    exact ⟨r, hr, by rw [if_pos ha]; exact List.mem_filterMap.2 ⟨d, hd, (hlive d).2 h⟩⟩

theorem Linked.sound {s : State} (h : Linked s) {r : DetourRoot} (hr : r ∈ s.roots) {d : Detour} (hd : d ∈ r.detours)
    (ha : d.active = true) : ∃ p ∈ s.patches, p.patchId = d.patchId ∧
      ∃ u ∈ p.units, u.patchedAddr = r.patchedAddr ∧ u.targetAddr = d.targetAddr := by
  have hx : (d.patchId, d.targetAddr) ∈ unitsAt s.patches r.patchedAddr := by
    rw [← h.active]
    exact mem_activeAt.2 ⟨r, hr, rfl, d, hd, ha, rfl, rfl⟩
  obtain ⟨p, hp, hxp⟩ := List.mem_flatMap.1 hx
  obtain ⟨hid, u, hu, hua, hut⟩ := mem_unitsAt.1 hxp
  exact ⟨p, hp, hid.symm, u, hu, hua, hut⟩

theorem Linked.complete {s : State} (h : Linked s) {p : AppliedPatch} (hp : p ∈ s.patches) {u : AppliedUnit}
    (hu : u ∈ p.units) : ∃ r ∈ s.roots, r.patchedAddr = u.patchedAddr ∧
      ∃ d ∈ r.detours, d.active = true ∧ d.patchId = p.patchId ∧ d.targetAddr = u.targetAddr := by
  have hx : (p.patchId, u.targetAddr) ∈ activeAt s.roots u.patchedAddr := by
    rw [h.active]
    exact List.mem_flatMap.2 ⟨p, hp, mem_unitsAt.2 ⟨rfl, u, hu, rfl, rfl⟩⟩
  exact mem_activeAt.1 hx

theorem patchStateOk_of_noWrap {s₀ s : State} (h₀ : s₀.Start) (h : ReflTransGen StepNoWrap s₀ s)
    (he : s.errorState = ENONE) (hroots : s.roots.length < 2 ^ 32) : PatchStateOk s := by
  have hrun := run_of_noWrap h
  have hl := linked_of_run h₀ hrun (Or.inl he)
  have hd := (dated_of_run h₀ h (Or.inl he)).layered
  refine ⟨(applied_of_run h₀ hrun).ids, hl.numbered.addrs, hl.numbered.indexes_nodup (Nat.le_of_lt hroots),
    fun r hr => (hd r hr).1, fun r hr => (hd r hr).2, fun r hr d hd ha => hl.sound hr hd ha,
    fun p hp u hu => hl.complete hp hu⟩

/-! ## The heap

A `calloc` returns a block apart from all that are allocated.  Each `load_metadata` asks for a `struct ulp_metadata`, and
`free_metadata` frees what the structure points at but not the structure itself: the address space has room for
`2 ^ 64 / 104` of them, and so the universe counter cannot wrap around.
-/

/-- `sizeof (struct ulp_metadata)`. -/
def sizeofUlpMetadata : Nat := 104

/-- A call of `__ulp_apply_patch` comes to the `calloc` of `load_metadata`, and gets a block. -/
def Allocates (env : Env) (s : State) : Prop :=
  refused env s = none ∧ s.metadataRef = none ∧ env.calloc .metadata = true

/-- **A step of a process with a finite heap**, `blocks` being the metadata structures that are allocated. -/
inductive HeapStep : List Addr × State → List Addr × State → Prop
  | applyAllocated {blocks : List Addr} {s s' : State} (env : Env) (ret : UlpError) (block : Addr)
      (h : ulpApplyPatch env s = some (ret, s')) (hall : Allocates env s)
      (hfresh : Blocks.Fresh sizeofUlpMetadata blocks block) : HeapStep (blocks, s) (block :: blocks, s')
  | apply {blocks : List Addr} {s s' : State} (env : Env) (ret : UlpError) (h : ulpApplyPatch env s = some (ret, s'))
      (hno : ¬ Allocates env s) : HeapStep (blocks, s) (blocks, s')
  | revertAll {blocks : List Addr} {s s' : State} (fuel : Nat) (env : Env) (ret : UlpError)
      (h : ulpRevertPatchesFromLib fuel env s = some (ret, s')) : HeapStep (blocks, s) (blocks, s')
  | enableOrDisable (blocks : List Addr) (s : State) : HeapStep (blocks, s) (blocks, ulpEnableOrDisablePatching s)
  | outside (blocks : List Addr) (s : State) (buffer : List Byte) (queue : InsnQueue) (mem : Mem)
      (hlen : buffer.length = ulpMetadataBufLen) :
      HeapStep (blocks, s) (blocks, { s with metadataBuffer := buffer, queue, mem })

theorem HeapStep.step {c c' : List Addr × State} (h : HeapStep c c') : Step c.2 c'.2 := by
  cases h with
  | applyAllocated env ret block h hall hfresh => exact .apply env ret h
  | apply env ret h hno => exact .apply env ret h
  | revertAll fuel env ret h => exact .revertAll fuel env ret h
  | enableOrDisable => exact .enableOrDisable _
  | outside _ _ buffer queue mem hlen => exact .outside _ buffer queue mem hlen

theorem HeapStep.allocated {c c' : List Addr × State} (h : HeapStep c c')
    (ha : Blocks.Allocated sizeofUlpMetadata c.1) : Blocks.Allocated sizeofUlpMetadata c'.1 := by
  cases h with
  | applyAllocated env ret block h hall hfresh => exact ⟨hfresh, ha⟩
  | apply | revertAll | enableOrDisable | outside => exact ha

/-- What the universes so far and the patches that can still be reverted come to. -/
def State.spent (s : State) : Nat := s.globalUniverse.toNat + s.patches.length

theorem SameLists.spent {s s' : State} (h : SameLists s s') : s'.spent = s.spent := by
  rw [State.spent, State.spent, h.globalUniverse, h.patches]

theorem Reverts.patches {k : Nat} {s s' : State} (h : Reverts k s s') : s'.patches.length + k = s.patches.length := by
  induction h with
  | done s => rfl
  | @step k s s' id can rest ih =>
    obtain ⟨⟨p, hp, hid⟩, -⟩ := ulpCanRevertPatch_eq_zero.1 can
    rw [(ulpRevertPatch_spec id s).patches, List.length_eraseP_of_mem hp (by simpa using hid)] at ih
    have := List.length_pos_of_mem hp
    omega

/-- A revert takes a patch off the list for each universe. -/
theorem Reverts.spent {k : Nat} {s s' : State} (h : Reverts k s s') (hlt : s.spent < 2 ^ 64) :
    s.globalUniverse ≤ s'.globalUniverse ∧ s'.spent = s.spent := by
  have hp := h.patches
  unfold State.spent at hlt ⊢
  have hu : s'.globalUniverse.toNat = s.globalUniverse.toNat + k := by
    have hk : k % 2 ^ 64 = k := Nat.mod_eq_of_lt (by omega)
    rw [h.globalUniverse, BitVec.toNat_add, BitVec.toNat_ofNat, hk]
    exact Nat.mod_eq_of_lt (by omega)
  exact ⟨BitVec.le_def.2 (by omega), by omega⟩

theorem Loads.spent {env : Env} {s s' : State} {ret : UlpError} (h : Loads env s ret s') (hlt : s.spent + 1 < 2 ^ 64) :
    s.globalUniverse ≤ s'.globalUniverse ∧ s'.spent ≤ s.spent + 2 := by
  unfold State.spent at hlt ⊢
  have hnext : (s.globalUniverse + 1).toNat = s.globalUniverse.toNat + 1 := by
    rw [BitVec.toNat_add]
    exact Nat.mod_eq_of_lt (by simp; omega)
  cases h with
  | failed ret b hret => exact ⟨BitVec.le_refl _, by simp⟩
  | applied ulp p parsed sane records fits =>
    obtain ⟨hp, hu⟩ := ulpApplyAllUnits_patches env ulp (s.recorded ulp p)
    have hp' : (exitOnError (ulpApplyAllUnits env ulp (s.recorded ulp p))).2.patches = p :: s.patches :=
      (exitOnError_patches _).trans hp
    have hu' : (exitOnError (ulpApplyAllUnits env ulp (s.recorded ulp p))).2.globalUniverse = s.globalUniverse + 1 :=
      (exitOnError_globalUniverse _).trans hu
    simp only [hp', hu', List.length_cons]
    exact ⟨BitVec.le_def.2 (by omega), by omega⟩
  | reverted ulp can =>
    have hr := ulpRevertPatch_spec ulp.patchId (s.loading ulp)
    have hu : (ulpRevertPatch ulp.patchId (s.loading ulp)).2.globalUniverse = s.globalUniverse + 1 := hr.globalUniverse
    have hp : (ulpRevertPatch ulp.patchId (s.loading ulp)).2.patches.length ≤ s.patches.length := by
      rw [hr.patches]
      exact List.eraseP_sublist.length_le
    simp only [hu]
    exact ⟨BitVec.le_def.2 (by omega), by omega⟩

/-- Without memory for the metadata nothing is applied. -/
theorem ulpApplyPatch_without {env : Env} {s s' : State} {ret : UlpError} (h : ulpApplyPatch env s = some (ret, s'))
    (hr : s.metadataRef = none) (hno : ¬ Allocates env s) : s'.spent = s.spent ∧ s'.globalUniverse = s.globalUniverse := by
  unfold ulpApplyPatch at h
  cases hg : refused env s with
  | some r =>
    rw [hg] at h
    cases h
    rcases (refused_cases hg).2 with rfl | ⟨-, e, -, rfl⟩ <;> exact ⟨rfl, rfl⟩
  | none =>
    have hc : env.calloc .metadata = false := Bool.eq_false_iff.2 (fun hc => hno ⟨hg, hr, hc⟩)
    rw [hg] at h
    simp only [loadPatch, loadMetadata, hr, hc] at h
    cases h
    exact ⟨rfl, rfl⟩

/-- **What a run has spent is bounded by its blocks.** -/
theorem HeapStep.spent {c c' : List Addr × State} (h : HeapStep c c') (ha : Applied c.2)
    (hb : Blocks.Allocated sizeofUlpMetadata c.1) (hs : c.2.spent ≤ 2 * c.1.length) :
    c.2.globalUniverse ≤ c'.2.globalUniverse ∧ c'.2.spent ≤ 2 * c'.1.length := by
  have hroom := hb.length_mul_le (by decide)
  unfold sizeofUlpMetadata at hroom
  cases h with
  | applyAllocated env ret block h hall hfresh =>
    simp only at hs hroom ha ⊢
    rw [List.length_cons]
    unfold ulpApplyPatch at h
    rw [hall.1] at h
    obtain ⟨h₁, h₂⟩ := (loadPatch_loads h hall.2.1).spent (by omega)
    exact ⟨h₁, by omega⟩
  | apply env ret h hno =>
    obtain ⟨h₁, h₂⟩ := ulpApplyPatch_without h ha.metadataRef hno
    exact ⟨h₂ ▸ BitVec.le_refl _, h₁.trans_le hs⟩
  | revertAll fuel env ret h =>
    simp only at hs hroom ha ⊢
    unfold ulpRevertPatchesFromLib at h
    cases hg : refused env _ with
    | some r =>
      rw [hg] at h
      cases h
      rcases (refused_cases hg).2 with rfl | ⟨-, e, -, rfl⟩ <;> exact ⟨BitVec.le_refl _, hs⟩
    | none =>
      rw [hg] at h
      obtain ⟨k, hk, -⟩ := revertAllPatchesFromLib_reverts h
      obtain ⟨h₁, h₂⟩ := hk.spent (by omega)
      exact ⟨h₁, by omega⟩
  | enableOrDisable =>
    simp only at hs ⊢
    unfold ulpEnableOrDisablePatching
    split
    · exact ⟨BitVec.le_refl _, hs⟩
    · split <;> exact ⟨BitVec.le_refl _, hs⟩
  | outside => exact ⟨BitVec.le_refl _, hs⟩

theorem noWrap_of_heap {s₀ : State} {c : List Addr × State} (h₀ : s₀.Start) (h : ReflTransGen HeapStep ([], s₀) c) :
    ReflTransGen StepNoWrap s₀ c.2 ∧ Blocks.Allocated sizeofUlpMetadata c.1 ∧ c.2.spent ≤ 2 * c.1.length := by
  induction h with
  | refl => exact ⟨.refl, trivial, by simp [State.spent, h₀.globalUniverse, h₀.patches]⟩
  | tail _ hst ih =>
    obtain ⟨hrun, hb, hs⟩ := ih
    obtain ⟨hle, hs'⟩ := hst.spent (applied_of_run h₀ (run_of_noWrap hrun)) hb hs
    exact ⟨hrun.tail ⟨hst.step, hle⟩, hst.allocated hb, hs'⟩

/-- **The patch-state invariant holds in every reachable state** in which libpulp is not in an error state and fewer than
`2^32` roots were made. -/
theorem patchStateOk_of_run {s₀ s : State} {blocks : List Addr} (h₀ : s₀.Start)
    (h : ReflTransGen HeapStep ([], s₀) (blocks, s)) (he : s.errorState = ENONE) (hroots : s.roots.length < 2 ^ 32) :
    PatchStateOk s := patchStateOk_of_noWrap h₀ (noWrap_of_heap h₀ h).1 he hroots

/-- The state after one unit was applied. -/
theorem patchStateOk_patched : ∃ p b, (demoPatched p b).roots ≠ [] ∧ PatchStateOk (demoPatched p b) := by
  obtain ⟨p, t, b, -, happ, -, -, htool⟩ := demo_patched
  have ht := insnqInterpretFromProcess_outside htool
  have hlen : t.metadataBuffer.length = ulpMetadataBufLen := by
    rw [← congrArg State.metadataBuffer ht]
    exact List.length_replicate
  refine ⟨p, b, by simp [demoPatched], @patchStateOk_of_run demoStart _ [0x10000] demoStart_start ?_ rfl
    (by decide : 1 < 2 ^ 32)⟩
  rw [ht]
  refine .tail (.tail (.single (.outside [] demoStart _ emptyQueue demoMem demoLoading_fits)) ?_)
    (.outside _ t t.metadataBuffer _ _ hlen)
  exact .applyAllocated demoEnv ENONE 0x10000 happ ⟨(demoLoading_ready []).refused, rfl, rfl⟩ (fun b hb => by cases hb)

end Libpulp
