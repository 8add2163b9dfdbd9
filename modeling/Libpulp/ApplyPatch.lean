import Libpulp.Redirect
/-!
# ApplyPatch — what a patch application leaves behind

`load_patch` records a patch before it applies the units, a failing unit stops the loop with the detours and the writes
of the units before it in place, and the tool interprets the queue whatever libpulp returned.  A failure is not undone:
it is taken for fatal, and libpulp refuses every operation from then on.
-/
namespace Libpulp

open Bytes (Byte Addr Mem Buf cstr)
open Relation (ReflTransGen)

/-- The call gets as far as `ulp_apply_all_units`, with the patch `p` recorded for the metadata `ulp`. -/
structure Reaches (env : Env) (s : State) (ulp : UlpMetadata) (p : AppliedPatch) : Prop where
  passes   : refused env s = none
  calloc   : env.calloc .metadata = true
  parsed   : parseMetadata env s = some (.ok ulp)
  type     : ulp.type = 1
  recorded : ulpStateUpdate env ulp (s.loading ulp) = some (s.recorded ulp p)

/-- What `ulp_apply_all_units` may return. -/
def applyCodes : List UlpError := [ENONE, EUNKNOWN, ENOOLDFUNC, ENONEWFUNC, ENOPATCHABLE, ENOADDRESS]

theorem applyUnit_code (env : Env) (ulp : UlpMetadata) (j : Nat) (unit : UlpUnit) (s : State) :
    (applyUnit env ulp j unit s).1 ∈ applyCodes := by
  unfold applyUnit
  simp only
  split
  · exact (by decide : ENOOLDFUNC ∈ applyCodes)
  split
  · exact (by decide : ENONEWFUNC ∈ applyCodes)
  cases getOrPushRoot env j (unitAddrs env ulp unit).1 s with
  | none => exact (by decide : EUNKNOWN ∈ applyCodes)
  | some t =>
    simp only
    split
    · exact (by decide : EUNKNOWN ∈ applyCodes)
    · unfold ulpPatchAddr
      split
      · exact (by decide : ENOPATCHABLE ∈ applyCodes)
      · exact (by decide : ENONE ∈ applyCodes)

theorem untilError_code {α : Type} {f : Nat → α → State → UlpError × State} (h : ∀ j x s, (f j x s).1 ∈ applyCodes) :
    ∀ (xs : List α) (j : Nat) (s : State), (untilError f j xs s).1 ∈ applyCodes
  | [], _, _      => (by decide : ENONE ∈ applyCodes)
  | x :: xs, j, s => by
    rw [untilError]
    split
    · exact h j x s
    · exact untilError_code h xs (j + 1) _

theorem applyReferences_code (env : Env) (ulp : UlpMetadata) (s : State) :
    (applyReferences env ulp s).1 ∈ applyCodes := by
  unfold applyReferences
  simp only
  split
  · exact (by decide : ENOADDRESS ∈ applyCodes)
  cases env.dlinfo ulp.soHandler with
  | none => exact (by decide : EUNKNOWN ∈ applyCodes)
  | some patchBase =>
    simp only
    split
    · exact (by decide : ENOADDRESS ∈ applyCodes)
    · refine untilError_code (fun i ref t => ?_) _ _ _
      unfold applyReference
      simp only
      split
      · exact (by decide : ENONEWFUNC ∈ applyCodes)
      · exact (by decide : ENONE ∈ applyCodes)

theorem ulpApplyAllUnits_code (env : Env) (ulp : UlpMetadata) (s : State) :
    (ulpApplyAllUnits env ulp s).1 ∈ applyCodes := by
  unfold ulpApplyAllUnits
  simp only
  split
  · exact untilError_code (applyUnit_code env ulp) _ _ _
  · exact applyReferences_code env ulp _

theorem returnInt_applyCode (upper : BitVec 32) {ret : UlpError} (h : ret ∈ applyCodes) :
    returnInt (returnReg upper ret) = ret := by
  have : ∀ e ∈ applyCodes, (-2 ^ 31 : Int) ≤ e ∧ e < (2 ^ 31 : Int) := by decide
  exact returnInt_returnReg upper (this ret h).1 (this ret h).2

namespace Reaches

variable {env : Env} {s : State} {ulp : UlpMetadata} {p : AppliedPatch}

theorem call (h : Reaches env s ulp p) (hr : s.metadataRef = none) :
    ulpApplyPatch env s = some ((ulpApplyAllUnits env ulp (s.recorded ulp p)).1,
      { (exitOnError (ulpApplyAllUnits env ulp (s.recorded ulp p))).2 with metadataRef := none }) := by
  have hload : loadMetadata env s = some (.ok ulp, s.loading ulp) := by
    unfold loadMetadata
    rw [hr, h.parsed]
    simp only [h.calloc]
    rfl
  have hloaded : patchLoaded env ulp (s.loading ulp) = exitOnError (ulpApplyAllUnits env ulp (s.recorded ulp p)) := by
    unfold patchLoaded
    rw [if_pos h.type, h.recorded]
  unfold ulpApplyPatch
  rw [h.passes]
  unfold loadPatch
  rw [hload]
  simp only [Option.map_some, hloaded, exitOnError_fst]

/-- **The queue after the units and the references that were done.** -/
theorem queued (h : Reaches env s ulp p) (hq : Queued s []) (hlen : s.metadataBuffer.length = ulpMetadataBufLen) :
    ∃ k l, Queued (ulpApplyAllUnits env ulp (s.recorded ulp p)).2
        ((ulp.objs.units.take k).map (unitWrite env ulp s.mem) ++ (ulp.refs.take l).map (referenceWrite env ulp)) ∧
      (ulpApplyAllUnits env ulp (s.recorded ulp p)).2.mem = s.mem ∧
      ((ulpApplyAllUnits env ulp (s.recorded ulp p)).1 = ENONE → k = ulp.objs.units.length ∧ l = ulp.refs.length) ∧
      (k = ulp.objs.units.length ∨ l = 0 ∧ ∃ u t, ulp.objs.units[k]? = some u ∧ t.mem = s.mem ∧
        (applyUnit env ulp k u t).1 ≠ ENONE) := by
  obtain ⟨k, l, hw, h₁, h₂⟩ := ulpApplyAllUnits_wrote env ulp (s.recorded ulp p)
  have hq' : Queued (s.recorded ulp p) [] := ⟨hq.noError, hq.holds⟩
  have hfits := (parseMetadata_ok h.parsed).2
  rw [hlen] at hfits
  have he := hw.fits [] hq' (patch_fits s.mem hfits k l)
  exact ⟨k, l, hw.queued [] hq' he, hw.mem, h₁, h₂⟩

end Reaches

/-! ## Failure -/

/-- In an error state every operation is refused and changes nothing. -/
theorem Operation.blocked {s : State} (h : s.errorState ≠ ENONE) (op : Operation) (env : Env) :
    op.run env s = some (s.errorState, s) := by
  have hr : refused env s = some (s.errorState, s) := if_pos h
  cases op with
  | applyPatch => simp only [run, ulpApplyPatch, hr]
  | revertPatchesFromLib fuel => simp only [run, ulpRevertPatchesFromLib, hr]

/-- **What a failure of `ulp_apply_all_units` leaves behind** when `apply_patch` returned `code`: the patch in the list,
libpulp blocked, and in memory the writes of the units before the one that failed, or, after all units, of some
references; the other functions keep their prologues.  The tool writes nothing when it takes the code for an unchanged
register. -/
structure HalfDone (env : Env) (ulp : UlpMetadata) (p : AppliedPatch) (s : State) (code : Int) (s' : State) : Prop where
  nonzero : code ≠ 0
  patches : s'.patches = p :: s.patches
  blocked : ∀ (op : Operation) (env' : Env), op.run env' s' = some (EUNKNOWN, s')
  mem     : code = EHOOKNOTRUN ∧ s'.mem = s.mem ∨ ∃ k l,
    (k = ulp.objs.units.length ∨ l = 0 ∧ ∃ u t, ulp.objs.units[k]? = some u ∧ t.mem = s.mem ∧
      (applyUnit env ulp k u t).1 ≠ ENONE) ∧
    s'.mem = ((ulp.objs.units.take k).map (unitWrite env ulp s.mem) ++
      (ulp.refs.take l).map (referenceWrite env ulp)).foldl Insn.applyTo s.mem ∧
    ∀ F, RegionsDisjoint F s.mem → (∀ u ∈ ulp.objs.units, (unitAddrs env ulp u).1 ∈ F) → ReferencesAvoid F env ulp →
      ∀ f ∈ F, (∀ u ∈ ulp.objs.units.take k, (unitAddrs env ulp u).1 ≠ f) →
        AgreeOn s.mem s'.mem (f - 14) (patchLen (hasEndbr64 s.mem f))

theorem patchWrites_agree {env : Env} {ulp : UlpMetadata} {F : Set Addr} {m : Mem} (hF : RegionsDisjoint F m)
    (hu : ∀ u ∈ ulp.objs.units, (unitAddrs env ulp u).1 ∈ F) (href : ReferencesAvoid F env ulp) (k l : Nat) {f : Addr}
    (hf : f ∈ F) (hn : ∀ u ∈ ulp.objs.units.take k, (unitAddrs env ulp u).1 ≠ f) :
    AgreeOn m (((ulp.objs.units.take k).map (unitWrite env ulp m) ++
      (ulp.refs.take l).map (referenceWrite env ulp)).foldl Insn.applyTo m) (f - 14) (patchLen (hasEndbr64 m f)) := by
  refine writes_agree hF hf _ m (fun i hi => ?_)
  rcases List.mem_append.1 hi with hi | hi
  · obtain ⟨u, hum, rfl⟩ := List.mem_map.1 hi
    exact Or.inl ⟨_, _, rfl, hu u (List.mem_of_mem_take hum), fun e => hn u hum e.symm⟩
  · obtain ⟨ref, hrm, rfl⟩ := List.mem_map.1 hi
    exact Or.inr (href.writes _ (List.mem_map_of_mem (List.mem_of_mem_take hrm)))

theorem Reaches.halfDone {env : Env} {s s' : State} {ulp : UlpMetadata} {p : AppliedPatch} {upper : BitVec 32}
    {oldRax : Addr} {code : Int} (h : Reaches env s ulp p) (hr : s.metadataRef = none) (hq : Queued s [])
    (hlen : s.metadataBuffer.length = ulpMetadataBufLen)
    (hfail : (ulpApplyAllUnits env ulp (s.recorded ulp p)).1 ≠ ENONE)
    (hrun : (ulpApplyPatch env s).bind (fun r => applyPatchStopped oldRax (returnReg upper r.1) r.2) =
      some (code, s')) : HalfDone env ulp p s code s' := by
  obtain ⟨k, l, hqd, hmem, -, hk⟩ := h.queued hq hlen
  have hcode := returnInt_applyCode upper (ulpApplyAllUnits_code env ulp (s.recorded ulp p))
  have hpatches := (ulpApplyAllUnits_patches env ulp (s.recorded ulp p)).1
  rw [h.call hr, Option.bind_some, exitOnError, if_pos hfail] at hrun
  generalize ulpApplyAllUnits env ulp (s.recorded ulp p) = r at *
  have hblocked : ∀ t : State, t.errorState = EUNKNOWN → ∀ (op : Operation) (env' : Env),
      op.run env' t = some (EUNKNOWN, t) := fun t ht op env' => by
    rw [op.blocked (by rw [ht]; decide), ht]
  change applyPatchStopped oldRax (returnReg upper r.1) { libpulpExit r.2 with metadataRef := none } = _ at hrun
  unfold applyPatchStopped at hrun
  split at hrun
  · obtain ⟨rfl, rfl⟩ := Prod.mk.inj (Option.some.inj hrun)
    exact ⟨by decide, hpatches, hblocked _ rfl, Or.inl ⟨rfl, hmem⟩⟩
  · rw [interpretAndReturn_holds (s := { libpulpExit r.2 with metadataRef := none }) hqd.holds] at hrun
    obtain ⟨rfl, rfl⟩ := Prod.mk.inj (Option.some.inj hrun)
    refine ⟨by rw [hcode]; exact hfail, hpatches, hblocked _ rfl, Or.inr ⟨k, l, hk, ?_, fun F hF hu href f hf hn => ?_⟩⟩
    · change List.foldl Insn.applyTo r.2.mem _ = _
      rw [hmem]
    · change AgreeOn s.mem (List.foldl Insn.applyTo r.2.mem _) _ _
      rw [hmem]
      exact patchWrites_agree hF hu href k l hf hn

/-! ## Success -/

theorem interpretAndReturn_zero {rax : Addr} {s s' : State} (h : interpretAndReturn rax s = some (0, s')) :
    returnInt rax = 0 := by
  obtain ⟨⟨e, t⟩, -, he⟩ := Option.map_eq_some_iff.1 h
  simp only at he
  split at he
  · rename_i hne
    exact absurd (Prod.mk.inj he).1 hne.1
  · exact (Prod.mk.inj he).1

theorem applyPatchStopped_zero {oldRax rax : Addr} {s s' : State} (h : applyPatchStopped oldRax rax s = some (0, s')) :
    interpretAndReturn rax s = some (0, s') := by
  unfold applyPatchStopped at h
  split at h
  · exact absurd (Prod.mk.inj (Option.some.inj h)).1 (by decide)
  · exact h

/-- A call that returned 0 and found the metadata of a patch to apply went through all units. -/
theorem reaches_of_zero {env : Env} {s t : State} {ulp : UlpMetadata} {upper : BitVec 32} {ret : UlpError}
    (hr : s.metadataRef = none) (hq : Queued s []) (hp : parseMetadata env s = some (.ok ulp)) (ht : ulp.type = 1)
    (hrun : ulpApplyPatch env s = some (ret, t)) (hret : returnInt (returnReg upper ret) = 0) :
    ∃ p, Reaches env s ulp p ∧ (ulpApplyAllUnits env ulp (s.recorded ulp p)).1 = ENONE := by
  have hcode : ∀ e : Int, (-2 ^ 31 : Int) ≤ e ∧ e < 2 ^ 31 → e ≠ 0 → ret ≠ e := fun e he h0 hre => by
    rw [hre, returnInt_returnReg upper he.1 he.2] at hret
    exact h0 hret
  have hg : refused env s = none := by
    cases hb : env.busy with
    | false => exact refused_eq_none hq.noError (insnqNotEmpty_eq_false hq.holds) hb
    | true =>
      obtain ⟨t', this⟩ : ∃ t', refused env s = some (EAGAIN, t') := by
        simp [refused, hq.noError, insnqNotEmpty_eq_false hq.holds, hb]
      rw [ulpApplyPatch, this] at hrun
      exact absurd (Prod.mk.inj (Option.some.inj hrun)).1.symm (hcode EAGAIN (by decide) (by decide))
  have hc : env.calloc .metadata = true := by
    cases hc : env.calloc .metadata with
    | true => rfl
    | false =>
      rw [ulpApplyPatch, hg, loadPatch, loadMetadata, hr] at hrun
      simp only [hc] at hrun
      exact absurd (Prod.mk.inj (Option.some.inj hrun)).1.symm (hcode ENOMEM (by decide) (by decide))
  cases hu : ulpStateUpdate env ulp (s.loading ulp) with
  | none =>
    have hload : loadMetadata env s = some (.ok ulp, s.loading ulp) := by
      unfold loadMetadata
      rw [hr, hp]
      simp only [hc]
      rfl
    rw [ulpApplyPatch, hg, loadPatch, hload] at hrun
    simp only [Option.map_some, patchLoaded, if_pos ht, hu] at hrun
    exact absurd (Prod.mk.inj (Option.some.inj hrun)).1.symm (hcode ESTATE (by decide) (by decide))
  | some t' =>
    obtain ⟨p, -, rfl⟩ := ulpStateUpdate_spec hu
    have h : Reaches env s ulp p := ⟨hg, hc, hp, ht, hu⟩
    refine ⟨p, h, ?_⟩
    rw [h.call hr] at hrun
    rw [← (Prod.mk.inj (Option.some.inj hrun)).1, returnInt_applyCode upper (ulpApplyAllUnits_code env ulp _)] at hret
    exact hret

theorem shownAfter_last {f : Addr} {t : Option Addr} {qs : List (Addr × Option Addr)} (h : f ∉ qs.map Prod.fst)
    (ps : List (Addr × Option Addr)) (o : Option Addr) : shownAfter (ps ++ (f, t) :: qs) f o = t := by
  rw [shownAfter_append]
  change shownAfter qs f (if f = f then t else _) = t
  rw [if_pos rfl, shownAfter_of_not_mem h]

/-- What a unit makes its function show. -/
def unitShown (env : Env) (ulp : UlpMetadata) (u : UlpUnit) : Addr × Option Addr :=
  ((unitAddrs env ulp u).1, some (unitAddrs env ulp u).2)

/-- **After all units and references the function of each unit leads to its new function**, unless a later unit
replaces it again. -/
theorem patchWrites_redirect {env : Env} {ulp : UlpMetadata} {F : Set Addr} {m : Mem} (hF : RegionsDisjoint F m)
    (hu : ∀ u ∈ ulp.objs.units, (unitAddrs env ulp u).1 ∈ F) (href : ReferencesAvoid F env ulp)
    {before after : List UlpUnit} {u : UlpUnit} (hs : ulp.objs.units = before ++ u :: after)
    (hlast : ∀ v ∈ after, (unitAddrs env ulp v).1 ≠ (unitAddrs env ulp u).1) :
    redirectTarget ((ulp.objs.units.map (unitWrite env ulp m) ++
      ulp.refs.map (referenceWrite env ulp)).foldl Insn.applyTo m) (unitAddrs env ulp u).1 =
        some (unitAddrs env ulp u).2 := by
  have hmem : u ∈ ulp.objs.units := by rw [hs]; simp
  have hf := hu u hmem
  have hps : ∀ p ∈ ulp.objs.units.map (unitShown env ulp), p.1 ∈ F := fun p hp => by
    obtain ⟨v, hv, rfl⟩ := List.mem_map.1 hp
    exact hu v hv
  have hin : (unitAddrs env ulp u).1 ∈ (ulp.objs.units.map (unitShown env ulp)).map Prod.fst :=
    List.mem_map.2 ⟨_, List.mem_map_of_mem hmem, rfl⟩
  have hshown : shownAfter (ulp.objs.units.map (unitShown env ulp)) (unitAddrs env ulp u).1 none =
      some (unitAddrs env ulp u).2 := by
    rw [hs, List.map_append, List.map_cons]
    refine shownAfter_last (fun hm => ?_) _ _
    rw [List.map_map] at hm
    obtain ⟨v, hv, he⟩ := List.mem_map.1 hm
    exact hlast v hv he
  have h := (prologueWrites_shows hF _ m hps (fun _ _ => rfl)).2 _ hf none (Or.inr hin)
  rw [hshown, List.map_map] at h
  rw [List.foldl_append]
  exact (avoiding_same _ (List.foldl Insn.applyTo m _) href.writes _ hf).2 (some _) h

theorem setMetadataBuffer_spec {metadata : List Byte} {s s₁ : State} (h : setMetadataBuffer metadata s = some s₁)
    (hlen : s.metadataBuffer.length = ulpMetadataBufLen) :
    s₁ = { s with metadataBuffer := s₁.metadataBuffer } ∧ s₁.metadataBuffer.length = ulpMetadataBufLen := by
  unfold setMetadataBuffer at h
  split at h
  · cases h
  · obtain rfl := Option.some.inj h
    refine ⟨rfl, ?_⟩
    simp only [List.length_append, List.length_drop, hlen]
    omega

/-- **Applying a patch is not undone when it fails.**  If a unit or a reference fails, `apply_patch` returns non-zero, the
patch stays in the list, what was queued before the failure is carried out and libpulp is blocked for good; if it returns
0, the function of every unit leads to the new function of its last unit, where the patch regions of these functions are
disjoint and the references stay clear of them. -/
theorem applyPatch_not_undone {env : Env} {upper : BitVec 32} {oldRax : Addr} {metadata : List Byte} {s s₁ s' : State}
    {code : Int} (hq : Queued s []) (hr : s.metadataRef = none) (hlen : s.metadataBuffer.length = ulpMetadataBufLen)
    (hset : setMetadataBuffer metadata s = some s₁) (h : applyPatch env upper oldRax metadata s = some (code, s')) :
    (∀ ulp p, Reaches env s₁ ulp p → (ulpApplyAllUnits env ulp (s₁.recorded ulp p)).1 ≠ ENONE →
      HalfDone env ulp p s code s') ∧
    (code = 0 → ∀ ulp, parseMetadata env s₁ = some (.ok ulp) → ulp.type = 1 →
      ∀ F, RegionsDisjoint F s.mem → (∀ u ∈ ulp.objs.units, (unitAddrs env ulp u).1 ∈ F) → ReferencesAvoid F env ulp →
      ∀ before u after, ulp.objs.units = before ++ u :: after →
        (∀ v ∈ after, (unitAddrs env ulp v).1 ≠ (unitAddrs env ulp u).1) →
        redirectTarget s'.mem (unitAddrs env ulp u).1 = some (unitAddrs env ulp u).2) := by
  obtain ⟨hs₁, hlen₁⟩ := setMetadataBuffer_spec hset hlen
  have hr₁ : s₁.metadataRef = none := by rw [hs₁]; exact hr
  have hq₁ : Queued s₁ [] := by rw [hs₁]; exact ⟨hq.noError, hq.holds⟩
  have hm₁ : s₁.mem = s.mem := by rw [hs₁]
  have hp₁ : s₁.patches = s.patches := by rw [hs₁]
  rw [applyPatch, hset] at h
  simp only at h
  refine ⟨fun ulp p hreach hfail => ?_, fun h0 ulp hp ht F hF hu href before u after hs hlast => ?_⟩
  · obtain ⟨h₁, h₂, h₃, h₄⟩ := hreach.halfDone hr₁ hq₁ hlen₁ hfail h
    rw [hm₁] at h₄
    exact ⟨h₁, hp₁ ▸ h₂, h₃, h₄⟩
  · subst h0
    obtain ⟨⟨ret, t⟩, hcall, hstop⟩ := Option.bind_eq_some_iff.1 h
    have hint := applyPatchStopped_zero hstop
    obtain ⟨p, hreach, hok⟩ := reaches_of_zero hr₁ hq₁ hp ht hcall (interpretAndReturn_zero hint)
    obtain ⟨k, l, hqd, hmem, hkl, -⟩ := hreach.queued hq₁ hlen₁
    obtain ⟨rfl, rfl⟩ := hkl hok
    rw [List.take_length, List.take_length] at hqd
    rw [hreach.call hr₁, exitOnError, if_neg (not_not.2 hok)] at hcall
    obtain ⟨rfl, rfl⟩ := Prod.mk.inj (Option.some.inj hcall)
    rw [interpretAndReturn_holds (s := { (ulpApplyAllUnits env ulp (s₁.recorded ulp p)).2 with metadataRef := none })
      hqd.holds] at hint
    obtain ⟨-, rfl⟩ := Prod.mk.inj (Option.some.inj hint)
    change redirectTarget (List.foldl Insn.applyTo (ulpApplyAllUnits env ulp _).2.mem _) _ = _
    rw [hmem, hm₁]
    exact patchWrites_redirect hF hu href hs hlast

/-- The metadata as the tool hands it over. -/
def demoMetadata (i : Byte) (lib : List Byte) (units : List UlpUnit) (refs : List UlpReference) : List Byte :=
  spliceContainerPath (createPatchMetadataFile (demoPatch i lib units [] refs)) [47]

theorem demo_set {s : State} (hb : s.metadataBuffer = List.replicate ulpMetadataBufLen 0) {i : Byte} {lib : List Byte}
    {units : List UlpUnit} {refs : List UlpReference} (hfit : (demoMetadata i lib units refs).length < ulpMetadataBufLen) :
    setMetadataBuffer (demoMetadata i lib units refs) s =
      some { s with metadataBuffer := bufferOf (createPatchMetadataFile (demoPatch i lib units [] refs)) } := by
  unfold setMetadataBuffer
  rw [if_neg (Nat.not_le_of_lt hfit), hb, List.drop_replicate]
  rfl

/-- One unit is applied. -/
theorem applyPatch_not_undone_one : ∃ s', applyPatch demoEnv 0 0 (demoMetadata 1 [108] [demoUnit] []) demoStart =
    some (0, s') ∧ redirectTarget s'.mem 0x5000 = some 0x9000 := by
  have hfit : (demoMetadata 1 [108] [demoUnit] []).length < ulpMetadataBufLen := by decide
  have hset := demo_set (s := demoStart) rfl hfit
  obtain ⟨p, t, -, hcall, hqd, -⟩ := @demo_called [] (fun r hr => by cases hr) (Nat.le_of_lt hfit) (by decide)
  obtain ⟨s', happ⟩ : ∃ s', applyPatch demoEnv 0 0 (demoMetadata 1 [108] [demoUnit] []) demoStart = some (0, s') := by
    rw [applyPatch, hset]
    change ∃ s', (ulpApplyPatch demoEnv (demoLoading [])).bind _ = some (0, s')
    rw [hcall, Option.bind_some]
    exact ⟨_, interpretAndReturn_holds (s := { t with metadataRef := none }) hqd.holds 0⟩
  have hload := demo_loads (demoLoading_ready []) (Nat.le_of_lt hfit) rfl (fun d hd => by cases hd)
    (fun q hq => by cases hq)
  refine ⟨s', happ, ?_⟩
  exact (applyPatch_not_undone ⟨rfl, queueHolds_empty _⟩ rfl List.length_replicate hset happ).2 rfl _ hload rfl {0x5000}
    (demo_disjoint _) (fun u hu => by obtain rfl := List.mem_singleton.1 hu; rfl) (fun r hr => by cases hr) []
    demoUnit.parsed [] rfl (fun v hv => by cases hv)

/-- A unit that replaces `g` by `m`. -/
def secondUnit : UlpUnit := { oldFname := [103], newFname := [109], oldFaddr := 0 }

/-- The process at start-up, with a function `g` that has no NOPs at its entry. -/
def demoUnprepared : State := { demoStart with mem := demoMem.write 0x6000 [0x55, 0x48] }

/-- The two units of a patch for `f` and `g`: the first is done, the second fails. -/
theorem demo_half {s : State} (hm : s.mem = demoUnprepared.mem) :
    (ulpApplyAllUnits demoEnv (demoLoaded 1 [108] [demoUnit, secondUnit] [] []) s).1 = ENOPATCHABLE ∧
      Wrote [prologueWrite s.mem 0x5000 (some 0x9000)] s
        (ulpApplyAllUnits demoEnv (demoLoaded 1 [108] [demoUnit, secondUnit] [] []) s).2 := by
  have h₁ : (applyUnit demoEnv (demoLoaded 1 [108] [demoUnit, secondUnit] [] []) 0 demoUnit.parsed
      { s with globalUniverse := s.globalUniverse + 1 }).1 = ENONE :=
    (applyUnit_resolved (fun _ => rfl) 0 (by decide) (by decide) _).trans (if_pos (by
      change livepatchable s.mem 0x5000 = true
      rw [hm]
      decide))
  have hw₁ := applyUnit_wrote h₁
  have h₂ : (applyUnit demoEnv (demoLoaded 1 [108] [demoUnit, secondUnit] [] []) 1 secondUnit.parsed
      (applyUnit demoEnv (demoLoaded 1 [108] [demoUnit, secondUnit] [] []) 0 demoUnit.parsed
        { s with globalUniverse := s.globalUniverse + 1 }).2).1 = ENOPATCHABLE :=
    (applyUnit_resolved (fun _ => rfl) 1 (by decide) (by decide) _).trans (if_neg (by
      rw [hw₁.mem]
      change ¬ livepatchable s.mem 0x6000 = true
      rw [hm]
      decide))
  have hne : ENOPATCHABLE ≠ ENONE := by decide
  have hw₂ := applyUnit_failed (h₂.trans_ne hne)
  have hun : untilError (applyUnit demoEnv (demoLoaded 1 [108] [demoUnit, secondUnit] [] [])) 0
      (demoLoaded 1 [108] [demoUnit, secondUnit] [] []).objs.units { s with globalUniverse := s.globalUniverse + 1 } =
      applyUnit demoEnv (demoLoaded 1 [108] [demoUnit, secondUnit] [] []) 1 secondUnit.parsed
        (applyUnit demoEnv (demoLoaded 1 [108] [demoUnit, secondUnit] [] []) 0 demoUnit.parsed
          { s with globalUniverse := s.globalUniverse + 1 }).2 := by
    change untilError _ 0 [demoUnit.parsed, secondUnit.parsed] _ = _
    rw [untilError, if_neg (not_not.2 h₁), untilError, if_pos (h₂.trans_ne hne)]
  unfold ulpApplyAllUnits
  simp only [hun]
  rw [if_pos (h₂.trans_ne hne)]
  exact ⟨h₂, (hw₁.trans hw₂).congr rfl rfl rfl rfl rfl rfl⟩

theorem demo_half_called : ∃ s₁ p s',
    setMetadataBuffer (demoMetadata 1 [108] [demoUnit, secondUnit] []) demoUnprepared = some s₁ ∧
    Reaches demoEnv s₁ (demoLoaded 1 [108] [demoUnit, secondUnit] [] []) p ∧
    (ulpApplyAllUnits demoEnv (demoLoaded 1 [108] [demoUnit, secondUnit] [] [])
      (s₁.recorded (demoLoaded 1 [108] [demoUnit, secondUnit] [] []) p)).1 ≠ ENONE ∧
    applyPatch demoEnv 0 0 (demoMetadata 1 [108] [demoUnit, secondUnit] []) demoUnprepared = some (ENOPATCHABLE, s') ∧
    s'.mem = demoUnprepared.mem.write (0x5000 - 14) (patchedPrologue false 0x9000) ∧ s'.patches = [p] := by
  have hfit : (demoMetadata 1 [108] [demoUnit, secondUnit] []).length < ulpMetadataBufLen := by decide +kernel
  have hset := demo_set (s := demoUnprepared) rfl hfit
  generalize hs₁ : ({ demoUnprepared with metadataBuffer := bufferOf (createPatchMetadataFile
    (demoPatch 1 [108] [demoUnit, secondUnit] [] [])) } : State) = s₁ at hset
  have hready : Ready s₁ := by
    rw [← hs₁]
    refine ⟨rfl, rfl, rfl, fun o h₁ h₂ => ?_⟩
    cases o with
    | mk len check id name nunits units =>
      cases h₁
      cases h₂
      cases check <;> rfl
  have hmem : s₁.mem = demoUnprepared.mem := by rw [← hs₁]
  have hpat : s₁.patches = [] := by rw [← hs₁]; rfl
  have hq₁ : Queued s₁ [] := by rw [← hs₁]; exact ⟨rfl, queueHolds_empty _⟩
  have hload := demo_loads hready (Nat.le_of_lt hfit) (by rw [← hs₁]) (fun d hd => by cases hd)
    (fun q hq => by rw [hpat] at hq; cases hq)
  obtain ⟨p, -, hup⟩ := @ulpStateUpdate_ok demoEnv (demoLoaded 1 [108] [demoUnit, secondUnit] [] [])
    (s₁.loading _) (fun _ => rfl) (by
      intro u hu
      rcases List.mem_cons.1 hu with rfl | hu
      · exact ⟨by decide, by decide⟩
      · obtain rfl := List.mem_singleton.1 hu
        exact ⟨by decide, by decide⟩)
  have hreach : Reaches demoEnv s₁ _ p := ⟨hready.refused, rfl, hload, rfl, hup⟩
  obtain ⟨hcode, hw⟩ := demo_half (s := s₁.recorded (demoLoaded 1 [108] [demoUnit, secondUnit] [] []) p) hmem
  have hq' : Queued (s₁.recorded (demoLoaded 1 [108] [demoUnit, secondUnit] [] []) p) [] := ⟨hq₁.noError, hq₁.holds⟩
  have hne : ENOPATCHABLE ≠ ENONE := by decide
  have hsize := prologueWrite_size_le s₁.mem 0x5000 (some 0x9000)
  have hmax : insnBufferMax = 2097152 := rfl
  have hqd := hw.queued [] hq' (hw.fits [] hq' (by
    change insnsSize [prologueWrite s₁.mem 0x5000 (some 0x9000)] ≤ _
    rw [insnsSize_cons, insnsSize_nil]
    omega))
  have hpatches := (ulpApplyAllUnits_patches demoEnv (demoLoaded 1 [108] [demoUnit, secondUnit] [] [])
    (s₁.recorded (demoLoaded 1 [108] [demoUnit, secondUnit] [] []) p)).1
  have hcall := hreach.call hready.metadataRef
  rw [exitOnError, if_pos (hcode.trans_ne hne), hcode] at hcall
  have hfail := hcode.trans_ne hne
  generalize (ulpApplyAllUnits demoEnv (demoLoaded 1 [108] [demoUnit, secondUnit] [] [])
    (s₁.recorded (demoLoaded 1 [108] [demoUnit, secondUnit] [] []) p)).2 = t at hw hqd hpatches hcall
  have happ : applyPatch demoEnv 0 0 (demoMetadata 1 [108] [demoUnit, secondUnit] []) demoUnprepared =
      interpretAndReturn (returnReg 0 ENOPATCHABLE) { libpulpExit t with metadataRef := none } := by
    rw [applyPatch, hset]
    simp only
    rw [hcall, Option.bind_some]
    exact if_neg (fun h => h.1 h.2.2)
  refine ⟨s₁, p, _, hset, hreach, hfail,
    happ.trans (interpretAndReturn_holds (s := { libpulpExit t with metadataRef := none }) hqd.holds _), ?_, ?_⟩
  · change Mem.write t.mem (0x5000 - 14) (patchedPrologue (hasEndbr64 s₁.mem 0x5000) _) = _
    rw [hw.mem]
    change Mem.write s₁.mem _ _ = _
    rw [hmem]
    rfl
  · change t.patches = [p]
    rw [hpatches]
    change p :: s₁.patches = [p]
    rw [hpat]

/-- **A patch whose second unit fails stays half applied**: `apply_patch` returns `ENOPATCHABLE`, the first function
leads to its new function and the patch is in the list. -/
theorem applyPatch_half_applied : ¬ ∀ (env : Env) (upper : BitVec 32) (oldRax : Addr) (metadata : List Byte)
    (s s₁ s' : State) (code : Int), Queued s [] → s.metadataRef = none → s.metadataBuffer.length = ulpMetadataBufLen →
    setMetadataBuffer metadata s = some s₁ → applyPatch env upper oldRax metadata s = some (code, s') →
    ∀ ulp p, Reaches env s₁ ulp p → (ulpApplyAllUnits env ulp (s₁.recorded ulp p)).1 ≠ ENONE →
      (∀ f, redirectTarget s'.mem f = redirectTarget s.mem f) ∧ p ∉ s'.patches := by
  intro hall
  obtain ⟨s₁, p, s', hset, hreach, hfail, happ, hm, hp⟩ := demo_half_called
  obtain ⟨h₁, -⟩ := hall demoEnv 0 0 _ demoUnprepared s₁ s' _ ⟨rfl, queueHolds_empty _⟩ rfl List.length_replicate hset
    happ _ p hreach hfail
  have hr := (patched_redirects demoUnprepared.mem 0x5000 0x9000 false).2
  rw [← hm, h₁ 0x5000] at hr
  exact absurd hr (by decide)

/-! ## Rejection -/

/-- Nothing of a request is left: the lists, the counters, the queue and the error state are as before, and no metadata
is loaded. -/
structure NoTrace (s s' : State) : Prop where
  patches          : s'.patches = s.patches
  roots            : s'.roots = s.roots
  globalUniverse   : s'.globalUniverse = s.globalUniverse
  rootIndexCounter : s'.rootIndexCounter = s.rootIndexCounter
  queue            : s'.queue = s.queue
  errorState       : s'.errorState = s.errorState
  metadataRef      : s'.metadataRef = none

/-- Once the metadata is loaded, every exit before `ulp_apply_all_units` but that of a revert leaves only it. -/
theorem patchLoaded_noTrace {env : Env} {s : State} {ulp : UlpMetadata}
    (hret : (patchLoaded env ulp (s.loading ulp)).1 ≠ ENONE)
    (hnot : ulp.type = 1 → ulpStateUpdate env ulp (s.loading ulp) = none) :
    NoTrace s { (patchLoaded env ulp (s.loading ulp)).2 with metadataRef := none } := by
  have hsame : NoTrace s { s.loading ulp with metadataRef := none } := ⟨rfl, rfl, rfl, rfl, rfl, rfl, rfl⟩
  unfold patchLoaded at hret ⊢
  split
  · rename_i h1
    rw [hnot h1]
    exact hsame
  rename_i h1
  rw [if_neg h1] at hret
  split
  · rename_i h2
    rw [if_pos h2] at hret
    split
    · exact hsame
    · rename_i hcan
      -- a patch that may be reverted is applied, so removing it does not fail
      rw [if_neg hcan, ulpRevertPatch_ret, if_pos] at hret
      · exact absurd rfl hret
      · exact ulpGetAppliedPatch_isSome.2 (ulpCanRevertPatch_eq_zero.1 (not_not.1 hcan)).1
  · split <;> exact hsame

theorem ulpApplyPatch_noTrace {env : Env} {s s' : State} {ret : UlpError} (hr : s.metadataRef = none)
    (he : s.errorState = ENONE) (hq : insnqNotEmpty s.queue = false) (hload : lockSane env.loadLock = true)
    (hwrite : lockSane env.loadWriteLock = true) (hcall : ulpApplyPatch env s = some (ret, s')) (hret : ret ≠ ENONE)
    (hnot : ¬ ∃ ulp p, Reaches env s ulp p) : NoTrace s s' := by
  have hsame : NoTrace s s := ⟨rfl, rfl, rfl, rfl, rfl, rfl, hr⟩
  unfold ulpApplyPatch at hcall
  cases hb : env.busy with
  | true =>
    have hg : refused env s = some (EAGAIN, s) := by simp [refused, he, hq, hb, libpulpAssert, hload, hwrite]
    rw [hg] at hcall
    cases hcall
    exact hsame
  | false =>
    have hg := refused_eq_none he hq hb
    rw [hg] at hcall
    simp only [loadPatch, loadMetadata, hr] at hcall
    cases hc : env.calloc .metadata with
    | false =>
      simp only [hc] at hcall
      cases hcall
      exact hsame
    | true =>
      simp only [hc] at hcall
      cases hp : parseMetadata env s with
      | none => rw [hp] at hcall; cases hcall
      | some r =>
        rw [hp] at hcall
        cases r with
        | error e =>
          cases hcall
          exact ⟨rfl, rfl, rfl, rfl, rfl, rfl, rfl⟩
        | ok ulp =>
          cases hcall
          refine patchLoaded_noTrace hret (fun h1 => ?_)
          cases hu : ulpStateUpdate env ulp (s.loading ulp) with
          | none => rfl
          | some t =>
            obtain ⟨p, -, rfl⟩ := ulpStateUpdate_spec hu
            exact absurd ⟨ulp, p, hg, hc, hp, h1, hu⟩ hnot

/-- **Rejected requests leave no trace.**  In every reachable state without an error and with an empty queue, whatever
the metadata buffer holds: if `__ulp_apply_patch` returns an error without having got as far as `ulp_apply_all_units`,
nothing has changed. -/
theorem rejected_noTrace {s₀ s s' : State} {env : Env} {buffer : List Byte} {ret : UlpError} (h₀ : s₀.Start)
    (hrun : ReflTransGen Step s₀ s) (he : s.errorState = ENONE) (hq : insnqNotEmpty s.queue = false)
    (hload : lockSane env.loadLock = true) (hwrite : lockSane env.loadWriteLock = true)
    (hcall : ulpApplyPatch env { s with metadataBuffer := buffer } = some (ret, s')) (hret : ret ≠ ENONE)
    (hnot : ¬ ∃ ulp p, Reaches env { s with metadataBuffer := buffer } ulp p) : NoTrace s s' := by
  have hr := (applied_of_run h₀ hrun).metadataRef
  obtain ⟨h₁, h₂, h₃, h₄, h₅, h₆, h₇⟩ :=
    ulpApplyPatch_noTrace (s := { s with metadataBuffer := buffer }) hr he hq hload hwrite hcall hret hnot
  exact ⟨h₁, h₂, h₃, h₄, h₅, h₆, h₇⟩

/-- The process of `demoPatched` when it is handed a patch whose container has no function `x`. -/
def demoMissing (p : AppliedPatch) (b : Buf) : State :=
  { demoPatched p b with metadataBuffer := bufferOf (createPatchMetadataFile (demoPatch 2 [108] [unitTo 120] [] [])) }

/-- A patch whose new function is missing, where another one is applied. -/
theorem rejected_noTrace_missing : ∃ p b s', ReflTransGen Step demoStart (demoMissing p b) ∧
    ulpApplyPatch demoEnv (demoMissing p b) = some (ESTATE, s') ∧ (demoMissing p b).patches = [p] ∧
    NoTrace (demoMissing p b) s' := by
  obtain ⟨p, t, b, hp, happ, -, -, htool⟩ := demo_patched
  have hrun : ReflTransGen Step demoStart (demoMissing p b) := by
    have h₁ : Step demoStart (demoLoading []) := Step.outside demoStart _ _ _ demoLoading_fits
    have h₂ : Step (demoLoading []) t := .apply demoEnv ENONE happ
    have h₃ : Step t (demoMissing p b) := by
      rw [demoMissing, insnqInterpretFromProcess_outside htool]
      exact Step.outside t _ _ _ (length_bufferOf (by decide))
    exact .tail (.tail (.single h₁) h₂) h₃
  have hready : Ready (demoMissing p b) := ⟨rfl, rfl, rfl, (demoPatched_ready p b).buildId⟩
  have hid : p.patchId = Vector.replicate 32 1 := hp.patchId
  have hload := @demo_loads (demoMissing p b) hready 2 [108] [unitTo 120] [] [] (by decide) rfl (fun d hd => by cases hd)
    (fun q hq => by
      obtain rfl := List.mem_singleton.1 hq
      rw [hid]
      decide)
  have hnone : ulpStateUpdate demoEnv (demoLoaded 2 [108] [unitTo 120] [] [])
      ((demoMissing p b).loading (demoLoaded 2 [108] [unitTo 120] [] [])) = none := rfl
  have hcall : ulpApplyPatch demoEnv (demoMissing p b) = some (ESTATE,
      { (demoMissing p b).loading (demoLoaded 2 [108] [unitTo 120] [] []) with metadataRef := none }) := by
    unfold ulpApplyPatch loadPatch loadMetadata
    rw [hready.refused, hready.metadataRef, hload]
    rfl
  refine ⟨p, b, _, hrun, hcall, rfl, rejected_noTrace demoStart_start hrun rfl rfl rfl rfl hcall (by decide) ?_⟩
  rintro ⟨ulp, q, h⟩
  cases h.parsed.symm.trans hload
  exact absurd (h.recorded.symm.trans hnone) (by simp)

end Libpulp
