import Libpulp.ApplyPatch
import Mathlib.Data.Option.Basic
/-!
# Outcome — what becomes of a request to `__ulp_apply_patch`

The locks, the allocator, the loader and the metadata decide whether a request is carried out (`Accepted`) or turned down
before anything is recorded (`Rejected`).  Between the two lies the patch that is recorded and then fails.
-/
namespace Libpulp

open Bytes (Byte Addr Mem cstr)

/-! ## The conditions -/

/-- libpulp gets as far as the metadata. -/
structure Admits (env : Env) (s : State) : Prop where
  errorState : s.errorState = ENONE
  queue      : insnqNotEmpty s.queue = false
  free       : env.busy = false
  calloc     : env.calloc .metadata = true

/-- There is memory to record the patch, and the loader finds the functions of its units. -/
structure Recordable (env : Env) (ulp : UlpMetadata) : Prop where
  calloc : env.calloc .appliedPatch = true ∧ env.calloc .libName = true ∧ env.calloc .containerName = true
  deps   : ∀ i < ulp.deps.length, env.calloc (.appliedDep i) = true
  units  : ∀ i u, ulp.objs.units[i]? = some u →
    env.calloc (.appliedUnit i) = true ∧ (unitAddrs env ulp u).1 ≠ 0 ∧ (unitAddrs env ulp u).2 ≠ 0

/-- The unit at position `j` can be applied: its functions are found, there is memory for the detour and, unless the
function is one of the `known`, for its root, and the function can be patched. -/
structure UnitFits (env : Env) (ulp : UlpMetadata) (mem : Mem) (known : List Addr) (j : Nat) (unit : UlpUnit) : Prop where
  oldFun    : (unitAddrs env ulp unit).1 ≠ 0
  newFun    : (unitAddrs env ulp unit).2 ≠ 0
  root      : (unitAddrs env ulp unit).1 ∈ known ∨ env.calloc (.root j) = true
  detour    : env.calloc (.detour j) = true
  patchable : livepatchable mem (unitAddrs env ulp unit).1 = true

/-- The units from position `j` on can be applied one after the other. -/
def UnitsFit (env : Env) (ulp : UlpMetadata) (mem : Mem) : List Addr → Nat → List UlpUnit → Prop
  | _, _, []                => True
  | known, j, unit :: units =>
    UnitFits env ulp mem known j unit ∧ UnitsFit env ulp mem ((unitAddrs env ulp unit).1 :: known) (j + 1) units

/-- The two objects are found, and so are the references that are given by name. -/
structure ReferencesFit (env : Env) (ulp : UlpMetadata) : Prop where
  base   : env.getLoadedLibraryBaseAddr (getBasename (cstr ulp.objs.name)) ≠ 0xFF
  linked : ∃ l, env.dlinfo ulp.soHandler = some l ∧ l ≠ 0
  refs   : ∀ r ∈ ulp.refs, r.patchOffset = 0 → env.loadSoSymbol (cstr r.referenceName) ulp.soHandler ≠ 0

/-- The metadata is that of a patch that can be recorded and applied, or of one that can be reverted. -/
def Accepted (env : Env) (s : State) : Prop :=
  Admits env s ∧ ∃ ulp, parseMetadata env s = some (.ok ulp) ∧
    (ulp.type = 1 ∧ Recordable env ulp ∧ UnitsFit env ulp s.mem (s.roots.map (·.patchedAddr)) 0 ulp.objs.units ∧
        ReferencesFit env ulp ∨
      ulp.type = 2 ∧ ulpCanRevertPatch s ulp.patchId = ENONE)

/-- libpulp does not get to the metadata, cannot make sense of it, or turns the patch down without recording it. -/
def Rejected (env : Env) (s : State) : Prop :=
  ¬ Admits env s ∨ (∃ e, parseMetadata env s = some (.error e)) ∨
    ∃ ulp, parseMetadata env s = some (.ok ulp) ∧ (ulp.type = 1 → ¬ Recordable env ulp) ∧
      (ulp.type = 2 → ulpCanRevertPatch s ulp.patchId ≠ ENONE)

/-! ## Recording -/

theorem updateUnit_isSome {env : Env} {ulp : UlpMetadata} {mem : Mem} {j : Nat} {unit : UlpUnit} :
    (updateUnit env ulp mem j unit).isSome = true ↔
      env.calloc (.appliedUnit j) = true ∧ (unitAddrs env ulp unit).1 ≠ 0 ∧ (unitAddrs env ulp unit).2 ≠ 0 := by
  unfold updateUnit
  simp only
  cases hc : env.calloc (.appliedUnit j) with
  | false => exact ⟨fun h => (by cases h), fun h => absurd h.1 (by decide)⟩
  | true =>
    rw [if_neg (by decide)]
    split
    · rename_i h₁
      exact ⟨fun h => (by cases h), fun h => absurd h₁ h.2.1⟩
    rename_i h₁
    split
    · rename_i h₂
      exact ⟨fun h => (by cases h), fun h => absurd h₂ h.2.2⟩
    · rename_i h₂
      exact ⟨fun _ => ⟨rfl, h₁, h₂⟩, fun _ => rfl⟩

theorem updateUnits_isSome {env : Env} {ulp : UlpMetadata} {mem : Mem} : ∀ {units : List UlpUnit} {j : Nat},
    (updateUnits env ulp mem j units).isSome = true ↔ ∀ i u, units[i]? = some u →
      env.calloc (.appliedUnit (j + i)) = true ∧ (unitAddrs env ulp u).1 ≠ 0 ∧ (unitAddrs env ulp u).2 ≠ 0
  | [], j            => by simp [updateUnits]
  | unit :: units, j => by
    have ih := @updateUnits_isSome env ulp mem units (j + 1)
    have hu := @updateUnit_isSome env ulp mem j unit
    have hcons : (updateUnits env ulp mem j (unit :: units)).isSome = true ↔
        (updateUnit env ulp mem j unit).isSome = true ∧ (updateUnits env ulp mem (j + 1) units).isSome = true := by
      rw [updateUnits]
      cases updateUnit env ulp mem j unit <;> cases updateUnits env ulp mem (j + 1) units <;> simp
    rw [hcons, hu, ih]
    constructor
    · rintro ⟨h0, hrest⟩ i u hi
      cases i with
      | zero =>
        obtain rfl : unit = u := by simpa using hi
        exact h0
      | succ i =>
        rw [List.getElem?_cons_succ] at hi
        rw [show j + (i + 1) = j + 1 + i by omega]
        exact hrest i u hi
    · intro h
      refine ⟨h 0 unit rfl, fun i u hi => ?_⟩
      rw [show j + 1 + i = j + (i + 1) by omega]
      exact h (i + 1) u hi

/-- **`ulp_state_update` succeeds exactly when the patch can be recorded.** -/
theorem ulpStateUpdate_isSome {env : Env} {ulp : UlpMetadata} {s : State} :
    (ulpStateUpdate env ulp s).isSome = true ↔ Recordable env ulp := by
  have hu := @updateUnits_isSome env ulp s.mem ulp.objs.units 0
  simp only [Nat.zero_add] at hu
  constructor
  · intro h
    obtain ⟨t, ht⟩ := Option.isSome_iff_exists.1 h
    simp only [ulpStateUpdate, Option.bind_eq_bind, Option.bind_eq_some_iff, Option.pure_def, Option.some.injEq] at ht
    obtain ⟨⟨⟩, h₁, ⟨⟩, h₂, units, h₃, -⟩ := ht
    simp only [Option.guard_eq_some', Bool.and_eq_true, List.all_eq_true, List.mem_range] at h₁ h₂
    exact ⟨⟨h₁.1.1, h₁.1.2, h₁.2⟩, h₂, hu.1 (by rw [h₃]; rfl)⟩
  · rintro ⟨⟨h₁, h₂, h₃⟩, hdeps, hunits⟩
    obtain ⟨units, h₄⟩ := Option.isSome_iff_exists.1 (hu.2 hunits)
    have hall : (List.range ulp.deps.length).all (fun i => env.calloc (.appliedDep i)) = true :=
      List.all_eq_true.2 (fun i hi => hdeps i (List.mem_range.1 hi))
    unfold ulpStateUpdate
    rw [h₁, h₂, h₃, hall, h₄]
    rfl

/-! ## Units and references -/

theorem mem_addrs {s : State} {addr : Addr} :
    addr ∈ s.roots.map (·.patchedAddr) ↔ s.roots.any (·.patchedAddr == addr) = true := by
  rw [List.mem_map, List.any_eq_true]
  exact ⟨fun ⟨r, hr, he⟩ => ⟨r, hr, beq_iff_eq.2 he⟩, fun ⟨r, hr, he⟩ => ⟨r, hr, beq_iff_eq.1 he⟩⟩

theorem getOrPushRoot_isSome {env : Env} {j : Nat} {addr : Addr} {s : State} :
    (getOrPushRoot env j addr s).isSome = true ↔ addr ∈ s.roots.map (·.patchedAddr) ∨ env.calloc (.root j) = true := by
  unfold getOrPushRoot
  rw [mem_addrs]
  by_cases h : s.roots.any (·.patchedAddr == addr) = true
  · rw [if_pos h]
    exact ⟨fun _ => Or.inl h, fun _ => rfl⟩
  · rw [if_neg h]
    cases hc : env.calloc (.root j) with
    | false => exact ⟨fun h' => (by cases h'), fun h' => absurd h' (by simp [h])⟩
    | true => exact ⟨fun _ => Or.inr rfl, fun _ => rfl⟩

theorem applyUnit_eq_zero {env : Env} {ulp : UlpMetadata} {j : Nat} {unit : UlpUnit} {s : State} :
    (applyUnit env ulp j unit s).1 = ENONE ↔ UnitFits env ulp s.mem (s.roots.map (·.patchedAddr)) j unit := by
  constructor
  · intro h
    obtain ⟨h₁, h₂, hl, -⟩ := applyUnit_eq env ulp j unit s h
    unfold applyUnit at h
    simp only [if_neg h₁, if_neg h₂] at h
    cases hr : getOrPushRoot env j (unitAddrs env ulp unit).1 s with
    | none =>
      rw [hr] at h
      exact absurd h (by decide : EUNKNOWN ≠ ENONE)
    | some t =>
      refine ⟨h₁, h₂, getOrPushRoot_isSome.1 (by rw [hr]; rfl), ?_, hl⟩
      by_contra hd
      rw [hr] at h
      simp only [Bool.not_eq_true] at hd
      simp only [hd] at h
      exact absurd h (by decide : EUNKNOWN ≠ ENONE)
  · rintro ⟨h₁, h₂, hroot, hd, hl⟩
    obtain ⟨t, ht⟩ := Option.isSome_iff_exists.1 (getOrPushRoot_isSome.2 hroot)
    unfold applyUnit
    simp only [if_neg h₁, if_neg h₂, ht, hd]
    obtain ⟨roots, counter, rfl⟩ := getOrPushRoot_same ht
    simp only [ulpPatchAddr, hl]
    rfl

theorem UnitsFit.congr {env : Env} {ulp : UlpMetadata} {mem : Mem} : ∀ {units : List UlpUnit} {known known' : List Addr}
    {j : Nat}, (∀ a, a ∈ known ↔ a ∈ known') →
      (UnitsFit env ulp mem known j units ↔ UnitsFit env ulp mem known' j units)
  | [], _, _, _, _                   => Iff.rfl
  | unit :: units, known, known', j, h => by
    have hhead : UnitFits env ulp mem known j unit ↔ UnitFits env ulp mem known' j unit :=
      ⟨fun ⟨h₁, h₂, hr, hd, hl⟩ => ⟨h₁, h₂, hr.imp_left (h _).1, hd, hl⟩,
        fun ⟨h₁, h₂, hr, hd, hl⟩ => ⟨h₁, h₂, hr.imp_left (h _).2, hd, hl⟩⟩
    have htail := @UnitsFit.congr env ulp mem units ((unitAddrs env ulp unit).1 :: known)
      ((unitAddrs env ulp unit).1 :: known') (j + 1) (fun a => by rw [List.mem_cons, List.mem_cons, h])
    rw [UnitsFit, UnitsFit, hhead, htail]

theorem applyUnits_eq_zero {env : Env} {ulp : UlpMetadata} : ∀ {units : List UlpUnit} {j : Nat} {s : State},
    (untilError (applyUnit env ulp) j units s).1 = ENONE ↔
      UnitsFit env ulp s.mem (s.roots.map (·.patchedAddr)) j units
  | [], _, _            => ⟨fun _ => trivial, fun _ => rfl⟩
  | unit :: units, j, s => by
    rw [untilError, UnitsFit, ← applyUnit_eq_zero]
    by_cases h : (applyUnit env ulp j unit s).1 = ENONE
    · have happ := applyUnit_applied env ulp j unit s h
      have hroots : (applyUnit env ulp j unit s).2.roots =
          (pushUnit ulp.patchId s.globalUniverse (s.roots, s.rootIndexCounter) (unitAddrs env ulp unit)).1 :=
        congrArg Prod.fst happ.roots
      rw [if_neg (not_not.2 h), applyUnits_eq_zero, happ.mem, and_iff_right h]
      refine UnitsFit.congr (fun a => ?_)
      rw [hroots, addrs_pushUnit, List.mem_cons, or_comm]
    · rw [if_pos h]
      exact ⟨fun h' => absurd h' h, fun h' => absurd h'.1 h⟩

theorem untilError_eq_zero {α : Type} {f : Nat → α → State → UlpError × State} {P : α → Prop}
    (hf : ∀ j x s, (f j x s).1 = ENONE ↔ P x) : ∀ {xs : List α} {j : Nat} {s : State},
      (untilError f j xs s).1 = ENONE ↔ ∀ x ∈ xs, P x
  | [], _, _      => ⟨fun _ x hx => (by cases hx), fun _ => rfl⟩
  | x :: xs, j, s => by
    rw [untilError, List.forall_mem_cons, ← hf j x s]
    by_cases h : (f j x s).1 = ENONE
    · rw [if_neg (not_not.2 h), untilError_eq_zero hf, and_iff_right h]
    · rw [if_pos h]
      exact ⟨fun h' => absurd h' h, fun h' => absurd h'.1 h⟩

theorem applyReferences_eq_zero {env : Env} {ulp : UlpMetadata} {s : State} :
    (applyReferences env ulp s).1 = ENONE ↔ ReferencesFit env ulp := by
  unfold applyReferences
  simp only
  split
  · rename_i hb
    exact ⟨fun h => absurd h (by decide : ENOADDRESS ≠ ENONE), fun h => absurd hb h.base⟩
  rename_i hb
  cases hl : env.dlinfo ulp.soHandler with
  | none =>
    refine ⟨fun h => absurd h (by decide : EUNKNOWN ≠ ENONE), fun h => ?_⟩
    obtain ⟨l, h₁, -⟩ := h.linked
    rw [hl] at h₁
    cases h₁
  | some patchBase =>
    simp only
    split
    · rename_i h0
      refine ⟨fun h => absurd h (by decide : ENOADDRESS ≠ ENONE), fun h => ?_⟩
      obtain ⟨l, h₁, h₂⟩ := h.linked
      rw [hl] at h₁
      exact absurd (Option.some.inj h₁ ▸ h0) h₂
    · rename_i h0
      have hone : ∀ (i : Nat) (r : UlpReference) (t : State), (applyReference env ulp
          (env.getLoadedLibraryBaseAddr (getBasename (cstr ulp.objs.name)))
          (env.getLoadedLibraryTlsIndex (getBasename (cstr ulp.objs.name))) patchBase i r t).1 = ENONE ↔
            (r.patchOffset = 0 → env.loadSoSymbol (cstr r.referenceName) ulp.soHandler ≠ 0) := by
        intro i r t
        unfold applyReference
        simp only
        split
        · rename_i h
          rw [referenceAddr, if_pos h.1] at h
          exact ⟨fun h' => absurd h' (by decide : ENONEWFUNC ≠ ENONE), fun h' => absurd h.2 (h' h.1)⟩
        · rename_i h
          refine ⟨fun _ h₁ h₂ => h ⟨h₁, ?_⟩, fun _ => rfl⟩
          rw [referenceAddr, if_pos h₁]
          exact h₂
      rw [untilError_eq_zero hone]
      exact ⟨fun h => ⟨hb, ⟨patchBase, hl, h0⟩, h⟩, fun h => h.refs⟩

/-- **`ulp_apply_all_units` returns 0 exactly when the units and the references fit.** -/
theorem ulpApplyAllUnits_eq_zero {env : Env} {ulp : UlpMetadata} {s : State} :
    (ulpApplyAllUnits env ulp s).1 = ENONE ↔
      UnitsFit env ulp s.mem (s.roots.map (·.patchedAddr)) 0 ulp.objs.units ∧ ReferencesFit env ulp := by
  have hu := @applyUnits_eq_zero env ulp ulp.objs.units 0 { s with globalUniverse := s.globalUniverse + 1 }
  unfold ulpApplyAllUnits
  simp only
  by_cases h : (untilError (applyUnit env ulp) 0 ulp.objs.units { s with globalUniverse := s.globalUniverse + 1 }).1 = ENONE
  · rw [if_neg (not_not.2 h), applyReferences_eq_zero, and_iff_right (hu.1 h)]
  · rw [if_pos h]
    exact ⟨fun h' => absurd h' h, fun h' => absurd (hu.2 h'.1) h⟩

/-! ## The call -/

/-- An error code that fits into the `int` it is returned as. -/
def IsInt (e : UlpError) : Prop := -2 ^ 31 ≤ e ∧ e < 2 ^ 31

instance (e : UlpError) : Decidable (IsInt e) := inferInstanceAs (Decidable (_ ∧ _))

section Call

variable {env : Env} {s : State} {ulp : UlpMetadata}

theorem patchLoaded_eq_zero :
    (patchLoaded env ulp (s.loading ulp)).1 = ENONE ↔
      ulp.type = 1 ∧ Recordable env ulp ∧ UnitsFit env ulp s.mem (s.roots.map (·.patchedAddr)) 0 ulp.objs.units ∧
          ReferencesFit env ulp ∨
        ulp.type = 2 ∧ ulpCanRevertPatch s ulp.patchId = ENONE := by
  unfold patchLoaded
  split
  · rename_i h1
    have h2 : ulp.type ≠ 2 := by rw [h1]; decide
    rw [← @ulpStateUpdate_isSome env ulp (s.loading ulp)]
    cases hu : ulpStateUpdate env ulp (s.loading ulp) with
    | none => exact ⟨fun h => absurd h (by decide : ESTATE ≠ ENONE), fun h => (by simp [h2] at h)⟩
    | some t =>
      obtain ⟨p, -, rfl⟩ := ulpStateUpdate_spec hu
      simp only [exitOnError_fst]
      rw [ulpApplyAllUnits_eq_zero]
      exact ⟨fun h => Or.inl ⟨h1, rfl, h⟩, fun h => h.elim (fun h => h.2.2) (fun h => absurd h.1 h2)⟩
  rename_i h1
  have hcan : ulpCanRevertPatch (s.loading ulp) ulp.patchId = ulpCanRevertPatch s ulp.patchId := rfl
  rw [hcan]
  split
  · rename_i h2
    split
    · rename_i hno
      exact ⟨fun h => absurd h hno, fun h => h.elim (fun h => absurd h.1 h1) (fun h => h.2)⟩
    · rename_i hyes
      refine ⟨fun _ => Or.inr ⟨h2, not_not.1 hyes⟩, fun _ => ?_⟩
      rw [ulpRevertPatch_ret, if_pos]
      exact ulpGetAppliedPatch_isSome.2 (ulpCanRevertPatch_eq_zero.1 (not_not.1 hyes)).1
  · rename_i h2
    have hno : ¬ (ulp.type = 1 ∧ Recordable env ulp ∧
        UnitsFit env ulp s.mem (s.roots.map (·.patchedAddr)) 0 ulp.objs.units ∧ ReferencesFit env ulp ∨
          ulp.type = 2 ∧ ulpCanRevertPatch s ulp.patchId = ENONE) := fun h =>
      h.elim (fun h => h1 h.1) (fun h => h2 h.1)
    split
    · exact ⟨fun h => absurd h (by decide : ENOMETA ≠ ENONE), fun h => absurd h hno⟩
    · exact ⟨fun h => absurd h (by decide : EUNKNOWN ≠ ENONE), fun h => absurd h hno⟩

/-- A request that gets to the metadata ends as its parsing does, or as `patchLoaded`. -/
theorem Admits.call (h : Admits env s) (hr : s.metadataRef = none) :
    ulpApplyPatch env s = (parseMetadata env s).map (fun
      | .error e => (e, { s.clearMetadataBuffer with metadataRef := none })
      | .ok ulp  => ((patchLoaded env ulp (s.loading ulp)).1,
          { (patchLoaded env ulp (s.loading ulp)).2 with metadataRef := none })) := by
  unfold ulpApplyPatch
  rw [refused_eq_none h.errorState h.queue h.free]
  unfold loadPatch loadMetadata
  rw [hr]
  simp only [h.calloc]
  cases parseMetadata env s with
  | none => rfl
  | some r =>
    cases r with
    | error e => rfl
    | ok ulp => rfl

theorem refused_none (h : refused env s = none) :
    s.errorState = ENONE ∧ insnqNotEmpty s.queue = false ∧ env.busy = false := by
  unfold refused at h
  split at h
  · cases h
  split at h
  · cases h
  split at h
  · cases h
  · rename_i h₁ h₂ h₃
    exact ⟨not_not.1 h₁, Bool.eq_false_iff.2 h₂, Bool.eq_false_iff.2 h₃⟩

theorem refused_isInt {t : State} {ret : UlpError} (hi : IsInt s.errorState) (h : refused env s = some (ret, t)) :
    IsInt ret := by
  unfold refused at h
  split at h
  · cases h
    exact hi
  split at h
  · cases h
    decide
  split at h
  · cases h
    decide
  · cases h

theorem not_admits_call (h : ¬ Admits env s) (hr : s.metadataRef = none) :
    ∃ ret t, ulpApplyPatch env s = some (ret, t) ∧ ret ≠ ENONE ∧ (IsInt s.errorState → IsInt ret) := by
  unfold ulpApplyPatch
  cases hg : refused env s with
  | some r => exact ⟨r.1, r.2, rfl, (refused_cases hg).1, fun hi => refused_isInt hi hg⟩
  | none =>
    obtain ⟨h₁, h₂, h₃⟩ := refused_none hg
    have hc : env.calloc .metadata = false := Bool.eq_false_iff.2 (fun hc => h ⟨h₁, h₂, h₃, hc⟩)
    refine ⟨ENOMEM, s, ?_, by decide, fun _ => by decide⟩
    simp only [loadPatch, loadMetadata, hr, hc]
    rfl

/-- **What a call that returns 0 has found.** -/
theorem accepted_iff (hr : s.metadataRef = none) : (∃ t, ulpApplyPatch env s = some (ENONE, t)) ↔ Accepted env s := by
  by_cases ha : Admits env s
  · rw [ha.call hr, Accepted, and_iff_right ha]
    cases hp : parseMetadata env s with
    | none => exact ⟨fun ⟨t, h⟩ => (by cases h), fun ⟨ulp, h, _⟩ => (by cases h)⟩
    | some r =>
      cases r with
      | error e =>
        refine ⟨fun ⟨t, h⟩ => ?_, fun ⟨ulp, h, _⟩ => (by cases h)⟩
        exact absurd (Prod.mk.inj (Option.some.inj h)).1 (parseMetadata_error hp)
      | ok ulp =>
        constructor
        · rintro ⟨t, h⟩
          exact ⟨ulp, rfl, patchLoaded_eq_zero.1 (Prod.mk.inj (Option.some.inj h)).1⟩
        · rintro ⟨ulp', h, hok⟩
          obtain rfl : ulp = ulp' := by simpa using h
          refine ⟨{ (patchLoaded env ulp (s.loading ulp)).2 with metadataRef := none }, ?_⟩
          exact congrArg (fun e => some (e, _)) (patchLoaded_eq_zero.2 hok)
  · obtain ⟨ret, t, hcall, hne, -⟩ := not_admits_call ha hr
    refine ⟨fun ⟨u, h⟩ => ?_, fun h => absurd h.1 ha⟩
    exact absurd (Prod.mk.inj (Option.some.inj (hcall.symm.trans h))).1 hne

/-- **What a call that fails before the patch is recorded has found.** -/
theorem rejected_iff (hr : s.metadataRef = none) :
    ((∃ ret t, ulpApplyPatch env s = some (ret, t) ∧ ret ≠ ENONE) ∧ ¬ ∃ ulp p, Reaches env s ulp p) ↔
      Rejected env s := by
  by_cases ha : Admits env s
  swap
  · obtain ⟨ret, t, hcall, hne, -⟩ := not_admits_call ha hr
    refine ⟨fun _ => Or.inl ha, fun _ => ⟨⟨ret, t, hcall, hne⟩, ?_⟩⟩
    rintro ⟨ulp, p, h⟩
    obtain ⟨h₁, h₂, h₃⟩ := refused_none h.passes
    exact ha ⟨h₁, h₂, h₃, h.calloc⟩
  rw [ha.call hr, Rejected, or_iff_right (not_not.2 ha)]
  cases hp : parseMetadata env s with
  | none =>
    refine ⟨fun ⟨⟨ret, t, h, _⟩, _⟩ => (by cases h), fun h => ?_⟩
    rcases h with ⟨e, h⟩ | ⟨ulp, h, -⟩ <;> cases h
  | some r =>
    cases r with
    | error e =>
      refine ⟨fun _ => Or.inl ⟨e, rfl⟩, fun _ => ⟨⟨e, _, rfl, parseMetadata_error hp⟩, ?_⟩⟩
      rintro ⟨ulp, p, h⟩
      cases hp.symm.trans h.parsed
    | ok ulp =>
      have hzero := @patchLoaded_eq_zero env s ulp
      constructor
      · rintro ⟨⟨ret, t, h, hne⟩, hnot⟩
        obtain ⟨rfl, -⟩ := Prod.mk.inj (Option.some.inj h)
        refine Or.inr ⟨ulp, rfl, fun h1 hrec => hnot ?_, fun h2 hcan => hne (hzero.2 (Or.inr ⟨h2, hcan⟩))⟩
        obtain ⟨t', ht'⟩ := Option.isSome_iff_exists.1 ((@ulpStateUpdate_isSome env ulp (s.loading ulp)).2 hrec)
        obtain ⟨p, -, rfl⟩ := ulpStateUpdate_spec ht'
        exact ⟨ulp, p, refused_eq_none ha.errorState ha.queue ha.free, ha.calloc, hp, h1, ht'⟩
      · rintro (⟨e, h⟩ | ⟨ulp', h, h1, h2⟩)
        · cases h
        · obtain rfl : ulp = ulp' := by simpa using h
          refine ⟨⟨_, _, rfl, fun h0 => ?_⟩, ?_⟩
          · rcases hzero.1 h0 with ⟨ht, hrec, -⟩ | ⟨ht, hcan⟩
            · exact h1 ht hrec
            · exact h2 ht hcan
          · rintro ⟨ulp', p, hre⟩
            obtain rfl : ulp = ulp' := by simpa using hp.symm.trans hre.parsed
            exact h1 hre.type (ulpStateUpdate_isSome.1 (by rw [hre.recorded]; rfl))

end Call

end Libpulp
