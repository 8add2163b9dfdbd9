import Libpulp.Invariant
/-!
# RevertAll — reverting every patch of a library

`revert_all_patches_from_lib` walks the patch list from its head.  A patch of the library that another patch still
depends on is tried again and again, for the loop's `continue` does not step to the next patch: if a patch of another
library depends on a patch of this one, the call never comes back (`revertAllLoop_hangs`).  Otherwise every patch of the
library is gone after one pass (`revertAllLoop_clears`), since dependants lie nearer the head.
-/
namespace Libpulp

open Bytes (Byte Addr cstr)
open Relation (ReflTransGen TransGen)

/-- The patch is one of the library `lib`. -/
def OfLib (lib : List Byte) (p : AppliedPatch) : Prop := lib.take ulpPathLen = p.libName.take ulpPathLen

instance (lib : List Byte) (p : AppliedPatch) : Decidable (OfLib lib p) := inferInstanceAs (Decidable (_ = _))

/-- `q` lists `p` as a dependency. -/
def DependsOn (q p : AppliedPatch) : Prop := ∃ d ∈ q.deps, d.depId = p.patchId

/-- A patch of another library depends on a patch of the library. -/
def DependedOn (lib : List Byte) (patches : List AppliedPatch) : Prop :=
  ∃ p ∈ patches, OfLib lib p ∧ ∃ q ∈ patches, ¬ OfLib lib q ∧ DependsOn q p

theorem patch_eq_of_id {ps : List AppliedPatch} (h : (ps.map (·.patchId)).Nodup) {p q : AppliedPatch} (hp : p ∈ ps)
    (hq : q ∈ ps) (he : p.patchId = q.patchId) : p = q := List.inj_on_of_nodup_map h hp hq he

theorem not_canRevert {s : State} {p q : AppliedPatch} (hq : q ∈ s.patches) (hd : DependsOn q p) :
    ulpCanRevertPatch s p.patchId ≠ ENONE := by
  intro h
  obtain ⟨d, hd, he⟩ := hd
  exact (ulpCanRevertPatch_eq_zero.1 h).2 q hq d hd he

/-- **The walk never gets past a patch that a patch of another library depends on.** -/
theorem revertAllLoop_hangs {lib : List Byte} {p q : AppliedPatch} (hp : OfLib lib p) (hq : ¬ OfLib lib q)
    (hd : DependsOn q p) : ∀ (fuel : Nat) {rest : List AppliedPatch} {ret : UlpError} {s : State},
      (s.patches.map (·.patchId)).Nodup → (rest.map (·.patchId)).Nodup → (∀ x ∈ rest, x ∈ s.patches) → p ∈ rest →
      q ∈ s.patches → revertAllLoop lib fuel rest ret s = none
  | 0, _, _, _, _, _, _, _, _             => rfl
  | fuel + 1, [], _, _, _, _, _, hmem, _  => by cases hmem
  | fuel + 1, x :: next, ret, s, hids, hr, hsub, hmem, hqs => by
    obtain ⟨hx, hnext⟩ := List.nodup_cons.1 hr
    have hsub' : ∀ y ∈ next, y ∈ s.patches := fun y hy => hsub y (List.mem_cons_of_mem _ hy)
    rw [revertAllLoop]
    split
    · rename_i hlib
      split
      · exact revertAllLoop_hangs hp hq hd fuel hids hr hsub hmem hqs
      · rename_i hcan
        have hrev := ulpRevertPatch_spec x.patchId s
        have hret : (ulpRevertPatch x.patchId s).1 = ENONE := by
          rw [ulpRevertPatch_ret, if_pos]
          exact ulpGetAppliedPatch_isSome.2 ⟨x, hsub x List.mem_cons_self, rfl⟩
        simp only [if_neg (not_not.2 hret)]
        have hxp : p ≠ x := fun e => not_canRevert hqs hd (e ▸ not_not.1 hcan)
        have hqx : q.patchId ≠ x.patchId := fun e =>
          hq (patch_eq_of_id hids hqs (hsub x List.mem_cons_self) e ▸ hlib)
        refine revertAllLoop_hangs hp hq hd fuel ?_ hnext (fun y hy => ?_)
          ((List.mem_cons.1 hmem).resolve_left hxp) ?_
        · rw [hrev.patches]
          exact hids.sublist (List.eraseP_sublist.map _)
        · rw [hrev.patches]
          exact mem_eraseP_id (hsub' y hy) (fun e => hx (List.mem_map.2 ⟨y, hy, e⟩))
        · rw [hrev.patches]
          exact mem_eraseP_id hqs hqx
    · rename_i hlib
      have hxp : p ≠ x := fun e => hlib (e ▸ hp)
      exact revertAllLoop_hangs hp hq hd fuel hids hnext hsub' ((List.mem_cons.1 hmem).resolve_left hxp) hqs

theorem DepsBelow.append_right : ∀ {pre rest : List AppliedPatch}, DepsBelow (pre ++ rest) → DepsBelow rest
  | [], _, h       => h
  | _ :: _, _, h => DepsBelow.append_right h.2

/-- Nobody further down the list depends on a patch above. -/
theorem DepsBelow.not_dependsOn {x : AppliedPatch} {next : List AppliedPatch} (h : DepsBelow (x :: next))
    (hids : ((x :: next).map (·.patchId)).Nodup) {q : AppliedPatch} (hq : q ∈ x :: next) : ¬ DependsOn q x := by
  rintro ⟨d, hd, he⟩
  have hx := (List.nodup_cons.1 hids).1
  have hbelow : ∃ q' ∈ next, q'.patchId = d.depId := by
    rcases List.mem_cons.1 hq with rfl | hq
    · exact h.1 d hd
    · obtain ⟨pre, post, rfl⟩ := List.append_of_mem hq
      obtain ⟨q', hq', he'⟩ := h.2.split d hd
      exact ⟨q', by simp [hq'], he'⟩
  obtain ⟨q', hq', he'⟩ := hbelow
  exact hx (List.mem_map.2 ⟨q', hq', he'.trans he⟩)

/-- **One pass removes every patch of the library**, if no patch of another library depends on one. -/
theorem revertAllLoop_clears {lib : List Byte} : ∀ (rest pre : List AppliedPatch) (ret : UlpError) (s : State),
    s.patches = pre ++ rest → (s.patches.map (·.patchId)).Nodup → DepsBelow s.patches →
      (∀ q ∈ pre, ¬ OfLib lib q) → ¬ DependedOn lib s.patches →
      ∃ r s', revertAllLoop lib (rest.length + 1) rest ret s = some (r, s') ∧
        s'.patches = pre ++ rest.filter (fun p => ¬ OfLib lib p)
  | [], pre, ret, s, hs, _, _, _, _ => ⟨ret, s, rfl, by simpa using hs⟩
  | x :: next, pre, ret, s, hs, hids, hdeps, hpre, hno => by
    rw [List.length_cons, revertAllLoop]
    by_cases hlib : OfLib lib x
    · rw [if_pos (show lib.take ulpPathLen = x.libName.take ulpPathLen from hlib),
        List.filter_cons_of_neg (by simpa using hlib)]
      have hrest : DepsBelow (x :: next) := DepsBelow.append_right (hs ▸ hdeps)
      have hids' : ((x :: next).map (·.patchId)).Nodup := by
        rw [hs, List.map_append] at hids
        exact (List.nodup_append.1 hids).2.1
      have hxs : x ∈ s.patches := by rw [hs]; simp
      have hcan : ulpCanRevertPatch s x.patchId = ENONE := by
        refine ulpCanRevertPatch_eq_zero.2 ⟨⟨x, hxs, rfl⟩, fun q hq d hd he => ?_⟩
        by_cases hql : OfLib lib q
        · have hq' : q ∈ x :: next := by
            rw [hs, List.mem_append] at hq
            exact hq.resolve_left (fun h => hpre q h hql)
          exact hrest.not_dependsOn hids' hq' ⟨d, hd, he⟩
        · exact hno ⟨x, hxs, hlib, q, hq, hql, d, hd, he⟩
      have hrev := ulpRevertPatch_spec x.patchId s
      have hret : (ulpRevertPatch x.patchId s).1 = ENONE := by
        rw [ulpRevertPatch_ret, if_pos]
        exact ulpGetAppliedPatch_isSome.2 ⟨x, hxs, rfl⟩
      have hnot : ∀ y ∈ pre, ¬ (y.patchId == x.patchId) = true := fun y hy he => by
        have hyx : y = x := patch_eq_of_id hids (by rw [hs]; simp [hy]) hxs (by simpa using he)
        exact hpre y hy (hyx ▸ hlib)
      have hpatches : (ulpRevertPatch x.patchId s).2.patches = pre ++ next := by
        rw [hrev.patches, hs, List.eraseP_append_right _ hnot, List.eraseP_cons_of_pos (by simp)]
      have hsub : ∀ y ∈ (ulpRevertPatch x.patchId s).2.patches, y ∈ s.patches := fun y hy => by
        rw [hrev.patches] at hy
        exact List.mem_of_mem_eraseP hy
      simp only [if_neg (not_not.2 hcan), if_neg (not_not.2 hret)]
      obtain ⟨hi, hd⟩ := hrev.applied hcan hids hdeps
      apply revertAllLoop_clears next pre _ _ hpatches hi hd hpre
      rintro ⟨p, hp, hpl, q, hq, hql, hqp⟩
      exact hno ⟨p, hsub p hp, hpl, q, hsub q hq, hql, hqp⟩
    · rw [if_neg (show ¬ lib.take ulpPathLen = x.libName.take ulpPathLen from hlib),
        List.filter_cons_of_pos (by simpa using hlib)]
      obtain ⟨r, s', h₁, h₂⟩ := revertAllLoop_clears next (pre ++ [x]) ret s (by rw [hs]; simp) hids hdeps
        (fun q hq => (List.mem_append.1 hq).elim (hpre q) (fun h => List.mem_singleton.1 h ▸ hlib)) hno
      exact ⟨r, s', h₁, by rw [h₂]; simp⟩

/-! ## The entry point -/

/-- The library named in the metadata buffer. -/
def State.libBasename (s : State) : List Byte := getBasename (cstr s.metadataBuffer)

/-- The call gets past the guards and the check of the path. -/
def Passes (env : Env) (s : State) : Prop :=
  refused env s = none ∧ (cstr s.metadataBuffer).length - s.libBasename.length < ulpPathLen

/-- No patch of another library depends on `p`, directly or through other patches: nothing is in the way once the
library's own newer patches are gone. -/
def Removable (lib : List Byte) (patches : List AppliedPatch) (p : AppliedPatch) : Prop :=
  ∀ q ∈ patches, ¬ OfLib lib q → ¬ TransGen (fun a b => a ∈ patches ∧ b ∈ patches ∧ DependsOn a b) q p

/-- **What reverting all patches of a library promises**: the call comes back, every patch of the library that can be
removed is gone, the patches of other libraries are still there in their order, and after a 0 none of the library is
left. -/
def RevertsAll (env : Env) (s : State) : Prop :=
  ∃ fuel ret s', ulpRevertPatchesFromLib fuel env s = some (ret, s') ∧
    (∀ p ∈ s.patches, OfLib s.libBasename p → Removable s.libBasename s.patches p → p ∉ s'.patches) ∧
    s'.patches.filter (fun p => ¬ OfLib s.libBasename p) = s.patches.filter (fun p => ¬ OfLib s.libBasename p) ∧
    (ret = ENONE → ∀ p ∈ s'.patches, ¬ OfLib s.libBasename p)

/-- Where the call does not get past the checks it changes no list and returns no 0. -/
theorem ulpRevertPatchesFromLib_blocked {env : Env} {s : State} (h : ¬ Passes env s) (fuel : Nat) :
    ∃ ret s', ulpRevertPatchesFromLib fuel env s = some (ret, s') ∧ s'.patches = s.patches ∧ ret ≠ ENONE := by
  unfold ulpRevertPatchesFromLib
  cases hg : refused env s with
  | some r =>
    obtain ⟨hret, ht⟩ := refused_cases hg
    refine ⟨r.1, r.2, rfl, ?_, hret⟩
    rcases ht with ht | ⟨-, e, -, ht⟩
    · rw [ht]
    · rw [ht]
  | none =>
    have hlen : ulpPathLen ≤ (cstr s.metadataBuffer).length - (getBasename (cstr s.metadataBuffer)).length :=
      Nat.le_of_not_lt (fun hlt => h ⟨hg, hlt⟩)
    simp only [revertAllPatchesFromLib, if_pos hlen]
    exact ⟨EOVERFLOW, s, rfl, rfl, by decide⟩

theorem ulpRevertPatchesFromLib_passes {env : Env} {s : State} (h : Passes env s) (fuel : Nat) :
    ulpRevertPatchesFromLib fuel env s =
      (revertAllLoop s.libBasename fuel s.patches ENOTARGETLIB s).map (fun (ret, s') =>
        (if ret = ENOTARGETLIB ∧ env.getLoadedLibraryBaseAddr s.libBasename ≠ 0xFF then ENOPATCH else ret, s')) := by
  unfold ulpRevertPatchesFromLib
  rw [h.1]
  have hlen : ¬ ulpPathLen ≤ (cstr s.metadataBuffer).length - (getBasename (cstr s.metadataBuffer)).length :=
    Nat.not_le_of_lt h.2
  simp only [revertAllPatchesFromLib, if_neg hlen]
  rfl

/-- **Exactly when revert-all keeps its promise**, in a reachable state: the call gets past its checks and no applied
patch of another library depends on a patch of this one, or it does not and the library has no removable patch. -/
theorem revertsAll_iff {s₀ s : State} (h₀ : s₀.Start) (hrun : ReflTransGen Step s₀ s) (env : Env) :
    RevertsAll env s ↔
      (Passes env s ∧ ¬ DependedOn s.libBasename s.patches) ∨
      (¬ Passes env s ∧ ∀ p ∈ s.patches, OfLib s.libBasename p → ¬ Removable s.libBasename s.patches p) := by
  have ha := applied_of_run h₀ hrun
  by_cases hpass : Passes env s
  · constructor
    · rintro ⟨fuel, ret, s', hres, -⟩
      refine Or.inl ⟨hpass, ?_⟩
      rintro ⟨p, hp, hpl, q, hq, hql, hqp⟩
      rw [ulpRevertPatchesFromLib_passes hpass,
        revertAllLoop_hangs hpl hql hqp fuel ha.ids ha.ids (fun _ h => h) hp hq] at hres
      cases hres
    · rintro (⟨-, hno⟩ | ⟨hn, -⟩)
      · obtain ⟨r, s', hloop, hpatches⟩ := revertAllLoop_clears s.patches [] ENOTARGETLIB s rfl ha.ids
          ha.deps (fun _ h => by cases h) hno
        rw [List.nil_append] at hpatches
        have hnone : ∀ p ∈ s'.patches, ¬ OfLib s.libBasename p := fun p hp => by
          rw [hpatches] at hp
          simpa using (List.mem_filter.1 hp).2
        refine ⟨s.patches.length + 1, _, s', by rw [ulpRevertPatchesFromLib_passes hpass, hloop]; rfl,
          fun p _ hpl _ hmem => hnone p hmem hpl, ?_, fun _ => hnone⟩
        rw [hpatches, List.filter_filter]
        exact List.filter_congr (fun p _ => by simp)
      · exact absurd hpass hn
  · obtain ⟨ret, s', hres, hsame, hret⟩ := ulpRevertPatchesFromLib_blocked hpass 1
    constructor
    · rintro ⟨fuel, ret', t, hres', hrem, -⟩
      obtain ⟨ret₁, s₁, hres₁, hsame₁, -⟩ := ulpRevertPatchesFromLib_blocked hpass fuel
      rw [hres'] at hres₁
      cases hres₁
      exact Or.inr ⟨hpass, fun p hp hpl hr => hrem p hp hpl hr (hsame₁ ▸ hp)⟩
    · rintro (⟨hp, -⟩ | ⟨-, hno⟩)
      · exact absurd hp hpass
      · exact ⟨1, ret, s', hres, fun p hp hpl hr => absurd hr (hno p hp hpl), by rw [hsame],
          fun h => absurd h hret⟩

/-- The metadata buffer with the library name `l` in it. -/
def libBuffer : List Byte := [108] ++ 0 :: List.replicate (ulpMetadataBufLen - 2) 0

theorem cstr_libBuffer : cstr libBuffer = [108] := Bytes.cstr_of_noNul (by decide) _

theorem length_libBuffer : libBuffer.length = ulpMetadataBufLen := by
  have h : 2 ≤ ulpMetadataBufLen := by decide
  rw [libBuffer, List.length_append, List.length_cons, List.length_cons, List.length_nil, List.length_replicate]
  omega

theorem libBuffer_passes {s : State} (h : Ready s) (hb : s.metadataBuffer = libBuffer) : Passes demoEnv s := by
  refine ⟨h.refused, ?_⟩
  rw [State.libBasename, hb, cstr_libBuffer]
  decide

/-- The process with these patches applied and that name in the buffer. -/
def demoNaming (patches : List AppliedPatch) (u : BitVec 64) : State :=
  { demoStart with patches, globalUniverse := u, metadataBuffer := libBuffer }

theorem demoNaming_passes (patches : List AppliedPatch) (u : BitVec 64) : Passes demoEnv (demoNaming patches u) :=
  libBuffer_passes ⟨rfl, rfl, rfl, demo_buildId⟩ rfl

theorem demoNaming_libBasename (patches : List AppliedPatch) (u : BitVec 64) :
    (demoNaming patches u).libBasename = [108] := by
  rw [State.libBasename, show (demoNaming patches u).metadataBuffer = libBuffer from rfl, cstr_libBuffer]
  rfl

/-- A patch of the library alone is removed. -/
theorem revertsAll_one : ∃ p, ReflTransGen Step demoStart (demoNaming [p] 1) ∧
    OfLib (demoNaming [p] 1).libBasename p ∧ RevertsAll demoEnv (demoNaming [p] 1) := by
  obtain ⟨p, hp, h₁⟩ := demo_enters (s := demoStart) ⟨rfl, rfl, rfl, demo_buildId⟩ 1 [108] [] (by decide)
    (fun d hd => by cases hd) (fun p hp => by cases hp)
  have hrun : ReflTransGen Step demoStart (demoNaming [p] 1) :=
    h₁.tail (Step.outside _ libBuffer emptyQueue demoMem length_libBuffer)
  have hlib : OfLib (demoNaming [p] 1).libBasename p := by
    rw [OfLib, hp.libName, demoNaming_libBasename]
    decide
  refine ⟨p, hrun, hlib, (revertsAll_iff demoStart_start hrun demoEnv).2 (Or.inl ⟨demoNaming_passes _ _, ?_⟩)⟩
  rintro ⟨p', -, -, q, hq, hql, -⟩
  exact hql (List.mem_singleton.1 hq ▸ hlib)

/-- **The call hangs**: a patch of the library `m` depends on the only patch of the library `l`. -/
theorem revertsAll_hangs : ∃ p q, ReflTransGen Step demoStart (demoNaming [q, p] 2) ∧
    (∀ fuel, ulpRevertPatchesFromLib fuel demoEnv (demoNaming [q, p] 2) = none) ∧
    ¬ RevertsAll demoEnv (demoNaming [q, p] 2) := by
  obtain ⟨p, hp, h₁⟩ := demo_enters (s := demoStart) ⟨rfl, rfl, rfl, demo_buildId⟩ 1 [108] [] (by decide)
    (fun d hd => by cases hd) (fun p hp => by cases hp)
  have hpid : p.patchId = Vector.replicate 32 1 := hp.patchId
  obtain ⟨q, hq, h₂⟩ := demo_enters (s := { demoStart with patches := [p], globalUniverse := 1 })
    ⟨rfl, rfl, rfl, demo_buildId⟩ 2 [109] [Vector.replicate 32 1] (by decide)
    (fun d hd => ⟨p, List.mem_singleton.2 rfl, by rw [List.mem_singleton.1 hd, hpid]⟩)
    (fun p' hp' => by rw [List.mem_singleton.1 hp', hpid]; decide)
  have hrun : ReflTransGen Step demoStart (demoNaming [q, p] 2) :=
    (h₁.trans h₂).tail (Step.outside _ libBuffer emptyQueue demoMem length_libBuffer)
  have hpl : OfLib (demoNaming [q, p] 2).libBasename p := by
    rw [OfLib, hp.libName, demoNaming_libBasename]
    decide
  have hql : ¬ OfLib (demoNaming [q, p] 2).libBasename q := by
    rw [OfLib, hq.libName, demoNaming_libBasename]
    decide
  have hqp : DependsOn q p := by
    rw [DependsOn, hq.deps, hpid]
    exact ⟨⟨Vector.replicate 32 1, true⟩, by simp [demoLoaded], rfl⟩
  have ha := applied_of_run demoStart_start hrun
  have hmem : p ∈ (demoNaming [q, p] 2).patches := List.mem_cons_of_mem _ List.mem_cons_self
  have hhang : ∀ fuel, ulpRevertPatchesFromLib fuel demoEnv (demoNaming [q, p] 2) = none := fun fuel => by
    rw [ulpRevertPatchesFromLib_passes (demoNaming_passes _ _),
      revertAllLoop_hangs hpl hql hqp fuel ha.ids ha.ids (fun _ h => h) hmem List.mem_cons_self]
    rfl
  refine ⟨p, q, hrun, hhang, ?_⟩
  rintro ⟨fuel, ret, s', hres, -⟩
  rw [hhang fuel] at hres
  cases hres

end Libpulp
