import Libpulp.ApplyPatch
import Libpulp.Service
/-!
# Reverse — taking a patch back

What a reverse patch does to the store of `Service`: it takes out one layer, and the functions that layer had replaced
lead to what lies below it (`reverse_uncovers`).  Straight after its patch, the reverse patch out of the same container is
never turned down, and the process does what it did before (`reverse_restores`).
-/
namespace Libpulp

open Bytes (Byte Addr Buf Mem cstr)
open Layers (Layer takeOut below owner)
open Relation (ReflTransGen)

/-! ## Calls that return 0 -/

theorem refused_none_of_zero {env : Env} {s t : State} (h : ulpApplyPatch env s = some (ENONE, t)) :
    refused env s = none := by
  cases hg : refused env s with
  | none => rfl
  | some r =>
    rw [ulpApplyPatch, hg] at h
    exact absurd rfl (refused_cases (hg.trans h)).1

theorem checkPatchSanity_keeps (env : Env) (s : State) (ulp : UlpMetadata) :
    (checkPatchSanity env s ulp).2.type = ulp.type ∧ (checkPatchSanity env s ulp).2.patchId = ulp.patchId := by
  unfold checkPatchSanity checkPatchDependencies
  simp only
  repeat' (first | exact ⟨rfl, rfl⟩ | split)

/-- A call that returns 0 has loaded what the parser read. -/
theorem parseMetadata_of_zero {env : Env} {s t : State} {m : UlpMetadata} (hr : s.metadataRef = none)
    (hm : parseMetadataFromMem env.calloc s.metadataBuffer env.stackC = .ok m)
    (h : ulpApplyPatch env s = some (ENONE, t)) :
    ∃ ulp, parseMetadata env s = some (.ok ulp) ∧ ulp.type = m.type ∧ ulp.patchId = m.patchId := by
  have hg := refused_none_of_zero h
  rw [ulpApplyPatch, hg, loadPatch, loadMetadata, hr] at h
  cases hc : env.calloc .metadata with
  | false =>
    simp only [hc] at h
    exact absurd (Prod.mk.inj (Option.some.inj h)).1 (by decide)
  | true =>
    cases hp : parseMetadata env s with
    | none => simp [hc, hp] at h
    | some r =>
      cases r with
      | error e =>
        simp only [hc, hp, Bool.not_true, Bool.false_eq_true, if_false, Option.map_some] at h
        have he : e = ENONE := (Prod.mk.inj (Option.some.inj h)).1
        unfold parseMetadata at hp
        simp only [hm] at hp
        split at hp
        · cases hp
        · split at hp
          · rename_i hne
            cases hp
            exact absurd he hne
          · split at hp
            · cases hp
              exact absurd he (by decide)
            · cases hp
      | ok ulp =>
        refine ⟨ulp, rfl, ?_⟩
        obtain ⟨h₁, h₂⟩ := checkPatchSanity_keeps env s m
        unfold parseMetadata at hp
        simp only [hm] at hp
        split at hp
        · cases hp
          exact ⟨rfl, rfl⟩
        · split at hp
          · cases hp
          · split at hp
            · cases hp
            · cases hp
              exact ⟨h₁, h₂⟩

/-- What is parsed as a reverse patch is a header. -/
theorem refs_of_reverse {calloc : AllocSite → Bool} {src : List Byte} {c : Nat} {m : UlpMetadata}
    (h : parseMetadataFromMem calloc src c = .ok m) (ht : m.type = 2) : m.refs = [] := by
  unfold parseMetadataFromMem at h
  cases hp : (parseBody calloc).run ⟨src, c⟩ with
  | error e =>
    rw [hp] at h
    cases h
  | ok r =>
    rw [hp] at h
    obtain ⟨m', u⟩ := r
    cases h
    obtain ⟨m₀, t, h₀, hrest⟩ := parse_bind_ok (show parseBody calloc ⟨src, c⟩ = .ok (m', u) from hp)
    obtain ⟨⟨-, -, hr⟩, -⟩ := (parseHeader_eats calloc).ok h₀
    split at hrest
    · cases hrest
      exact hr
    · rename_i hne
      unfold parseTail at hrest
      obtain ⟨_, _, -, hrest⟩ := parse_bind_ok hrest
      obtain ⟨_, _, -, hrest⟩ := parse_bind_ok hrest
      obtain ⟨_, _, -, hrest⟩ := parse_bind_ok hrest
      obtain ⟨_, _, -, hrest⟩ := parse_bind_ok hrest
      obtain ⟨_, _, -, hrest⟩ := parse_bind_ok hrest
      obtain ⟨_, _, -, hrest⟩ := parse_bind_ok hrest
      obtain ⟨_, _, -, hrest⟩ := parse_bind_ok hrest
      cases hrest
      exact absurd ht hne

theorem returnInt_zero : returnInt (returnReg 0 ENONE) = 0 := by decide

/-- A call that returns 0 on an apply patch has loaded it and put its record on top. -/
theorem patches_of_apply {env : Env} {s t : State} {m : UlpMetadata} (hr : s.metadataRef = none) (hq : Queued s [])
    (hm : parseMetadataFromMem env.calloc s.metadataBuffer env.stackC = .ok m) (ht : m.type = 1)
    (h : ulpApplyPatch env s = some (ENONE, t)) :
    ∃ ulp p, parseMetadata env s = some (.ok ulp) ∧ ulp.patchId = m.patchId ∧ Records env ulp p ∧
      t.patches = p :: s.patches := by
  obtain ⟨ulp, hp, htype, hid⟩ := parseMetadata_of_zero hr hm h
  obtain ⟨p, hreach, hok⟩ := reaches_of_zero hr hq hp (htype.trans ht) h returnInt_zero
  rw [hreach.call hr, exitOnError, if_neg (not_not.2 hok)] at h
  obtain ⟨-, rfl⟩ := Prod.mk.inj (Option.some.inj h)
  obtain ⟨p', hrec, he⟩ := ulpStateUpdate_spec hreach.recorded
  have hpp : p :: s.patches = p' :: s.patches := congrArg State.patches he
  obtain rfl := (List.cons.inj hpp).1
  exact ⟨ulp, p, hp, hid, hrec, (ulpApplyAllUnits_patches env ulp _).1⟩

/-- A call that returns 0 on a reverse patch has taken out a patch that nothing rests on. -/
theorem patches_of_reverse {env : Env} {s t : State} {m : UlpMetadata} (hr : s.metadataRef = none)
    (hm : parseMetadataFromMem env.calloc s.metadataBuffer env.stackC = .ok m) (ht : m.type = 2)
    (h : ulpApplyPatch env s = some (ENONE, t)) :
    ulpCanRevertPatch s m.patchId = ENONE ∧ t.patches = s.patches.eraseP (·.patchId == m.patchId) := by
  have hg := refused_none_of_zero h
  have hp : parseMetadata env s = some (.ok m) := by
    unfold parseMetadata
    simp only [hm, ht, if_true]
  rw [ulpApplyPatch, hg, loadPatch, loadMetadata, hr, hp] at h
  cases hc : env.calloc .metadata with
  | false =>
    simp only [hc] at h
    exact absurd (Prod.mk.inj (Option.some.inj h)).1 (by decide)
  | true =>
    simp only [hc, Bool.not_true, Bool.false_eq_true, if_false, Option.map_some, Except.toOption, patchLoaded, ht,
      if_true, if_neg (by decide : ¬ (2 : Byte) = 1)] at h
    split at h
    · rename_i hne
      exact absurd (Prod.mk.inj (Option.some.inj h)).1 hne
    · rename_i hcan
      obtain ⟨-, rfl⟩ := Prod.mk.inj (Option.some.inj h)
      exact ⟨not_not.1 hcan, (ulpRevertPatch_spec m.patchId _).patches⟩

/-- No applied patch rests on the one just put on top. -/
theorem ulpCanRevertPatch_top {s : State} {p : AppliedPatch} {ps : List AppliedPatch} (hp : s.patches = p :: ps)
    (ha : Applied s) : ulpCanRevertPatch s p.patchId = ENONE := by
  have hids := ha.ids
  have hdeps := ha.deps
  rw [hp] at hids hdeps
  obtain ⟨hfresh, -⟩ := List.nodup_cons.1 hids
  refine ulpCanRevertPatch_eq_zero.2 ⟨⟨p, by rw [hp]; exact List.mem_cons_self, rfl⟩, fun q hq d hd hid => ?_⟩
  have hbelow : ∃ q' ∈ ps, q'.patchId = d.depId := by
    rw [hp] at hq
    rcases List.mem_cons.1 hq with rfl | hq
    · exact hdeps.1 d hd
    · obtain ⟨newer, older, rfl⟩ := List.append_of_mem hq
      obtain ⟨q', hq', he⟩ := DepsBelow.split hdeps.2 d hd
      exact ⟨q', by simp [hq'], he⟩
  obtain ⟨q', hq', he⟩ := hbelow
  exact hfresh (List.mem_map.2 ⟨q', hq', he.trans hid⟩)

/-! ## Processes with one function patched -/

theorem demo_patched_round {ok : Env → UlpMetadata → Prop} (hok : ok demoEnv (demoLoaded 1 [108] [demoUnit] [] [])) :
    ∃ p b, Records demoEnv (demoLoaded 1 [108] [demoUnit] [] []) p ∧ Round {0x5000} ok demoStart (demoPatched p b) := by
  obtain ⟨p, t, b, hp, happ, he, hfun, htool⟩ := demo_patched
  exact ⟨p, b, hp, .call _ demoLoading_fits .applyPatch demoEnv ENONE happ he hfun (demo_loading_ok hok) htool⟩

/-- The process when it is handed a patch `02 … 02` that replaces `f` by `m`. -/
def demoOverLoading (p : AppliedPatch) (b : Buf) : State :=
  { demoPatched p b with metadataBuffer := bufferOf (createPatchMetadataFile (demoPatch 2 [108] [unitTo 109] [] [])) }

/-- Memory after the tool has done the write of that patch. -/
def demoOverMem : Mem := ((demoMem.write (0x5000 - 14) (patchedPrologue false 0x9000)).write (0x5000 - 14)
  (patchedPrologue false 0xA000))

theorem demo_over {p : AppliedPatch} (hp : Records demoEnv (demoLoaded 1 [108] [demoUnit] [] []) p) (b : Buf) :
    ∃ q s, Records demoEnv (demoLoaded 2 [108] [unitTo 109] [] []) q ∧
      Round {0x5000} (ReferencesAvoid {0x5000}) (demoPatched p b) s ∧ s.patches = [q, p] ∧
      s.roots = [⟨0, 0x5000, [⟨Vector.replicate 32 2, 2, 0xA000, true⟩, ⟨Vector.replicate 32 1, 1, 0x9000, true⟩]⟩] ∧
      s.mem = demoOverMem := by
  have hid : p.patchId = Vector.replicate 32 1 := hp.patchId
  have hready : Ready (demoOverLoading p b) := ⟨rfl, rfl, rfl, (demoPatched_ready p b).buildId⟩
  have hfresh : ∀ p' ∈ (demoOverLoading p b).patches, p'.patchId ≠ Vector.replicate 32 2 := by
    intro p' hp'
    obtain rfl := List.mem_singleton.1 hp'
    rw [hid]
    decide
  obtain ⟨q, t, hq, happ, hqd, hu⟩ := @demo_replaces (demoOverLoading p b) hready ⟨rfl, queueHolds_empty _⟩
    (by decide +kernel : livepatchable (demoMem.write (0x5000 - 14) (patchedPrologue false 0x9000)) 0x5000 = true) 2 109
    0xA000 (by decide) (by decide) [] (fun r hr => by cases hr) (by decide) rfl hfresh
    (Nat.le_trans (Nat.add_le_add_right (prologueWrite_size_le _ _ _) 0) (by decide))
  have hload := demo_loads hready (by decide) rfl (fun d hd => by cases hd) hfresh
  have htool := insnqInterpretFromProcess_holds (s := { t with metadataRef := none }) hqd.holds
  refine ⟨q, _, hq, .call _ (length_bufferOf (by decide)) .applyPatch demoEnv ENONE happ hqd.noError
    (fun q' hq' u hu' => ?_) (fun ulp hulp => ?_) htool, hu.patches, congrArg Prod.fst hu.roots, ?_⟩
  · rw [show t.patches = [q, p] from hu.patches] at hq'
    rcases List.mem_cons.1 hq' with rfl | hq'
    · exact demo_functions hq u hu'
    · obtain rfl := List.mem_singleton.1 hq'
      exact demo_functions hp u hu'
  · cases hload.symm.trans hulp
    exact fun r hr => by cases hr
  · simp only [List.foldl_cons, List.map_nil, List.foldl_nil, hu.mem]
    rfl

theorem demoOver_buildId (o : UlpObject) (h₁ : o.buildIdLen = 20) (h₂ : o.buildId = List.replicate 20 2) :
    checkBuildId demoOverMem [soleLibrary] o = true := by
  cases o with
  | mk len check id name nunits units =>
    cases h₁
    cases h₂
    cases check <;> rfl

/-! ## Rounds -/

/-- The functions of the applied patches are those the run is about. -/
theorem Faithful.units {F : Set Addr} {m₀ : Mem} {s : State} (h : Faithful F m₀ s) :
    ∀ p ∈ s.patches, ∀ u ∈ p.units, u.patchedAddr ∈ F := by
  intro p hp u hu
  obtain ⟨r, hr, he, -⟩ := h.linked.complete hp hu
  exact he ▸ h.functions r hr

section Calls

variable {F : Set Addr} {s₀ s s' t : State} (hF : RegionsDisjoint F s₀.mem) (h₀ : s₀.Start)
  (hrun : ReflTransGen (Round F (ReferencesAvoid F)) s₀ s) {buffer : List Byte}
  (hlen : buffer.length = ulpMetadataBufLen) {env : Env} {m : UlpMetadata}
  (hm : parseMetadataFromMem env.calloc buffer env.stackC = .ok m)
  (htool : insnqInterpretFromProcess t = some (ENONE, s'))

include hF h₀ hrun hlen hm htool

/-- A call on a reverse patch that returns 0 and leaves libpulp free of errors is a round. -/
theorem round_of_reverse (ht : m.type = 2)
    (hcall : ulpApplyPatch env { s with metadataBuffer := buffer } = some (ENONE, t)) (he : t.errorState = ENONE) :
    Round F (ReferencesAvoid F) s s' ∧ s'.patches = s.patches.eraseP (·.patchId == m.patchId) := by
  have hi := faithful_of_run hF h₀ hrun
  have hpatches := (patches_of_reverse (s := { s with metadataBuffer := buffer }) hi.applied.metadataRef hm ht hcall).2
  refine ⟨.call buffer hlen .applyPatch env ENONE hcall he (fun p hp => ?_) (fun ulp hulp => ?_) htool, ?_⟩
  · rw [hpatches] at hp
    exact hi.units p (List.mem_of_mem_eraseP hp)
  · have : parseMetadata env { s with metadataBuffer := buffer } = some (.ok m) := by
      unfold parseMetadata
      simp only [hm, ht, if_true]
    rw [this] at hulp
    cases hulp
    intro r hr
    rw [refs_of_reverse hm ht] at hr
    cases hr
  · exact (insnqInterpretFromProcess_patches htool).trans hpatches

/-- **A reverse patch uncovers what lies below.**  After a call on it that returned 0, the functions whose topmost patch
it took out lead to their new function in the patches below that one, or into their own bodies; all other functions lead
to where they led, however many patches had been applied on top. -/
theorem reverse_uncovers (ht : m.type = 2)
    (hcall : ulpApplyPatch env { s with metadataBuffer := buffer } = some (ENONE, t)) (he : t.errorState = ENONE) :
    ∀ f ∈ F, nopEntry s₀.mem f = true →
      (∀ l, owner s.layers f = some l → l.name = m.patchId →
        Shows s'.mem f (Layers.value (below m.patchId s.layers) f)) ∧
      ((∀ l, owner s.layers f = some l → l.name ≠ m.patchId) →
        redirectTarget s'.mem f = redirectTarget s.mem f ∧ nopEntry s'.mem f = nopEntry s.mem f) := by
  intro f hf hn
  obtain ⟨hround, hpatches⟩ := round_of_reverse hF h₀ hrun hlen hm htool ht hcall he
  have hlayers : s'.layers = takeOut m.patchId s.layers := by
    rw [layers_takeOut, State.layers, hpatches]
  have hs := (serves_of_run hF h₀ hrun).shows f hf hn
  have hs' := (serves_of_run hF h₀ (hrun.tail hround)).shows f hf hn
  rw [hlayers] at hs'
  refine ⟨fun l hl hid => ?_, fun hother => ?_⟩
  · rw [← hid] at hs' ⊢
    have hnodup := (Layers.sound_of_moves (moves_of_run hF h₀ hrun)).nodup
    rwa [Layers.value_takeOut_owner hnodup hl] at hs'
  · rw [Layers.value_takeOut_other hother] at hs'
    exact hs'.congr_entry hs

end Calls

/-- `f` leads to `n`, then to `m`; when the second patch is taken back, to `n` once more. -/
theorem reverse_uncovers_two : ∃ s t s', ReflTransGen (Round {0x5000} (ReferencesAvoid {0x5000})) demoStart s ∧
    redirectTarget s.mem 0x5000 = some 0xA000 ∧
    ulpApplyPatch demoEnv { s with metadataBuffer := bufferOf (writeReversePatch (demoPatch 2 [108] [] [] [])) } =
      some (ENONE, t) ∧ insnqInterpretFromProcess t = some (ENONE, s') ∧
    redirectTarget s'.mem 0x5000 = some 0x9000 := by
  obtain ⟨p, b, hp, hround⟩ := @demo_patched_round (ReferencesAvoid {0x5000}) (fun r hr => by cases hr)
  obtain ⟨q, s, hq, hround', hpatches, hroots, hmem⟩ := demo_over hp b
  have hrun := (ReflTransGen.single hround).tail hround'
  have hi := faithful_of_run (demo_disjoint _) demoStart_start hrun
  have hcan := ulpCanRevertPatch_top hpatches hi.applied
  rw [show q.patchId = Vector.replicate 32 2 from hq.patchId] at hcan
  obtain ⟨t, happ, hqd, -⟩ := @demo_takesBack
    { s with metadataBuffer := bufferOf (writeReversePatch (demoPatch 2 [108] [] [] [])) }
    ⟨hi.queued.noError, insnqNotEmpty_eq_false hi.queued.holds, hi.applied.metadataRef, hmem ▸ demoOver_buildId⟩
    ⟨hi.queued.noError, hi.queued.holds⟩ (hmem ▸ (by decide +kernel : livepatchable demoOverMem 0x5000 = true)) 2 0 _ _
    hroots rfl (fun e he => by obtain rfl := List.mem_singleton.1 he; decide) (by decide) rfl hcan
  have htool := insnqInterpretFromProcess_holds hqd.holds
  have hparse := @parse_reverse demoEnv.calloc (fun _ => rfl) (demoPatch 2 [108] [] [] []) [47]
    (List.replicate (ulpMetadataBufLen -
      (spliceContainerPath (writeReversePatch (demoPatch 2 [108] [] [] [])) [47]).length) 0)
    demoEnv.stackC rfl (by simp) (by decide) (by decide)
  have hlayers : s.layers = [⟨Vector.replicate 32 2, [], [(0x5000, 0xA000)]⟩, ⟨Vector.replicate 32 1, [], [(0x5000, 0x9000)]⟩] := by
    rw [State.layers, hpatches, List.map_cons, List.map_singleton, hq.layer, hp.layer]
    rfl
  obtain ⟨huncovers, -⟩ := reverse_uncovers (demo_disjoint _) demoStart_start hrun (length_bufferOf (by decide)) hparse
    htool rfl happ hqd.noError 0x5000 rfl (by decide)
  rw [hlayers] at huncovers
  exact ⟨s, t, _, hrun, hmem ▸ (by decide +kernel : redirectTarget demoOverMem 0x5000 = some 0xA000), happ, htool,
    huncovers ⟨Vector.replicate 32 2, [], [(0x5000, 0xA000)]⟩ (by simp [owner, Layers.Layer.value]) rfl⟩

theorem spliced_of_extracted {d path md : List Byte} (h : extractUlpFromSoToMem d path = some md) :
    md = spliceContainerPath d path := by
  unfold extractUlpFromSoToMem at h
  split at h
  · cases h
  · split at h
    · cases h
    · exact (Option.some.inj h).symm

/-- **A patch taken back at once leaves the process as it was.**  The tool applies the patch of a container in any state
of a run, the call returns 0; the process goes on and leaves the patch regions alone; then the tool hands over the reverse
patch of the same container.  Unless the process is busy the call returns 0, the applied patches are those before, and
every function that was patchable at the start leads to where it led before. -/
theorem reverse_restores {F : Set Addr} {s₀ s t s₁ : State} (hF : RegionsDisjoint F s₀.mem) (h₀ : s₀.Start)
    (hrun : ReflTransGen (Round F (ReferencesAvoid F)) s₀ s) {m : UlpMetadata}
    (hu : m.objs.nunits = m.objs.units.length) (hd : m.ndeps = m.deps.length) (hr : m.nrefs = m.refs.length)
    (hb : m.objs.buildId.length = m.objs.buildIdLen) {path md md' : List Byte} (hp : path ≠ []) (hp0 : (0 : Byte) ∉ path)
    (hmd : extractUlpFromSoToMem (createPatchMetadataFile m) path = some md)
    (hmd' : extractUlpFromSoToMem (writeReversePatch m) path = some md')
    {tail tail' : List Byte} (hlen : (md ++ tail).length = ulpMetadataBufLen)
    (hlen' : (md' ++ tail').length = ulpMetadataBufLen) {env env' : Env} (ha : ∀ site, env.calloc site = true)
    (ha' : ∀ site, env'.calloc site = true)
    (hcall : ulpApplyPatch env { s with metadataBuffer := md ++ tail } = some (ENONE, t)) (he : t.errorState = ENONE)
    (hfun : ∀ p ∈ t.patches, ∀ u ∈ p.units, u.patchedAddr ∈ F)
    (href : ∀ ulp, parseMetadata env { s with metadataBuffer := md ++ tail } = some (.ok ulp) → ReferencesAvoid F env ulp)
    (htool : insnqInterpretFromProcess t = some (ENONE, s₁)) (mem : Mem) (hmem : ∀ f ∈ F, AgreeOn s₁.mem mem (f - 14) 20)
    (hbusy : env'.busy = false) :
    ∃ t', ulpApplyPatch env' { s₁ with mem, metadataBuffer := md' ++ tail' } = some (ENONE, t') ∧
      (t'.errorState = ENONE → ∀ s', insnqInterpretFromProcess t' = some (ENONE, s') → s'.patches = s.patches ∧
        ∀ f ∈ F, nopEntry s₀.mem f = true →
          redirectTarget s'.mem f = redirectTarget s.mem f ∧ nopEntry s'.mem f = nopEntry s.mem f) := by
  obtain rfl := spliced_of_extracted hmd
  obtain rfl := spliced_of_extracted hmd'
  have hround : Round F (ReferencesAvoid F) s s₁ := .call _ hlen .applyPatch env ENONE hcall he hfun href htool
  rw [List.length_append] at hlen hlen'
  have hparse := parse_create ha m path tail env.stackC hu hd hr hb hp hp0 (by omega)
  have hparse' := parse_reverse ha' m path tail' env'.stackC hb hp hp0 (by omega)
  have hi := faithful_of_run hF h₀ hrun
  -- the patch is on top of the list
  obtain ⟨ulp, p, -, hulp, hrec, hpt⟩ := patches_of_apply
    (s := { s with metadataBuffer := spliceContainerPath _ path ++ tail }) hi.applied.metadataRef
    ⟨hi.queued.noError, hi.queued.holds⟩ hparse rfl hcall
  have hid : p.patchId = m.patchId := hrec.patchId.trans hulp
  have hp₁ : s₁.patches = p :: s.patches := (insnqInterpretFromProcess_patches htool).trans hpt
  -- the process goes on
  have hrun₂ := (hrun.tail hround).tail (.outside s₁ mem hmem)
  have hi₂ := faithful_of_run hF h₀ hrun₂
  have hcan := ulpCanRevertPatch_top (s := { s₁ with mem }) hp₁ hi₂.applied
  rw [show p.patchId = (headerParsed 2 m path (cstr m.objs.name)).patchId from hid] at hcan
  have hg : refused env' { s₁ with mem, metadataBuffer := spliceContainerPath (writeReversePatch m) path ++ tail' } =
      none := refused_eq_none hi₂.queued.noError (insnqNotEmpty_eq_false hi₂.queued.holds) hbusy
  refine ⟨_, ulpApplyPatch_reverts hg hi₂.applied.metadataRef (ha' _) hparse' rfl hcan, fun he' s' htool' => ?_⟩
  obtain ⟨hround', hpatches⟩ := round_of_reverse (s := { s₁ with mem }) hF h₀ hrun₂
    (by rw [List.length_append]; exact hlen') hparse' htool' rfl
    (ulpApplyPatch_reverts hg hi₂.applied.metadataRef (ha' _) hparse' rfl hcan) he'
  have hback : s'.patches = s.patches := by
    rw [hpatches]
    change s₁.patches.eraseP _ = _
    have hpid : p.patchId = (headerParsed 2 m path (cstr m.objs.name)).patchId := hid
    rw [hp₁, List.eraseP_cons, hpid, beq_self_eq_true]
    rfl
  refine ⟨hback, fun f hf hn => ?_⟩
  have hs' := (serves_of_run hF h₀ (hrun₂.tail hround')).shows f hf hn
  rw [State.layers, hback] at hs'
  exact hs'.congr_entry ((serves_of_run hF h₀ hrun).shows f hf hn)

/-- The patch is applied and taken back. -/
theorem reverse_restores_one : ∃ (p : AppliedPatch) (b : Buf) (t s' : State),
    Round {0x5000} (ReferencesAvoid {0x5000}) demoStart (demoPatched p b) ∧
    redirectTarget (demoPatched p b).mem 0x5000 = some 0x9000 ∧ nopEntry (demoPatched p b).mem 0x5000 = false ∧
    ulpApplyPatch demoEnv (demoLeaving p b) = some (ENONE, t) ∧ insnqInterpretFromProcess t = some (ENONE, s') ∧
    s'.patches = [] ∧ redirectTarget s'.mem 0x5000 = none ∧ nopEntry s'.mem 0x5000 = true := by
  obtain ⟨p, t₁, b, hp, happ, he₁, hfun, htool₁⟩ := demo_patched
  have hloads := @demo_loading_ok (ReferencesAvoid {0x5000}) (fun r hr => by cases hr)
  obtain ⟨t, s', hcall, he, -, htool, -⟩ := demo_left hp b
  have hmd : extractUlpFromSoToMem (createPatchMetadataFile (demoPatch 1 [108] [demoUnit] [] [])) [47] =
      some (spliceContainerPath (createPatchMetadataFile (demoPatch 1 [108] [demoUnit] [] [])) [47]) := by decide
  have hmd' : extractUlpFromSoToMem (writeReversePatch (demoPatch 1 [108] [demoUnit] [] [])) [47] =
      some (spliceContainerPath (writeReversePatch (demoPatch 1 [108] [demoUnit] [] [])) [47]) := by decide
  obtain ⟨t', hcall', hback⟩ := reverse_restores (F := {0x5000}) (s := demoStart) (m := demoPatch 1 [108] [demoUnit] [] [])
    (demo_disjoint _) demoStart_start .refl rfl (by simp [demoPatch]) rfl rfl (by simp) (by decide) hmd hmd'
    demoLoading_fits (length_bufferOf (by decide)) (fun _ => rfl)
    (fun _ => rfl : ∀ site, demoEnv.calloc site = true) happ he₁ hfun hloads htool₁
    (demoMem.write (0x5000 - 14) (patchedPrologue false 0x9000)) (fun f hf => AgreeOn.refl _ _ _) rfl
  obtain rfl : t = t' := (Prod.mk.inj (Option.some.inj (hcall.symm.trans hcall'))).2
  obtain ⟨hpatches', hentries⟩ := hback he s' htool
  obtain ⟨hredirect, hnop⟩ := hentries 0x5000 rfl (by decide)
  exact ⟨p, b, t, s', .call _ demoLoading_fits .applyPatch demoEnv ENONE happ he₁ hfun hloads htool₁,
    (by decide +kernel : redirectTarget (demoMem.write (0x5000 - 14) (patchedPrologue false 0x9000)) 0x5000 = some 0x9000),
    (by decide +kernel : nopEntry (demoMem.write (0x5000 - 14) (patchedPrologue false 0x9000)) 0x5000 = false),
    hcall, htool, hpatches', hredirect.trans (by decide), hnop.trans (by decide)⟩

end Libpulp
