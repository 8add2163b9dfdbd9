import Libpulp.RoundTrip
import Libpulp.Tool
import Mathlib.Logic.Relation
/-!
# Accept — when a patch is accepted

The positive side of `Ops`: a patch the packer wrote is applied when the guards let the call through, its build id check
and its dependencies are met, the loader finds everything it names and every function it replaces can be patched.  From
these conditions the outcome of `__ulp_apply_patch` follows without running the parser.
-/
namespace Libpulp

open Bytes (Byte Addr Buf Mem cstr)
open Relation (ReflTransGen)

/-! ## Units and references -/

theorem untilError_ok {α : Type} {f : Nat → α → State → UlpError × State} {P : State → Prop} : ∀ (xs : List α) (j : Nat)
    {s : State}, P s → (∀ x ∈ xs, ∀ j s, P s → (f j x s).1 = ENONE ∧ P (f j x s).2) →
      (untilError f j xs s).1 = ENONE ∧ P (untilError f j xs s).2
  | [], _, _, hs, _      => ⟨rfl, hs⟩
  | x :: xs, j, s, hs, h => by
    obtain ⟨h₁, h₂⟩ := h x List.mem_cons_self j s hs
    rw [untilError, if_neg (by simpa using h₁)]
    exact untilError_ok xs (j + 1) h₂ (fun y hy => h y (List.mem_cons_of_mem _ hy))

/-- What `ulp_apply_all_units` needs of the process and of memory. -/
structure Resolves (env : Env) (ulp : UlpMetadata) (mem : Mem) : Prop where
  calloc : ∀ site, env.calloc site = true
  units  : ∀ u ∈ ulp.objs.units, (unitAddrs env ulp u).1 ≠ 0 ∧ (unitAddrs env ulp u).2 ≠ 0 ∧
    livepatchable mem (unitAddrs env ulp u).1 = true
  base   : env.getLoadedLibraryBaseAddr (getBasename (cstr ulp.objs.name)) ≠ 0xFF
  linked : ∃ l, env.dlinfo ulp.soHandler = some l ∧ l ≠ 0
  refs   : ∀ r ∈ ulp.refs, r.patchOffset = 0 → env.loadSoSymbol (cstr r.referenceName) ulp.soHandler ≠ 0

/-- **When everything resolves, `ulp_apply_all_units` returns 0.** -/
theorem ulpApplyAllUnits_ok {env : Env} {ulp : UlpMetadata} {s : State} (h : Resolves env ulp s.mem) :
    (ulpApplyAllUnits env ulp s).1 = ENONE := by
  have hu := untilError_ok (P := fun t : State => t.mem = s.mem) (f := applyUnit env ulp) ulp.objs.units 0
    (s := { s with globalUniverse := s.globalUniverse + 1 }) rfl (by
      intro u hu j t ht
      obtain ⟨h₁, h₂, hl⟩ := h.units u hu
      have hok := (applyUnit_resolved h.calloc j h₁ h₂ t).trans (if_pos (ht ▸ hl))
      exact ⟨hok, (applyUnit_applied env ulp j u t hok).mem.trans ht⟩)
  obtain ⟨l, hl, hl0⟩ := h.linked
  unfold ulpApplyAllUnits
  simp only [if_neg (not_not.2 hu.1)]
  unfold applyReferences
  simp only [if_neg h.base, hl, if_neg hl0]
  refine (untilError_ok (P := fun _ => True) ulp.refs 0 trivial (fun r hr i t _ => ⟨?_, trivial⟩)).1
  unfold applyReference
  simp only
  rw [if_neg]
  rintro ⟨h0, ha⟩
  rw [referenceAddr, if_pos h0] at ha
  exact h.refs r hr h0 ha

theorem updateUnits_ok {env : Env} {ulp : UlpMetadata} (mem : Mem) (hc : ∀ site, env.calloc site = true) :
    ∀ (units : List UlpUnit) (j : Nat),
      (∀ u ∈ units, (unitAddrs env ulp u).1 ≠ 0 ∧ (unitAddrs env ulp u).2 ≠ 0) →
      ∃ as, updateUnits env ulp mem j units = some as
  | [], _, _      => ⟨[], rfl⟩
  | u :: us, j, h => by
    obtain ⟨h₁, h₂⟩ := h u List.mem_cons_self
    obtain ⟨as, has⟩ := updateUnits_ok mem hc us (j + 1) (fun v hv => h v (List.mem_cons_of_mem _ hv))
    refine ⟨⟨(unitAddrs env ulp u).1, (unitAddrs env ulp u).2, mem.read (unitAddrs env ulp u).1 14⟩ :: as, ?_⟩
    simp only [updateUnits, updateUnit, hc, if_neg h₁, if_neg h₂, has]
    rfl

theorem ulpStateUpdate_ok {env : Env} {ulp : UlpMetadata} (s : State) (hc : ∀ site, env.calloc site = true)
    (hu : ∀ u ∈ ulp.objs.units, (unitAddrs env ulp u).1 ≠ 0 ∧ (unitAddrs env ulp u).2 ≠ 0) :
    ∃ p, Records env ulp p ∧ ulpStateUpdate env ulp s = some { s with patches := p :: s.patches } := by
  obtain ⟨as, has⟩ := updateUnits_ok s.mem hc ulp.objs.units 0 hu
  have hdeps : (List.range ulp.deps.length).all (fun i => env.calloc (.appliedDep i)) = true :=
    List.all_eq_true.2 (fun i _ => hc _)
  have hs : ∃ t, ulpStateUpdate env ulp s = some t := by
    unfold ulpStateUpdate
    rw [hdeps, hc, hc, hc, has]
    exact ⟨_, rfl⟩
  obtain ⟨t, ht⟩ := hs
  obtain ⟨p, hp, rfl⟩ := ulpStateUpdate_spec ht
  exact ⟨p, hp, ht⟩

/-! ## The entry points -/

theorem refused_eq_none {env : Env} {s : State} (he : s.errorState = ENONE) (hq : insnqNotEmpty s.queue = false)
    (hb : env.busy = false) : refused env s = none := by
  simp [refused, he, hq, hb]

theorem parseMetadata_applies {env : Env} {s : State} {m m' ulp : UlpMetadata}
    (hp : parseMetadataFromMem env.calloc s.metadataBuffer env.stackC = .ok m) (ht : m.type = 1)
    (hs : checkPatchSanity env s m = (ENONE, m')) (hd : env.dlopen (cstr m'.soFilename) ≠ 0)
    (hulp : ulp = { m' with soHandler := env.dlopen (cstr m'.soFilename) }) : parseMetadata env s = some (.ok ulp) := by
  unfold parseMetadata
  simp only [hp, hs, ht]
  rw [if_neg (by decide), if_neg (by decide), if_neg hd, hulp]

/-- **A patch that resolves is applied.** -/
theorem ulpApplyPatch_applies {env : Env} {s : State} {m m' ulp : UlpMetadata} (hg : refused env s = none)
    (hr : s.metadataRef = none) (hp : parseMetadataFromMem env.calloc s.metadataBuffer env.stackC = .ok m)
    (ht : m.type = 1) (hs : checkPatchSanity env s m = (ENONE, m')) (ht' : m'.type = 1)
    (hd : env.dlopen (cstr m'.soFilename) ≠ 0) (hulp : ulp = { m' with soHandler := env.dlopen (cstr m'.soFilename) })
    (hres : Resolves env ulp s.mem) :
    ∃ p, Records env ulp p ∧
      ulpApplyPatch env s = some (ENONE, { (ulpApplyAllUnits env ulp (s.recorded ulp p)).2 with metadataRef := none }) := by
  obtain ⟨p, hrec, hup⟩ := ulpStateUpdate_ok (s.loading ulp) hres.calloc
    (fun u hu => ⟨(hres.units u hu).1, (hres.units u hu).2.1⟩)
  have hok : (ulpApplyAllUnits env ulp (s.recorded ulp p)).1 = ENONE := ulpApplyAllUnits_ok hres
  refine ⟨p, hrec, ?_⟩
  have hpm := parseMetadata_applies hp ht hs hd hulp
  have hloaded : patchLoaded env ulp (s.loading ulp) = (ENONE, (ulpApplyAllUnits env ulp (s.recorded ulp p)).2) := by
    unfold patchLoaded
    rw [if_pos (by rw [hulp]; exact ht'), hup]
    change exitOnError (ulpApplyAllUnits env ulp (s.recorded ulp p)) = _
    rw [exitOnError, if_neg (not_not.2 hok), ← hok]
  have hload : loadMetadata env s = some (.ok ulp, s.loading ulp) := by
    unfold loadMetadata
    rw [hr, hpm]
    simp only [hres.calloc]
    rfl
  unfold ulpApplyPatch
  rw [hg]
  unfold loadPatch
  rw [hload]
  simp only [Option.map_some, hloaded]

/-- **A reverse patch is carried out if nothing depends on the patch.** -/
theorem ulpApplyPatch_reverts {env : Env} {s : State} {ulp : UlpMetadata} (hg : refused env s = none)
    (hr : s.metadataRef = none) (hc : env.calloc .metadata = true)
    (hp : parseMetadataFromMem env.calloc s.metadataBuffer env.stackC = .ok ulp) (ht : ulp.type = 2)
    (hcan : ulpCanRevertPatch s ulp.patchId = ENONE) :
    ulpApplyPatch env s = some (ENONE, { (ulpRevertPatch ulp.patchId (s.loading ulp)).2 with metadataRef := none }) := by
  have hpm : parseMetadata env s = some (.ok ulp) := by
    unfold parseMetadata
    simp only [hp, ht, if_true]
  have hret : (ulpRevertPatch ulp.patchId (s.loading ulp)).1 = ENONE := by
    rw [ulpRevertPatch_ret, if_pos]
    exact ulpGetAppliedPatch_isSome.2 (ulpCanRevertPatch_eq_zero.1 hcan).1
  have hloaded : patchLoaded env ulp (s.loading ulp) = (ENONE, (ulpRevertPatch ulp.patchId (s.loading ulp)).2) := by
    have hcan' : ulpCanRevertPatch (s.loading ulp) ulp.patchId = ENONE := hcan
    unfold patchLoaded
    rw [ht, if_neg (by decide), if_pos rfl, if_neg (not_not.2 hcan'), ← hret]
  have hload : loadMetadata env s = some (.ok ulp, s.loading ulp) := by
    unfold loadMetadata
    rw [hr, hpm]
    simp only [hc]
    rfl
  unfold ulpApplyPatch
  rw [hg]
  unfold loadPatch
  rw [hload]
  simp only [Option.map_some, hloaded]

/-! ## A process to apply patches to -/

/-- A process that has loaded the library of `soleLibrary`; the functions `f` and `g` start with a two-byte NOP. -/
def demoMem : Mem := (soleMem.write 0x5000 insnNop2).write 0x6000 insnNop2

/-- The loader knows the old functions `f` and `g` and the new functions `n` and `m`. -/
def demoEnv : Env :=
  { loadLock := 0, loadWriteLock := 0, flag := 0, calloc := fun _ => true, stackC := 0, clock := 0
    objects := [soleLibrary]
    dlopen := fun _ => 0x7000
    dlsym := fun _ name => if name = [110] then some 0x9000 else if name = [109] then some 0xA000 else none
    dlinfo := fun _ => some 0x1000
    getLoadedSymbolAddr := fun _ name _ => if name = [102] then 0x5000 else if name = [103] then 0x6000 else 0
    getLoadedLibraryBaseAddr := fun _ => 0x400000
    getLoadedLibraryTlsIndex := fun _ => 1 }

/-- A patch with the id `i i … i` for the library `lib`. -/
def demoPatch (i : Byte) (lib : List Byte) (units : List UlpUnit) (deps : List PatchId) (refs : List UlpReference) :
    UlpMetadata :=
  { type := 1, patchId := Vector.replicate 32 i, soFilename := [], soHandler := 0
    objs := { buildIdLen := 20, buildIdCheck := false, buildId := List.replicate 20 2, name := lib
              nunits := units.length, units }
    ndeps := deps.length, deps := deps.map (fun d => ⟨d, false⟩), nrefs := refs.length, refs }

/-- The metadata buffer with a section in it, the container being `/`. -/
def bufferOf (section_ : List Byte) : List Byte :=
  spliceContainerPath section_ [47] ++
    List.replicate (ulpMetadataBufLen - (spliceContainerPath section_ [47]).length) 0

theorem length_bufferOf {d : List Byte} (h : (spliceContainerPath d [47]).length ≤ ulpMetadataBufLen) :
    (bufferOf d).length = ulpMetadataBufLen := by
  rw [bufferOf, List.length_append, List.length_replicate]
  omega

/-- What libpulp has loaded when it applies a patch of this kind. -/
def demoLoaded (i : Byte) (lib : List Byte) (units : List UlpUnit) (deps : List PatchId) (refs : List UlpReference) :
    UlpMetadata :=
  { type := 1, patchId := Vector.replicate 32 i, soFilename := [47, 0, 0], soHandler := 0x7000
    objs := { buildIdLen := 20, buildIdCheck := true, buildId := List.replicate 20 2, name := cstr lib ++ [0, 0]
              nunits := units.length, units := units.map UlpUnit.parsed }
    ndeps := 0, deps := deps.map (fun d => ⟨d, true⟩), nrefs := refs.length, refs := refs.map UlpReference.parsed }

theorem demo_sanity {s : State} {i : Byte} {lib : List Byte} {units : List UlpUnit} {deps : List PatchId}
    {refs : List UlpReference} (hm : ∀ o : UlpObject, o.buildIdLen = 20 → o.buildId = List.replicate 20 2 →
      checkBuildId s.mem [soleLibrary] o = true)
    (hd : ∀ d ∈ deps, ∃ p ∈ s.patches, p.patchId = d) (hf : ∀ p ∈ s.patches, p.patchId ≠ Vector.replicate 32 i) :
    checkPatchSanity demoEnv s (metadataParsed (headerParsed 1 (demoPatch i lib units deps refs) [47]
      (cstr lib ++ [0])) (demoPatch i lib units deps refs)) =
        (ENONE, { demoLoaded i lib units deps refs with soHandler := 0 }) := by
  have hmark : (deps.map (fun d => (⟨d, false⟩ : UlpDependency))).map (fun d =>
      if (ulpGetAppliedPatch s d.depId).isSome then { d with patchIdCheck := true } else d) =
        deps.map (fun d => ⟨d, true⟩) := by
    rw [List.map_map]
    refine List.map_congr_left (fun d hdm => ?_)
    simp only [Function.comp, ulpGetAppliedPatch_isSome.2 (hd d hdm), if_true]
  have hparsed : (deps.map (fun d => (⟨d, false⟩ : UlpDependency))).map UlpDependency.parsed =
      deps.map (fun d => ⟨d, false⟩) := by
    rw [List.map_map]
    rfl
  have hall : (deps.map (fun d => (⟨d, true⟩ : UlpDependency))).all (·.patchIdCheck) = true := by simp
  have hfresh : (ulpGetAppliedPatch s (Vector.replicate 32 i)).isSome = false := by
    rw [Bool.eq_false_iff]
    intro h
    obtain ⟨p, hp, he⟩ := ulpGetAppliedPatch_isSome.1 h
    exact hf p hp he
  unfold checkPatchSanity checkPatchDependencies
  simp only [metadataParsed, headerParsed, demoPatch, demoEnv, hparsed, hmark, hall, hfresh]
  rw [hm _ rfl rfl]
  simp [demoLoaded]

/-- libpulp is ready for an operation in that process. -/
structure Ready (s : State) : Prop where
  errorState  : s.errorState = ENONE
  queue       : insnqNotEmpty s.queue = false
  metadataRef : s.metadataRef = none
  buildId     : ∀ o : UlpObject, o.buildIdLen = 20 → o.buildId = List.replicate 20 2 →
    checkBuildId s.mem [soleLibrary] o = true

theorem Ready.refused {s : State} (h : Ready s) : refused demoEnv s = none :=
  refused_eq_none h.errorState h.queue rfl

theorem demo_parsed {s : State} {i : Byte} {lib : List Byte} {units : List UlpUnit} {deps : List PatchId}
    {refs : List UlpReference}
    (hfit : (spliceContainerPath (createPatchMetadataFile (demoPatch i lib units deps refs)) [47]).length ≤
      ulpMetadataBufLen)
    (hb : s.metadataBuffer = bufferOf (createPatchMetadataFile (demoPatch i lib units deps refs))) :
    parseMetadataFromMem demoEnv.calloc s.metadataBuffer demoEnv.stackC =
      .ok (metadataParsed (headerParsed 1 (demoPatch i lib units deps refs) [47] (cstr lib ++ [0]))
        (demoPatch i lib units deps refs)) := by
  rw [hb]
  exact parse_create (fun _ => rfl) _ [47] _ 0 rfl (by simp [demoPatch]) rfl (by simp [demoPatch]) (by simp)
    (by decide) hfit

theorem demo_loads {s : State} (h : Ready s) {i : Byte} {lib : List Byte} {units : List UlpUnit}
    {deps : List PatchId} {refs : List UlpReference}
    (hfit : (spliceContainerPath (createPatchMetadataFile (demoPatch i lib units deps refs)) [47]).length ≤
      ulpMetadataBufLen)
    (hb : s.metadataBuffer = bufferOf (createPatchMetadataFile (demoPatch i lib units deps refs)))
    (hd : ∀ d ∈ deps, ∃ p ∈ s.patches, p.patchId = d) (hf : ∀ p ∈ s.patches, p.patchId ≠ Vector.replicate 32 i) :
    parseMetadata demoEnv s = some (.ok (demoLoaded i lib units deps refs)) :=
  parseMetadata_applies (demo_parsed hfit hb) rfl (demo_sanity h.buildId hd hf) (by decide : (0x7000 : Addr) ≠ 0) rfl

theorem demo_applies {s : State} (h : Ready s) {i : Byte} {lib : List Byte} {units : List UlpUnit}
    {deps : List PatchId} {refs : List UlpReference}
    (hfit : (spliceContainerPath (createPatchMetadataFile (demoPatch i lib units deps refs)) [47]).length ≤
      ulpMetadataBufLen)
    (hb : s.metadataBuffer = bufferOf (createPatchMetadataFile (demoPatch i lib units deps refs)))
    (hd : ∀ d ∈ deps, ∃ p ∈ s.patches, p.patchId = d) (hf : ∀ p ∈ s.patches, p.patchId ≠ Vector.replicate 32 i)
    (hu : Resolves demoEnv (demoLoaded i lib units deps refs) s.mem) :
    ∃ p, Records demoEnv (demoLoaded i lib units deps refs) p ∧
      ulpApplyPatch demoEnv s = some (ENONE,
        { (ulpApplyAllUnits demoEnv (demoLoaded i lib units deps refs)
            (s.recorded (demoLoaded i lib units deps refs) p)).2 with metadataRef := none }) := by
  exact ulpApplyPatch_applies h.refused h.metadataRef (demo_parsed hfit hb) rfl (demo_sanity h.buildId hd hf) rfl
    (by decide : (0x7000 : Addr) ≠ 0) rfl hu

theorem demo_reverts {s : State} (h : Ready s) {i : Byte} {lib : List Byte}
    (hfit : (spliceContainerPath (writeReversePatch (demoPatch i lib [] [] [])) [47]).length ≤ ulpMetadataBufLen)
    (hb : s.metadataBuffer = bufferOf (writeReversePatch (demoPatch i lib [] [] [])))
    (hcan : ulpCanRevertPatch s (Vector.replicate 32 i) = ENONE) :
    ∃ ulp, ulp.patchId = Vector.replicate 32 i ∧ ulpApplyPatch demoEnv s =
      some (ENONE, { (ulpRevertPatch ulp.patchId (s.loading ulp)).2 with metadataRef := none }) := by
  have hp : parseMetadataFromMem demoEnv.calloc s.metadataBuffer demoEnv.stackC =
      .ok (headerParsed 2 (demoPatch i lib [] [] []) [47] (cstr lib)) := by
    rw [hb]
    exact parse_reverse (fun _ => rfl) _ [47] _ 0 (by simp [demoPatch]) (by simp) (by decide) hfit
  have hid : (headerParsed 2 (demoPatch i lib [] [] []) [47] (cstr lib)).patchId = Vector.replicate 32 i := rfl
  rw [← hid] at hcan
  exact ⟨_, hid, ulpApplyPatch_reverts h.refused h.metadataRef rfl hp rfl hcan⟩

def emptyQueue : InsnQueue := ⟨insnqCurrVersion, 0, 0, fun _ => 0⟩

/-- That process at start-up. -/
def demoStart : State :=
  { patches := [], roots := [], rootIndexCounter := 0, globalUniverse := 0
    metadataBuffer := List.replicate ulpMetadataBufLen 0, metadataRef := none, errorState := ENONE
    queue := emptyQueue, mem := demoMem }

theorem demoStart_start : demoStart.Start :=
  ⟨rfl, rfl, rfl, rfl, List.length_replicate, rfl, rfl, queueHolds_empty _⟩

/-- A patch without units and references only enters the list. -/
theorem demo_enters {s : State} (h : Ready { s with queue := emptyQueue }) (i : Byte) (lib : List Byte)
    (deps : List PatchId)
    (hfit : (spliceContainerPath (createPatchMetadataFile (demoPatch i lib [] deps [])) [47]).length ≤ ulpMetadataBufLen)
    (hd : ∀ d ∈ deps, ∃ p ∈ s.patches, p.patchId = d) (hf : ∀ p ∈ s.patches, p.patchId ≠ Vector.replicate 32 i) :
    ∃ p, Records demoEnv (demoLoaded i lib [] deps []) p ∧
      ReflTransGen Step s { s with patches := p :: s.patches, globalUniverse := s.globalUniverse + 1
                                   metadataBuffer := List.replicate ulpMetadataBufLen 0, queue := emptyQueue } := by
  have hready : Ready { s with metadataBuffer := bufferOf (createPatchMetadataFile (demoPatch i lib [] deps []))
                               queue := emptyQueue } := ⟨h.errorState, h.queue, h.metadataRef, h.buildId⟩
  obtain ⟨p, hp, happ⟩ := demo_applies hready hfit rfl hd hf
    ⟨fun _ => rfl, (fun u hu => by cases hu), (by decide : (0x400000 : Addr) ≠ 0xFF), ⟨0x1000, rfl, by decide⟩,
      fun r hr => by cases hr⟩
  refine ⟨p, hp, ReflTransGen.tail (ReflTransGen.single (Step.outside s _ emptyQueue s.mem (length_bufferOf hfit)))
    (Step.apply demoEnv ENONE ?_)⟩
  rw [happ]
  cases s
  obtain ⟨-, -, hr, -⟩ := h
  cases hr
  rfl

/-- A unit that replaces `f` by the function with the name `c`. -/
def unitTo (c : Byte) : UlpUnit := { oldFname := [102], newFname := [c], oldFaddr := 0 }

/-- A unit that replaces `f` by `n`. -/
def demoUnit : UlpUnit := unitTo 110

theorem demo_addrs (i c : Byte) (refs : List UlpReference) :
    unitAddrs demoEnv (demoLoaded i [108] [unitTo c] [] refs) (unitTo c).parsed =
      (0x5000, demoEnv.loadSoSymbol (cstr (unitTo c).parsed.newFname) 0x7000) := rfl

theorem demo_resolves {mem : Mem} (hl : livepatchable mem 0x5000 = true) (i : Byte) {c : Byte}
    (hc : demoEnv.loadSoSymbol (cstr (unitTo c).parsed.newFname) 0x7000 ≠ 0) {refs : List UlpReference}
    (h : ∀ r ∈ refs, r.patchOffset ≠ 0) :
    Resolves demoEnv (demoLoaded i [108] [unitTo c] [] refs) mem := by
  refine ⟨fun _ => rfl, fun u hu => ?_, (by decide : (0x400000 : Addr) ≠ 0xFF), ⟨0x1000, rfl, by decide⟩,
    fun r hr h0 => ?_⟩
  · obtain rfl := List.mem_singleton.1 hu
    rw [demo_addrs]
    exact ⟨(by decide : (0x5000 : Addr) ≠ 0), hc, hl⟩
  · obtain ⟨r', hr', rfl⟩ := List.mem_map.1 hr
    exact absurd h0 (h r' hr')

theorem demoUnit_resolves : Resolves demoEnv (demoLoaded 1 [108] [demoUnit] [] []) demoMem :=
  demo_resolves (by decide) 1 (by decide) (fun r hr => by cases hr)

theorem demo_buildId (o : UlpObject) (h₁ : o.buildIdLen = 20) (h₂ : o.buildId = List.replicate 20 2) :
    checkBuildId demoMem [soleLibrary] o = true := by
  cases o with
  | mk len check id name nunits units =>
    cases h₁
    cases h₂
    cases check <;> rfl

/-- The process with the metadata of a patch with that unit in its buffer. -/
def demoLoading (refs : List UlpReference) : State :=
  { demoStart with metadataBuffer := bufferOf (createPatchMetadataFile (demoPatch 1 [108] [demoUnit] [] refs)) }

/-- What such a patch queues. -/
def demoWrites (refs : List UlpReference) : List Insn :=
  prologueWrite demoMem 0x5000 (some 0x9000) ::
    (refs.map UlpReference.parsed).map (referenceWrite demoEnv (demoLoaded 1 [108] [demoUnit] [] refs))

theorem demoLoading_ready (refs : List UlpReference) : Ready (demoLoading refs) := ⟨rfl, rfl, rfl, demo_buildId⟩

theorem demoLoading_fits : (demoLoading []).metadataBuffer.length = ulpMetadataBufLen := length_bufferOf (by decide)

/-- A patch that replaces `f` is applied and queues its writes. -/
theorem demo_replaces {s : State} (h : Ready s) (hq : Queued s []) (hl : livepatchable s.mem 0x5000 = true) (i : Byte)
    {c : Byte} {target : Addr} (hc : demoEnv.loadSoSymbol (cstr (unitTo c).parsed.newFname) 0x7000 = target)
    (h0 : target ≠ 0) {refs : List UlpReference} (hoff : ∀ r ∈ refs, r.patchOffset ≠ 0)
    (hfit : (spliceContainerPath (createPatchMetadataFile (demoPatch i [108] [unitTo c] [] refs)) [47]).length ≤
      ulpMetadataBufLen)
    (hb : s.metadataBuffer = bufferOf (createPatchMetadataFile (demoPatch i [108] [unitTo c] [] refs)))
    (hf : ∀ p ∈ s.patches, p.patchId ≠ Vector.replicate 32 i)
    (hsize : insnsSize (prologueWrite s.mem 0x5000 (some target) :: (refs.map UlpReference.parsed).map
      (referenceWrite demoEnv (demoLoaded i [108] [unitTo c] [] refs))) ≤ insnBufferMax) :
    ∃ p t, Records demoEnv (demoLoaded i [108] [unitTo c] [] refs) p ∧
      ulpApplyPatch demoEnv s = some (ENONE, { t with metadataRef := none }) ∧
      Queued t (prologueWrite s.mem 0x5000 (some target) :: (refs.map UlpReference.parsed).map
        (referenceWrite demoEnv (demoLoaded i [108] [unitTo c] [] refs))) ∧
      UnitsApplied (Vector.replicate 32 i) [(0x5000, target)]
        { s.recorded (demoLoaded i [108] [unitTo c] [] refs) p with globalUniverse := s.globalUniverse + 1 } t := by
  obtain rfl := hc
  have hres := demo_resolves hl i h0 hoff
  obtain ⟨p, hp, happ⟩ := demo_applies h hfit hb (fun d hd => by cases hd) hf hres
  have hok := ulpApplyAllUnits_ok (s := s.recorded (demoLoaded i [108] [unitTo c] [] refs) p) hres
  obtain ⟨k, l, hw, hkl, -⟩ := ulpApplyAllUnits_wrote demoEnv (demoLoaded i [108] [unitTo c] [] refs)
    (s.recorded (demoLoaded i [108] [unitTo c] [] refs) p)
  obtain ⟨rfl, rfl⟩ := hkl hok
  rw [List.take_length, List.take_length] at hw
  have hq' : Queued (s.recorded (demoLoaded i [108] [unitTo c] [] refs) p) [] := ⟨hq.noError, hq.holds⟩
  exact ⟨p, _, hp, happ, hw.queued [] hq' (hw.fits [] hq' hsize), ulpApplyAllUnits_applied demoEnv _ _ hok⟩

theorem demo_called {refs : List UlpReference} (hoff : ∀ r ∈ refs, r.patchOffset ≠ 0)
    (hfit : (spliceContainerPath (createPatchMetadataFile (demoPatch 1 [108] [demoUnit] [] refs)) [47]).length ≤
      ulpMetadataBufLen) (hsize : insnsSize (demoWrites refs) ≤ insnBufferMax) :
    ∃ p t, Records demoEnv (demoLoaded 1 [108] [demoUnit] [] refs) p ∧
      ulpApplyPatch demoEnv (demoLoading refs) = some (ENONE, { t with metadataRef := none }) ∧
      Queued t (demoWrites refs) ∧ UnitsApplied (Vector.replicate 32 1) [(0x5000, 0x9000)]
        { (demoLoading refs).recorded (demoLoaded 1 [108] [demoUnit] [] refs) p with globalUniverse := 1 } t :=
  demo_replaces (demoLoading_ready refs) ⟨rfl, queueHolds_empty _⟩ (by decide : livepatchable demoMem 0x5000 = true) 1 rfl
    (by decide) hoff hfit rfl (fun q hq => by cases hq) hsize

/-- The process after the patch `01 … 01` was applied, with that unit, and the tool has done the queued write. -/
def demoPatched (p : AppliedPatch) (b : Buf) : State :=
  { demoStart with patches := [p]
                   roots := [⟨0, 0x5000, [⟨Vector.replicate 32 1, 1, 0x9000, true⟩]⟩]
                   rootIndexCounter := 1, globalUniverse := 1
                   queue := ⟨insnqCurrVersion, 0, 0, b⟩
                   mem := demoMem.write (0x5000 - 14) (patchedPrologue false 0x9000) }

theorem demo_functions {i c : Byte} {refs : List UlpReference} {p : AppliedPatch}
    (hp : Records demoEnv (demoLoaded i [108] [unitTo c] [] refs) p) : ∀ u ∈ p.units, u.patchedAddr = 0x5000 := by
  intro u hu
  have := List.mem_map_of_mem (f := fun u : AppliedUnit => (u.patchedAddr, u.targetAddr)) hu
  rw [hp.units] at this
  exact congrArg Prod.fst (List.mem_singleton.1 this)

theorem demo_patched : ∃ p t b, Records demoEnv (demoLoaded 1 [108] [demoUnit] [] []) p ∧
    ulpApplyPatch demoEnv (demoLoading []) = some (ENONE, t) ∧ t.errorState = ENONE ∧
    (∀ q ∈ t.patches, ∀ u ∈ q.units, u.patchedAddr = 0x5000) ∧
    insnqInterpretFromProcess t = some (ENONE, demoPatched p b) := by
  obtain ⟨p, t, hp, happ, hq, hu⟩ := @demo_called [] (fun r hr => by cases hr) (by decide) (by decide)
  have hpatches : t.patches = [p] := hu.patches
  refine ⟨p, _, t.queue.buffer, hp, happ, hq.noError, fun q hq => ?_, ?_⟩
  · obtain rfl := List.mem_singleton.1 (hpatches ▸ hq)
    exact demo_functions hp
  · rw [insnqInterpretFromProcess_holds (s := { t with metadataRef := none }) hq.holds]
    have hr : t.roots = [⟨0, 0x5000, [⟨Vector.replicate 32 1, 1, 0x9000, true⟩]⟩] := congrArg Prod.fst hu.roots
    have hc : t.rootIndexCounter = 1 := congrArg Prod.snd hu.roots
    simp only [hr, hc, hpatches, hu.globalUniverse, hu.metadataBuffer, hu.mem, hq.noError, hq.holds.version]
    rfl

/-- The process when it is handed the reverse patch. -/
def demoLeaving (p : AppliedPatch) (b : Buf) : State :=
  { demoPatched p b with metadataBuffer := bufferOf (writeReversePatch (demoPatch 1 [108] [demoUnit] [] [])) }

theorem demoPatched_ready (p : AppliedPatch) (b : Buf) : Ready (demoPatched p b) := by
  refine ⟨rfl, rfl, rfl, fun o h₁ h₂ => ?_⟩
  cases o with
  | mk len check id name nunits units =>
    cases h₁
    cases h₂
    cases check <;> rfl

/-- A reverse patch takes the newest detour of the only function that is patched, and queues the write of the one below. -/
theorem demo_takesBack {s : State} (h : Ready s) (hq : Queued s []) (hl : livepatchable s.mem 0x5000 = true) {i : Byte}
    {index : BitVec 32} {d : Detour} {ds : List Detour} (hr : s.roots = [⟨index, 0x5000, d :: ds⟩])
    (hd : d.patchId = Vector.replicate 32 i) (hds : ∀ e ∈ ds, e.patchId ≠ Vector.replicate 32 i)
    (hfit : (spliceContainerPath (writeReversePatch (demoPatch i [108] [] [] [])) [47]).length ≤ ulpMetadataBufLen)
    (hb : s.metadataBuffer = bufferOf (writeReversePatch (demoPatch i [108] [] [] [])))
    (hcan : ulpCanRevertPatch s (Vector.replicate 32 i) = ENONE) :
    ∃ t, ulpApplyPatch demoEnv s = some (ENONE, t) ∧
      Queued t [prologueWrite s.mem 0x5000 ((ds.find? (·.active)).map (·.targetAddr))] ∧
      t.patches = s.patches.eraseP (·.patchId == Vector.replicate 32 i) := by
  obtain ⟨ulp, hid, happ⟩ := demo_reverts h hfit hb hcan
  rw [hid] at happ
  refine ⟨_, happ, ?_, (ulpRevertPatch_spec _ (s.loading ulp)).patches⟩
  rw [ulpRevertPatch_sole (s := s.loading ulp) hr rfl hd hds]
  have hw : Wrote [prologueWrite s.mem 0x5000 ((ds.find? (·.active)).map (·.targetAddr))] (s.loading ulp)
      (updatePrologue 0x5000 (ds.find? (·.active)) { s.loading ulp with globalUniverse := s.globalUniverse + 1 }) :=
    (updatePrologue_wrote (s := { s.loading ulp with globalUniverse := s.globalUniverse + 1 }) hl _).congr
      rfl rfl rfl rfl rfl rfl
  have hq' : Queued (s.loading ulp) [] := ⟨hq.noError, hq.holds⟩
  have hsize := prologueWrite_size_le s.mem 0x5000 ((ds.find? (·.active)).map (·.targetAddr))
  have hfits : insnsSize ([] ++ [prologueWrite s.mem 0x5000 ((ds.find? (·.active)).map (·.targetAddr))]) ≤
      insnBufferMax := Nat.le_trans (Nat.add_le_add_right hsize 0) (by decide)
  have hqd := hw.queued [] hq' (hw.fits [] hq' hfits)
  exact ⟨hqd.noError, hqd.holds⟩

theorem demo_loading_ok {ok : Env → UlpMetadata → Prop} (hok : ok demoEnv (demoLoaded 1 [108] [demoUnit] [] [])) :
    ∀ ulp, parseMetadata demoEnv (demoLoading []) = some (.ok ulp) → ok demoEnv ulp := by
  intro ulp hulp
  have hload := demo_loads (demoLoading_ready []) (by decide) rfl (fun d hd => by cases hd) (fun q hq => by cases hq)
  cases hload.symm.trans hulp
  exact hok

theorem demo_leaving_ok {ok : Env → UlpMetadata → Prop} (hok : ∀ ulp, ulp.refs = [] → ok demoEnv ulp)
    (p : AppliedPatch) (b : Buf) : ∀ ulp, parseMetadata demoEnv (demoLeaving p b) = some (.ok ulp) → ok demoEnv ulp := by
  intro ulp hulp
  have hparse := @parse_reverse demoEnv.calloc (fun _ => rfl) (demoPatch 1 [108] [demoUnit] [] []) [47]
    (List.replicate (ulpMetadataBufLen -
      (spliceContainerPath (writeReversePatch (demoPatch 1 [108] [demoUnit] [] [])) [47]).length) 0)
    demoEnv.stackC rfl (by simp) (by decide) (by decide)
  unfold parseMetadata at hulp
  simp only [demoLeaving, bufferOf, hparse] at hulp
  cases hulp
  exact hok _ rfl

theorem demo_left {p : AppliedPatch} (hp : Records demoEnv (demoLoaded 1 [108] [demoUnit] [] []) p) (b : Buf) :
    ∃ t s', ulpApplyPatch demoEnv (demoLeaving p b) = some (ENONE, t) ∧ t.errorState = ENONE ∧ t.patches = [] ∧
      insnqInterpretFromProcess t = some (ENONE, s') ∧ s'.patches = [] := by
  have hid : p.patchId = Vector.replicate 32 1 := hp.patchId
  have hdeps : p.deps = [] := hp.deps
  have hcan : ulpCanRevertPatch (demoLeaving p b) (Vector.replicate 32 1) = ENONE := by
    refine ulpCanRevertPatch_eq_zero.2 ⟨⟨p, List.mem_singleton.2 rfl, hid⟩, fun q hq d hd => ?_⟩
    obtain rfl := List.mem_singleton.1 hq
    rw [hdeps] at hd
    cases hd
  obtain ⟨t, happ, hq, hpatches⟩ := @demo_takesBack (demoLeaving p b) ⟨rfl, rfl, rfl, (demoPatched_ready p b).buildId⟩
    ⟨rfl, queueHolds_empty _⟩ (by decide +kernel :
      livepatchable (demoMem.write (0x5000 - 14) (patchedPrologue false 0x9000)) 0x5000 = true) 1 _ _ _ rfl rfl
    (fun e he => by cases he) (by decide) rfl hcan
  have hnone : t.patches = [] := by
    rw [hpatches]
    change [p].eraseP _ = []
    simp [hid]
  exact ⟨t, _, happ, hq.noError, hnone, insnqInterpretFromProcess_holds hq.holds, hnone⟩

end Libpulp
