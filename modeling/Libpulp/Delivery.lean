import Libpulp.Described
import Libpulp.Reverse
/-!
# Delivery — from a description to the functions of a process

What a description asks for goes through the packer, the `.ulp` section, the tool's splice and libpulp's buffer before it
changes a function.  If all of them succeed nothing is lost or made up on the way: the new patch has one unit for every
function line, in the order of the lines, and these decide what the functions do (`description_in_force`).
-/
namespace Libpulp
namespace Delivery

open Bytes (Byte Addr Mem cstr)
open Description (Files Overrides Line Ulp Has Countable Described linesOf bodyOf isFunction namesOf names getTargetAddrs
  getSymbolWithName getUlpElfMetadata parseDescription parseDependencies parseContents parseLines containerLine)
open Relation (ReflTransGen)

/-- What `run_packer` has of the target and of the patch when it writes the patch, with the id of `write_patch_id`; `none`
where it has failed before. -/
def packed (files : Files) (ov : Overrides) (description : List Byte) (patchId : PatchId) :
    Option (UlpSoInfo × UlpMetadata) :=
  match parseDescription files ov description with
  | .error _        => none
  | .ok (ulp, info) =>
    match getUlpElfMetadata info ulp with
    | .error _       => none
    | .ok none       => none
    | .ok (some ulp) =>
      info.bind (fun target => ulp.objs.map (fun obj =>
        (target, ⟨0, patchId, ulp.soFilename, 0, obj, ulp.ndeps, ulp.deps, ulp.nrefs, ulp.refs⟩)))

/-! ## What is packed -/

theorem getTargetAddrs_spec {info : UlpSoInfo} : ∀ {units units' : List UlpUnit},
    getTargetAddrs info units = some units' → List.Forall₂ (fun u u' => ∃ sym,
      getSymbolWithName info u.oldFname = some sym ∧ u' = { u with oldFaddr := sym.offset }) units units'
  | [], units', h      => by
    cases h
    exact .nil
  | u :: us, units', h => by
    rw [getTargetAddrs, List.mapM_cons] at h
    simp only [Option.bind_eq_bind, Option.bind_eq_some_iff, Option.pure_def, Option.some.injEq,
      Option.map_eq_some_iff] at h
    obtain ⟨u', ⟨sym, hsym, rfl⟩, us', hus, rfl⟩ := h
    exact .cons ⟨sym, hsym, rfl⟩ (getTargetAddrs_spec hus)

theorem length_getTargetRefAddrs {info : UlpSoInfo} {refs refs' : List UlpReference}
    (h : Description.getTargetRefAddrs info refs = some refs') : refs'.length = refs.length := by
  induction refs generalizing refs' with
  | nil =>
    cases h
    rfl
  | cons r refs ih =>
    rw [Description.getTargetRefAddrs, List.mapM_cons] at h
    simp only [Option.bind_eq_bind, Option.bind_eq_some_iff, Option.pure_def, Option.some.injEq] at h
    obtain ⟨r', -, refs', hrefs, rfl⟩ := h
    rw [List.length_cons, List.length_cons, ih hrefs]

theorem parseDependencies_ndeps {files : Files} {lines left : List Line} {line line' n n' : Nat}
    {deps deps' : List UlpDependency} (h : parseDependencies files lines line n deps = .ok (n', deps', left, line'))
    (hn : n = deps.length % 2 ^ 32) : n' = deps'.length % 2 ^ 32 := by
  induction lines generalizing line n deps with
  | nil =>
    rw [parseDependencies] at h
    obtain ⟨rfl, rfl, -⟩ := Except.ok.inj h
    exact hn
  | cons first rest ih =>
    rw [parseDependencies] at h
    split at h
    · cases hadd : Description.addDependency files (cstr (Description.chomp first).tail) with
      | none =>
        rw [hadd] at h
        cases h
      | some id =>
        rw [hadd] at h
        refine ih h ?_
        rw [hn, List.length_cons, Nat.mod_add_mod]
    · obtain ⟨rfl, rfl, -⟩ := Except.ok.inj h
      exact hn

theorem parseLines_ndeps {files : Files} {ov : Overrides} {lines : List Line} {line : Nat}
    {comments : Description.Comments} {ulp : Ulp} {info : Option UlpSoInfo}
    (h : parseLines files ov lines line comments = .ok (ulp, info)) : ulp.ndeps = ulp.deps.length % 2 ^ 32 := by
  have hcontainer : ∀ {first : Line} {rest : List Line} {line : Nat} {comments : Description.Comments},
      containerLine files ov first rest line comments = .ok (ulp, info) → ulp.ndeps = ulp.deps.length % 2 ^ 32 := by
    intro first rest line comments h
    unfold containerLine at h
    split at h
    · cases h
    · split at h
      · cases h
      · unfold parseContents at h
        split at h
        · cases h
        · rename_i hdeps
          split at h
          · cases h
          · obtain ⟨rfl, -⟩ := Prod.mk.inj (Except.ok.inj h)
            exact parseDependencies_ndeps hdeps rfl
  induction lines generalizing line comments with
  | nil => cases h
  | cons first rest ih =>
    rw [parseLines] at h
    split at h
    · cases h
    · split at h
      · exact ih h
      · split at h
        · cases h
        · exact ih h
      · exact hcontainer h

/-- The unit is what the line asks for: the symbol of the target it names, and a new function. -/
structure Asked (target : UlpSoInfo) (line : Line) (u : UlpUnit) : Prop where
  names : namesOf line = [u.oldFname, u.newFname]
  found : ∃ sym, getSymbolWithName target u.oldFname = some sym ∧ u.oldFaddr = sym.offset
  old   : (0 : Byte) ∉ u.oldFname
  new   : (0 : Byte) ∉ u.newFname

/-- **What is packed is what the description asks for**, and its counters are the lengths of its lists. -/
structure Packed (lines : List Line) (target : UlpSoInfo) (m : UlpMetadata) : Prop where
  units   : List.Forall₂ (Asked target) ((bodyOf lines).filter isFunction) m.objs.units
  nunits  : m.objs.nunits = m.objs.units.length
  ndeps   : m.ndeps = m.deps.length % 2 ^ 32
  nrefs   : m.nrefs = m.refs.length
  buildId : m.objs.buildId = target.buildid.toList
  len     : m.objs.buildIdLen = buildidLen

theorem has_noNul {info : UlpSoInfo} {sym : List Byte} (h : Has info sym) : (0 : Byte) ∉ sym := by
  obtain ⟨s, -, rfl⟩ := h
  exact s.name.property

theorem asked_of {target container : UlpSoInfo} {us us' : List UlpUnit}
    (h : List.Forall₂ (fun u u' => ∃ sym, getSymbolWithName target u.oldFname = some sym ∧
      u' = { u with oldFaddr := sym.offset }) us us')
    (hknown : ∀ u ∈ us, Has target u.oldFname ∧ Has container u.newFname) : ∀ {lines : List Line},
    us.map names = lines.map namesOf → List.Forall₂ (Asked target) lines us' := by
  induction h with
  | nil =>
    intro lines hmap
    obtain rfl := List.map_eq_nil_iff.1 hmap.symm
    exact .nil
  | @cons u u' us us' hu _ ih =>
    intro lines hmap
    cases lines with
    | nil => cases hmap
    | cons line lines =>
      obtain ⟨sym, hsym, rfl⟩ := hu
      obtain ⟨hnames, hmap⟩ := List.cons.inj hmap
      obtain ⟨hold, hnew⟩ := hknown u List.mem_cons_self
      exact .cons ⟨hnames.symm, ⟨sym, hsym, rfl⟩, has_noNul hold, has_noNul hnew⟩
        (ih (fun v hv => hknown v (List.mem_cons_of_mem u hv)) hmap)

theorem packed_spec {files : Files} {ov : Overrides} {description text : List Byte} {patchId : PatchId}
    {target : UlpSoInfo} {m : UlpMetadata} (htext : files.fopen description = some text)
    (hc : Countable (linesOf text)) (h : packed files ov description patchId = some (target, m)) :
    m.patchId = patchId ∧ Packed (linesOf text) target m := by
  unfold packed at h
  split at h
  · cases h
  · rename_i ulp info hparse
    obtain ⟨obj, target', container, hd⟩ := (Description.parseDescription_wellFormed_iff htext hparse).2 hc
    have hndeps : ulp.ndeps = ulp.deps.length % 2 ^ 32 := by
      rw [parseDescription, htext] at hparse
      exact parseLines_ndeps hparse
    obtain rfl := hd.info_eq
    unfold getUlpElfMetadata at h
    simp only [hd.objs_eq] at h
    cases hu : getTargetAddrs target' obj.units with
    | none => simp [hu] at h
    | some units =>
      cases hr : Description.getTargetRefAddrs target' ulp.refs with
      | none => simp [hu, hr] at h
      | some refs =>
        simp only [hu, hr, Option.bind_some, Option.map_some, Option.some.injEq] at h
        obtain ⟨rfl, rfl⟩ := Prod.mk.inj h
        have hunits := getTargetAddrs_spec hu
        have hlen : obj.units.length = units.length := hunits.length_eq
        exact ⟨rfl, asked_of hunits hd.known hd.units, hd.nunits.trans hlen, hndeps,
          hd.nrefs.trans (length_getTargetRefAddrs hr).symm, rfl, rfl⟩

/-! ## What is loaded -/

theorem checkPatchSanity_objs (env : Env) (s : State) (ulp : UlpMetadata) :
    (checkPatchSanity env s ulp).2.objs.name = ulp.objs.name ∧
      (checkPatchSanity env s ulp).2.objs.units = ulp.objs.units ∧
      (checkPatchSanity env s ulp).2.soFilename = ulp.soFilename := by
  unfold checkPatchSanity checkPatchDependencies
  simp only
  repeat' (first | exact ⟨rfl, rfl, rfl⟩ | split)

/-- What is loaded has the object, the units and the container of the buffer. -/
theorem parseMetadata_objs {env : Env} {s : State} {m ulp : UlpMetadata}
    (hm : parseMetadataFromMem env.calloc s.metadataBuffer env.stackC = .ok m) (ht : m.type = 1)
    (h : parseMetadata env s = some (.ok ulp)) : ulp.objs.name = m.objs.name ∧ ulp.objs.units = m.objs.units ∧
      ulp.soHandler = env.dlopen (cstr m.soFilename) := by
  obtain ⟨hname, hunits, hso⟩ := checkPatchSanity_objs env s m
  unfold parseMetadata at h
  simp only [hm, ht] at h
  rw [if_neg (by decide)] at h
  split at h
  · cases h
  · split at h
    · cases h
    · cases h
      exact ⟨hname, hunits, congrArg (fun path => env.dlopen (cstr path)) hso⟩

theorem Packed.ndeps_eq {lines : List Line} {target : UlpSoInfo} {m : UlpMetadata} (h : Packed lines target m)
    (path : List Byte) (hfit : (spliceContainerPath (createPatchMetadataFile m) path).length ≤ ulpMetadataBufLen) :
    m.ndeps = m.deps.length := by
  have hcard := card_le_flatMap (fun d : UlpDependency => d.depId.toList) (fun d => by simp) m.deps
  have hb : m.objs.buildId.length = m.objs.buildIdLen := by
    rw [h.buildId, h.len]
    simp
  rw [splice_create m path hb, List.length_append] at hfit
  simp only [putTail, List.length_append, Bytes.length_toLE] at hfit
  have hlen : ulpMetadataBufLen < 2 ^ 31 := by decide
  rw [h.ndeps]
  exact Nat.mod_eq_of_lt (by omega)

/-- The unit leads from the function the line names to the one it asks for, as the process finds them. -/
def Replaces (env : Env) (target : UlpSoInfo) (library : List Byte) (handle : Addr) (line : Line) (u : AppliedUnit) :
    Prop :=
  ∃ old new sym, namesOf line = [old, new] ∧ getSymbolWithName target old = some sym ∧
    u.patchedAddr = env.getLoadedSymbolAddr library old sym.offset ∧ u.targetAddr = env.loadSoSymbol new handle

theorem replaces_of_asked {env : Env} {target : UlpSoInfo} {ulp : UlpMetadata} {lines : List Line} {units : List UlpUnit}
    {applied : List AppliedUnit} (h : List.Forall₂ (Asked target) lines units)
    (hmap : applied.map (fun u => (u.patchedAddr, u.targetAddr)) =
      (units.map UlpUnit.parsed).map (unitAddrs env ulp)) :
    List.Forall₂ (Replaces env target (getBasename (cstr ulp.objs.name)) ulp.soHandler) lines applied := by
  induction h generalizing applied with
  | nil =>
    obtain rfl := List.map_eq_nil_iff.1 hmap
    exact .nil
  | @cons line u lines units hu _ ih =>
    cases applied with
    | nil => cases hmap
    | cons a applied =>
      obtain ⟨ha, hmap⟩ := List.cons.inj hmap
      obtain ⟨hp, ht⟩ := Prod.mk.inj ha
      obtain ⟨sym, hsym, hoff⟩ := hu.found
      have hname : ∀ {name : List Byte}, (0 : Byte) ∉ name → cstr (cstr name ++ [0, 0]) = name := by
        intro name h0
        rw [cstr_cstr_append_nul]
        exact List.takeWhile_eq_self_iff.2 (fun x hx => by simpa using ne_of_mem_of_not_mem hx h0)
      refine .cons ⟨u.oldFname, u.newFname, sym, hu.names, hsym, ?_, ?_⟩ (ih hmap)
      · rw [hp, ← hoff]
        exact congrArg (fun n => env.getLoadedSymbolAddr _ n u.oldFaddr) (hname hu.old)
      · rw [ht]
        exact congrArg (fun n => env.loadSoSymbol n ulp.soHandler) (hname hu.new)

/-- **What a description asks for is what the process does.**  The packer has taken the description and the tool has put
the patch into the buffer, whatever was left behind it; a call that returns 0 then has one patch more, with one unit for
every function line, in the order of the lines, from the symbol of the target that the line names to the function of the
container.  The functions of these units lead to the new ones, the last line for a function deciding, and all others lead
where they led. -/
theorem description_in_force {F : Set Addr} {s₀ s t s₁ : State} (hF : RegionsDisjoint F s₀.mem) (h₀ : s₀.Start)
    (hrun : ReflTransGen (Round F (ReferencesAvoid F)) s₀ s) {files : Files} {ov : Overrides}
    {description text : List Byte} (htext : files.fopen description = some text) (hc : Countable (linesOf text))
    {patchId : PatchId} {target : UlpSoInfo} {m : UlpMetadata}
    (hpack : packed files ov description patchId = some (target, m)) {path md tail : List Byte} (hp : path ≠ [])
    (hp0 : (0 : Byte) ∉ path) (hmd : extractUlpFromSoToMem (createPatchMetadataFile m) path = some md)
    (hlen : (md ++ tail).length = ulpMetadataBufLen) {env : Env} (ha : ∀ site, env.calloc site = true)
    (hcall : ulpApplyPatch env { s with metadataBuffer := md ++ tail } = some (ENONE, t)) (he : t.errorState = ENONE)
    (hfun : ∀ p ∈ t.patches, ∀ u ∈ p.units, u.patchedAddr ∈ F)
    (href : ∀ ulp, parseMetadata env { s with metadataBuffer := md ++ tail } = some (.ok ulp) → ReferencesAvoid F env ulp)
    (htool : insnqInterpretFromProcess t = some (ENONE, s₁)) :
    ∃ p, s₁.patches = p :: s.patches ∧ p.patchId = patchId ∧
      List.Forall₂ (Replaces env target (getBasename (cstr m.objs.name)) (env.dlopen path))
        ((bodyOf (linesOf text)).filter isFunction) p.units ∧
      ∀ f ∈ F, nopEntry s₀.mem f = true →
        (∀ u, p.units.reverse.find? (·.patchedAddr = f) = some u → redirectTarget s₁.mem f = some u.targetAddr) ∧
        ((∀ u ∈ p.units, u.patchedAddr ≠ f) →
          redirectTarget s₁.mem f = redirectTarget s.mem f ∧ nopEntry s₁.mem f = nopEntry s.mem f) := by
  obtain ⟨hid, hpacked⟩ := packed_spec htext hc hpack
  obtain rfl := spliced_of_extracted hmd
  have hround : Round F (ReferencesAvoid F) s s₁ := .call _ hlen .applyPatch env ENONE hcall he hfun href htool
  rw [List.length_append] at hlen
  have hb : m.objs.buildId.length = m.objs.buildIdLen := by
    rw [hpacked.buildId, hpacked.len]
    simp
  have hparse := parse_create ha m path tail env.stackC hpacked.nunits (hpacked.ndeps_eq path (by omega)) hpacked.nrefs hb
    hp hp0 (by omega)
  have hi := faithful_of_run hF h₀ hrun
  obtain ⟨ulp, p, hload, hulp, hrec, hpt⟩ := patches_of_apply
    (s := { s with metadataBuffer := spliceContainerPath _ path ++ tail }) hi.applied.metadataRef
    ⟨hi.queued.noError, hi.queued.holds⟩ hparse rfl hcall
  obtain ⟨hname, hunits, hso⟩ := parseMetadata_objs
    (s := { s with metadataBuffer := spliceContainerPath _ path ++ tail }) hparse rfl hload
  have hp₁ : s₁.patches = p :: s.patches := (insnqInterpretFromProcess_patches htool).trans hpt
  have hnm : cstr ulp.objs.name = cstr m.objs.name := by
    rw [hname]
    simpa [metadataParsed, headerParsed] using cstr_cstr_append_nul m.objs.name [0]
  have hhandle : ulp.soHandler = env.dlopen path := by
    rw [hso]
    exact congrArg env.dlopen (Bytes.cstr_of_noNul hp0 [0])
  refine ⟨p, hp₁, (hrec.patchId.trans hulp).trans hid, ?_, fun f hf hn => ?_⟩
  · have hmap := hrec.units
    rw [hunits] at hmap
    have := replaces_of_asked hpacked.units hmap
    rwa [hnm, hhandle] at this
  · have hs := (serves_of_run hF h₀ hrun).shows f hf hn
    have hs₁ := (serves_of_run hF h₀ (hrun.tail hround)).shows f hf hn
    rw [State.layers, hp₁, List.map_cons, Layers.value_cons, layer_value] at hs₁
    refine ⟨fun u hu => ?_, fun hno => ?_⟩
    · rw [hu] at hs₁
      exact hs₁
    · have hnone : p.units.reverse.find? (·.patchedAddr = f) = none :=
        List.find?_eq_none.2 (fun u hu => by simpa using hno u (List.mem_reverse.1 hu))
      rw [hnone] at hs₁
      exact hs₁.congr_entry hs

def demoSymbols (library name : Byte) (buildId : Byte) (hl : library ≠ 0) (hn : name ≠ 0) : UlpSoInfo :=
  { name := ⟨[library], Description.zero_not_mem hl⟩, buildid := Vector.replicate 20 buildId,
    symbols := [⟨⟨[name], Description.zero_not_mem hn⟩, 0, 4, 18, 0⟩] }

theorem demo_l_ne : (108 : Byte) ≠ 0 := by decide

theorem demo_f_ne : (102 : Byte) ≠ 0 := by decide

theorem demo_n_ne : (110 : Byte) ≠ 0 := by decide

/-- The library `l` with the function `f`. -/
def demoTarget : UlpSoInfo := demoSymbols 108 102 2 demo_l_ne demo_f_ne

/-- `c`, `@t`, `f:n`. -/
def demoText : List Byte := [99, 10, 64, 116, 10, 102, 58, 110, 10]

def demoFiles : Files :=
  { fopen := fun path => if path = [100] then some demoText else if path = [99] ∨ path = [116] then some [] else none,
    isDirectory := fun _ => false,
    ulpSoInfoOpen := fun path =>
      if path = [99] then some (demoSymbols 110 110 1 demo_n_ne demo_n_ne)
      else if path = [116] then some demoTarget else none }

theorem demo_countable : Countable (linesOf demoText) := by
  refine Description.countable_of_short ?_ ?_ ?_ ?_
  · decide
  · decide
  · decide
  · decide

/-- The description of one function is applied. -/
theorem description_in_force_one : ∃ (p : AppliedPatch) (s₁ : State), s₁.patches = [p] ∧
    List.Forall₂ (Replaces demoEnv demoTarget [108] 0x7000) [[102, 58, 110, 10]] p.units ∧
    redirectTarget s₁.mem 0x5000 = some 0x9000 := by
  have hfit : (spliceContainerPath (createPatchMetadataFile (demoPatch 1 [108] [demoUnit] [] [])) [47]).length ≤
      ulpMetadataBufLen := by decide
  obtain ⟨p, t, hrec, happ, hq, hu⟩ := demo_called (fun r hr => by cases hr) hfit (by decide)
  have hload := demo_loads (demoLoading_ready []) hfit rfl (fun d hd => by cases hd) (fun q hq => by cases hq)
  have hunits : p.units.map (fun u => (u.patchedAddr, u.targetAddr)) = [(0x5000, 0x9000)] := hrec.units
  have hpack : packed demoFiles ⟨none, none⟩ [100] (Vector.replicate 32 1) =
      some (demoTarget, { demoPatch 1 [108] [demoUnit] [] [] with type := 0, soFilename := [99] }) := rfl
  have hmd : extractUlpFromSoToMem (createPatchMetadataFile { demoPatch 1 [108] [demoUnit] [] [] with
      type := 0, soFilename := [99] }) [47] =
        some (spliceContainerPath (createPatchMetadataFile (demoPatch 1 [108] [demoUnit] [] [])) [47]) := by decide
  obtain ⟨q, hq₁, -, hall, hf⟩ := description_in_force (F := {0x5000}) (s := demoStart) (demo_disjoint _) demoStart_start
    .refl rfl demo_countable hpack (by simp) (by decide) hmd (length_bufferOf hfit) (fun _ => rfl) happ hq.noError
    (fun q hm u hum => by
      obtain rfl : q = p := by simpa [show t.patches = [p] from hu.patches] using hm
      have := List.mem_map_of_mem (f := fun u : AppliedUnit => (u.patchedAddr, u.targetAddr)) hum
      rw [hunits, List.mem_singleton] at this
      exact congrArg Prod.fst this)
    (fun ulp hulp => by
      cases hload.symm.trans hulp
      exact fun r hr => by cases hr)
    (insnqInterpretFromProcess_holds (s := { t with metadataRef := none }) hq.holds)
  have hpq : [p] = [q] := hu.patches.symm.trans hq₁
  obtain rfl := (List.cons.inj hpq).1
  obtain ⟨u, hpu, haddrs⟩ := List.map_eq_singleton_iff.1 hunits
  obtain ⟨hold, hnew⟩ := Prod.mk.inj haddrs
  refine ⟨p, _, hq₁, hall, ?_⟩
  rw [← hnew]
  exact (hf 0x5000 rfl (by decide)).1 u (by simp [hpu, hold])

end Delivery
end Libpulp
