import Libpulp.RevertAll
import Libpulp.Redirect
import Libpulp.Atomic
/-!
# Capacity — whether the queue has room for the writes of an operation

The metadata of a patch comes through a buffer of 512 KiB, which bounds the writes of an apply by less than the queue
holds.  Nothing bounds those of a revert: a detour is never removed, and a revert writes once for every detour of the
patch, inactive ones too.  What the queue refuses `memwrite` notes in the error state only, and its callers go on.
-/
namespace Libpulp

open Bytes (Byte Addr Mem cstr)
open Relation (ReflTransGen)

/-! ## Applying -/

/-- The state with `e` in place of no error. -/
def State.raise (e : UlpError) (s : State) : State :=
  { s with errorState := if s.errorState = ENONE then e else s.errorState }

section Raise

variable (e : UlpError)

theorem raise_noError {s : State} (h : s.errorState = ENONE) : (s.raise e).errorState = e := if_pos h

theorem raise_error {s : State} (h : s.errorState ≠ ENONE) : s.raise e = s := by
  unfold State.raise
  rw [if_neg h]

theorem memwrite_raise (dest : Addr) (src : List Byte) (s : State) :
    memwrite dest src (s.raise e) = (memwrite dest src s).raise e := by
  have hq : (s.raise e).queue = s.queue := rfl
  unfold memwrite
  rw [hq]
  cases insnqInsertWrite s.queue dest src with
  | none =>
    have he : (s.enqueued none).errorState ≠ ENONE := (by decide : EINSNQ ≠ ENONE)
    rw [raise_error e he]
    rfl
  | some q => rfl

theorem ulpPatchAddr_raise (oldFaddr newFaddr : Addr) (enable : Bool) (s : State) :
    ulpPatchAddr oldFaddr newFaddr enable (s.raise e) =
      ((ulpPatchAddr oldFaddr newFaddr enable s).1, (ulpPatchAddr oldFaddr newFaddr enable s).2.raise e) := by
  have hm : (s.raise e).mem = s.mem := rfl
  unfold ulpPatchAddr
  rw [hm]
  split
  · rfl
  · split
    · rw [memwrite_raise]
    · exact Prod.ext rfl (memwrite_raise e _ _ s)

theorem getOrPushRoot_raise (env : Env) (j : Nat) (addr : Addr) (s : State) :
    getOrPushRoot env j addr (s.raise e) = (getOrPushRoot env j addr s).map (State.raise e) := by
  have hr : (s.raise e).roots = s.roots := rfl
  unfold getOrPushRoot
  rw [hr]
  split
  · rfl
  · split <;> rfl

theorem applyUnit_raise (env : Env) (ulp : UlpMetadata) (j : Nat) (unit : UlpUnit) (s : State) :
    applyUnit env ulp j unit (s.raise e) = ((applyUnit env ulp j unit s).1, (applyUnit env ulp j unit s).2.raise e) := by
  unfold applyUnit
  simp only
  split
  · rfl
  split
  · rfl
  rw [getOrPushRoot_raise]
  cases getOrPushRoot env j (unitAddrs env ulp unit).1 s with
  | none => rfl
  | some t =>
    simp only [Option.map_some]
    split
    · rfl
    · exact ulpPatchAddr_raise e _ _ _ { t with
        roots := pushNewDetour (unitAddrs env ulp unit).1
          ⟨ulp.patchId, t.globalUniverse, (unitAddrs env ulp unit).2, true⟩ t.roots }

theorem untilError_raise {α : Type} {f : Nat → α → State → UlpError × State}
    (hf : ∀ j x s, f j x (s.raise e) = ((f j x s).1, (f j x s).2.raise e)) : ∀ (xs : List α) (j : Nat) (s : State),
      untilError f j xs (s.raise e) = ((untilError f j xs s).1, (untilError f j xs s).2.raise e)
  | [], _, _      => rfl
  | x :: xs, j, s => by
    rw [untilError, untilError, hf, untilError_raise hf xs (j + 1) (f j x s).2]
    split <;> rfl

theorem applyReferences_raise (env : Env) (ulp : UlpMetadata) (s : State) :
    applyReferences env ulp (s.raise e) = ((applyReferences env ulp s).1, (applyReferences env ulp s).2.raise e) := by
  unfold applyReferences
  simp only
  split
  · rfl
  cases env.dlinfo ulp.soHandler with
  | none => rfl
  | some patchBase =>
    simp only
    split
    · rfl
    · refine untilError_raise e (fun j ref t => ?_) ulp.refs 0 s
      unfold applyReference
      simp only
      split
      · rfl
      · rw [memwrite_raise]

/-- The error state takes no part in what `ulp_apply_all_units` does. -/
theorem ulpApplyAllUnits_raise (env : Env) (ulp : UlpMetadata) (s : State) :
    ulpApplyAllUnits env ulp (s.raise e) =
      ((ulpApplyAllUnits env ulp s).1, (ulpApplyAllUnits env ulp s).2.raise e) := by
  have hu := untilError_raise e (applyUnit_raise e env ulp) ulp.objs.units 0
    { s with globalUniverse := s.globalUniverse + 1 }
  have hs : State.raise e { s with globalUniverse := s.globalUniverse + 1 } =
      { s.raise e with globalUniverse := (s.raise e).globalUniverse + 1 } := rfl
  rw [hs] at hu
  unfold ulpApplyAllUnits
  simp only [hu]
  split
  · rfl
  · exact applyReferences_raise e env ulp _

end Raise

/-- **The queue is large enough for any patch**: whatever the metadata buffer holds, if it is accepted then no write of
the units and references is refused, and after a 0 all of them are in the queue. -/
theorem apply_fits {calloc : AllocSite → Bool} {buffer : List Byte} {c : Nat} {m : UlpMetadata}
    (hlen : buffer.length = ulpMetadataBufLen) (hp : parseMetadataFromMem calloc buffer c = .ok m) (env : Env)
    {ulp : UlpMetadata} (hunits : ulp.objs.units = m.objs.units) (hrefs : ulp.refs = m.refs) {s : State}
    (hq : QueueHolds s.queue []) :
    (ulpApplyAllUnits env ulp s).2.errorState = s.errorState ∧
      (∃ k l, QueueHolds (ulpApplyAllUnits env ulp s).2.queue
        ((ulp.objs.units.take k).map (unitWrite env ulp s.mem) ++ (ulp.refs.take l).map (referenceWrite env ulp))) ∧
      ((ulpApplyAllUnits env ulp s).1 = ENONE → QueueHolds (ulpApplyAllUnits env ulp s).2.queue
        (ulp.objs.units.map (unitWrite env ulp s.mem) ++ ulp.refs.map (referenceWrite env ulp))) := by
  have hfits := (parseMetadataFromMem_parsed hp).fits
  rw [hlen, ← hunits, ← hrefs] at hfits
  -- the call does what it does without an error state
  have hs : s = State.raise s.errorState { s with errorState := ENONE } := by
    cases s
    simp [State.raise]
  have hq' : Queued { s with errorState := ENONE } [] := ⟨rfl, hq⟩
  obtain ⟨k, l, hw, hkl, -⟩ := ulpApplyAllUnits_wrote env ulp { s with errorState := ENONE }
  have he := hw.fits [] hq' (patch_fits s.mem hfits k l)
  have hqueued := (hw.queued [] hq' he).holds
  have hrun : ulpApplyAllUnits env ulp s = ((ulpApplyAllUnits env ulp { s with errorState := ENONE }).1,
      (ulpApplyAllUnits env ulp { s with errorState := ENONE }).2.raise s.errorState) := by
    conv_lhs => rw [hs]
    exact ulpApplyAllUnits_raise _ env ulp _
  rw [hrun]
  refine ⟨raise_noError _ he, ⟨k, l, hqueued⟩, fun hret => ?_⟩
  obtain ⟨rfl, rfl⟩ := hkl hret
  rw [List.take_length, List.take_length] at hqueued
  exact hqueued

/-- A patch with one unit. -/
theorem apply_fits_unit : (ulpApplyAllUnits demoEnv (demoLoaded 1 [108] [demoUnit] [] []) demoStart).1 = ENONE ∧
    QueueHolds (ulpApplyAllUnits demoEnv (demoLoaded 1 [108] [demoUnit] [] []) demoStart).2.queue
      [prologueWrite demoMem 0x5000 (some 0x9000)] := by
  have hfit : (spliceContainerPath (createPatchMetadataFile (demoPatch 1 [108] [demoUnit] [] [])) [47]).length ≤
      ulpMetadataBufLen := by decide
  have hok := ulpApplyAllUnits_ok (s := demoStart) demoUnit_resolves
  have hunits : (demoLoaded 1 [108] [demoUnit] [] []).objs.units = (metadataParsed (headerParsed 1
    (demoPatch 1 [108] [demoUnit] [] []) [47] (cstr [108] ++ [0])) (demoPatch 1 [108] [demoUnit] [] [])).objs.units := rfl
  exact ⟨hok, (apply_fits (length_bufferOf hfit) (demo_parsed (s := demoLoading []) hfit rfl) demoEnv hunits rfl
    (queueHolds_empty _)).2.2 hok⟩

/-! ## What a revert writes -/

/-- The writes of the loop of `ulp_revert_all_units` over the detours of the function at `addr`, `seen` being those already
passed: for every detour of the patch, active or not, one that leads to the newest detour still active then. -/
def detourWrites (mem : Mem) (id : PatchId) (addr : Addr) : List Detour → List Detour → List Insn
  | _, []           => []
  | seen, d :: rest =>
    if d.patchId = id then
      prologueWrite mem addr (firstActive (seen ++ { d with active := false } :: rest)) ::
        detourWrites mem id addr (seen ++ [{ d with active := false }]) rest
    else detourWrites mem id addr (seen ++ [d]) rest

/-- The writes for one function: none if its prologue is not one libpulp can patch. -/
def rootWrites (mem : Mem) (id : PatchId) (r : DetourRoot) : List Insn :=
  if livepatchable mem r.patchedAddr then detourWrites mem id r.patchedAddr [] r.detours else []

/-- **The writes of reverting these patches one after the other.** -/
def revertWrites (mem : Mem) : List PatchId → List DetourRoot → List Insn
  | [], _          => []
  | id :: ids, roots => roots.flatMap (rootWrites mem id) ++ revertWrites mem ids (roots.map (·.deactivate id))

theorem updatePrologue_skips {addr : Addr} {s : State} (h : livepatchable s.mem addr = false) (o : Option Detour) :
    updatePrologue addr o s = s := by
  unfold updatePrologue ulpPatchAddr
  rw [h]
  cases o <;> rfl

theorem revertDetours_skips (id : PatchId) (addr : Addr) : ∀ (rest seen : List Detour) (s : State),
    livepatchable s.mem addr = false → (revertDetours id addr seen rest s).2 = s
  | [], _, _, _           => rfl
  | d :: rest, seen, s, h => by
    rw [revertDetours]
    split
    · simp only [updatePrologue_skips h]
      exact revertDetours_skips id addr rest _ s h
    · exact revertDetours_skips id addr rest _ s h

theorem revertDetours_writes (id : PatchId) (addr : Addr) : ∀ (rest seen : List Detour) (s : State),
    livepatchable s.mem addr = true → Wrote (detourWrites s.mem id addr seen rest) s (revertDetours id addr seen rest s).2
  | [], _, s, _           => .refl s
  | d :: rest, seen, s, h => by
    rw [revertDetours, detourWrites]
    split
    · have hw := updatePrologue_wrote h ((seen ++ { d with active := false } :: rest).find? (·.active))
      have ih := revertDetours_writes id addr rest (seen ++ [{ d with active := false }]) _ (by rw [hw.mem]; exact h)
      rw [hw.mem] at ih
      exact hw.trans ih
    · exact revertDetours_writes id addr rest (seen ++ [d]) s h

theorem revertRoots_writes (id : PatchId) : ∀ (rs : List DetourRoot) (s : State),
    Wrote (rs.flatMap (rootWrites s.mem id)) s (revertRoots id rs s).2
  | [], s      => .refl s
  | r :: rs, s => by
    have hr : Wrote (rootWrites s.mem id r) s (revertDetours id r.patchedAddr [] r.detours s).2 := by
      unfold rootWrites
      cases h : livepatchable s.mem r.patchedAddr with
      | true => exact revertDetours_writes id r.patchedAddr r.detours [] s h
      | false =>
        rw [revertDetours_skips id r.patchedAddr r.detours [] s h]
        exact .refl s
    have ih := revertRoots_writes id rs (revertDetours id r.patchedAddr [] r.detours s).2
    rw [hr.mem] at ih
    exact hr.trans ih

theorem ulpRevertPatch_writes (id : PatchId) (s : State) :
    Wrote (s.roots.flatMap (rootWrites s.mem id)) s (ulpRevertPatch id s).2 :=
  (revertRoots_writes id s.roots { s with globalUniverse := s.globalUniverse + 1 }).congr rfl rfl rfl rfl rfl rfl

/-- The patches of the library, in the order they are reverted. -/
def libPatches (lib : List Byte) (patches : List AppliedPatch) : List PatchId :=
  (patches.filter (fun p => OfLib lib p)).map (·.patchId)

theorem revertAllLoop_writes {lib : List Byte} : ∀ {fuel : Nat} {rest : List AppliedPatch} {ret r : UlpError}
    {s s' : State}, revertAllLoop lib fuel rest ret s = some (r, s') → (∀ p ∈ rest, p ∈ s.patches) →
      (rest.map (·.patchId)).Nodup → Wrote (revertWrites s.mem (libPatches lib rest) s.roots) s s'
  | 0, _, _, _, _, _, h, _, _                      => by cases h
  | fuel + 1, [], ret, r, s, s', h, _, _           => by
    cases h
    exact .refl _
  | fuel + 1, p :: rest, ret, r, s, s', h, hsub, hn => by
    obtain ⟨hp, hn'⟩ := List.nodup_cons.1 hn
    have hsub' : ∀ q ∈ rest, q ∈ s.patches := fun q hq => hsub q (List.mem_cons_of_mem _ hq)
    rw [revertAllLoop] at h
    by_cases hlib : OfLib lib p
    · rw [if_pos (show lib.take ulpPathLen = p.libName.take ulpPathLen from hlib)] at h
      split at h
      · exact revertAllLoop_writes h hsub hn
      · have hw := ulpRevertPatch_writes p.patchId s
        have hrev := ulpRevertPatch_spec p.patchId s
        have hret : (ulpRevertPatch p.patchId s).1 = ENONE := by
          rw [ulpRevertPatch_ret, if_pos]
          exact ulpGetAppliedPatch_isSome.2 ⟨p, hsub p List.mem_cons_self, rfl⟩
        simp only [if_neg (not_not.2 hret)] at h
        have ih := revertAllLoop_writes h (fun q hq => by
          rw [hrev.patches]
          exact mem_eraseP_id (hsub' q hq) (fun e => hp (List.mem_map.2 ⟨q, hq, e⟩))) hn'
        rw [hw.mem, hrev.roots] at ih
        have hids : libPatches lib (p :: rest) = p.patchId :: libPatches lib rest := by
          rw [libPatches, List.filter_cons_of_pos (by simpa using hlib)]
          rfl
        rw [hids]
        exact hw.trans ih
    · rw [if_neg (show ¬ lib.take ulpPathLen = p.libName.take ulpPathLen from hlib)] at h
      have hids : libPatches lib (p :: rest) = libPatches lib rest := by
        rw [libPatches, List.filter_cons_of_neg (by simpa using hlib)]
        rfl
      rw [hids]
      exact revertAllLoop_writes h hsub' hn'

/-! ## Runs -/

/-- **A step of libpulp, of the process, or of the tool**, which carries out what is queued and empties the queue. -/
inductive QueueStep : State → State → Prop
  | operation {s s' : State} (op : Operation) (env : Env) (ret : UlpError) (h : op.run env s = some (ret, s')) :
      QueueStep s s'
  | enableOrDisable (s : State) : QueueStep s (ulpEnableOrDisablePatching s)
  | outside (s : State) (buffer : List Byte) (mem : Mem) (hlen : buffer.length = ulpMetadataBufLen) :
      QueueStep s { s with metadataBuffer := buffer, mem }
  | tool (s : State) (mem : Mem) : QueueStep s { s with mem, queue := { s.queue with size := 0, numInsns := 0 } }

theorem Reverts.wellQueued {k : Nat} {s s' : State} (h : Reverts k s s') (hq : WellQueued s) : WellQueued s' := by
  induction h with
  | done s => exact hq
  | step id can rest ih => exact ih (ulpRevertPatch_wellQueued id hq)

theorem Operation.wellQueued {op : Operation} {env : Env} {s s' : State} {ret : UlpError} (hr : s.metadataRef = none)
    (hq : WellQueued s) (h : op.run env s = some (ret, s')) : WellQueued s' := by
  cases op with
  | applyPatch => exact ulpApplyPatch_wellQueued hr hq h
  | revertPatchesFromLib fuel =>
    simp only [run, ulpRevertPatchesFromLib] at h
    cases hg : refused env s with
    | some r =>
      rw [hg] at h
      cases h
      obtain ⟨is, hq⟩ := hq
      exact ⟨is, (refused_same hg).2.2 ▸ hq⟩
    | none =>
      rw [hg] at h
      obtain ⟨k, hk, -⟩ := revertAllPatchesFromLib_reverts h
      exact hk.wellQueued hq

theorem QueueStep.keeps {s s' : State} (h : QueueStep s s') (ha : Applied s) (hq : WellQueued s) :
    Applied s' ∧ WellQueued s' := by
  cases h with
  | operation op env ret h => exact ⟨(Operation.step h).applied ha, op.wellQueued ha.metadataRef hq h⟩
  | enableOrDisable =>
    refine ⟨(Step.enableOrDisable s).applied ha, ?_⟩
    unfold ulpEnableOrDisablePatching
    split
    · exact hq
    · split <;> exact hq
  | outside buffer mem hlen => exact ⟨⟨ha.metadataRef, ha.ids, ha.deps⟩, hq⟩
  | tool mem =>
    obtain ⟨is, hq⟩ := hq
    exact ⟨⟨ha.metadataRef, ha.ids, ha.deps⟩, [], interpreted_empty hq⟩

theorem queueRun_keeps {s₀ s : State} (h₀ : s₀.Start) (h : ReflTransGen QueueStep s₀ s) : Applied s ∧ WellQueued s := by
  induction h with
  | refl => exact ⟨h₀.applied, [], h₀.queue⟩
  | tail _ hs ih => exact hs.keeps ih.1 ih.2

theorem WellQueued.empty {s : State} (h : WellQueued s) (he : insnqNotEmpty s.queue = false) : QueueHolds s.queue [] := by
  obtain ⟨is, h⟩ := h
  have hnum := h.num
  simp only [insnqNotEmpty, Bool.or_eq_false_iff, decide_eq_false_iff_not] at he
  have hlen : is.length = 0 := by omega
  rw [List.length_eq_zero_iff.1 hlen] at h
  exact h

/-! ## Reverting -/

/-- The patches a call is to revert: that of the metadata if it asks for a revert, or those of the library. -/
def Operation.revertedIds (env : Env) (s : State) : Operation → Option (List PatchId)
  | applyPatch             =>
    match parseMetadata env s with
    | some (.ok ulp) => if ulp.type = 2 then some [ulp.patchId] else none
    | _              => none
  | revertPatchesFromLib _ => some (libPatches s.libBasename s.patches)

theorem loadPatch_reverts {env : Env} {s s' : State} {ulp : UlpMetadata} (hr : s.metadataRef = none)
    (hp : parseMetadata env s = some (.ok ulp)) (ht : ulp.type = 2) (h : loadPatch env s = some (ENONE, s')) :
    s' = { (ulpRevertPatch ulp.patchId (s.loading ulp)).2 with metadataRef := none } := by
  unfold loadPatch loadMetadata at h
  rw [hr] at h
  simp only at h
  split at h
  · cases h
  · rw [hp, Option.map_some, Option.map_some] at h
    unfold patchLoaded at h
    simp only at h
    rw [if_neg (by rw [ht]; decide), if_pos ht] at h
    split at h
    · rename_i hcan
      exact absurd (congrArg Prod.fst (Option.some.inj h)) hcan
    · exact (congrArg Prod.snd (Option.some.inj h)).symm

theorem Operation.revert_wrote {op : Operation} {env : Env} {s s' : State} {ids : List PatchId} (ha : Applied s)
    (hids : op.revertedIds env s = some ids) (h : op.run env s = some (ENONE, s')) :
    refused env s = none ∧ Wrote (revertWrites s.mem ids s.roots) s s' := by
  have hg : refused env s = none := by
    cases hg : refused env s with
    | none => rfl
    | some r =>
      have hr : r = (ENONE, s') := by
        cases op <;> simp only [run, ulpApplyPatch, ulpRevertPatchesFromLib, hg] at h <;> exact Option.some.inj h
      exact absurd rfl (refused_cases (hr ▸ hg)).1
  refine ⟨hg, ?_⟩
  cases op with
  | applyPatch =>
    simp only [run, ulpApplyPatch, hg] at h
    simp only [revertedIds] at hids
    split at hids
    · rename_i ulp hp
      split at hids
      · rename_i ht
        obtain rfl := Option.some.inj hids
        rw [loadPatch_reverts ha.metadataRef hp ht h, revertWrites, revertWrites, List.append_nil]
        exact (ulpRevertPatch_writes ulp.patchId (s.loading ulp)).congr rfl rfl rfl rfl rfl rfl
      · cases hids
    · cases hids
  | revertPatchesFromLib fuel =>
    obtain rfl := Option.some.inj hids
    simp only [run, ulpRevertPatchesFromLib, hg, revertAllPatchesFromLib] at h
    split at h
    · cases h
    · obtain ⟨⟨r, t⟩, ht, he⟩ := Option.map_eq_some_iff.1 h
      obtain rfl := congrArg Prod.snd he
      exact revertAllLoop_writes ht (fun _ hp => hp) ha.ids

/-- **Every write of a revert that returns 0 is accepted exactly when the queue has room for all of them**: in every
reachable state, for one patch or all patches of a library. -/
theorem revert_queued_iff {s₀ s s' : State} (h₀ : s₀.Start) (hrun : ReflTransGen QueueStep s₀ s) {op : Operation}
    {env : Env} {ids : List PatchId} (hids : op.revertedIds env s = some ids) (h : op.run env s = some (ENONE, s')) :
    Queued s' (revertWrites s.mem ids s.roots) ↔ insnsSize (revertWrites s.mem ids s.roots) ≤ insnBufferMax := by
  obtain ⟨ha, hq⟩ := queueRun_keeps h₀ hrun
  obtain ⟨hg, hw⟩ := op.revert_wrote ha hids h
  obtain ⟨he, hempty, -⟩ := refused_none hg
  have hqueued : Queued s [] := ⟨he, hq.empty hempty⟩
  exact ⟨fun hs => hs.holds.fits, fun hfit => hw.queued [] hqueued (hw.fits [] hqueued hfit)⟩

/-! ## One patch applied and reverted over and over -/

/-- A detour of the patch `01 … 01` that was reverted. -/
def Spent (d : Detour) : Prop := d.patchId = Vector.replicate 32 1 ∧ d.active = false

/-- The root list and the index counter with these detours of the function `f`. -/
def cycledRoots : List Detour → List DetourRoot × BitVec 32
  | []      => ([], 0)
  | d :: ds => ([⟨0, 0x5000, d :: ds⟩], 1)

/-- The process between two rounds, with these detours of `f`. -/
structure Cycled (patches : List AppliedPatch) (ds : List Detour) (s : State) : Prop where
  patches     : s.patches = patches
  roots       : (s.roots, s.rootIndexCounter) = cycledRoots ds
  mem         : s.mem = demoMem
  queued      : Queued s []
  metadataRef : s.metadataRef = none

theorem Cycled.ready {patches : List AppliedPatch} {ds : List Detour} {s : State} (h : Cycled patches ds s)
    (buffer : List Byte) : Ready { s with metadataBuffer := buffer, mem := demoMem } :=
  ⟨h.queued.noError, insnqNotEmpty_eq_false h.queued.holds, h.metadataRef, demo_buildId⟩

/-- What the unit makes of the state once the patch is recorded. -/
theorem cycled_unit {p : AppliedPatch} {ds : List Detour} {s : State} (hp : s.patches = [p])
    (hr : (s.roots, s.rootIndexCounter) = cycledRoots ds) (hm : s.mem = demoMem) (hq : Queued s []) :
    Cycled [p] (⟨Vector.replicate 32 1, s.globalUniverse + 1, 0x9000, true⟩ :: ds)
      { (ulpApplyAllUnits demoEnv (demoLoaded 1 [108] [demoUnit] [] []) s).2 with
        metadataRef := none, mem := demoMem
        queue := { (ulpApplyAllUnits demoEnv (demoLoaded 1 [108] [demoUnit] [] []) s).2.queue with
          size := 0, numInsns := 0 } } := by
  have hres := demoUnit_resolves
  rw [← hm] at hres
  have hok := @ulpApplyAllUnits_ok demoEnv (demoLoaded 1 [108] [demoUnit] [] []) s hres
  have hu := ulpApplyAllUnits_applied demoEnv (demoLoaded 1 [108] [demoUnit] [] []) s hok
  obtain ⟨k, l, hw, hkl, -⟩ := ulpApplyAllUnits_wrote demoEnv (demoLoaded 1 [108] [demoUnit] [] []) s
  obtain ⟨rfl, rfl⟩ := hkl hok
  have he := hw.fits [] hq (by rw [hm]; decide)
  refine ⟨hu.patches.trans hp, hu.roots.trans ?_, rfl, ⟨he, interpreted_empty (hw.queued [] hq he).holds⟩, rfl⟩
  change [((0x5000 : Addr), (0x9000 : Addr))].foldl _ (s.roots, s.rootIndexCounter) = _
  rw [hr]
  cases ds <;> rfl

theorem Cycled.apply {ds : List Detour} {s : State} (h : Cycled [] ds s) :
    ∃ t p, ReflTransGen QueueStep s t ∧ p.patchId = Vector.replicate 32 1 ∧ p.deps = [] ∧
      Cycled [p] (⟨Vector.replicate 32 1, s.globalUniverse + 1, 0x9000, true⟩ :: ds) t := by
  have hfit : (spliceContainerPath (createPatchMetadataFile (demoPatch 1 [108] [demoUnit] [] [])) [47]).length ≤
      ulpMetadataBufLen := by decide
  have hready := h.ready (bufferOf (createPatchMetadataFile (demoPatch 1 [108] [demoUnit] [] [])))
  have hout := QueueStep.outside s _ demoMem (length_bufferOf hfit)
  generalize hs : { s with
    metadataBuffer := bufferOf (createPatchMetadataFile (demoPatch 1 [108] [demoUnit] [] [])), mem := demoMem } = s₁
    at hready hout
  have hb : s₁.metadataBuffer = bufferOf (createPatchMetadataFile (demoPatch 1 [108] [demoUnit] [] [])) := by rw [← hs]
  have hm : s₁.mem = demoMem := by rw [← hs]
  have hpatches : s₁.patches = [] := by rw [← hs]; exact h.patches
  have hroots : (s₁.roots, s₁.rootIndexCounter) = cycledRoots ds := by rw [← hs]; exact h.roots
  have hq : Queued s₁ [] := by rw [← hs]; exact ⟨h.queued.noError, h.queued.holds⟩
  have hu : s₁.globalUniverse = s.globalUniverse := by rw [← hs]
  obtain ⟨p, hp, happ⟩ := demo_applies hready hfit hb (fun d hd => by cases hd)
    (fun q hq => by rw [hpatches] at hq; cases hq) (hm ▸ demoUnit_resolves)
  have hc := @cycled_unit p ds (s₁.recorded (demoLoaded 1 [108] [demoUnit] [] []) p)
    (congrArg (p :: ·) hpatches) hroots hm ⟨hq.noError, hq.holds⟩
  have hrun := ((ReflTransGen.single hout).tail (.operation .applyPatch demoEnv ENONE happ)).tail (.tool _ demoMem)
  rw [← hu]
  exact ⟨_, p, hrun, hp.patchId, hp.deps, hc⟩

/-- A revert writes once for each detour of the patch, back to the body of the function if no other one is active. -/
theorem detourWrites_none (mem : Mem) (addr : Addr) {id : PatchId} : ∀ (rest seen : List Detour),
    (∀ d ∈ seen, d.active = false) → (∀ d ∈ rest, d.patchId = id) → (∀ d ∈ rest.tail, d.active = false) →
      detourWrites mem id addr seen rest = List.replicate rest.length (prologueWrite mem addr none)
  | [], _, _, _, _                    => rfl
  | d :: rest, seen, hseen, hid, hact => by
    have hnone : firstActive (seen ++ { d with active := false } :: rest) = none := by
      unfold firstActive
      rw [Option.map_eq_none_iff, List.find?_eq_none]
      intro d' hd'
      rcases List.mem_append.1 hd' with h | h
      · simp [hseen d' h]
      · rcases List.mem_cons.1 h with rfl | h
        · simp
        · simp [hact d' h]
    have ih := detourWrites_none mem addr rest (seen ++ [{ d with active := false }])
      (fun d' hd' => by
        rcases List.mem_append.1 hd' with h | h
        · exact hseen d' h
        · rw [List.mem_singleton.1 h])
      (fun d' h => hid d' (List.mem_cons_of_mem _ h)) (fun d' h => hact d' (List.mem_of_mem_tail h))
    rw [detourWrites, if_pos (hid d List.mem_cons_self), hnone, ih]
    rfl

theorem insnsSize_replicate (w : Insn) : ∀ n : Nat, insnsSize (List.replicate n w) = n * w.size
  | 0     => by simp [insnsSize]
  | n + 1 => by rw [List.replicate_succ, insnsSize_cons, insnsSize_replicate w n, Nat.succ_mul, Nat.add_comm]

/-- What reverting the patch takes of the queue: 24 bytes for every detour. -/
theorem cycled_writes {d : Detour} {ds : List Detour} (hd : d.patchId = Vector.replicate 32 1) (hds : ∀ d ∈ ds, Spent d) :
    insnsSize (revertWrites demoMem [Vector.replicate 32 1] [⟨0, 0x5000, d :: ds⟩]) = (ds.length + 1) * 24 := by
  have hlive : livepatchable demoMem 0x5000 = true := by decide
  have hwrites := @detourWrites_none demoMem 0x5000 (Vector.replicate 32 1) (d :: ds) [] (fun _ h => by cases h)
    (fun d' h => by
      rcases List.mem_cons.1 h with rfl | h
      · exact hd
      · exact (hds d' h).1)
    (fun d' h => (hds d' h).2)
  rw [revertWrites, revertWrites, List.append_nil, List.flatMap_singleton, rootWrites]
  rw [if_pos hlive, hwrites, insnsSize_replicate]
  rfl

/-- The reverted patch is gone, and all its detours are spent. -/
theorem Cycled.reverted {p : AppliedPatch} {d : Detour} {ds : List Detour} {s : State}
    (h : Cycled [p] (d :: ds) { s with metadataRef := none }) (hid : p.patchId = Vector.replicate 32 1)
    (hd : d.patchId = Vector.replicate 32 1) (hds : ∀ d ∈ ds, Spent d) (hfit : (ds.length + 1) * 24 ≤ insnBufferMax) :
    Cycled [] ({ d with active := false } :: ds) { (ulpRevertPatch (Vector.replicate 32 1) s).2 with
      metadataRef := none, mem := demoMem
      queue := { (ulpRevertPatch (Vector.replicate 32 1) s).2.queue with size := 0, numInsns := 0 } } := by
  have hroots : s.roots = [⟨0, 0x5000, d :: ds⟩] := congrArg Prod.fst h.roots
  have hmem : s.mem = demoMem := h.mem
  have hpatches : s.patches = [p] := h.patches
  have hq : Queued s [] := ⟨h.queued.noError, h.queued.holds⟩
  have hrev := ulpRevertPatch_spec (Vector.replicate 32 1) s
  have hw := ulpRevertPatch_writes (Vector.replicate 32 1) s
  have hsize := cycled_writes hd hds
  rw [revertWrites, revertWrites, List.append_nil] at hsize
  rw [hmem, hroots] at hw
  have he := hw.fits [] hq (by rw [List.nil_append, hsize]; exact hfit)
  have hspent : ds.map (·.deactivate (Vector.replicate 32 1)) = ds := by
    conv_rhs => rw [← List.map_id ds]
    refine List.map_congr_left (fun d' hd' => ?_)
    obtain ⟨h₁, h₂⟩ := hds d' hd'
    rw [Detour.deactivate, if_pos h₁]
    cases d'
    cases h₂
    rfl
  refine ⟨?_, ?_, rfl, ⟨he, interpreted_empty (hw.queued [] hq he).holds⟩, rfl⟩
  · rw [hrev.patches, hpatches]
    simp [hid]
  · refine Prod.ext ?_ (hrev.rootIndexCounter.trans (congrArg Prod.snd h.roots))
    change (ulpRevertPatch (Vector.replicate 32 1) s).2.roots = _
    rw [hrev.roots, hroots]
    have hd' : d.deactivate (Vector.replicate 32 1) = { d with active := false } := if_pos hd
    rw [List.map_singleton, DetourRoot.deactivate, List.map_cons, hspent, hd']
    rfl

/-- The buffer asks for the patch to be reverted. -/
theorem cycled_asks {s : State} (hb : s.metadataBuffer = bufferOf (writeReversePatch (demoPatch 1 [108] [] [] []))) :
    Operation.applyPatch.revertedIds demoEnv s = some [Vector.replicate 32 1] := by
  have hp : parseMetadataFromMem demoEnv.calloc s.metadataBuffer demoEnv.stackC =
      .ok (headerParsed 2 (demoPatch 1 [108] [] [] []) [47] (cstr [108])) := by
    rw [hb]
    exact parse_reverse (fun _ => rfl) _ [47] _ 0 (by simp [demoPatch]) (by simp) (by decide) (by decide)
  have hparse : parseMetadata demoEnv s = some (.ok (headerParsed 2 (demoPatch 1 [108] [] [] []) [47] (cstr [108]))) := by
    unfold parseMetadata
    rw [hp]
    rfl
  rw [Operation.revertedIds, hparse]
  rfl

/-- The patch is reverted by a call that returns 0. -/
theorem Cycled.revert {p : AppliedPatch} {ds : List Detour} {s : State} (h : Cycled [p] ds s)
    (hid : p.patchId = Vector.replicate 32 1) (hdeps : p.deps = []) :
    ∃ t ulp, QueueStep s t ∧ Cycled [p] ds t ∧ Operation.applyPatch.revertedIds demoEnv t = some [Vector.replicate 32 1] ∧
      Operation.applyPatch.run demoEnv t = some (ENONE,
        { (ulpRevertPatch (Vector.replicate 32 1) (t.loading ulp)).2 with metadataRef := none }) := by
  have hfit : (spliceContainerPath (writeReversePatch (demoPatch 1 [108] [] [] [])) [47]).length ≤ ulpMetadataBufLen := by
    decide
  have hready := h.ready (bufferOf (writeReversePatch (demoPatch 1 [108] [] [] [])))
  have hcan : ulpCanRevertPatch { s with
      metadataBuffer := bufferOf (writeReversePatch (demoPatch 1 [108] [] [] [])), mem := demoMem }
      (Vector.replicate 32 1) = ENONE := by
    refine ulpCanRevertPatch_eq_zero.2 ⟨⟨p, by simp [h.patches], hid⟩, fun q hq d hd => ?_⟩
    obtain rfl : q = p := by simpa [h.patches] using hq
    rw [hdeps] at hd
    cases hd
  obtain ⟨ulp, hulp, hrun⟩ := demo_reverts hready hfit rfl hcan
  rw [hulp] at hrun
  exact ⟨_, ulp, .outside s _ demoMem (length_bufferOf hfit),
    ⟨h.patches, h.roots, rfl, ⟨h.queued.noError, h.queued.holds⟩, h.metadataRef⟩, cycled_asks rfl, hrun⟩

/-- **After `n` rounds the function has `n` detours**, as long as the queue has room for as many writes. -/
theorem cycled_rounds : ∀ n : Nat, n * 24 ≤ insnBufferMax →
    ∃ s ds, ReflTransGen QueueStep demoStart s ∧ Cycled [] ds s ∧ ds.length = n ∧ ∀ d ∈ ds, Spent d
  | 0, _        => ⟨demoStart, [], .refl, ⟨rfl, rfl, rfl, ⟨rfl, queueHolds_empty _⟩, rfl⟩, rfl, fun _ h => by cases h⟩
  | n + 1, hfit => by
    obtain ⟨s, ds, hrun, hs, hlen, hds⟩ := cycled_rounds n (by omega)
    obtain ⟨t, p, hrun₁, hid, hdeps, ht⟩ := hs.apply
    obtain ⟨u, ulp, hask, hu, -, hcall⟩ := ht.revert hid hdeps
    have hc := @Cycled.reverted p _ ds (u.loading ulp)
      ⟨hu.patches, hu.roots, hu.mem, ⟨hu.queued.noError, hu.queued.holds⟩, rfl⟩ hid rfl hds (by rw [hlen]; exact hfit)
    refine ⟨_, _, ((((hrun.trans hrun₁).tail hask).tail (.operation .applyPatch demoEnv ENONE hcall)).tail
      (.tool _ demoMem)), hc, congrArg (· + 1) hlen, fun d hd => ?_⟩
    rcases List.mem_cons.1 hd with rfl | hd
    · exact ⟨rfl, rfl⟩
    · exact hds d hd

/-- **A revert that returns 0 and has a write refused**: the patch was applied and reverted 87381 times, applied once more,
and its 87382 detours take more than the queue. -/
theorem revert_refused : ∃ s s' ids, ReflTransGen QueueStep demoStart s ∧
    Operation.applyPatch.revertedIds demoEnv s = some ids ∧ Operation.applyPatch.run demoEnv s = some (ENONE, s') ∧
    ¬ Queued s' (revertWrites s.mem ids s.roots) := by
  obtain ⟨s, ds, hrun, hs, hlen, hds⟩ := cycled_rounds 87381 (by decide)
  obtain ⟨t, p, hrun₁, hid, hdeps, ht⟩ := hs.apply
  obtain ⟨u, ulp, hask, hu, hids, hcall⟩ := ht.revert hid hdeps
  refine ⟨u, _, _, (hrun.trans hrun₁).tail hask, hids, hcall, fun hq => ?_⟩
  have hroots : u.roots = [⟨0, 0x5000, _ :: ds⟩] := congrArg Prod.fst hu.roots
  have hfits := hq.holds.fits
  rw [hu.mem, hroots, cycled_writes rfl hds, hlen] at hfits
  exact absurd hfits (by decide)

/-- The first revert of the patch fits. -/
theorem revert_queued_first : ∃ s s', ReflTransGen QueueStep demoStart s ∧
    Operation.applyPatch.run demoEnv s = some (ENONE, s') ∧
    Queued s' (revertWrites s.mem [Vector.replicate 32 1] s.roots) := by
  obtain ⟨s, ds, hrun, hs, hlen, hds⟩ := cycled_rounds 0 (by decide)
  obtain ⟨t, p, hrun₁, hid, hdeps, ht⟩ := hs.apply
  obtain ⟨u, ulp, hask, hu, hids, hcall⟩ := ht.revert hid hdeps
  have hrun₂ := (hrun.trans hrun₁).tail hask
  have hroots : u.roots = [⟨0, 0x5000, _ :: ds⟩] := congrArg Prod.fst hu.roots
  refine ⟨u, _, hrun₂, hcall, (revert_queued_iff demoStart_start hrun₂ hids hcall).2 ?_⟩
  rw [hu.mem, hroots, cycled_writes rfl hds, hlen]
  decide

end Libpulp
