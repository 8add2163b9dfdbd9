import Libpulp.Patch
/-!
# Ulp — applying and reverting patches (lib/ulp.c)

The operations the `ulp` tool runs in the target process, each a function of the answers of the process (`Env`) and the
state before.  A fallible operation returns its code beside the state it leaves.  `none` stands for a call that has no
result: the metadata parser copies past the end of an object, or `revert_all_patches_from_lib` never comes back.
-/
namespace Libpulp

open Bytes (Byte Addr Mem cstr toLE)

/-! ## Checks -/

def ulpGetAppliedPatch (s : State) (id : PatchId) : Option AppliedPatch := s.patches.find? (·.patchId == id)

/-- `check_patch_dependencies`: mark the dependencies that are applied, then look for one without a mark. -/
def checkPatchDependencies (s : State) (ulp : UlpMetadata) : UlpError × UlpMetadata :=
  let deps := ulp.deps.map (fun d => if (ulpGetAppliedPatch s d.depId).isSome then { d with patchIdCheck := true } else d)
  (if deps.all (·.patchIdCheck) then ENONE else EDEPEND, { ulp with deps })

def checkPatchSanity (env : Env) (s : State) (ulp : UlpMetadata) : UlpError × UlpMetadata :=
  let ulp := { ulp with objs := { ulp.objs with buildIdCheck := checkBuildId s.mem env.objects ulp.objs } }
  if !ulp.objs.buildIdCheck then (EBUILDID, ulp)
  else
    let (ret, ulp) := checkPatchDependencies s ulp
    if ret ≠ ENONE then (ret, ulp)
    else if (ulpGetAppliedPatch s ulp.patchId).isSome then (EAPPLIED, ulp)
    else (ENONE, ulp)

/-- `ulp_can_revert_patch`: the patch is applied and no applied patch depends on it. -/
def ulpCanRevertPatch (s : State) (id : PatchId) : UlpError :=
  if (ulpGetAppliedPatch s id).isNone then ENOTAPPLIED
  else if s.patches.any (fun p => p.deps.any (·.depId == id)) then EDEPEND
  else ENONE

/-! ## Metadata -/

/-- `parse_metadata` without the clearing of the buffer. -/
def parseMetadata (env : Env) (s : State) : Option (Except UlpError UlpMetadata) :=
  match parseMetadataFromMem env.calloc s.metadataBuffer env.stackC with
  | .error .overflow => none
  | .error (.err e)  => some (.error e)
  | .ok ulp          =>
    if ulp.type = 2 then some (.ok ulp)
    else
      let (ret, ulp) := checkPatchSanity env s ulp
      if ret ≠ ENONE then some (.error ret)
      else
        let handle := env.dlopen (cstr ulp.soFilename)
        if handle = 0 then some (.error EDLOPEN) else some (.ok { ulp with soHandler := handle })

def State.clearMetadataBuffer (s : State) : State := { s with metadataBuffer := List.replicate ulpMetadataBufLen 0 }

/-- `load_metadata`: what is still loaded, or what the buffer holds. -/
def loadMetadata (env : Env) (s : State) : Option (Except UlpError UlpMetadata × State) :=
  match s.metadataRef with
  | some ulp => some (.ok ulp, s)
  | none     =>
    if !env.calloc .metadata then some (.error ENOMEM, s)
    else (parseMetadata env s).map (fun r => (r, { s.clearMetadataBuffer with metadataRef := r.toOption }))

/-! ## Recording a patch -/

/-- The addresses of a unit's old and new function, 0 where the loader does not find one. -/
def unitAddrs (env : Env) (ulp : UlpMetadata) (unit : UlpUnit) : Addr × Addr :=
  (env.getLoadedSymbolAddr (getBasename (cstr ulp.objs.name)) (cstr unit.oldFname) unit.oldFaddr,
    env.loadSoSymbol (cstr unit.newFname) ulp.soHandler)

def updateUnit (env : Env) (ulp : UlpMetadata) (mem : Mem) (j : Nat) (unit : UlpUnit) : Option AppliedUnit :=
  let (patchedAddr, targetAddr) := unitAddrs env ulp unit
  if !env.calloc (.appliedUnit j) then none
  else if patchedAddr = 0 then none
  else if targetAddr = 0 then none
  else some { patchedAddr, targetAddr, overwrittenBytes := mem.read patchedAddr 14 }

/-- The unit loop of `ulp_state_update`, from position `j` on. -/
def updateUnits (env : Env) (ulp : UlpMetadata) (mem : Mem) : Nat → List UlpUnit → Option (List AppliedUnit)
  | _, []            => some []
  | j, unit :: units => do
    let a ← updateUnit env ulp mem j unit
    let as ← updateUnits env ulp mem (j + 1) units
    return a :: as

/-- `ulp_state_update`: put the patch at the head of the list; `none` where it returns 0, the list unchanged.  The
dependencies are copied in reverse. -/
def ulpStateUpdate (env : Env) (ulp : UlpMetadata) (s : State) : Option State := do
  guard (env.calloc .appliedPatch && env.calloc .libName && env.calloc .containerName)
  guard ((List.range ulp.deps.length).all (fun i => env.calloc (.appliedDep i)))
  let units ← updateUnits env ulp s.mem 0 ulp.objs.units
  let patch : AppliedPatch :=
    { patchId := ulp.patchId, libName := (getBasename (cstr ulp.objs.name)).take ulpPathLen,
      containerName := (cstr ulp.soFilename).take ulpPathLen, units, deps := ulp.deps.reverse, timestamp := env.clock }
  return { s with patches := patch :: s.patches }

/-! ## Applying its units and references -/

/-- The root of the function at `addr`, made if there is none; `none` if that fails. -/
def getOrPushRoot (env : Env) (j : Nat) (addr : Addr) (s : State) : Option State :=
  if s.roots.any (·.patchedAddr == addr) then some s
  else if !env.calloc (.root j) then none
  else some { s with roots := { index := s.rootIndexCounter, patchedAddr := addr, detours := [] } :: s.roots,
                     rootIndexCounter := s.rootIndexCounter + 1 }

/-- `push_new_detour` on the first root at `addr`. -/
def pushNewDetour (addr : Addr) (d : Detour) : List DetourRoot → List DetourRoot
  | []      => []
  | r :: rs => if r.patchedAddr = addr then { r with detours := d :: r.detours } :: rs else r :: pushNewDetour addr d rs

def applyUnit (env : Env) (ulp : UlpMetadata) (j : Nat) (unit : UlpUnit) (s : State) : UlpError × State :=
  let (oldFun, newFun) := unitAddrs env ulp unit
  if oldFun = 0 then (ENOOLDFUNC, s)
  else if newFun = 0 then (ENONEWFUNC, s)
  else
    match getOrPushRoot env j oldFun s with
    | none   => (EUNKNOWN, s)
    | some s =>
      if !env.calloc (.detour j) then (EUNKNOWN, s)
      else
        let detour := { patchId := ulp.patchId, universeId := s.globalUniverse, targetAddr := newFun, active := true }
        ulpPatchAddr oldFun newFun true { s with roots := pushNewDetour oldFun detour s.roots }

/-- The bytes a reference is filled with: a `tls_index`, or the address of the target. -/
def referenceBytes (targetBase : Addr) (tlsIdx : Int) (ref : UlpReference) : List Byte :=
  if ref.tls then toLE 8 (BitVec.ofInt 64 tlsIdx).toNat ++ toLE 8 ref.targetOffset.toNat
  else toLE 8 (targetBase + ref.targetOffset).toNat

/-- Where a reference lies: at its offset, or where the loader finds its name; 0 if it does not. -/
def referenceAddr (env : Env) (ulp : UlpMetadata) (patchBase : Addr) (ref : UlpReference) : Addr :=
  if ref.patchOffset = 0 then env.loadSoSymbol (cstr ref.referenceName) ulp.soHandler
  else patchBase + ref.patchOffset

def applyReference (env : Env) (ulp : UlpMetadata) (targetBase : Addr) (tlsIdx : Int) (patchBase : Addr) (_ : Nat)
    (ref : UlpReference) (s : State) : UlpError × State :=
  let patchAddress := referenceAddr env ulp patchBase ref
  if ref.patchOffset = 0 ∧ patchAddress = 0 then (ENONEWFUNC, s)
  else (ENONE, memwrite patchAddress (referenceBytes targetBase tlsIdx ref) s)

/-- A loop over the items from position `j` on that stops at the first one that fails. -/
def untilError {α : Type} (f : Nat → α → State → UlpError × State) : Nat → List α → State → UlpError × State
  | _, [], s      => (ENONE, s)
  | j, x :: xs, s => if (f j x s).1 ≠ ENONE then f j x s else untilError f (j + 1) xs (f j x s).2

/-- The part of `ulp_apply_all_units` after the units. -/
def applyReferences (env : Env) (ulp : UlpMetadata) (s : State) : UlpError × State :=
  let targetBasename := getBasename (cstr ulp.objs.name)
  let targetBase := env.getLoadedLibraryBaseAddr targetBasename
  if targetBase = 0xFF then (ENOADDRESS, s)
  else
    match env.dlinfo ulp.soHandler with
    | none           => (EUNKNOWN, s)
    | some patchBase =>
      if patchBase = 0 then (ENOADDRESS, s)
      else untilError
        (applyReference env ulp targetBase (env.getLoadedLibraryTlsIndex targetBasename) patchBase) 0 ulp.refs s

def ulpApplyAllUnits (env : Env) (ulp : UlpMetadata) (s : State) : UlpError × State :=
  let r := untilError (applyUnit env ulp) 0 ulp.objs.units { s with globalUniverse := s.globalUniverse + 1 }
  if r.1 ≠ ENONE then r else applyReferences env ulp r.2

/-! ## Reverting a patch -/

/-- Point the function at the target of a detour, or back at its own body. -/
def updatePrologue (addr : Addr) (dactive : Option Detour) (s : State) : State :=
  match dactive with
  | none   => (ulpPatchAddr addr 0 false s).2
  | some d => (ulpPatchAddr addr d.targetAddr true s).2

/-- The loop of `ulp_revert_all_units` over the detours of one root, `seen` being those already passed: after each
deactivation the prologue is set to the newest active detour of the whole list. -/
def revertDetours (id : PatchId) (addr : Addr) : List Detour → List Detour → State → List Detour × State
  | seen, [], s        => (seen, s)
  | seen, d :: rest, s =>
    if d.patchId = id then
      let d' := { d with active := false }
      revertDetours id addr (seen ++ [d']) rest (updatePrologue addr ((seen ++ d' :: rest).find? (·.active)) s)
    else revertDetours id addr (seen ++ [d]) rest s

def revertRoots (id : PatchId) : List DetourRoot → State → List DetourRoot × State
  | [], s      => ([], s)
  | r :: rs, s =>
    let (detours, s) := revertDetours id r.patchedAddr [] r.detours s
    let (rs, s) := revertRoots id rs s
    ({ r with detours } :: rs, s)

def ulpRevertAllUnits (id : PatchId) (s : State) : State :=
  let (roots, s) := revertRoots id s.roots s
  { s with roots }

/-- `ulp_state_remove`: drop the first patch with the id; `false` if there is none. -/
def ulpStateRemove (id : PatchId) (s : State) : Bool × State :=
  ((ulpGetAppliedPatch s id).isSome, { s with patches := s.patches.eraseP (·.patchId == id) })

def ulpRevertPatch (id : PatchId) (s : State) : UlpError × State :=
  let (found, s) := ulpStateRemove id (ulpRevertAllUnits id { s with globalUniverse := s.globalUniverse + 1 })
  (if found then ENONE else ESTATE, s)

/-! ## The entry points -/

/-- `libpulp_exit` does not exit: it blocks libpulp. -/
def libpulpExit (s : State) : State := { s with errorState := EUNKNOWN }

/-- `libpulp_assert` does not abort either. -/
def libpulpAssert (expression : Bool) (s : State) : State := if expression then s else { s with errorState := EUNKNOWN }

/-- `load_patch` takes a failure of `ulp_apply_all_units` for fatal. -/
def exitOnError (r : UlpError × State) : UlpError × State := if r.1 ≠ ENONE then (r.1, libpulpExit r.2) else r

/-- `load_patch` once the metadata is loaded, before it is unloaded. -/
def patchLoaded (env : Env) (ulp : UlpMetadata) (s : State) : UlpError × State :=
  if ulp.type = 1 then
    match ulpStateUpdate env ulp s with
    | none   => (ESTATE, s)
    | some s => exitOnError (ulpApplyAllUnits env ulp s)
  else if ulp.type = 2 then
    if ulpCanRevertPatch s ulp.patchId ≠ ENONE then (ulpCanRevertPatch s ulp.patchId, s)
    else ulpRevertPatch ulp.patchId s
  else if ulp.type = 0 then (ENOMETA, s)
  else (EUNKNOWN, s)

def loadPatch (env : Env) (s : State) : Option (UlpError × State) :=
  (loadMetadata env s).map (fun
    | (.error e, s) => (e, s)
    | (.ok ulp, s)  =>
      let (ret, s) := patchLoaded env ulp s
      (ret, { s with metadataRef := none }))

/-- The guards at the start of `__ulp_apply_patch` and `__ulp_revert_patches_from_lib`: the code returned and the state
left when one of them stops the operation.  A lock of the loader with an unexpected value counts as held. -/
def refused (env : Env) (s : State) : Option (UlpError × State) :=
  if s.errorState ≠ ENONE then some (s.errorState, s)
  else if insnqNotEmpty s.queue then some (EINSNQ, { s with errorState := EINSNQ })
  else if env.busy then
    some (EAGAIN, libpulpAssert (lockSane env.loadWriteLock) (libpulpAssert (lockSane env.loadLock) s))
  else none

/-- `__ulp_apply_patch`. -/
def ulpApplyPatch (env : Env) (s : State) : Option (UlpError × State) :=
  match refused env s with
  | some r => some r
  | none   => loadPatch env s

/-- The loop of `revert_all_patches_from_lib` for at most `fuel` rounds.  A patch that cannot be reverted is tried again:
its `continue` skips the step to the next patch. -/
def revertAllLoop (libBasename : List Byte) : Nat → List AppliedPatch → UlpError → State → Option (UlpError × State)
  | 0, _, _, _                      => none
  | _ + 1, [], ret, s               => some (ret, s)
  | fuel + 1, patch :: next, ret, s =>
    if libBasename.take ulpPathLen = patch.libName.take ulpPathLen then
      if ulpCanRevertPatch s patch.patchId ≠ ENONE then
        revertAllLoop libBasename fuel (patch :: next) (ulpCanRevertPatch s patch.patchId) s
      else
        let r := ulpRevertPatch patch.patchId s
        if r.1 ≠ ENONE then some r else revertAllLoop libBasename fuel next r.1 r.2
    else revertAllLoop libBasename fuel next ret s

def revertAllPatchesFromLib (fuel : Nat) (env : Env) (libName : List Byte) (s : State) : Option (UlpError × State) :=
  let libBasename := getBasename libName
  if ulpPathLen ≤ libName.length - libBasename.length then some (EOVERFLOW, s)
  else
    (revertAllLoop libBasename fuel s.patches ENOTARGETLIB s).map (fun (ret, s) =>
      (if ret = ENOTARGETLIB ∧ env.getLoadedLibraryBaseAddr libBasename ≠ 0xFF then ENOPATCH else ret, s))

/-- `__ulp_revert_patches_from_lib`. -/
def ulpRevertPatchesFromLib (fuel : Nat) (env : Env) (s : State) : Option (UlpError × State) :=
  match refused env s with
  | some r => some r
  | none   => revertAllPatchesFromLib fuel env (cstr s.metadataBuffer) s

def ulpEnableOrDisablePatching (s : State) : State :=
  if s.errorState = ENONE then { s with errorState := EUSRBLOCKED }
  else if s.errorState = EUSRBLOCKED then { s with errorState := ENONE }
  else s

end Libpulp
