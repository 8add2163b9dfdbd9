import Libpulp.Outcome
import Libpulp.RevertAll
import Libpulp.WellQueued
/-!
# Trigger — replacing a library's patches (tools/trigger.c: `trigger_one_process`)

With a library to revert and a patch to apply the tool stops the threads of the process once and has libpulp do the two
operations one after the other.  Nothing connects them: when the second one fails, the first one is done and stays done.
What is left of the promise that a failed replacement changes nothing depends on the attempt in which libpulp is let
through (`letThrough`), on whether reverting the library's patches removes any, and on whether the new patch is accepted
in the process without them (`State.without`).
-/
namespace Libpulp

open Bytes (Byte Addr Mem cstr)
open Relation (ReflTransGen)

/-! ## The tool -/

/-- The state in which the loop of `revert_all_patches_from_lib` ends, or stays for good. -/
def revertAllReached (lib : List Byte) : List AppliedPatch → State → State
  | [], s            => s
  | patch :: next, s =>
    if OfLib lib patch then
      if ulpCanRevertPatch s patch.patchId ≠ ENONE then s
      else
        let r := ulpRevertPatch patch.patchId s
        if r.1 ≠ ENONE then r.2 else revertAllReached lib next r.2
    else revertAllReached lib next s

/-- `revert_patches_from_lib` in a hijacked process.  A routine that does not come back runs into the time limit of
`run_and_redirect`; the queue is not interpreted then. -/
def revertPatchesFromLib (env : Env) (upper : BitVec 32) (libName : List Byte) (s : State) : Option (Int × State) :=
  match setMetadataBuffer (cstr libName ++ [0]) s with
  | none   => some (ETARGETHOOK, s)
  | some s =>
    match ulpRevertPatchesFromLib (s.patches.length + 1) env s with
    | none          => some (ETIME, revertAllReached s.libBasename s.patches s)
    | some (ret, s) => revertPatchesStopped (returnReg upper ret) s

/-- What one round of the retry loop meets: the results of `hijack_threads`, of the range check and of
`restore_threads`, the answers of the process to the two operations, and the return register of the interrupted main
thread. -/
structure Attempt where
  hijackThreads   : UlpError
  rangeCheckFails : Bool
  revertEnv       : Env
  revertUpper     : BitVec 32
  applyEnv        : Env
  applyUpper      : BitVec 32
  rax             : Addr
  restoreFails    : Bool

def Attempt.hijackFails (a : Attempt) : Bool := a.hijackThreads = ETHRDDETTACH || 0 < a.hijackThreads

/-- A call with a livepatch and a library to revert: the code of the checks made before the process is touched, the
library, the name of the livepatch's own target, the metadata, and the rounds, `retries` of them. -/
structure TriggerCall where
  checks        : UlpError
  revertLibrary : List Byte
  targetName    : List Byte
  metadata      : List Byte
  attempts      : List Attempt

/-- The library `target` is the livepatch's own. -/
def TriggerCall.library (c : TriggerCall) : List Byte :=
  if cstr c.revertLibrary = [116, 97, 114, 103, 101, 116] then c.targetName else c.revertLibrary

/-- Some round runs a routine of libpulp. -/
def entered : List Attempt → Bool
  | []            => false
  | a :: attempts =>
    if a.hijackFails then false
    else if a.rangeCheckFails then !a.restoreFails && entered attempts
    else true

/-- The name of the library is in the metadata buffer. -/
def State.named (s : State) (library : List Byte) : State :=
  { s with metadataBuffer := (cstr library ++ [0]) ++ s.metadataBuffer.drop (cstr library ++ [0]).length }

/-- The metadata of the new patch is in the metadata buffer. -/
def State.offered (s : State) (metadata : List Byte) : State :=
  { s with metadataBuffer := metadata ++ s.metadataBuffer.drop metadata.length }

/-- A patch depends on the patch of the library that is tried first. -/
def FirstStuck (lib : List Byte) (patches : List AppliedPatch) : Prop :=
  ∃ p, patches.find? (fun p => OfLib lib p) = some p ∧ ∃ q ∈ patches, DependsOn q p

/-- The tool takes the register that a call returning 0 leaves for one that has not changed. -/
def Attempt.Mistaken (a : Attempt) : Prop :=
  returnReg a.applyUpper ENONE ≠ 0 ∧ returnReg a.applyUpper ENONE ≠ BitVec.ofInt 64 EAGAIN ∧
    returnReg a.applyUpper ENONE = a.rax

/-- The new patch can be applied in the process `s`, and the tool notices. -/
def Attempt.Accepts (a : Attempt) (metadata : List Byte) (s : State) : Prop :=
  metadata.length < ulpMetadataBufLen ∧ Accepted a.applyEnv (s.offered metadata) ∧ ¬ a.Mistaken

/-- The new patch is turned down in the process `s` before it is recorded. -/
def Attempt.Rejects (a : Attempt) (metadata : List Byte) (s : State) : Prop :=
  ulpMetadataBufLen ≤ metadata.length ∨ Rejected a.applyEnv (s.offered metadata)

/-- Patches were removed from the list, and nothing was written to memory yet. -/
structure Removes (s t : State) : Prop where
  patches     : t.patches.Sublist s.patches
  mem         : t.mem = s.mem
  metadataRef : t.metadataRef = s.metadataRef
  errorState  : t.errorState = s.errorState ∨ t.errorState = EINSNQ
  wellQueued  : WellQueued s → WellQueued t

theorem Removes.refl (s : State) : Removes s s := ⟨List.Sublist.refl _, rfl, rfl, Or.inl rfl, id⟩

theorem Removes.trans {s t u : State} (h : Removes s t) (h' : Removes t u) : Removes s u :=
  ⟨h'.patches.trans h.patches, h'.mem.trans h.mem, h'.metadataRef.trans h.metadataRef,
    h'.errorState.elim (fun e => h.errorState.imp e.trans e.trans) Or.inr, fun hq => h'.wellQueued (h.wellQueued hq)⟩

/-- The walk skips to the first patch of the library. -/
theorem revertAllReached_find {lib : List Byte} {p : AppliedPatch} : ∀ {patches : List AppliedPatch} (s : State),
    patches.find? (fun p => OfLib lib p) = some p →
      ∃ next, revertAllReached lib patches s = revertAllReached lib (p :: next) s
  | [], _, h            => by cases h
  | q :: patches, s, h => by
    rw [List.find?_cons] at h
    split at h
    · obtain rfl := Option.some.inj h
      exact ⟨patches, rfl⟩
    · rename_i hq
      obtain ⟨next, hn⟩ := revertAllReached_find s h
      refine ⟨next, ?_⟩
      rw [revertAllReached, if_neg (by simpa using hq), hn]

/-- Nothing is removed when the first patch of the library is depended on. -/
theorem FirstStuck.reached {lib : List Byte} {s : State} (h : FirstStuck lib s.patches) :
    revertAllReached lib s.patches s = s := by
  obtain ⟨p, hfind, q, hq, hd⟩ := h
  obtain ⟨next, hn⟩ := revertAllReached_find s hfind
  have hp : OfLib lib p := by simpa using List.find?_some hfind
  rw [hn, revertAllReached, if_pos hp, if_pos (not_canRevert hq hd)]

section Buffer

variable {library metadata : List Byte} {s : State}

theorem setMetadataBuffer_offered (h : metadata.length < ulpMetadataBufLen) :
    setMetadataBuffer metadata s = some (s.offered metadata) := if_neg (Nat.not_le_of_lt h)

theorem setMetadataBuffer_long (h : ulpMetadataBufLen ≤ metadata.length) : setMetadataBuffer metadata s = none := if_pos h

end Buffer

/-! ## Rounds in a blocked process -/

theorem insnqNotEmpty_eq_true {q : InsnQueue} {is : List Insn} (h : QueueHolds q is) (hne : is ≠ []) :
    insnqNotEmpty q = true := by
  have hpos : 0 < is.length := List.length_pos_iff.2 hne
  have hnum : 0 < q.numInsns := by rw [h.num]; exact_mod_cast hpos
  simp [insnqNotEmpty, hnum]

end Libpulp
