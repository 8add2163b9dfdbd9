import Libpulp.BuildId
import Libpulp.InsnQueue
import Libpulp.Parse
/-!
# State — libpulp inside the target process

`State` holds libpulp's globals (`lib/ulp.c`, `lib/error.c`, `lib/insn_queue.c`) and the process memory the queued
writes go to; the globals themselves lie outside that memory.  Linked lists are lists, head first: `patches` has the
patch applied last at its head, `roots` the function patched last, a root's `detours` its newest detour.  `Env` is what
the rest of the process answers while one libpulp call runs: the loader, the allocator, the clock and the busy locks.
-/
namespace Libpulp

open Bytes (Byte Addr Mem cstr)

structure AppliedUnit where
  patchedAddr      : Addr
  targetAddr       : Addr
  overwrittenBytes : List Byte
deriving DecidableEq

structure AppliedPatch where
  patchId       : PatchId
  libName       : List Byte
  containerName : List Byte
  units         : List AppliedUnit
  deps          : List UlpDependency
  timestamp     : Int
deriving DecidableEq

structure Detour where
  patchId    : PatchId
  universeId : BitVec 64
  targetAddr : Addr
  active     : Bool
deriving DecidableEq

structure DetourRoot where
  index       : BitVec 32
  patchedAddr : Addr
  detours     : List Detour
deriving DecidableEq

structure State where
  patches          : List AppliedPatch
  roots            : List DetourRoot
  rootIndexCounter : BitVec 32
  globalUniverse   : BitVec 64
  metadataBuffer   : List Byte
  metadataRef      : Option UlpMetadata
  errorState       : UlpError
  queue            : InsnQueue
  mem              : Mem

/-- libpulp as the constructor leaves it, with nothing applied. -/
structure State.Start (s : State) : Prop where
  patches        : s.patches = []
  roots          : s.roots = []
  counter        : s.rootIndexCounter = 0
  globalUniverse : s.globalUniverse = 0
  metadataBuffer : s.metadataBuffer.length = ulpMetadataBufLen
  metadataRef    : s.metadataRef = none
  errorState     : s.errorState = ENONE
  queue          : QueueHolds s.queue []

/-- The answers of the process during one call.  A null pointer is address 0; `dlsym` answers `none` when `dlerror`
reports an error, `dlinfo` when it returns -1.  The locks are those of the loader, `flag` the one libpulp puts around the
allocator. -/
structure Env where
  loadLock                 : Int
  loadWriteLock            : Int
  flag                     : Int
  calloc                   : AllocSite → Bool
  stackC                   : Nat
  clock                    : Int
  objects                  : List DlPhdrInfo
  dlopen                   : List Byte → Addr
  dlsym                    : Addr → List Byte → Option Addr
  dlinfo                   : Addr → Option Addr
  getLoadedSymbolAddr      : List Byte → List Byte → Addr → Addr
  getLoadedLibraryBaseAddr : List Byte → Addr
  getLoadedLibraryTlsIndex : List Byte → Int

/-- The values a lock of the loader is expected to have. -/
def lockSane (lock : Int) : Bool := 0 ≤ lock && lock ≤ 1

/-- `dl_locks_held`, without its assertions. -/
def dlLocksHeld (loadLock loadWriteLock : Int) : Bool := loadLock ≠ 0 || loadWriteLock ≠ 0

/-- `__ulp_asunsafe_trylock`. -/
def Env.busy (env : Env) : Bool := dlLocksHeld env.loadLock env.loadWriteLock || env.flag ≠ 0

/-- `load_so_symbol`. -/
def Env.loadSoSymbol (env : Env) (fname : List Byte) (handle : Addr) : Addr := (env.dlsym handle fname).getD 0

/-- What `memwrite` does with the answer of `insnq_insert_write`. -/
def State.enqueued (s : State) : Option InsnQueue → State
  | none   => { s with errorState := EINSNQ }
  | some q => { s with queue := q }

/-- `memwrite`: queue a write for the tool; a full queue puts libpulp into an error state and drops the write. -/
def memwrite (dest : Addr) (src : List Byte) (s : State) : State := s.enqueued (insnqInsertWrite s.queue dest src)

/-- The two states differ at most in the queue, and in the error state if the queue got full. -/
structure SameButQueue (s s' : State) : Prop where
  patches          : s'.patches = s.patches
  roots            : s'.roots = s.roots
  rootIndexCounter : s'.rootIndexCounter = s.rootIndexCounter
  globalUniverse   : s'.globalUniverse = s.globalUniverse
  metadataBuffer   : s'.metadataBuffer = s.metadataBuffer
  metadataRef      : s'.metadataRef = s.metadataRef
  mem              : s'.mem = s.mem
  errorState       : s'.errorState = s.errorState ∨ s'.errorState = EINSNQ

namespace SameButQueue

theorem refl (s : State) : SameButQueue s s := ⟨rfl, rfl, rfl, rfl, rfl, rfl, rfl, Or.inl rfl⟩

theorem trans {s t u : State} (h : SameButQueue s t) (h' : SameButQueue t u) : SameButQueue s u :=
  ⟨h'.patches.trans h.patches, h'.roots.trans h.roots, h'.rootIndexCounter.trans h.rootIndexCounter,
    h'.globalUniverse.trans h.globalUniverse, h'.metadataBuffer.trans h.metadataBuffer,
    h'.metadataRef.trans h.metadataRef, h'.mem.trans h.mem,
    h'.errorState.elim (fun e => h.errorState.imp e.trans e.trans) Or.inr⟩

end SameButQueue

theorem enqueued_same (s : State) (o : Option InsnQueue) : SameButQueue s (s.enqueued o) := by
  cases o with
  | none => exact ⟨rfl, rfl, rfl, rfl, rfl, rfl, rfl, Or.inr rfl⟩
  | some q => exact ⟨rfl, rfl, rfl, rfl, rfl, rfl, rfl, Or.inl rfl⟩

theorem memwrite_same (dest : Addr) (src : List Byte) (s : State) : SameButQueue s (memwrite dest src s) :=
  enqueued_same s _

/-- libpulp is not in an error state, and its queue holds `is`. -/
structure Queued (s : State) (is : List Insn) : Prop where
  noError : s.errorState = ENONE
  holds   : QueueHolds s.queue is

theorem memwrite_queued {s : State} {is : List Insn} (h : Queued s is) (dest : Addr) (src : List Byte)
    (hlen : src.length < 2 ^ 30) (hfit : insnsSize is + (Insn.write dest src).size ≤ insnBufferMax) :
    Queued (memwrite dest src s) (is ++ [.write dest src]) := by
  obtain ⟨q', hq', hh⟩ := (insnqInsertWrite_spec h.holds dest src hlen).1 hfit
  unfold memwrite
  rw [hq']
  exact ⟨h.noError, hh⟩

/-- **`memwrite` queues the write, or libpulp is in an error state from then on.** -/
theorem memwrite_spec {s : State} {is : List Insn} (h : Queued s is) (dest : Addr) (src : List Byte)
    (hlen : src.length < 2 ^ 30) :
    Queued (memwrite dest src s) (is ++ [.write dest src]) ∨ (memwrite dest src s).errorState = EINSNQ := by
  by_cases hle : insnsSize is + (Insn.write dest src).size ≤ insnBufferMax
  · exact Or.inl (memwrite_queued h dest src hlen hle)
  · have hfull := (insnqInsertWrite_spec h.holds dest src hlen).2 (Nat.lt_of_not_le hle)
    unfold memwrite
    rw [hfull]
    exact Or.inr rfl

theorem SameButQueue.noError {s s' : State} (h : SameButQueue s s') (h' : s'.errorState = ENONE) :
    s.errorState = ENONE := by
  rcases h.errorState with e | e
  · rw [← e, h']
  · exact absurd (e.symm.trans h') (by decide)

end Libpulp
