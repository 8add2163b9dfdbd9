import Libpulp.ApplyPatch
import Libpulp.SymbolLoader
/-!
# Interpose — the constructor, and the error state over whole runs (lib/interpose.c, lib/error.c)

`__ulp_error_state` is one global that anybody overwrites.  The constructor searches the loader for its locks, checks them
and looks at the user's blocks after that, each writing the error state without a look at what it holds; `asunsafeBegin`
is the list of what is written, in order.  After the constructor an error state stays (`LibStep.failed`), so whether it stays at all depends on
the constructor alone.
-/
namespace Libpulp

open Bytes (Byte Addr Mem)
open Relation (ReflTransGen)

/-! ## The constructor -/

/-- The functions the constructor looks up and needs. -/
inductive RealFunction where
  | dlopen | dlmopen | dlclose | dladdr | dladdr1 | dlinfo
  | free | malloc | calloc | realloc | pvalloc | memalign | alignedAlloc | posixMemalign
deriving DecidableEq

/-- In the order of the checks, each with the error state set if it is missing. -/
def requiredFunctions : List (RealFunction × UlpError) :=
  [(.dlopen, ENOLIBDL), (.dlmopen, ENOLIBDL), (.dlclose, ENOLIBDL), (.dladdr, ENOLIBDL), (.dladdr1, ENOLIBDL),
    (.dlinfo, ENOLIBDL), (.free, ENOLIBC), (.malloc, ENOLIBC), (.calloc, ENOLIBC), (.realloc, ENOLIBC),
    (.pvalloc, ENOLIBC), (.memalign, ENOLIBC), (.alignedAlloc, ENOLIBC), (.posixMemalign, ENOLIBC)]

/-- What the constructor finds: the environment variables, the answers of the loader, the allocator and the system, and
in `processPath` the buffer as `fnmatch` reads it. -/
structure InitEnv where
  dlsym           : RealFunction → Bool
  loaded          : Loaded
  loadLock        : Int
  loadWriteLock   : Int
  disableOnPath   : Option (List Byte)
  disableOnUsers  : Option (List Byte)
  disableOnGroups : Option (List Byte)
  mallocPath      : Bool
  mallocUser      : Bool
  mallocGroup     : Bool
  readlink        : Int
  processPath     : List Byte
  uid             : BitVec 32
  gid             : BitVec 32
  uname           : Option (List Byte)
  gname           : Option (List Byte)
  fnmatch         : List Byte → List Byte → Bool

/-- The wildcards of a variable, as `strtok(names, ":")` takes them apart. -/
def wildcards (names : List Byte) : List (List Byte) := (names.splitOn 58).filter (· ≠ [])

/-- What the three `maybe_disable_livepatching_on_…` have in common: the error states written, `sanity` being those of
a check made before the wildcards are tried. -/
def maybeDisableLivepatching (disabledNames : Option (List Byte)) (malloc : Bool) (sanity : List UlpError)
    (fits : List Byte → Bool) : List UlpError :=
  match disabledNames with
  | none       => []
  | some names =>
    if !malloc then [ENOMEM]
    else sanity ++ if (wildcards names).any fits then [EUSRBLOCKED] else []

namespace InitEnv

def readlinkFails (i : InitEnv) : Bool := pathMax ≤ sizeT i.readlink

def fitsPath (i : InitEnv) (wildcard : List Byte) : Bool := i.fnmatch wildcard i.processPath

/-- A uid or a gid, or a wildcard for the name if there is one. -/
def fitsId (i : InitEnv) (id : BitVec 32) (name : Option (List Byte)) (wildcard : List Byte) : Bool :=
  isnumber wildcard && strtoul wildcard == id.toNat || name.any (i.fnmatch wildcard)

end InitEnv

def maybeDisableLivepatchingOnPath (i : InitEnv) : List UlpError :=
  maybeDisableLivepatching i.disableOnPath i.mallocPath (if i.readlinkFails then [EINITFAIL] else []) i.fitsPath

def maybeDisableLivepatchingOnUser (i : InitEnv) : List UlpError :=
  maybeDisableLivepatching i.disableOnUsers i.mallocUser [] (i.fitsId i.uid i.uname)

def maybeDisableLivepatchingOnGroup (i : InitEnv) : List UlpError :=
  maybeDisableLivepatching i.disableOnGroups i.mallocGroup [] (i.fitsId i.gid i.gname)

/-- The checks of `dl_find_symbol` at an object: `libpulp_errx` sets the error state, and the search goes on. -/
def dlFindSymbolErrors (mem : Mem) (size : Nat) (info : LoadedObject) (library : List Byte) : List UlpError :=
  if size ≠ sizeofDlPhdrInfo then [EUNKNOWN]
  else if !strstr info.dlpiName library then []
  else if info.dlpiName = linuxVdso then []
  else if (readDynamic mem info.dynamic ⟨0, 0, 0⟩).isNone then [EUNKNOWN]
  else []

/-- What a search with `dl_iterate_phdr` writes up to the object at which it stops. -/
def searchErrors (mem : Mem) (size : Nat) : List LoadedObject → DlIterateArg → List UlpError
  | [], _         => []
  | o :: os, args => dlFindSymbolErrors mem size o args.library ++
    if (dlFindSymbol mem size o args).1 then [] else searchErrors mem size os (dlFindSymbol mem size o args).2

/-- `ld-linux-x86-64.so.2` -/
def ldLinux : List Byte :=
  [108, 100, 45, 108, 105, 110, 117, 120, 45, 120, 56, 54, 45, 54, 52, 46, 115, 111, 46, 50]

/-- `_rtld_global` -/
def rtldGlobal : List Byte := [95, 114, 116, 108, 100, 95, 103, 108, 111, 98, 97, 108]

/-- `get_ld_global_locks`: the values written; `none` if it does not find the loader's data and ends the process. -/
def getLdGlobalLocks (i : InitEnv) : Option (List UlpError) :=
  if i.loaded.getLoadedSymbolAddr ldLinux rtldGlobal 0 = 0 then none
  else some (searchErrors i.loaded.mem i.loaded.size i.loaded.objects (i.loaded.iterateArg ldLinux rtldGlobal))

/-- The assertions of `dl_locks_held`. -/
def assertLock (lock : Int) : List UlpError := if lockSane lock then [] else [EUNKNOWN]

/-- `__ulp_asunsafe_begin`: the values it writes to `__ulp_error_state`; `none` if it ends the process. -/
def asunsafeBegin (i : InitEnv) : Option (List UlpError) :=
  let missing := (requiredFunctions.filter (fun f => !i.dlsym f.1)).map (·.2)
  if missing ≠ [] then some missing
  else (getLdGlobalLocks i).map (fun search => search ++ assertLock i.loadLock ++ assertLock i.loadWriteLock ++
    maybeDisableLivepatchingOnPath i ++ maybeDisableLivepatchingOnUser i ++ maybeDisableLivepatchingOnGroup i)

/-- libpulp as the constructor leaves it, which wrote `es` to the error state. -/
structure Constructed (i : InitEnv) (es : List UlpError) (s : State) : Prop where
  written    : asunsafeBegin i = some es
  patches    : s.patches = []
  roots      : s.roots = []
  queue      : QueueHolds s.queue []
  errorState : s.errorState = es.getLast?.getD ENONE

/-! ## Runs -/

/-- **What libpulp is asked to do**: to apply or to revert, a loader it does not understand blocking it on the way, or
to let the user enable or disable patching. -/
inductive LibStep : State → State → Prop
  | operation {s s' : State} (op : Operation) (env : Env) (ret : UlpError) (h : op.run env s = some (ret, s')) :
      LibStep s s'
  | errx {s s' : State} (op : Operation) (env : Env) (ret : UlpError) (hg : refused env s = none)
      (h : op.run env s = some (ret, s')) : LibStep s { s' with errorState := EUNKNOWN }
  | enableOrDisable (s : State) : LibStep s (ulpEnableOrDisablePatching s)

/-- A step of libpulp, or something else that writes to the metadata buffer, to the queue or to memory. -/
inductive RunStep : State → State → Prop
  | lib {s s' : State} (h : LibStep s s') : RunStep s s'
  | outside (s : State) (buffer : List Byte) (queue : InsnQueue) (mem : Mem) :
      RunStep s { s with metadataBuffer := buffer, queue, mem }

/-- An error state, other than that the user blocked libpulp. -/
def Failed (e : UlpError) : Prop := e ≠ ENONE ∧ e ≠ EUSRBLOCKED

instance (e : UlpError) : Decidable (Failed e) := inferInstanceAs (Decidable (_ ∧ _))

/-- **Error states are sticky** after the constructor found `i`: once one was held, in the constructor or later, the error
state is never `ENONE` again, and nothing libpulp is asked to do changes its lists or the queue. -/
def Sticky (i : InitEnv) : Prop :=
  ∀ es s₀ s t, Constructed i es s₀ → ReflTransGen RunStep s₀ s → (∃ e ∈ es, Failed e) ∨ Failed s.errorState →
    ReflTransGen RunStep s t →
      t.errorState ≠ ENONE ∧ ∀ u, LibStep t u → u.patches = t.patches ∧ u.roots = t.roots ∧ u.queue = t.queue

theorem LibStep.failed {s s' : State} (h : LibStep s s') (hs : Failed s.errorState) : s' = s := by
  cases h with
  | operation op env ret h =>
    rw [op.blocked hs.1 env] at h
    exact (Prod.mk.inj (Option.some.inj h)).2.symm
  | errx op env ret hg =>
    rw [refused, if_pos hs.1] at hg
    cases hg
  | enableOrDisable => rw [ulpEnableOrDisablePatching, if_neg hs.1, if_neg hs.2]

theorem RunStep.failed {s s' : State} (h : RunStep s s') (hs : Failed s.errorState) : Failed s'.errorState := by
  cases h with
  | lib h => rwa [h.failed hs]
  | outside => exact hs

theorem run_failed {s t : State} (h : ReflTransGen RunStep s t) (hs : Failed s.errorState) : Failed t.errorState := by
  induction h with
  | refl => exact hs
  | tail _ h ih => exact h.failed ih

/-! ## What the constructor writes last -/

/-- The error states a part of the constructor writes: whether there is a real one, and whether the last is the user's
block. -/
structure ErrorWrites (es : List UlpError) (fails blocks : Prop) : Prop where
  failed  : (∃ e ∈ es, Failed e) ↔ fails
  blocked : es.getLast? = some EUSRBLOCKED ↔ blocks
  nothing : es = [] ↔ ¬ fails ∧ ¬ blocks
  nonzero : ∀ e ∈ es, e ≠ ENONE

namespace ErrorWrites

theorem nil : ErrorWrites [] False False := ⟨by simp, by simp, by simp, by simp⟩

theorem block : ErrorWrites [EUSRBLOCKED] False True := ⟨by simp [Failed], by simp, by simp, by decide⟩

theorem fail {e : UlpError} (h : Failed e) : ErrorWrites [e] True False :=
  ⟨by simpa using h, by simpa using h.2, by simp, by simpa using h.1⟩

/-- Real error states only. -/
theorem of_failed {es : List UlpError} (h : ∀ e ∈ es, Failed e) : ErrorWrites es (es ≠ []) False := by
  refine ⟨⟨?_, fun hne => ?_⟩, ⟨fun hl => (h _ (List.mem_of_getLast? hl)).2 rfl, False.elim⟩, by simp, fun e he => (h e he).1⟩
  · rintro ⟨e, he, -⟩
    exact List.ne_nil_of_mem he
  · obtain ⟨e, he⟩ := List.exists_mem_of_ne_nil es hne
    exact ⟨e, he, h e he⟩

/-- A later part has the last word if it writes anything. -/
theorem append {xs ys : List UlpError} {f b f' b' : Prop} (hx : ErrorWrites xs f b) (hy : ErrorWrites ys f' b') :
    ErrorWrites (xs ++ ys) (f ∨ f') (b' ∨ ¬ f' ∧ b) := by
  refine ⟨?_, ?_, ?_, fun e he => (List.mem_append.1 he).elim (hx.nonzero e) (hy.nonzero e)⟩
  · rw [← hx.failed, ← hy.failed]
    simp only [List.mem_append, or_and_right, exists_or]
  · rw [List.getLast?_append]
    cases hys : ys.getLast? with
    | none =>
      have := hy.nothing.1 (List.getLast?_eq_none_iff.1 hys)
      rw [Option.none_or, hx.blocked]
      tauto
    | some y =>
      have hne : ys ≠ [] := fun e => by rw [e] at hys; cases hys
      have h₁ := hy.blocked
      have h₂ := hy.nothing
      rw [hys] at h₁
      rw [Option.some_or]
      tauto
  · rw [List.append_eq_nil_iff, hx.nothing, hy.nothing]
    tauto

theorem congr {es : List UlpError} {f b f' b' : Prop} (h : ErrorWrites es f b) (hf : f ↔ f') (hb : b ↔ b') :
    ErrorWrites es f' b' := by rwa [hf, hb] at h

end ErrorWrites

/-- The check of a variable ends for lack of memory. -/
def NoMemory (names : Option (List Byte)) (malloc : Bool) : Prop := names.isSome ∧ malloc = false

/-- The wildcards of a variable are tried, and one fits. -/
def Fits (names : Option (List Byte)) (malloc : Bool) (fits : List Byte → Bool) : Prop :=
  malloc = true ∧ ∃ l, names = some l ∧ (wildcards l).any fits = true

theorem maybeDisableLivepatching_writes {names : Option (List Byte)} {malloc : Bool} {sanity : List UlpError}
    {fits : List Byte → Bool} {f : Prop} (h : ErrorWrites sanity f False) :
    ErrorWrites (maybeDisableLivepatching names malloc sanity fits)
      (NoMemory names malloc ∨ names.isSome ∧ malloc = true ∧ f) (Fits names malloc fits) := by
  cases names with
  | none => exact ErrorWrites.nil.congr (by simp [NoMemory]) (by simp [Fits])
  | some l =>
    cases malloc with
    | false => exact (ErrorWrites.fail (by decide)).congr (by simp [NoMemory]) (by simp [Fits])
    | true =>
      unfold maybeDisableLivepatching
      simp only [Bool.not_true, Bool.false_eq_true, if_false]
      split
      · rename_i hfits
        exact (h.append .block).congr (by simp [NoMemory]) (by simpa [Fits] using hfits)
      · rename_i hfits
        exact (h.append .nil).congr (by simp [NoMemory]) (by simpa [Fits] using hfits)

/-! ## The search for the locks -/

/-- An entry of the dynamic section gives an unexpected size for a symbol. -/
def LoadedObject.UnexpectedSymbolSize (o : LoadedObject) : Prop := ∃ v, .syment v ∈ o.dynamic ∧ v.toNat ≠ sizeofElf64Sym

/-- A check of `dl_find_symbol` fails at the object. -/
def FailsCheck (size : Nat) (library : List Byte) (o : LoadedObject) : Prop :=
  size ≠ sizeofDlPhdrInfo ∨
    strstr o.dlpiName library = true ∧ o.dlpiName ≠ linuxVdso ∧ o.UnexpectedSymbolSize

/-- A check fails at an object, and the search for `library` has not stopped before it. -/
def SearchFails (l : Loaded) (library : List Byte) : Prop := ∃ pre o post, l.objects = pre ++ o :: post ∧
  (∀ p ∈ pre, stopsSymbol l.mem l.size library p = false) ∧ FailsCheck l.size library o

theorem dynEntry_eq_none {mem : Mem} {t : DynTables} {d : ElfDyn} :
    dynEntry mem t d = none ↔ ∃ v, d = .syment v ∧ v.toNat ≠ sizeofElf64Sym := by
  cases d with
  | syment val =>
    rw [dynEntry]
    split
    · rename_i h
      exact ⟨fun _ => ⟨val, rfl, h⟩, fun _ => rfl⟩
    · rename_i h
      exact ⟨fun h' => (by cases h'), fun ⟨v, hv, hne⟩ => (by cases hv; exact absurd hne h)⟩
  | symtab ptr => exact ⟨fun h => (by cases h), fun ⟨v, hv, _⟩ => (by cases hv)⟩
  | strtab ptr => exact ⟨fun h => (by cases h), fun ⟨v, hv, _⟩ => (by cases hv)⟩
  | hash ptr => exact ⟨fun h => (by cases h), fun ⟨v, hv, _⟩ => (by cases hv)⟩
  | other => exact ⟨fun h => (by cases h), fun ⟨v, hv, _⟩ => (by cases hv)⟩

theorem readDynamic_eq_none (mem : Mem) : ∀ (ds : List ElfDyn) (t : DynTables),
    readDynamic mem ds t = none ↔ ∃ v, .syment v ∈ ds ∧ v.toNat ≠ sizeofElf64Sym
  | [], t      => ⟨fun h => (by cases h), fun ⟨v, hv, _⟩ => (by cases hv)⟩
  | d :: ds, t => by
    rw [readDynamic, List.foldlM_cons]
    cases hd : dynEntry mem t d with
    | none =>
      obtain ⟨v, rfl, hne⟩ := dynEntry_eq_none.1 hd
      exact ⟨fun _ => ⟨v, List.mem_cons_self, hne⟩, fun _ => rfl⟩
    | some t' =>
      refine (readDynamic_eq_none mem ds t').trans ⟨fun ⟨v, hv, hne⟩ => ⟨v, List.mem_cons_of_mem _ hv, hne⟩,
        fun ⟨v, hv, hne⟩ => ⟨v, (List.mem_cons.1 hv).resolve_left (fun e => ?_), hne⟩⟩
      rw [dynEntry_eq_none.2 ⟨v, e.symm, hne⟩] at hd
      cases hd

theorem dlFindSymbolErrors_ne_nil {mem : Mem} {size : Nat} {o : LoadedObject} {library : List Byte} :
    dlFindSymbolErrors mem size o library ≠ [] ↔ FailsCheck size library o := by
  unfold dlFindSymbolErrors FailsCheck LoadedObject.UnexpectedSymbolSize
  rw [← readDynamic_eq_none mem o.dynamic ⟨0, 0, 0⟩]
  by_cases hsize : size = sizeofDlPhdrInfo
  swap
  · rw [if_pos hsize]
    exact ⟨fun _ => Or.inl hsize, fun _ => List.cons_ne_nil _ _⟩
  rw [if_neg (not_not.2 hsize)]
  cases strstr o.dlpiName library with
  | false =>
    rw [if_pos (by rfl)]
    exact ⟨fun h => absurd rfl h, fun h => (h.elim (absurd hsize) (fun h => Bool.false_ne_true h.1)).elim⟩
  | true =>
    rw [if_neg (by decide)]
    by_cases hvdso : o.dlpiName = linuxVdso
    · rw [if_pos hvdso]
      exact ⟨fun h => absurd rfl h, fun h => (h.elim (absurd hsize) (fun h => h.2.1 hvdso)).elim⟩
    rw [if_neg hvdso]
    cases hd : readDynamic mem o.dynamic ⟨0, 0, 0⟩ with
    | none => simp [hsize, hvdso]
    | some t => simp [hsize]

theorem dlFindSymbolErrors_failed {mem : Mem} {size : Nat} {o : LoadedObject} {library : List Byte} :
    ∀ e ∈ dlFindSymbolErrors mem size o library, Failed e := by
  intro e he
  have hlist : dlFindSymbolErrors mem size o library = [] ∨ dlFindSymbolErrors mem size o library = [EUNKNOWN] := by
    unfold dlFindSymbolErrors
    split_ifs <;> simp
  rcases hlist with h | h
  · rw [h] at he
    cases he
  · rw [h] at he
    obtain rfl := List.mem_singleton.1 he
    decide

theorem searchErrors_failed {mem : Mem} {size : Nat} : ∀ {os : List LoadedObject} {args : DlIterateArg},
    ∀ e ∈ searchErrors mem size os args, Failed e
  | [], args, e, he      => by cases he
  | o :: os, args, e, he => by
    rw [searchErrors, List.mem_append] at he
    rcases he with he | he
    · exact dlFindSymbolErrors_failed e he
    · split at he
      · cases he
      · exact searchErrors_failed e he

theorem searchErrors_ne_nil {mem : Mem} {size : Nat} {library : List Byte} : ∀ (os : List LoadedObject) (args : DlIterateArg),
    args.library = library → (searchErrors mem size os args ≠ [] ↔ ∃ pre o post, os = pre ++ o :: post ∧
      (∀ p ∈ pre, stopsSymbol mem size library p = false) ∧ FailsCheck size library o)
  | [], args, _    => by simp [searchErrors]
  | o :: os, args, h => by
    have hrule := dlFindSymbol_stopRule mem size library
    have ih := @searchErrors_ne_nil mem size library os _ ((hrule.library o args).trans h)
    rw [searchErrors, hrule.stops o args h, h, ne_eq, List.append_eq_nil_iff, not_and_or, ← ne_eq, ← ne_eq,
      dlFindSymbolErrors_ne_nil]
    constructor
    · rintro (ho | hos)
      · exact ⟨[], o, os, rfl, fun p hp => (by cases hp), ho⟩
      · have hstop : stopsSymbol mem size library o = false := by
          by_contra hs
          rw [Bool.not_eq_false] at hs
          rw [hs] at hos
          exact hos rfl
        rw [hstop] at hos
        obtain ⟨pre, p, post, rfl, hpre, hp⟩ := ih.1 hos
        exact ⟨o :: pre, p, post, rfl, List.forall_mem_cons.2 ⟨hstop, hpre⟩, hp⟩
    · rintro ⟨pre, p, post, he, hpre, hp⟩
      cases pre with
      | nil =>
        cases he
        exact Or.inl hp
      | cons q pre =>
        cases he
        obtain ⟨hstop, hpre⟩ := List.forall_mem_cons.1 hpre
        rw [hstop]
        exact Or.inr (ih.2 ⟨pre, p, post, rfl, hpre, hp⟩)

namespace InitEnv

variable (i : InitEnv)

/-- A check fails on the way to the loader's data. -/
def LockSearchFails : Prop := SearchFails i.loaded (i.loaded.iterateArg ldLinux rtldGlobal).library

/-- A lock of the loader has an unexpected value. -/
def LocksFail : Prop := lockSane i.loadLock = false ∨ lockSane i.loadWriteLock = false

def PathFails : Prop :=
  NoMemory i.disableOnPath i.mallocPath ∨ i.disableOnPath.isSome ∧ i.mallocPath = true ∧ i.readlinkFails = true

def UserFails : Prop := NoMemory i.disableOnUsers i.mallocUser

def GroupFails : Prop := NoMemory i.disableOnGroups i.mallocGroup

def PathFits : Prop := Fits i.disableOnPath i.mallocPath i.fitsPath

def UserFits : Prop := Fits i.disableOnUsers i.mallocUser (i.fitsId i.uid i.uname)

def GroupFits : Prop := Fits i.disableOnGroups i.mallocGroup (i.fitsId i.gid i.gname)

/-- All functions and the loader's data were found, one of the checks made then fails, and the user's block is what the
constructor writes last: a wildcard fits and the checks of the later variables do not run out of memory. -/
def BlockedAfterFailure : Prop :=
  (∀ f ∈ requiredFunctions, i.dlsym f.1 = true) ∧ i.loaded.getLoadedSymbolAddr ldLinux rtldGlobal 0 ≠ 0 ∧
    (i.LockSearchFails ∨ i.LocksFail ∨ i.PathFails ∨ i.UserFails ∨ i.GroupFails) ∧
    (i.GroupFits ∨ ¬ i.GroupFails ∧ (i.UserFits ∨ ¬ i.UserFails ∧ i.PathFits))

end InitEnv

theorem assertLock_writes (lock : Int) : ErrorWrites (assertLock lock) (lockSane lock = false) False := by
  unfold assertLock
  split
  · rename_i h
    exact ErrorWrites.nil.congr (by simp [h]) Iff.rfl
  · rename_i h
    exact (ErrorWrites.fail (by decide)).congr (by simpa using h) Iff.rfl

theorem missing_eq_nil_iff {i : InitEnv} : (requiredFunctions.filter (fun f => !i.dlsym f.1)).map (·.2) = [] ↔
    ∀ f ∈ requiredFunctions, i.dlsym f.1 = true := by
  rw [List.map_eq_nil_iff, List.filter_eq_nil_iff]
  simp only [Bool.not_eq_true, Bool.not_eq_false']

/-- Without the loader's data the process ends. -/
theorem asunsafeBegin_ends {i : InitEnv} (h : ∀ f ∈ requiredFunctions, i.dlsym f.1 = true)
    (hg : i.loaded.getLoadedSymbolAddr ldLinux rtldGlobal 0 = 0) : asunsafeBegin i = none := by
  unfold asunsafeBegin getLdGlobalLocks
  rw [if_neg (not_not.2 (missing_eq_nil_iff.2 h)), if_pos hg, Option.map_none]

theorem asunsafeBegin_writes {i : InitEnv} (h : ∀ f ∈ requiredFunctions, i.dlsym f.1 = true)
    (hg : i.loaded.getLoadedSymbolAddr ldLinux rtldGlobal 0 ≠ 0) :
    ∃ es, asunsafeBegin i = some es ∧
      ErrorWrites es (i.LockSearchFails ∨ i.LocksFail ∨ i.PathFails ∨ i.UserFails ∨ i.GroupFails)
        (i.GroupFits ∨ ¬ i.GroupFails ∧ (i.UserFits ∨ ¬ i.UserFails ∧ i.PathFits)) := by
  have hsanity : ErrorWrites (if i.readlinkFails then [EINITFAIL] else []) (i.readlinkFails = true) False := by
    cases i.readlinkFails with
    | false => exact ErrorWrites.nil.congr (by simp) Iff.rfl
    | true => exact (ErrorWrites.fail (by decide)).congr (by simp) Iff.rfl
  have hsearch : ErrorWrites (searchErrors i.loaded.mem i.loaded.size i.loaded.objects
      (i.loaded.iterateArg ldLinux rtldGlobal)) i.LockSearchFails False :=
    (ErrorWrites.of_failed searchErrors_failed).congr (searchErrors_ne_nil _ _ rfl) Iff.rfl
  have hlocks := (hsearch.append (assertLock_writes i.loadLock)).append (assertLock_writes i.loadWriteLock)
  have hpath : ErrorWrites (maybeDisableLivepatchingOnPath i) i.PathFails i.PathFits :=
    maybeDisableLivepatching_writes hsanity
  have huser : ErrorWrites (maybeDisableLivepatchingOnUser i) i.UserFails i.UserFits :=
    (maybeDisableLivepatching_writes .nil).congr (by simp [InitEnv.UserFails]) Iff.rfl
  have hgroup : ErrorWrites (maybeDisableLivepatchingOnGroup i) i.GroupFails i.GroupFits :=
    (maybeDisableLivepatching_writes .nil).congr (by simp [InitEnv.GroupFails]) Iff.rfl
  unfold asunsafeBegin getLdGlobalLocks
  rw [if_neg (not_not.2 (missing_eq_nil_iff.2 h)), if_neg hg]
  refine ⟨_, rfl, (((hlocks.append hpath).append huser).append hgroup).congr ?_ ?_⟩
  · unfold InitEnv.LocksFail
    tauto
  · tauto

/-- Where a function is missing every error state written is a real one. -/
theorem asunsafeBegin_missing {i : InitEnv} (h : ¬ ∀ f ∈ requiredFunctions, i.dlsym f.1 = true) {es : List UlpError}
    (hes : asunsafeBegin i = some es) : ∀ e ∈ es, Failed e := by
  unfold asunsafeBegin at hes
  rw [if_pos (fun h0 => h (missing_eq_nil_iff.1 h0))] at hes
  cases hes
  intro e he
  obtain ⟨f, hf, rfl⟩ := List.mem_map.1 he
  have : ∀ f ∈ requiredFunctions, Failed f.2 := by decide
  exact this f (List.mem_of_mem_filter hf)

/-- The constructor leaves an error state behind, unless the user's block went over it. -/
theorem constructed_failed {i : InitEnv} {es : List UlpError} {s : State} (h : Constructed i es s)
    (hf : ∃ e ∈ es, Failed e) (hb : ¬ i.BlockedAfterFailure) : Failed s.errorState := by
  obtain ⟨e, he, hfail⟩ := hf
  obtain ⟨y, hy⟩ : ∃ y, es.getLast? = some y := by
    cases hl : es.getLast? with
    | none =>
      rw [List.getLast?_eq_none_iff.1 hl] at he
      cases he
    | some y => exact ⟨y, rfl⟩
  have hmem := List.mem_of_getLast? hy
  rw [h.errorState, hy, Option.getD_some]
  by_cases hall : ∀ f ∈ requiredFunctions, i.dlsym f.1 = true
  · by_cases hg : i.loaded.getLoadedSymbolAddr ldLinux rtldGlobal 0 = 0
    · cases h.written.symm.trans (asunsafeBegin_ends hall hg)
    · obtain ⟨es', hes, hw⟩ := asunsafeBegin_writes hall hg
      cases h.written.symm.trans hes
      refine ⟨hw.nonzero y hmem, fun hblock => hb ⟨hall, hg, hw.failed.1 ⟨e, he, hfail⟩, hw.blocked.1 ?_⟩⟩
      rw [hy, hblock]
  · exact asunsafeBegin_missing hall h.written y hmem

/-- The process at start-up, blocked by the user. -/
def blockedStart : State := { demoStart with errorState := EUSRBLOCKED }

/-- A block that went over an error state is lifted by the user, and the error is forgotten. -/
theorem not_sticky {i : InitEnv} (h : i.BlockedAfterFailure) : ¬ Sticky i := by
  obtain ⟨hall, hg, hfails, hblocks⟩ := h
  obtain ⟨es, hes, hw⟩ := asunsafeBegin_writes hall hg
  have hc : Constructed i es blockedStart := by
    refine ⟨hes, rfl, rfl, queueHolds_empty _, ?_⟩
    rw [hw.blocked.2 hblocks]
    rfl
  have hstep : RunStep blockedStart (ulpEnableOrDisablePatching blockedStart) := .lib (.enableOrDisable _)
  intro hs
  exact (hs _ _ _ _ hc .refl (Or.inl (hw.failed.2 hfails)) (.single hstep)).1 rfl

/-- **An error state is sticky** unless one of the constructor's checks fails and a block of the user's goes over it. -/
theorem errorState_sticky_iff (i : InitEnv) : Sticky i ↔ ¬ i.BlockedAfterFailure := by
  refine ⟨fun hs hb => not_sticky hb hs, fun hb es s₀ s t hc h₁ hf h₂ => ?_⟩
  have ht : Failed t.errorState := by
    rcases hf with hf | hf
    · exact run_failed (h₁.trans h₂) (constructed_failed hc hf hb)
    · exact run_failed h₂ hf
  refine ⟨ht.1, fun u hu => ?_⟩
  rw [hu.failed ht]
  exact ⟨rfl, rfl, rfl⟩

/-- A loader with `_rtld_global` at `0x9000`. -/
def demoLoader : Loaded :=
  { mem := ((Mem.write (fun _ => 0) 0x14 [1]).write 0x39 [0x90]).write 0x100 rtldGlobal, size := 64, progname := [112]
    objects := [⟨⟨0, ldLinux, []⟩, 1, [.hash 0x10, .strtab 0x100, .symtab 0x30, .syment 24], []⟩] }

/-- A loader whose lock has an unexpected value, and `LIBPULP_DISABLE_ON_PATH=*`. -/
def blockedInit : InitEnv :=
  { dlsym := fun _ => true, loaded := demoLoader, loadLock := 2, loadWriteLock := 0, disableOnPath := some [42]
    disableOnUsers := none, disableOnGroups := none, mallocPath := true, mallocUser := true, mallocGroup := true
    readlink := 4, processPath := [47, 98, 105, 110], uid := 0, gid := 0, uname := none, gname := none
    fnmatch := fun wildcard _ => wildcard == [42] }

/-- **A failed check is forgotten.** -/
theorem errorState_forgotten : ¬ Sticky blockedInit := by
  have hfound : demoLoader.getLoadedSymbolAddr ldLinux rtldGlobal 0 = 0x9000 := by decide +kernel
  refine not_sticky ⟨fun _ _ => rfl, fun h => ?_, Or.inr (Or.inl (Or.inl (by decide))), Or.inr ⟨?_, ?_⟩⟩
  · exact absurd (hfound.symm.trans h) (by decide)
  · simp [InitEnv.GroupFails, NoMemory, blockedInit]
  exact Or.inr ⟨by simp [InitEnv.UserFails, NoMemory, blockedInit], rfl, [42], rfl, by decide⟩

end Libpulp
