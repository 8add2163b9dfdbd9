import Libpulp.Common
import Mathlib.Data.List.Basic
import Mathlib.Logic.Relation
/-!
# HijackThreads — stopping all threads of the target (tools/introspection.c: `hijack_threads`)

The tool reads `/proc/<pid>/task` over and over and attaches to every thread it does not know, until one whole pass shows
none.  Meanwhile the threads it has not attached to run: they create threads, which are listed last, and exit.  What makes
one pass without news enough is that a thread the cursor has passed is attached or dead, so whoever still runs lies ahead
of it (`HijackInv.passed`).
-/
namespace Libpulp

open Relation (ReflTransGen)

/-- A thread of the target; a dead one keeps its place. -/
structure Task where
  tid      : Nat
  alive    : Bool
  attached : Bool

/-- Where `hijack_threads` is. -/
inductive HijackPc where
  | opening
  | scanning
  | found (tid : Nat)
  | attachedTo (tid : Nat)
  | undoing (tid : Nat)
  | restoring
  | returned (code : UlpError)

/-- The target's threads in the order they were created, `process->threads`, `main_thread` and `all_threads_hijacked`, and
the local variables, `cursor` being the position in the directory. -/
structure HijackState where
  tasks      : List Task
  threads    : List Nat
  mainThread : Option Nat
  hijacked   : Bool
  pc         : HijackPc
  loop       : Bool
  cursor     : Nat
  fatal      : Bool

/-- `readdir`: the next thread that is alive. -/
def Listed (tasks : List Task) (cursor i : Nat) (t : Task) : Prop :=
  cursor ≤ i ∧ tasks[i]? = some t ∧ t.alive = true ∧ ∀ j u, cursor ≤ j → j < i → tasks[j]? = some u → u.alive = false

/-- `readdir`: the end of the directory. -/
def NoneListed (tasks : List Task) (cursor : Nat) : Prop :=
  ∀ j u, cursor ≤ j → tasks[j]? = some u → u.alive = false

/-- **A step of a thread of the target that is not attached, or of the tool.** -/
inductive HijackStep (pid : Nat) : HijackState → HijackState → Prop
  | create (s : HijackState) (i tid : Nat) (t : Task) (hi : s.tasks[i]? = some t) (ha : t.alive = true)
      (hr : t.attached = false) (hfresh : ∀ (j : Nat) (u : Task), s.tasks[j]? = some u → u.alive = true → u.tid ≠ tid) :
      HijackStep pid s { s with tasks := s.tasks ++ [⟨tid, true, false⟩] }
  | exit (s : HijackState) (i : Nat) (t : Task) (hi : s.tasks[i]? = some t) (ha : t.alive = true)
      (hr : t.attached = false) : HijackStep pid s { s with tasks := s.tasks.set i { t with alive := false } }
  | reenter (s : HijackState) (hpc : s.pc = .opening) (hh : s.hijacked = true) :
      HijackStep pid s { s with pc := .returned EUNKNOWN }
  | opendirFails (s : HijackState) (code : UlpError) (hpc : s.pc = .opening) (hh : s.hijacked = false)
      (hcode : code ≠ ENONE) : HijackStep pid s { s with pc := .returned code }
  | opendir (s : HijackState) (hpc : s.pc = .opening) (hh : s.hijacked = false) :
      HijackStep pid s { s with pc := .scanning, loop := false, cursor := 0, fatal := false }
  | known (s : HijackState) (i : Nat) (t : Task) (hpc : s.pc = .scanning) (hl : Listed s.tasks s.cursor i t)
      (ht : t.tid ∈ s.threads) : HijackStep pid s { s with cursor := i + 1 }
  | new (s : HijackState) (i : Nat) (t : Task) (hpc : s.pc = .scanning) (hl : Listed s.tasks s.cursor i t)
      (ht : t.tid ∉ s.threads) : HijackStep pid s { s with cursor := i + 1, loop := true, pc := .found t.tid }
  | attachFails (s : HijackState) (tid : Nat) (hpc : s.pc = .found tid) : HijackStep pid s { s with pc := .restoring }
  | attach (s : HijackState) (i : Nat) (t : Task) (hpc : s.pc = .found t.tid) (hi : s.tasks[i]? = some t)
      (ha : t.alive = true) (hr : t.attached = false) :
      HijackStep pid s { s with tasks := s.tasks.set i { t with attached := true }, pc := .attachedTo t.tid }
  | getRegs (s : HijackState) (tid : Nat) (hpc : s.pc = .attachedTo tid) :
      HijackStep pid s { s with threads := tid :: s.threads, pc := .scanning,
                                mainThread := if tid = pid then some tid else s.mainThread }
  | getRegsFails (s : HijackState) (tid : Nat) (hpc : s.pc = .attachedTo tid) :
      HijackStep pid s { s with pc := .undoing tid }
  | undo (s : HijackState) (i : Nat) (t : Task) (hpc : s.pc = .undoing t.tid) (hi : s.tasks[i]? = some t)
      (ha : t.attached = true) :
      HijackStep pid s { s with tasks := s.tasks.set i { t with attached := false }, pc := .restoring }
  | undoFails (s : HijackState) (tid : Nat) (hpc : s.pc = .undoing tid) : HijackStep pid s { s with pc := .restoring }
  | readdirFails (s : HijackState) (hpc : s.pc = .scanning) : HijackStep pid s { s with pc := .restoring }
  | rewind (s : HijackState) (hpc : s.pc = .scanning) (hl : NoneListed s.tasks s.cursor) (hloop : s.loop = true) :
      HijackStep pid s { s with loop := false, cursor := 0 }
  | done (s : HijackState) (hpc : s.pc = .scanning) (hl : NoneListed s.tasks s.cursor) (hloop : s.loop = false) :
      HijackStep pid s { s with hijacked := true, pc := .returned ENONE }
  | restore (s : HijackState) (i : Nat) (t : Task) (rest : List Nat) (hpc : s.pc = .restoring)
      (ht : s.threads = t.tid :: rest) (hi : s.tasks[i]? = some t) (ha : t.attached = true) :
      HijackStep pid s { s with tasks := s.tasks.set i { t with attached := false }, threads := rest }
  | restoreFails (s : HijackState) (tid : Nat) (rest : List Nat) (hpc : s.pc = .restoring) (ht : s.threads = tid :: rest) :
      HijackStep pid s { s with threads := rest, fatal := true }
  | restored (s : HijackState) (hpc : s.pc = .restoring) (ht : s.threads = []) :
      HijackStep pid s { s with pc := .returned (if s.fatal then ETHRDDETTACH else ETHRDATTACH) }

/-- The thread with the process id is alive. -/
def LeaderAlive (pid : Nat) (tasks : List Task) : Prop :=
  ∃ (i : Nat) (t : Task), tasks[i]? = some t ∧ t.tid = pid ∧ t.alive = true

/-- No two live threads have the same id. -/
def DistinctTids (tasks : List Task) : Prop :=
  ∀ (i j : Nat) (t u : Task), tasks[i]? = some t → tasks[j]? = some u → t.alive = true → u.alive = true →
    t.tid = u.tid → i = j

/-- Before the call: no thread is attached, `process->threads` is empty, and thread ids are unique. -/
structure HijackState.Start (s : HijackState) : Prop where
  pc       : s.pc = .opening
  threads  : s.threads = []
  hijacked : s.hijacked = false
  fatal    : s.fatal = false
  cursor   : s.cursor = 0
  running  : ∀ (i : Nat) (t : Task), s.tasks[i]? = some t → t.attached = false
  distinct : DistinctTids s.tasks

/-- **All threads are stopped**: every live thread is attached and in the list once, and `main_thread` is the entry of the
process id. -/
structure AllStopped (pid : Nat) (s : HijackState) : Prop where
  attached : ∀ (i : Nat) (t : Task), s.tasks[i]? = some t → t.alive = true → t.attached = true ∧ s.threads.count t.tid = 1
  main     : pid ∈ s.threads ∧ s.mainThread = some pid

/-- No thread is left attached. -/
structure NoneAttached (s : HijackState) : Prop where
  running : ∀ (i : Nat) (t : Task), s.tasks[i]? = some t → t.attached = false
  threads : s.threads = []

/-- A step in which the thread with the process id does not exit, and in which the thread whose registers could not be
read is not left attached. -/
def OrderlyStep (pid : Nat) (s s' : HijackState) : Prop :=
  HijackStep pid s s' ∧ (LeaderAlive pid s.tasks → LeaderAlive pid s'.tasks) ∧
    ∀ tid, s.pc = .undoing tid → s'.pc = .restoring →
      ∀ (i : Nat) (t : Task), s'.tasks[i]? = some t → t.attached = true → t.tid ≠ tid

/-! ## Tasks -/

theorem getElem?_set_task {l : List Task} {i j : Nat} {t t' u : Task} (h : l[i]? = some t) :
    (l.set i t')[j]? = some u ↔ j = i ∧ u = t' ∨ j ≠ i ∧ l[j]? = some u := by
  have hi : i < l.length := (List.getElem?_eq_some_iff.1 h).1
  rw [List.getElem?_set]
  by_cases hj : i = j
  · subst hj
    simp [hi, eq_comm]
  · simp [hj, Ne.symm hj]

theorem getElem?_snoc_task {l : List Task} {j : Nat} {t u : Task} :
    (l ++ [t])[j]? = some u ↔ l[j]? = some u ∨ j = l.length ∧ u = t := by
  rw [List.getElem?_append]
  split
  · rename_i hj
    exact ⟨Or.inl, fun h => h.elim id (fun h => absurd h.1 (by omega))⟩
  · rename_i hj
    rw [List.getElem?_singleton, List.getElem?_eq_none (by omega)]
    split
    · rename_i h0
      simp only [Option.some.injEq, reduceCtorEq, false_or]
      exact ⟨fun h => ⟨by omega, h.symm⟩, fun h => h.2.symm⟩
    · rename_i h0
      simp only [reduceCtorEq, false_or, false_iff, not_and]
      intro h
      omega

/-- Attaching and detaching keep the ids and who is alive. -/
theorem DistinctTids.set {tasks : List Task} {i : Nat} {t t' : Task} (h : DistinctTids tasks) (hi : tasks[i]? = some t)
    (htid : t'.tid = t.tid) (halive : t.alive = true) : DistinctTids (tasks.set i t') := by
  intro j k u v hj hk hu hv huv
  rcases (getElem?_set_task hi).1 hj with ⟨hji, hut⟩ | ⟨-, hj'⟩ <;>
    rcases (getElem?_set_task hi).1 hk with ⟨hki, hvt⟩ | ⟨-, hk'⟩
  · rw [hji, hki]
  · rw [hji]
    exact h i k t v hi hk' halive hv (by rw [← huv, hut, htid])
  · rw [hki]
    exact h j i u t hj' hi hu halive (by rw [huv, hvt, htid])
  · exact h j k u v hj' hk' hu hv huv

theorem LeaderAlive.set {pid : Nat} {tasks : List Task} {i : Nat} {t t' : Task} (h : LeaderAlive pid tasks)
    (hi : tasks[i]? = some t) (htid : t'.tid = t.tid) (halive : t'.alive = t.alive) :
    LeaderAlive pid (tasks.set i t') := by
  obtain ⟨j, u, hj, hup, hu⟩ := h
  by_cases hji : j = i
  · subst hji
    rw [hi] at hj
    cases hj
    exact ⟨j, t', (getElem?_set_task hi).2 (Or.inl ⟨rfl, rfl⟩), htid.trans hup, halive.trans hu⟩
  · exact ⟨j, u, (getElem?_set_task hi).2 (Or.inr ⟨hji, hj⟩), hup, hu⟩

/-! ## The invariant -/

namespace HijackPc

/-- The thread that is attached and not in the list yet. -/
def InHand (tid : Nat) : HijackPc → Prop
  | attachedTo tid' => tid = tid'
  | undoing tid'    => tid = tid'
  | _               => False

/-- The thread a round of the inner loop is about, once it is new. -/
def Working (tid : Nat) : HijackPc → Prop
  | found tid'      => tid = tid'
  | attachedTo tid' => tid = tid'
  | undoing tid'    => tid = tid'
  | _               => False

end HijackPc

structure HijackInv (pid : Nat) (s : HijackState) : Prop where
  distinct : DistinctTids s.tasks
  alive    : ∀ (i : Nat) (t : Task), s.tasks[i]? = some t → t.attached = true → t.alive = true
  nodup    : s.threads.Nodup
  listed   : ∀ tid, tid ∈ s.threads ∨ s.pc.InHand tid →
    ∃ (i : Nat) (t : Task), s.tasks[i]? = some t ∧ t.tid = tid ∧ t.attached = true
  held     : ∀ (i : Nat) (t : Task), s.tasks[i]? = some t → t.attached = true →
    t.tid ∈ s.threads ∨ s.pc.InHand t.tid ∨ s.fatal = true
  cursor   : s.cursor ≤ s.tasks.length
  passed   : s.loop = false → s.pc = .scanning → ∀ (i : Nat) (t : Task), i < s.cursor → s.tasks[i]? = some t →
    t.alive = true → t.attached = true
  working  : ∀ tid, s.pc.Working tid → s.loop = true ∧ tid ∉ s.threads
  main     : pid ∈ s.threads → s.mainThread = some pid
  leader   : LeaderAlive pid s.tasks
  opened   : s.pc = .opening → s.threads = []
  stopped  : s.pc = .returned ENONE → ∀ (i : Nat) (t : Task), s.tasks[i]? = some t → t.alive = true → t.attached = true
  fatal    : s.fatal = true → s.pc = .restoring ∨ s.pc = .returned ETHRDDETTACH
  failed   : ∀ code, s.pc = .returned code → code ≠ ENONE → s.threads = []

theorem HijackState.Start.inv {pid : Nat} {s : HijackState} (h : s.Start) (hl : LeaderAlive pid s.tasks) :
    HijackInv pid s where
  distinct := h.distinct
  alive i t hi ha := by rw [h.running i t hi] at ha; cases ha
  nodup := by rw [h.threads]; exact List.nodup_nil
  listed tid ht := by
    rw [h.threads, h.pc] at ht
    rcases ht with ht | ht <;> cases ht
  held i t hi ha := by rw [h.running i t hi] at ha; cases ha
  cursor := by rw [h.cursor]; exact Nat.zero_le _
  passed _ hpc := by rw [h.pc] at hpc; cases hpc
  working tid hw := by rw [h.pc] at hw; cases hw
  main hm := by rw [h.threads] at hm; cases hm
  leader := hl
  opened _ := h.threads
  stopped hpc := by rw [h.pc] at hpc; cases hpc
  fatal hf := by rw [h.fatal] at hf; cases hf
  failed code hpc := by rw [h.pc] at hpc; cases hpc

namespace HijackInv

variable {pid : Nat} {s : HijackState}

/-- A live thread whose id is in the list is attached. -/
theorem attached_of_mem (hs : HijackInv pid s) {i : Nat} {t : Task} (hi : s.tasks[i]? = some t) (ha : t.alive = true)
    (ht : t.tid ∈ s.threads) : t.attached = true := by
  obtain ⟨j, u, hj, htid, hu⟩ := hs.listed _ (Or.inl ht)
  obtain rfl := hs.distinct i j t u hi hj ha (hs.alive j u hj hu) htid.symm
  rw [hi] at hj
  cases hj
  exact hu

theorem not_fatal (hs : HijackInv pid s) (h₁ : s.pc ≠ .restoring) (h₂ : s.pc ≠ .returned ETHRDDETTACH) :
    ¬ s.fatal = true := fun hf => (hs.fatal hf).elim h₁ h₂

/-- What a step of the tool that leaves the threads alone has to keep. -/
theorem of_pc (hs : HijackInv pid s) {pc : HijackPc} (hhand : ∀ tid, pc.InHand tid → s.pc.InHand tid)
    (hheld : ∀ tid, s.pc.InHand tid → pc.InHand tid ∨
      ∀ (i : Nat) (t : Task), s.tasks[i]? = some t → t.attached = true → t.tid ≠ tid)
    (hpassed : pc ≠ .scanning) (hworking : ∀ tid, pc.Working tid → s.pc.Working tid) (hopened : pc ≠ .opening)
    (hstopped : pc ≠ .returned ENONE) (hfatal : s.fatal = true → pc = .restoring ∨ pc = .returned ETHRDDETTACH)
    (hfailed : ∀ code, pc = .returned code → s.threads = []) : HijackInv pid { s with pc } where
  distinct := hs.distinct
  alive := hs.alive
  nodup := hs.nodup
  listed tid ht := hs.listed tid (ht.imp_right (hhand tid))
  held i t hi ha := by
    rcases hs.held i t hi ha with h | h | h
    · exact Or.inl h
    · rcases hheld t.tid h with h | h
      · exact Or.inr (Or.inl h)
      · exact absurd rfl (h i t hi ha)
    · exact Or.inr (Or.inr h)
  cursor := hs.cursor
  passed _ hpc := absurd hpc hpassed
  working tid hw := hs.working tid (hworking tid hw)
  main := hs.main
  leader := hs.leader
  opened hpc := absurd hpc hopened
  stopped hpc := absurd hpc hstopped
  fatal := hfatal
  failed code hpc _ := hfailed code hpc

/-- Giving up, with no thread in hand that is still attached. -/
theorem giveUp (hs : HijackInv pid s) (hheld : ∀ tid, s.pc.InHand tid →
    ∀ (i : Nat) (t : Task), s.tasks[i]? = some t → t.attached = true → t.tid ≠ tid) :
    HijackInv pid { s with pc := .restoring } :=
  hs.of_pc (fun _ h => h.elim) (fun tid h => Or.inr (hheld tid h)) (by simp) (fun _ h => h.elim) (by simp) (by simp)
    (fun _ => Or.inl rfl) (fun _ h => by cases h)

theorem returnError (hs : HijackInv pid s) {code : UlpError} (hhand : ∀ tid, ¬ s.pc.InHand tid) (ht : s.threads = [])
    (hcode : code ≠ ENONE) (hfatal : s.fatal = true → code = ETHRDDETTACH) :
    HijackInv pid { s with pc := .returned code } :=
  hs.of_pc (fun _ h => h.elim) (fun tid h => absurd h (hhand tid)) (by simp) (fun _ h => h.elim) (by simp)
    (by simpa using hcode) (fun hf => Or.inr (by rw [hfatal hf])) (fun _ _ => ht)

/-- A new thread is listed last, ahead of the cursor. -/
theorem create (hs : HijackInv pid s) {i tid : Nat} {t : Task} (hi : s.tasks[i]? = some t) (ha : t.alive = true)
    (hr : t.attached = false)
    (hfresh : ∀ (j : Nat) (u : Task), s.tasks[j]? = some u → u.alive = true → u.tid ≠ tid) :
    HijackInv pid { s with tasks := s.tasks ++ [⟨tid, true, false⟩] } where
  distinct j k u v hj hk hu hv htid := by
    rcases getElem?_snoc_task.1 hj with hj | ⟨rfl, rfl⟩ <;> rcases getElem?_snoc_task.1 hk with hk | ⟨rfl, rfl⟩
    · exact hs.distinct j k u v hj hk hu hv htid
    · exact absurd htid (hfresh j u hj hu)
    · exact absurd htid.symm (hfresh k v hk hv)
    · rfl
  alive j u hj hu := by
    rcases getElem?_snoc_task.1 hj with hj | ⟨-, rfl⟩
    · exact hs.alive j u hj hu
    · rfl
  nodup := hs.nodup
  listed x hx := by
    obtain ⟨j, u, hj, h⟩ := hs.listed x hx
    exact ⟨j, u, getElem?_snoc_task.2 (Or.inl hj), h⟩
  held j u hj hu := by
    rcases getElem?_snoc_task.1 hj with hj | ⟨-, rfl⟩
    · exact hs.held j u hj hu
    · cases hu
  cursor := by
    rw [List.length_append]
    exact Nat.le_trans hs.cursor (Nat.le_add_right _ _)
  passed hloop hpc j u hjc hj hu := by
    rcases getElem?_snoc_task.1 hj with hj | ⟨rfl, -⟩
    · exact hs.passed hloop hpc j u hjc hj hu
    · exact absurd hs.cursor (Nat.not_le_of_lt hjc)
  working := hs.working
  main := hs.main
  leader := by
    obtain ⟨j, u, hj, h⟩ := hs.leader
    exact ⟨j, u, getElem?_snoc_task.2 (Or.inl hj), h⟩
  opened := hs.opened
  stopped hpc := by
    -- all threads are stopped: nobody is left to create one
    rw [hs.stopped hpc i t hi ha] at hr
    cases hr
  fatal := hs.fatal
  failed := hs.failed

theorem exit (hs : HijackInv pid s) {i : Nat} {t : Task} (hi : s.tasks[i]? = some t) (hr : t.attached = false)
    (hlead : LeaderAlive pid (s.tasks.set i { t with alive := false })) :
    HijackInv pid { s with tasks := s.tasks.set i { t with alive := false } } where
  distinct j k u v hj hk hu hv htid := by
    rcases (getElem?_set_task hi).1 hj with ⟨-, rfl⟩ | ⟨-, hj⟩
    · cases hu
    rcases (getElem?_set_task hi).1 hk with ⟨-, rfl⟩ | ⟨-, hk⟩
    · cases hv
    exact hs.distinct j k u v hj hk hu hv htid
  alive j u hj hu := by
    rcases (getElem?_set_task hi).1 hj with ⟨-, rfl⟩ | ⟨-, hj⟩
    · exact absurd hu (by simp [hr])
    · exact hs.alive j u hj hu
  nodup := hs.nodup
  listed x hx := by
    obtain ⟨j, u, hj, hux, hu⟩ := hs.listed x hx
    refine ⟨j, u, (getElem?_set_task hi).2 (Or.inr ⟨fun e => ?_, hj⟩), hux, hu⟩
    rw [e, hi] at hj
    cases hj
    rw [hr] at hu
    cases hu
  held j u hj hu := by
    rcases (getElem?_set_task hi).1 hj with ⟨-, rfl⟩ | ⟨-, hj⟩
    · exact absurd hu (by simp [hr])
    · exact hs.held j u hj hu
  cursor := by
    rw [List.length_set]
    exact hs.cursor
  passed hloop hpc j u hjc hj hu := by
    rcases (getElem?_set_task hi).1 hj with ⟨-, rfl⟩ | ⟨-, hj⟩
    · cases hu
    · exact hs.passed hloop hpc j u hjc hj hu
  working := hs.working
  main := hs.main
  leader := hlead
  opened := hs.opened
  stopped hpc j u hj hu := by
    rcases (getElem?_set_task hi).1 hj with ⟨-, rfl⟩ | ⟨-, hj⟩
    · cases hu
    · exact hs.stopped hpc j u hj hu
  fatal := hs.fatal
  failed := hs.failed

theorem attach (hs : HijackInv pid s) {i : Nat} {t : Task} (hpc : s.pc = .found t.tid) (hi : s.tasks[i]? = some t)
    (ha : t.alive = true) :
    HijackInv pid { s with tasks := s.tasks.set i { t with attached := true }, pc := .attachedTo t.tid } where
  distinct := hs.distinct.set hi rfl ha
  alive j u hj hu := by
    rcases (getElem?_set_task hi).1 hj with ⟨-, rfl⟩ | ⟨-, hj⟩
    · exact ha
    · exact hs.alive j u hj hu
  nodup := hs.nodup
  listed x hx := by
    by_cases hxt : x = t.tid
    · exact ⟨i, _, (getElem?_set_task hi).2 (Or.inl ⟨rfl, rfl⟩), hxt.symm, rfl⟩
    obtain ⟨j, u, hj, hux, hu⟩ := hs.listed x (Or.inl (hx.resolve_right hxt))
    refine ⟨j, u, (getElem?_set_task hi).2 (Or.inr ⟨fun e => ?_, hj⟩), hux, hu⟩
    rw [e, hi] at hj
    cases hj
    exact hxt hux.symm
  held j u hj hu := by
    rcases (getElem?_set_task hi).1 hj with ⟨-, rfl⟩ | ⟨-, hj⟩
    · exact Or.inr (Or.inl rfl)
    · rcases hs.held j u hj hu with h | h | h
      · exact Or.inl h
      · rw [hpc] at h
        cases h
      · exact Or.inr (Or.inr h)
  cursor := by
    rw [List.length_set]
    exact hs.cursor
  passed _ hpc' := by cases hpc'
  working x hx := by
    obtain rfl : x = t.tid := hx
    exact hs.working t.tid (by rw [hpc]; rfl)
  main := hs.main
  leader := hs.leader.set hi rfl rfl
  opened hpc' := by cases hpc'
  stopped hpc' := by cases hpc'
  fatal hf := absurd hf (hs.not_fatal (by simp [hpc]) (by simp [hpc]))
  failed code hpc' := by cases hpc'

/-- Detaching from the thread in hand, or from one of the list. -/
theorem detach (hs : HijackInv pid s) {i : Nat} {t : Task} {threads : List Nat} (hi : s.tasks[i]? = some t)
    (ha : t.attached = true) (hnodup : threads.Nodup) (hmem : ∀ x, x ∈ threads ↔ x ∈ s.threads ∧ x ≠ t.tid)
    (hhand : ∀ x, s.pc.InHand x → x = t.tid) :
    HijackInv pid { s with tasks := s.tasks.set i { t with attached := false }, threads, pc := .restoring } where
  distinct := hs.distinct.set hi rfl (hs.alive i t hi ha)
  alive j u hj hu := by
    rcases (getElem?_set_task hi).1 hj with ⟨-, rfl⟩ | ⟨-, hj⟩
    · cases hu
    · exact hs.alive j u hj hu
  nodup := hnodup
  listed x hx := by
    obtain ⟨hx, hne⟩ := (hmem x).1 (hx.resolve_right (fun h => h))
    obtain ⟨j, u, hj, hux, hu⟩ := hs.listed x (Or.inl hx)
    refine ⟨j, u, (getElem?_set_task hi).2 (Or.inr ⟨fun e => ?_, hj⟩), hux, hu⟩
    rw [e, hi] at hj
    cases hj
    exact hne hux.symm
  held j u hj hu := by
    rcases (getElem?_set_task hi).1 hj with ⟨-, rfl⟩ | ⟨hji, hj⟩
    · cases hu
    have hne : u.tid ≠ t.tid := fun e => hji (hs.distinct j i u t hj hi (hs.alive j u hj hu) (hs.alive i t hi ha) e)
    rcases hs.held j u hj hu with h | h | h
    · exact Or.inl ((hmem u.tid).2 ⟨h, hne⟩)
    · exact absurd (hhand u.tid h) hne
    · exact Or.inr (Or.inr h)
  cursor := by
    rw [List.length_set]
    exact hs.cursor
  passed _ hpc := by cases hpc
  working x hx := by cases hx
  main hm := hs.main ((hmem pid).1 hm).1
  leader := hs.leader.set hi rfl rfl
  opened hpc := by cases hpc
  stopped hpc := by cases hpc
  fatal _ := Or.inl rfl
  failed code hpc := by cases hpc

theorem opendir (hs : HijackInv pid s) (hpc : s.pc = .opening) :
    HijackInv pid { s with pc := .scanning, loop := false, cursor := 0, fatal := false } where
  distinct := hs.distinct
  alive := hs.alive
  nodup := hs.nodup
  listed tid ht := hs.listed tid (Or.inl (ht.resolve_right (fun h => h)))
  held i t hi ha := by
    rcases hs.held i t hi ha with h | h | h
    · exact Or.inl h
    · rw [hpc] at h
      cases h
    · exact absurd h (hs.not_fatal (by simp [hpc]) (by simp [hpc]))
  cursor := Nat.zero_le _
  passed _ _ i t hic := absurd hic (Nat.not_lt_zero i)
  working tid hw := by cases hw
  main := hs.main
  leader := hs.leader
  opened hpc := by cases hpc
  stopped hpc := by cases hpc
  fatal hf := by cases hf
  failed code hpc := by cases hpc

/-- The cursor passes a thread that is in the list. -/
theorem known (hs : HijackInv pid s) {i : Nat} {t : Task} (hpc : s.pc = .scanning) (hl : Listed s.tasks s.cursor i t)
    (ht : t.tid ∈ s.threads) : HijackInv pid { s with cursor := i + 1 } where
  distinct := hs.distinct
  alive := hs.alive
  nodup := hs.nodup
  listed := hs.listed
  held := hs.held
  cursor := (List.getElem?_eq_some_iff.1 hl.2.1).1
  passed hloop _ j u hjc hj hu := by
    by_cases hjs : j < s.cursor
    · exact hs.passed hloop hpc j u hjs hj hu
    by_cases hji : j = i
    · subst hji
      rw [hl.2.1] at hj
      cases hj
      exact hs.attached_of_mem hl.2.1 hu ht
    · have hdead := hl.2.2.2 j u (Nat.le_of_not_lt hjs) (by change j < i + 1 at hjc; omega) hj
      rw [hu] at hdead
      cases hdead
  working := hs.working
  main := hs.main
  leader := hs.leader
  opened := hs.opened
  stopped := hs.stopped
  fatal := hs.fatal
  failed := hs.failed

theorem new (hs : HijackInv pid s) {i : Nat} {t : Task} (hpc : s.pc = .scanning) (hl : Listed s.tasks s.cursor i t)
    (ht : t.tid ∉ s.threads) : HijackInv pid { s with cursor := i + 1, loop := true, pc := .found t.tid } where
  distinct := hs.distinct
  alive := hs.alive
  nodup := hs.nodup
  listed tid ht := hs.listed tid (Or.inl (ht.resolve_right (fun h => h)))
  held j u hj hu := by
    rcases hs.held j u hj hu with h | h | h
    · exact Or.inl h
    · rw [hpc] at h
      cases h
    · exact Or.inr (Or.inr h)
  cursor := (List.getElem?_eq_some_iff.1 hl.2.1).1
  passed hloop := by cases hloop
  working tid hw := by
    obtain rfl : tid = t.tid := hw
    exact ⟨rfl, ht⟩
  main := hs.main
  leader := hs.leader
  opened hpc' := by cases hpc'
  stopped hpc' := by cases hpc'
  fatal hf := absurd hf (hs.not_fatal (by simp [hpc]) (by simp [hpc]))
  failed code hpc' := by cases hpc'

theorem getRegs (hs : HijackInv pid s) {tid : Nat} (hpc : s.pc = .attachedTo tid) :
    HijackInv pid { s with threads := tid :: s.threads, pc := .scanning,
                           mainThread := if tid = pid then some tid else s.mainThread } where
  distinct := hs.distinct
  alive := hs.alive
  nodup := List.nodup_cons.2 ⟨(hs.working tid (by rw [hpc]; rfl)).2, hs.nodup⟩
  listed x hx := by
    rcases List.mem_cons.1 (hx.resolve_right (fun h => h)) with rfl | hx
    · exact hs.listed x (Or.inr (by rw [hpc]; rfl))
    · exact hs.listed x (Or.inl hx)
  held i t hi ha := by
    rcases hs.held i t hi ha with h | h | h
    · exact Or.inl (List.mem_cons_of_mem _ h)
    · rw [hpc] at h
      obtain rfl : t.tid = tid := h
      exact Or.inl List.mem_cons_self
    · exact Or.inr (Or.inr h)
  cursor := hs.cursor
  passed hloop := by
    rw [(hs.working tid (by rw [hpc]; rfl)).1] at hloop
    cases hloop
  working x hx := by cases hx
  main hm := by
    change (if tid = pid then some tid else s.mainThread) = some pid
    split
    · rename_i h
      rw [h]
    · rename_i h
      exact hs.main ((List.mem_cons.1 hm).resolve_left (fun e => h e.symm))
  leader := hs.leader
  opened hpc' := by cases hpc'
  stopped hpc' := by cases hpc'
  fatal hf := absurd hf (hs.not_fatal (by simp [hpc]) (by simp [hpc]))
  failed code hpc' := by cases hpc'

theorem rewind (hs : HijackInv pid s) (hpc : s.pc = .scanning) : HijackInv pid { s with loop := false, cursor := 0 } where
  distinct := hs.distinct
  alive := hs.alive
  nodup := hs.nodup
  listed := hs.listed
  held := hs.held
  cursor := Nat.zero_le _
  passed _ _ i t hic := absurd hic (Nat.not_lt_zero i)
  working tid hw := by
    rw [show s.pc = .scanning from hpc] at hw
    cases hw
  main := hs.main
  leader := hs.leader
  opened := hs.opened
  stopped := hs.stopped
  fatal := hs.fatal
  failed := hs.failed

/-- **A pass without news**: every live thread was passed, so all are attached. -/
theorem done (hs : HijackInv pid s) (hpc : s.pc = .scanning) (hl : NoneListed s.tasks s.cursor) (hloop : s.loop = false) :
    HijackInv pid { s with hijacked := true, pc := .returned ENONE } where
  distinct := hs.distinct
  alive := hs.alive
  nodup := hs.nodup
  listed tid ht := hs.listed tid (Or.inl (ht.resolve_right (fun h => h)))
  held i t hi ha := by
    rcases hs.held i t hi ha with h | h | h
    · exact Or.inl h
    · rw [hpc] at h
      cases h
    · exact Or.inr (Or.inr h)
  cursor := hs.cursor
  passed _ hpc' := by cases hpc'
  working tid hw := by cases hw
  main := hs.main
  leader := hs.leader
  opened hpc' := by cases hpc'
  stopped _ i t hi ha := by
    by_cases hic : i < s.cursor
    · exact hs.passed hloop hpc i t hic hi ha
    · rw [hl i t (Nat.le_of_not_lt hic) hi] at ha
      cases ha
  fatal hf := absurd hf (hs.not_fatal (by simp [hpc]) (by simp [hpc]))
  failed code hpc' hne := by
    cases hpc'
    exact absurd rfl hne

theorem restoreFails (hs : HijackInv pid s) {tid : Nat} {rest : List Nat} (hpc : s.pc = .restoring)
    (ht : s.threads = tid :: rest) : HijackInv pid { s with threads := rest, fatal := true } where
  distinct := hs.distinct
  alive := hs.alive
  nodup := (List.nodup_cons.1 (ht ▸ hs.nodup)).2
  listed x hx := hs.listed x (hx.imp_left (fun h => by rw [ht]; exact List.mem_cons_of_mem _ h))
  held i t _ _ := Or.inr (Or.inr rfl)
  cursor := hs.cursor
  passed _ hpc' := by
    rw [show s.pc = .scanning from hpc'] at hpc
    cases hpc
  working x hx := by
    rw [show s.pc = .restoring from hpc] at hx
    cases hx
  main hm := hs.main (by rw [ht]; exact List.mem_cons_of_mem _ hm)
  leader := hs.leader
  opened hpc' := by
    rw [show s.pc = .opening from hpc'] at hpc
    cases hpc
  stopped hpc' := by
    rw [show s.pc = .returned ENONE from hpc'] at hpc
    cases hpc
  fatal _ := Or.inl hpc
  failed code hpc' := by
    rw [show s.pc = .returned code from hpc'] at hpc
    cases hpc

end HijackInv

/-! ## Steps and runs -/

theorem OrderlyStep.inv {pid : Nat} {s s' : HijackState} (h : OrderlyStep pid s s') (hs : HijackInv pid s) :
    HijackInv pid s' := by
  obtain ⟨hstep, hlead, hundo⟩ := h
  cases hstep with
  | create i tid t hi ha hr hfresh => exact hs.create hi ha hr hfresh
  | exit i t hi ha hr => exact hs.exit hi hr (hlead hs.leader)
  | reenter hpc =>
    exact hs.returnError (fun tid h => by rw [hpc] at h; cases h) (hs.opened hpc) (by decide)
      (fun hf => absurd hf (hs.not_fatal (by simp [hpc]) (by simp [hpc])))
  | opendirFails code hpc _ hcode =>
    exact hs.returnError (fun tid h => by rw [hpc] at h; cases h) (hs.opened hpc) hcode
      (fun hf => absurd hf (hs.not_fatal (by simp [hpc]) (by simp [hpc])))
  | opendir hpc => exact hs.opendir hpc
  | known i t hpc hl ht => exact hs.known hpc hl ht
  | new i t hpc hl ht => exact hs.new hpc hl ht
  | attachFails tid hpc => exact hs.giveUp (fun x h => by rw [hpc] at h; cases h)
  | attach i t hpc hi ha => exact hs.attach hpc hi ha
  | getRegs tid hpc => exact hs.getRegs hpc
  | getRegsFails tid hpc =>
    refine hs.of_pc (fun x h => by rw [hpc]; exact h) (fun x h => ?_) (by simp) (fun x h => by rw [hpc]; exact h) (by simp)
      (by simp) (fun hf => absurd hf (hs.not_fatal (by simp [hpc]) (by simp [hpc]))) (fun _ h => by cases h)
    rw [hpc] at h
    exact Or.inl h
  | undo i t hpc hi ha =>
    have hnot := (hs.working t.tid (by rw [hpc]; rfl)).2
    refine hs.detach hi ha hs.nodup (fun x => ⟨fun hx => ⟨hx, fun e => hnot (e ▸ hx)⟩, fun h => h.1⟩) (fun x h => ?_)
    rw [hpc] at h
    exact h
  | undoFails tid hpc =>
    refine hs.giveUp (fun x h => ?_)
    rw [hpc] at h
    obtain rfl : x = tid := h
    exact hundo x hpc rfl
  | readdirFails hpc => exact hs.giveUp (fun x h => by rw [hpc] at h; cases h)
  | rewind hpc => exact hs.rewind hpc
  | done hpc hl hloop => exact hs.done hpc hl hloop
  | restore i t rest hpc ht hi ha =>
    have hnodup := List.nodup_cons.1 (ht ▸ hs.nodup)
    have hmem : ∀ x, x ∈ rest ↔ x ∈ s.threads ∧ x ≠ t.tid := fun x => by
      rw [ht, List.mem_cons]
      exact ⟨fun hx => ⟨Or.inr hx, fun e => hnodup.1 (e ▸ hx)⟩, fun h => h.1.resolve_left h.2⟩
    have h := hs.detach hi ha hnodup.2 hmem (fun x h => by rw [hpc] at h; cases h)
    rwa [← hpc] at h
  | restoreFails tid rest hpc ht => exact hs.restoreFails hpc ht
  | restored hpc ht =>
    refine hs.returnError (fun tid h => by rw [hpc] at h; cases h) ht ?_ (fun hf => if_pos hf)
    split <;> decide

theorem hijackInv_of_run {pid : Nat} {s₀ s : HijackState} (h₀ : s₀.Start) (hlead : LeaderAlive pid s₀.tasks)
    (h : ReflTransGen (OrderlyStep pid) s₀ s) : HijackInv pid s := by
  induction h with
  | refl => exact h₀.inv hlead
  | tail _ hstep ih => exact hstep.inv ih

/-- **All threads are stopped, or none.**  In every run in which the thread with the process id is alive and does not
exit, and in which the tool can detach from a thread whose registers it cannot read: when `hijack_threads` has returned
0, every live thread is attached and in the list once, and `main_thread` is the entry of the process id; when it has
returned an error other than `ETHRDDETTACH`, no thread is attached and the list is empty. -/
theorem hijackThreads_stops {pid : Nat} {s₀ s : HijackState} (h₀ : s₀.Start) (hlead : LeaderAlive pid s₀.tasks)
    (h : ReflTransGen (OrderlyStep pid) s₀ s) :
    (s.pc = .returned ENONE → AllStopped pid s) ∧
      ∀ code, s.pc = .returned code → code ≠ ENONE → code ≠ ETHRDDETTACH → NoneAttached s := by
  have hs := hijackInv_of_run h₀ hlead h
  have hheld : ∀ code, s.pc = .returned code → code ≠ ETHRDDETTACH → ∀ (i : Nat) (t : Task), s.tasks[i]? = some t →
      t.attached = true → t.tid ∈ s.threads := by
    intro code hpc hne i t hi ha
    rcases hs.held i t hi ha with h | h | h
    · exact h
    · rw [hpc] at h
      cases h
    · exact absurd h (hs.not_fatal (by simp [hpc]) (by simpa [hpc] using hne))
  constructor
  · intro hpc
    have hmem : ∀ (i : Nat) (t : Task), s.tasks[i]? = some t → t.alive = true → t.tid ∈ s.threads :=
      fun i t hi ha => hheld ENONE hpc (by decide) i t hi (hs.stopped hpc i t hi ha)
    obtain ⟨i, t, hi, rfl, ha⟩ := hs.leader
    refine ⟨fun j u hj hu => ⟨hs.stopped hpc j u hj hu, ?_⟩, hmem i t hi ha, hs.main (hmem i t hi ha)⟩
    exact List.count_eq_one_of_mem hs.nodup (hmem j u hj hu)
  · intro code hpc hne hne'
    have ht := hs.failed code hpc hne
    refine ⟨fun i t hi => ?_, ht⟩
    cases ha : t.attached with
    | false => rfl
    | true =>
      have := hheld code hpc hne' i t hi ha
      rw [ht] at this
      cases this

/-! ## A process of one thread, and of two -/

/-- A process of one thread before the call. -/
def oneThread : HijackState where
  tasks      := [⟨7, true, false⟩]
  threads    := []
  mainThread := none
  hijacked   := false
  pc         := .opening
  loop       := false
  cursor     := 0
  fatal      := false

theorem getElem?_one_task {t u : Task} {i : Nat} (h : [t][i]? = some u) : i = 0 ∧ u = t := by
  cases i with
  | zero => exact ⟨rfl, (Option.some.inj h).symm⟩
  | succ => cases h

theorem oneThread_start : oneThread.Start where
  pc       := rfl
  threads  := rfl
  hijacked := rfl
  fatal    := rfl
  cursor   := rfl
  running _ t hi := by rw [(getElem?_one_task (t := ⟨7, true, false⟩) hi).2]
  distinct i j t u hi hj _ _ _ := by
    rw [(getElem?_one_task (t := ⟨7, true, false⟩) hi).1, (getElem?_one_task (t := ⟨7, true, false⟩) hj).1]

theorem Listed.here {tasks : List Task} {i : Nat} {t : Task} (hi : tasks[i]? = some t) (h : t.alive = true) :
    Listed tasks i i t :=
  ⟨Nat.le_refl i, hi, h, fun _ _ hij hji => absurd hji (Nat.not_lt.2 hij)⟩

theorem noneListed_length (tasks : List Task) : NoneListed tasks tasks.length := by
  intro j u hj hu
  rw [List.getElem?_eq_none hj] at hu
  cases hu

/-- A step of the tool that neither ends a thread nor gives up on one is orderly. -/
theorem OrderlyStep.of_tasks {pid : Nat} {s s' : HijackState} (h : HijackStep pid s s')
    (hlead : LeaderAlive pid s'.tasks) (hpc : ∀ tid, s.pc ≠ .undoing tid) : OrderlyStep pid s s' :=
  ⟨h, fun _ => hlead, fun tid hu => absurd hu (hpc tid)⟩

/-- A process whose one thread has created another while the tool was about to attach to it. -/
def twoThreads : HijackState :=
  { oneThread with tasks := [⟨7, true, false⟩, ⟨8, true, false⟩], cursor := 1, loop := true, pc := .found 7 }

theorem twoThreads_run : ReflTransGen (OrderlyStep 7) oneThread twoThreads := by
  have hlead : LeaderAlive 7 oneThread.tasks := ⟨0, ⟨7, true, false⟩, rfl, rfl, rfl⟩
  have hopen := OrderlyStep.of_tasks (@HijackStep.opendir 7 oneThread rfl rfl) hlead (fun _ h => by cases h)
  have hnew := OrderlyStep.of_tasks (@HijackStep.new 7 { oneThread with pc := .scanning } 0 ⟨7, true, false⟩ rfl
    (.here rfl rfl) (by decide)) hlead (fun _ h => by cases h)
  have hcreate := OrderlyStep.of_tasks (@HijackStep.create 7
    { oneThread with cursor := 1, loop := true, pc := .found 7 } 0 8 ⟨7, true, false⟩ rfl rfl rfl
    (fun j u hj _ => by rw [(getElem?_one_task (t := ⟨7, true, false⟩) hj).2]; decide))
    ⟨0, ⟨7, true, false⟩, rfl, rfl, rfl⟩ (fun _ h => by cases h)
  exact ((ReflTransGen.single hopen).tail hnew).tail hcreate

/-- Both threads are found in one pass, and known in the next. -/
theorem hijackThreads_stops_two : AllStopped 7 { twoThreads with
    tasks := [⟨7, true, true⟩, ⟨8, true, true⟩], threads := [8, 7], mainThread := some 7, hijacked := true, cursor := 2
    loop := false, pc := .returned ENONE } := by
  have hlead : ∀ b t, LeaderAlive 7 [⟨7, true, b⟩, t] := fun b t => ⟨0, ⟨7, true, b⟩, rfl, rfl, rfl⟩
  refine (hijackThreads_stops oneThread_start ⟨0, ⟨7, true, false⟩, rfl, rfl, rfl⟩ ?_).1 rfl
  have h1 := OrderlyStep.of_tasks (@HijackStep.attach 7 twoThreads 0 ⟨7, true, false⟩ rfl rfl rfl rfl)
    (hlead true _) (fun _ h => by cases h)
  have h2 := OrderlyStep.of_tasks (@HijackStep.getRegs 7
    { twoThreads with tasks := [⟨7, true, true⟩, ⟨8, true, false⟩], pc := .attachedTo 7 } 7 rfl) (hlead true _)
    (fun _ h => by cases h)
  have h3 := OrderlyStep.of_tasks (@HijackStep.new 7
    { twoThreads with tasks := [⟨7, true, true⟩, ⟨8, true, false⟩], threads := [7], mainThread := some 7,
                      pc := .scanning } 1 ⟨8, true, false⟩ rfl (.here rfl rfl) (by decide)) (hlead true _)
    (fun _ h => by cases h)
  have h4 := OrderlyStep.of_tasks (@HijackStep.attach 7
    { twoThreads with tasks := [⟨7, true, true⟩, ⟨8, true, false⟩], threads := [7], mainThread := some 7, cursor := 2,
                      pc := .found 8 } 1 ⟨8, true, false⟩ rfl rfl rfl rfl) (hlead true _) (fun _ h => by cases h)
  have h5 := OrderlyStep.of_tasks (@HijackStep.getRegs 7
    { twoThreads with tasks := [⟨7, true, true⟩, ⟨8, true, true⟩], threads := [7], mainThread := some 7, cursor := 2,
                      pc := .attachedTo 8 } 8 rfl) (hlead true _) (fun _ h => by cases h)
  have h6 := OrderlyStep.of_tasks (@HijackStep.rewind 7
    { twoThreads with tasks := [⟨7, true, true⟩, ⟨8, true, true⟩], threads := [8, 7], mainThread := some 7, cursor := 2,
                      pc := .scanning } rfl (noneListed_length _) rfl) (hlead true _) (fun _ h => by cases h)
  have h7 := OrderlyStep.of_tasks (@HijackStep.known 7
    { twoThreads with tasks := [⟨7, true, true⟩, ⟨8, true, true⟩], threads := [8, 7], mainThread := some 7, cursor := 0,
                      loop := false, pc := .scanning } 0 ⟨7, true, true⟩ rfl (.here rfl rfl) (by decide))
    (hlead true _) (fun _ h => by cases h)
  have h8 := OrderlyStep.of_tasks (@HijackStep.known 7
    { twoThreads with tasks := [⟨7, true, true⟩, ⟨8, true, true⟩], threads := [8, 7], mainThread := some 7,
                      loop := false, pc := .scanning } 1 ⟨8, true, true⟩ rfl (.here rfl rfl) (by decide))
    (hlead true _) (fun _ h => by cases h)
  have h9 := OrderlyStep.of_tasks (@HijackStep.done 7
    { twoThreads with tasks := [⟨7, true, true⟩, ⟨8, true, true⟩], threads := [8, 7], mainThread := some 7, cursor := 2,
                      loop := false, pc := .scanning } rfl (noneListed_length _) rfl) (hlead true _)
    (fun _ h => by cases h)
  exact ((((((((twoThreads_run.tail h1).tail h2).tail h3).tail h4).tail h5).tail h6).tail h7).tail h8).tail h9

/-- **The thread is left attached.**  Its registers cannot be read, and the result of the `detach` that follows is not
looked at: the error is `ETHRDATTACH`, and the thread stays stopped. -/
theorem hijackThreads_leaves_attached :
    ¬ ∀ (pid : Nat) (s₀ s : HijackState), s₀.Start → LeaderAlive pid s₀.tasks → ReflTransGen (HijackStep pid) s₀ s →
      (s.pc = .returned ENONE → AllStopped pid s) ∧
        ∀ code, s.pc = .returned code → code ≠ ENONE → code ≠ ETHRDDETTACH → NoneAttached s := by
  intro h
  have hopen := @HijackStep.opendir 7 oneThread rfl rfl
  have hnew := @HijackStep.new 7
    { oneThread with pc := .scanning } 0 ⟨7, true, false⟩ rfl (.here rfl rfl) (by decide)
  have hattach := @HijackStep.attach 7
    { oneThread with cursor := 1, loop := true, pc := .found 7 } 0 ⟨7, true, false⟩ rfl rfl rfl rfl
  have hregs := @HijackStep.getRegsFails 7
    { oneThread with tasks := [⟨7, true, true⟩], cursor := 1, loop := true, pc := .attachedTo 7 } 7 rfl
  have hundo := @HijackStep.undoFails 7
    { oneThread with tasks := [⟨7, true, true⟩], cursor := 1, loop := true, pc := .undoing 7 } 7 rfl
  have hrestored := @HijackStep.restored 7
    { oneThread with tasks := [⟨7, true, true⟩], cursor := 1, loop := true, pc := .restoring } rfl rfl
  have hrun := (((((ReflTransGen.single hopen).tail hnew).tail hattach).tail hregs).tail hundo).tail hrestored
  have hnone := (h 7 _ _ oneThread_start ⟨0, ⟨7, true, false⟩, rfl, rfl, rfl⟩ hrun).2 ETHRDATTACH rfl (by decide) (by decide)
  exact absurd (hnone.running 0 ⟨7, true, true⟩ rfl) (by decide)

end Libpulp
