import Mathlib.Logic.Relation
import Mathlib.Logic.Function.Basic
import Mathlib.Data.List.Nodup
import Mathlib.Data.List.Perm.Basic
/-!
# Signals — application signals while the threads are hijacked (tools/ptrace.c, tools/introspection.c)

A traced thread that dequeues a signal stops and the tracer is told; what becomes of the signal is for the request that
resumes the thread to say: it delivers the signal it is given, and none if it is given none.  `attach` takes any stop for
the one it asked for, `run_and_redirect` takes any stop for the end of the routine, and neither looks at the signal; both
`PTRACE_CONT` and `PTRACE_DETACH` are issued without one.  Signals are numbered in the order they are sent.
-/
namespace Libpulp

open Relation (ReflTransGen)

/-- Why a traced thread stopped: the SIGSTOP of `PTRACE_ATTACH`, the `int3` at the end of a routine, or a signal that was
sent to it. -/
inductive StopReason where
  | attach
  | int3
  | signal (n : Nat)

/-- A thread with the signals that were sent to it, those pending, those its stops took, those delivered, and those whose
stop was reported to the tool. -/
structure SignalThread where
  traced    : Bool
  stopSent  : Bool
  stop      : Option StopReason
  waited    : Bool
  sent      : List Nat
  pending   : List Nat
  taken     : List Nat
  delivered : List Nat
  reported  : List Nat

namespace SignalThread

/-- A thread that no signal was sent to. -/
def fresh : SignalThread :=
  { traced := false, stopSent := false, stop := none, waited := false, sent := [], pending := [], taken := [],
    delivered := [], reported := [] }

/-- `waitpid` reports the stop. -/
def report (t : SignalThread) : SignalThread :=
  match t.stop with
  | some (.signal n) => { t with waited := true, reported := t.reported ++ [n] }
  | _                => { t with waited := true }

/-- A request that lets the thread run on, with the signal it is given. -/
def resume (t : SignalThread) (data : Option Nat) : SignalThread :=
  { t with stop := none, waited := false, delivered := t.delivered ++ data.toList }

/-- `PTRACE_CONT`, as `run_and_redirect` issues it. -/
def cont (t : SignalThread) : SignalThread := t.resume none

/-- `PTRACE_DETACH`, as `detach` issues it. -/
def detach (t : SignalThread) : SignalThread := { t.resume none with traced := false }

end SignalThread

/-- Where the tool is: between two threads in `hijack_threads`, waiting in `attach`, in the critical section, waiting in
`run_and_redirect`, detaching from the threads, or through with it. -/
inductive SignalPc where
  | hijacking
  | attaching (tid : Nat)
  | critical
  | redirected
  | restoring
  | released

structure SignalWorld where
  threads : Nat → SignalThread
  list    : List Nat
  pc      : SignalPc
  next    : Nat

def SignalWorld.start : SignalWorld := { threads := fun _ => .fresh, list := [], pc := .hijacking, next := 0 }

/-- The world with another state of the thread `tid`. -/
def SignalWorld.set (w : SignalWorld) (tid : Nat) (t : SignalThread) : SignalWorld :=
  { w with threads := Function.update w.threads tid t }

/-- **A step of the tool, of a thread, or a signal being sent**; `main` is the main thread. -/
inductive SignalStep (main : Nat) : SignalWorld → SignalWorld → Prop
  | send (w : SignalWorld) (tid : Nat) : SignalStep main w
      { w.set tid { w.threads tid with sent := (w.threads tid).sent ++ [w.next]
                                       pending := (w.threads tid).pending ++ [w.next] } with next := w.next + 1 }
  | deliver (w : SignalWorld) (tid n : Nat) (a b : List Nat) (hr : (w.threads tid).traced = false)
      (hp : (w.threads tid).pending = a ++ n :: b) : SignalStep main w
      (w.set tid { w.threads tid with pending := a ++ b, delivered := (w.threads tid).delivered ++ [n] })
  | stops (w : SignalWorld) (tid n : Nat) (a b : List Nat) (hr : (w.threads tid).traced = true)
      (hs : (w.threads tid).stop = none) (hp : (w.threads tid).pending = a ++ n :: b) : SignalStep main w
      (w.set tid { w.threads tid with pending := a ++ b, taken := (w.threads tid).taken ++ [n], stop := some (.signal n)
                                      waited := false })
  | stopsAttached (w : SignalWorld) (tid : Nat) (hr : (w.threads tid).traced = true) (hs : (w.threads tid).stop = none)
      (ho : (w.threads tid).stopSent = true) : SignalStep main w
      (w.set tid { w.threads tid with stopSent := false, stop := some .attach, waited := false })
  | traps (w : SignalWorld) (tid : Nat) (hr : (w.threads tid).traced = true) (hs : (w.threads tid).stop = none) :
      SignalStep main w (w.set tid { w.threads tid with stop := some .int3, waited := false })
  | attach (w : SignalWorld) (tid : Nat) (hpc : w.pc = .hijacking) (hr : (w.threads tid).traced = false) :
      SignalStep main w { w.set tid { w.threads tid with traced := true, stopSent := true } with pc := .attaching tid }
  | attached (w : SignalWorld) (tid : Nat) (hpc : w.pc = .attaching tid) (hs : (w.threads tid).stop ≠ none)
      (hw : (w.threads tid).waited = false) :
      SignalStep main w { w.set tid (w.threads tid).report with list := tid :: w.list, pc := .hijacking }
  | hijacked (w : SignalWorld) (hpc : w.pc = .hijacking) : SignalStep main w { w with pc := .critical }
  | giveUp (w : SignalWorld) (hpc : w.pc = .hijacking ∨ ∃ tid, w.pc = .attaching tid) :
      SignalStep main w { w with pc := .restoring }
  | cont (w : SignalWorld) (hpc : w.pc = .critical) (hs : (w.threads main).stop ≠ none) :
      SignalStep main w { w.set main (w.threads main).cont with pc := .redirected }
  | stopped (w : SignalWorld) (hpc : w.pc = .redirected) (hs : (w.threads main).stop ≠ none)
      (hw : (w.threads main).waited = false) :
      SignalStep main w { w.set main (w.threads main).report with pc := .critical }
  | timeout (w : SignalWorld) (hpc : w.pc = .redirected) : SignalStep main w { w with pc := .critical }
  | restore (w : SignalWorld) (hpc : w.pc = .critical) : SignalStep main w { w with pc := .restoring }
  | detach (w : SignalWorld) (tid : Nat) (rest : List Nat) (hpc : w.pc = .restoring) (hl : w.list = tid :: rest)
      (hs : (w.threads tid).stop ≠ none) :
      SignalStep main w { w.set tid (w.threads tid).detach with list := rest }
  | detachFails (w : SignalWorld) (tid : Nat) (rest : List Nat) (hpc : w.pc = .restoring) (hl : w.list = tid :: rest)
      (hs : (w.threads tid).stop = none) : SignalStep main w { w with list := rest }
  | release (w : SignalWorld) (hpc : w.pc = .restoring) (hl : w.list = []) : SignalStep main w { w with pc := .released }
  | again (w : SignalWorld) (hpc : w.pc = .released) : SignalStep main w { w with pc := .hijacking }

/-- Every signal whose stop was reported is delivered, or still to be, once the thread is detached from. -/
def NoSignalLost (w : SignalWorld) : Prop := ∀ tid, (w.threads tid).traced = false → ∀ n ∈ (w.threads tid).reported,
  n ∈ (w.threads tid).delivered ∨ n ∈ (w.threads tid).pending

/-! ## Where a signal is -/

/-- **The invariant of a thread**: every signal sent to it, all below `next`, is in one place, and what was reported was
taken by a stop. -/
structure ThreadInv (next : Nat) (t : SignalThread) : Prop where
  places   : (t.pending ++ (t.delivered ++ t.taken)).Perm t.sent
  nodup    : t.sent.Nodup
  below    : ∀ n ∈ t.sent, n < next
  stop     : ∀ n, t.stop = some (.signal n) → n ∈ t.taken
  reported : ∀ n ∈ t.reported, n ∈ t.taken

theorem ThreadInv.fresh (next : Nat) : ThreadInv next .fresh :=
  ⟨List.Perm.refl _, List.nodup_nil, fun _ h => (by cases h), fun _ h => (by cases h), fun _ h => (by cases h)⟩

theorem ThreadInv.mono {next next' : Nat} {t : SignalThread} (h : ThreadInv next t) (hn : next ≤ next') :
    ThreadInv next' t :=
  ⟨h.places, h.nodup, fun n hm => Nat.lt_of_lt_of_le (h.below n hm) hn, h.stop, h.reported⟩

/-- A stop takes a signal for good: it is neither pending nor delivered. -/
theorem ThreadInv.lost {next : Nat} {t : SignalThread} (h : ThreadInv next t) {n : Nat} (hn : n ∈ t.taken) :
    n ∉ t.delivered ∧ n ∉ t.pending := by
  have hnd : (t.pending ++ (t.delivered ++ t.taken)).Nodup := h.places.nodup_iff.2 h.nodup
  obtain ⟨-, hdt, hp⟩ := List.nodup_append.1 hnd
  obtain ⟨-, -, hd⟩ := List.nodup_append.1 hdt
  exact ⟨fun hm => hd n hm n hn rfl, fun hm => hp n hm n (List.mem_append_right _ hn) rfl⟩

section
variable {next : Nat} {t t' : SignalThread}

theorem ThreadInv.send (h : ThreadInv next t) :
    ThreadInv (next + 1) { t with sent := t.sent ++ [next], pending := t.pending ++ [next] } := by
  refine ⟨?_, ?_, ?_, h.stop, h.reported⟩
  · -- the new signal moves to the end of the list
    have hcomm : (t.pending ++ [next] ++ (t.delivered ++ t.taken)).Perm
        (t.pending ++ (t.delivered ++ t.taken) ++ [next]) := by
      rw [List.append_assoc, List.append_assoc]
      exact List.Perm.append_left _ List.perm_append_comm
    exact hcomm.trans (h.places.append_right _)
  · refine List.nodup_append.2 ⟨h.nodup, List.nodup_singleton _, fun a ha b hb => ?_⟩
    have := h.below a ha
    rw [List.mem_singleton.1 hb]
    omega
  · intro n hn
    rcases List.mem_append.1 hn with hn | hn
    · have := h.below n hn
      omega
    · rw [List.mem_singleton.1 hn]
      omega

/-- A pending signal goes where `delivered ++ taken` grows by it. -/
theorem perm_moved {n : Nat} {a b l l' : List Nat} (h : l'.Perm (n :: l)) : (a ++ b ++ l').Perm (a ++ n :: b ++ l) := by
  rw [List.append_assoc, List.append_assoc]
  apply List.Perm.append_left a
  exact (List.Perm.append_left b h).trans List.perm_middle

theorem ThreadInv.deliver (h : ThreadInv next t) {n : Nat} {a b : List Nat} (hp : t.pending = a ++ n :: b) :
    ThreadInv next { t with pending := a ++ b, delivered := t.delivered ++ [n] } := by
  have hpl := h.places
  rw [hp] at hpl
  refine ⟨(perm_moved ?_).trans hpl, h.nodup, h.below, h.stop, h.reported⟩
  rw [List.append_assoc]
  exact List.perm_middle

theorem ThreadInv.stops (h : ThreadInv next t) {n : Nat} {a b : List Nat} (hp : t.pending = a ++ n :: b) :
    ThreadInv next { t with pending := a ++ b, taken := t.taken ++ [n], stop := some (.signal n), waited := false } := by
  have hpl := h.places
  rw [hp] at hpl
  refine ⟨(perm_moved ?_).trans hpl, h.nodup, h.below, ?_, fun m hm => List.mem_append_left _ (h.reported m hm)⟩
  · rw [← List.append_assoc]
    exact List.perm_append_singleton n _
  · intro m hm
    cases hm
    exact List.mem_append_right _ List.mem_cons_self

/-- A change of the flags, or a stop that takes no signal. -/
theorem ThreadInv.flags (h : ThreadInv next t) (h₁ : t'.sent = t.sent) (h₂ : t'.pending = t.pending)
    (h₃ : t'.delivered = t.delivered) (h₄ : t'.taken = t.taken) (h₅ : t'.reported = t.reported)
    (h₆ : ∀ n, t'.stop = some (.signal n) → t.stop = some (.signal n)) : ThreadInv next t' := by
  refine ⟨?_, by rw [h₁]; exact h.nodup, by rw [h₁]; exact h.below, ?_, ?_⟩
  · rw [h₁, h₂, h₃, h₄]
    exact h.places
  · intro n hn
    rw [h₄]
    exact h.stop n (h₆ n hn)
  · rw [h₄, h₅]
    exact h.reported

theorem ThreadInv.report (h : ThreadInv next t) : ThreadInv next t.report := by
  unfold SignalThread.report
  split
  · rename_i n hn
    refine ⟨h.places, h.nodup, h.below, h.stop, fun m hm => ?_⟩
    rcases List.mem_append.1 hm with hm | hm
    · exact h.reported m hm
    · rw [List.mem_singleton.1 hm]
      exact h.stop n hn
  · exact h.flags rfl rfl rfl rfl rfl (fun _ hn => hn)

theorem ThreadInv.cont (h : ThreadInv next t) : ThreadInv next t.cont :=
  h.flags rfl rfl (List.append_nil _) rfl rfl (fun _ hn => (by cases hn))

theorem ThreadInv.detach (h : ThreadInv next t) : ThreadInv next t.detach :=
  h.flags rfl rfl (List.append_nil _) rfl rfl (fun _ hn => (by cases hn))

end

/-! ## Every run -/

theorem forall_set {P : SignalThread → Prop} {w : SignalWorld} {tid : Nat} {t : SignalThread}
    (h : ∀ i, P (w.threads i)) (ht : P t) : ∀ i, P ((w.set tid t).threads i) := by
  intro i
  change P (Function.update w.threads tid t i)
  by_cases hi : i = tid
  · rw [hi, Function.update_self]
    exact ht
  · rw [Function.update_of_ne hi]
    exact h i

/-- **A step keeps every thread's invariant.** -/
theorem SignalStep.inv {main : Nat} {w w' : SignalWorld} (h : SignalStep main w w')
    (hi : ∀ i, ThreadInv w.next (w.threads i)) : ∀ i, ThreadInv w'.next (w'.threads i) := by
  cases h with
  | send tid => exact forall_set (fun i => (hi i).mono (Nat.le_succ _)) (hi tid).send
  | deliver tid n a b hr hp => exact forall_set hi ((hi tid).deliver hp)
  | stops tid n a b hr hs hp => exact forall_set hi ((hi tid).stops hp)
  | stopsAttached tid hr hs ho => exact forall_set hi ((hi tid).flags rfl rfl rfl rfl rfl (fun _ hn => (by cases hn)))
  | traps tid hr hs => exact forall_set hi ((hi tid).flags rfl rfl rfl rfl rfl (fun _ hn => (by cases hn)))
  | attach tid hpc hr => exact forall_set hi ((hi tid).flags rfl rfl rfl rfl rfl (fun _ hn => hn))
  | attached tid hpc hs hw => exact forall_set hi (hi tid).report
  | cont hpc hs => exact forall_set hi (hi main).cont
  | stopped hpc hs hw => exact forall_set hi (hi main).report
  | detach tid rest hpc hl hs => exact forall_set hi (hi tid).detach
  | hijacked hpc | giveUp hpc | timeout hpc | restore hpc | detachFails tid rest hpc hl hs | release hpc hl | again hpc =>
    exact hi

theorem threadInv_of_run {main : Nat} {w : SignalWorld} (h : ReflTransGen (SignalStep main) .start w) :
    ∀ i, ThreadInv w.next (w.threads i) := by
  induction h with
  | refl => exact fun _ => .fresh _
  | tail _ hs ih => exact hs.inv ih

/-- What a stop took is neither delivered nor pending, so no signal is lost exactly if no stop for one was reported. -/
theorem noSignalLost_iff {main : Nat} {w : SignalWorld} (h : ReflTransGen (SignalStep main) .start w) :
    NoSignalLost w ↔ ∀ tid, (w.threads tid).traced = false → (w.threads tid).reported = [] := by
  have hi := threadInv_of_run h
  constructor
  · intro hn tid ht
    rw [List.eq_nil_iff_forall_not_mem]
    intro n hm
    obtain ⟨hd, hp⟩ := (hi tid).lost ((hi tid).reported n hm)
    exact (hn tid ht n hm).elim hd hp
  · intro hr tid ht n hm
    rw [hr tid ht] at hm
    cases hm

/-- A signal sent to the main thread before it is attached to: `attach` takes its stop for the one it asked for, and
`PTRACE_DETACH` discards it. -/
theorem signal_lost : ¬ ∀ (main : Nat) (w : SignalWorld), ReflTransGen (SignalStep main) .start w → NoSignalLost w := by
  intro h
  have h₁ : ReflTransGen (SignalStep 1) .start _ := .single (.send .start 1)
  have h₂ := h₁.tail (.attach _ 1 rfl rfl)
  have h₃ := h₂.tail (.stops _ 1 0 [] [] rfl rfl rfl)
  have h₄ := h₃.tail (.attached _ 1 rfl (by simp [SignalWorld.set]) rfl)
  have h₅ := h₄.tail (.hijacked _ rfl)
  have h₆ := h₅.tail (.restore _ rfl)
  have h₇ := h₆.tail (.detach _ 1 [] rfl rfl (by simp [SignalWorld.set, SignalThread.report]))
  have hlost := h 1 _ h₇ 1 rfl 0 (by decide)
  revert hlost
  decide

/-! ## Runs in which the tool waits for its own stops only -/

/-- The thread whose stop `attach` or `run_and_redirect` waits for. -/
def SignalWorld.awaited (main : Nat) (w : SignalWorld) : Option Nat :=
  match w.pc with
  | .attaching tid => some tid
  | .redirected    => some main
  | _              => none

/-- The thread the tool waits for is not stopped by a signal of the application. -/
def OwnStop (main : Nat) (w : SignalWorld) : Prop :=
  ∀ tid n, w.awaited main = some tid → (w.threads tid).stop ≠ some (.signal n)

theorem SignalThread.report_reported {t : SignalThread} (h : ∀ n, t.stop ≠ some (.signal n)) :
    t.report.reported = t.reported := by
  unfold SignalThread.report
  split
  · rename_i n hn
    exact absurd hn (h n)
  · rfl

/-- **Only a stop the tool waits for is reported.** -/
theorem SignalStep.reported {main : Nat} {w w' : SignalWorld} (h : SignalStep main w w') (ho : OwnStop main w)
    (hi : ∀ i, (w.threads i).reported = []) : ∀ i, (w'.threads i).reported = [] := by
  have hset : ∀ {tid : Nat} {t : SignalThread}, t.reported = [] → ∀ i, ((w.set tid t).threads i).reported = [] :=
    fun ht => forall_set (P := fun t => t.reported = []) hi ht
  cases h with
  | send tid => exact hset (hi tid)
  | deliver tid n a b hr hp => exact hset (hi tid)
  | stops tid n a b hr hs hp => exact hset (hi tid)
  | stopsAttached tid hr hs ho' => exact hset (hi tid)
  | traps tid hr hs => exact hset (hi tid)
  | attach tid hpc hr => exact hset (hi tid)
  | attached tid hpc hs hw =>
    have hown : ∀ n, (w.threads tid).stop ≠ some (.signal n) := fun n => ho tid n (by rw [SignalWorld.awaited, hpc])
    exact hset ((SignalThread.report_reported hown).trans (hi tid))
  | cont hpc hs => exact hset (hi main)
  | stopped hpc hs hw =>
    have hown : ∀ n, (w.threads main).stop ≠ some (.signal n) := fun n => ho main n (by rw [SignalWorld.awaited, hpc])
    exact hset ((SignalThread.report_reported hown).trans (hi main))
  | detach tid rest hpc hl hs => exact hset (hi tid)
  | hijacked hpc | giveUp hpc | timeout hpc | restore hpc | detachFails tid rest hpc hl hs | release hpc hl | again hpc =>
    exact hi

/-- **No signal is lost while the tool waits for its own stops only**, and in any run exactly the threads it left without
having been told of a signal have lost none. -/
theorem noSignalLost_of_ownStop (main : Nat) :
    (∀ w, ReflTransGen (fun a b => SignalStep main a b ∧ OwnStop main a) .start w → NoSignalLost w) ∧
      ∀ w, ReflTransGen (SignalStep main) .start w →
        (NoSignalLost w ↔ ∀ tid, (w.threads tid).traced = false → (w.threads tid).reported = []) := by
  refine ⟨fun w h => ?_, fun w h => noSignalLost_iff h⟩
  have hr : ∀ i, (w.threads i).reported = [] := by
    induction h with
    | refl => exact fun _ => rfl
    | tail _ hs ih => exact hs.1.reported hs.2 ih
  intro tid _ n hn
  rw [hr tid] at hn
  cases hn

/-- A signal sent while the thread is stopped is delivered once it is detached from. -/
theorem noSignalLost_of_ownStop_pending :
    ∃ w, ReflTransGen (fun a b => SignalStep 1 a b ∧ OwnStop 1 a) .start w ∧ (w.threads 1).traced = false ∧
      (w.threads 1).delivered = [0] ∧ NoSignalLost w := by
  have h₁ : ReflTransGen (fun a b => SignalStep 1 a b ∧ OwnStop 1 a) .start _ :=
    .single ⟨.attach .start 1 rfl rfl, fun _ _ h => (by cases h)⟩
  have h₂ := h₁.tail ⟨.stopsAttached _ 1 rfl rfl rfl, fun _ _ h => (by
    cases h
    simp [SignalWorld.set, SignalWorld.start, SignalThread.fresh])⟩
  have h₃ := h₂.tail ⟨.attached _ 1 rfl (by simp [SignalWorld.set]) rfl, fun _ _ h => (by
    cases h
    simp [SignalWorld.set])⟩
  have h₄ := h₃.tail ⟨.send _ 1, fun _ _ h => (by cases h)⟩
  have h₅ := h₄.tail ⟨.hijacked _ rfl, fun _ _ h => (by cases h)⟩
  have h₆ := h₅.tail ⟨.restore _ rfl, fun _ _ h => (by cases h)⟩
  have h₇ := h₆.tail ⟨.detach _ 1 [] rfl rfl (by simp [SignalWorld.set, SignalThread.report]),
    fun _ _ h => (by cases h)⟩
  have h₈ := h₇.tail ⟨.deliver _ 1 0 [] [] rfl rfl, fun _ _ h => (by cases h)⟩
  exact ⟨_, h₈, rfl, rfl, (noSignalLost_of_ownStop 1).1 _ h₈⟩

end Libpulp
