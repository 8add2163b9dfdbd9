import Libpulp.Accept
import Mathlib.Algebra.Group.Nat.Even
import Mathlib.Data.Fintype.Basic
import Mathlib.Logic.Relation
/-!
# SetPatchable — enabling and disabling by several tools at once (tools/set_patchable.c)

`enable_or_disable_patching` reads the error state of the target, and only if it is not the one asked for hijacks the
target and has it run `ulp_enable_or_disable_patching`, which does not know what was asked for and toggles.  After a look
that found something to do it returns `ENONE`, whatever becomes of the hijack, the routine and the release.  Several
requests of one kind are interleaved step by step; a hijack excludes the others.
-/
namespace Libpulp

open Relation (ReflTransGen)

/-- Where a request is.  From the routine on, `changed` says whether the target has toggled for it. -/
inductive Request where
  | start
  | decided
  | hijacked
  | ran (changed : Bool)
  | finished (code : UlpError) (changed : Bool)
deriving DecidableEq

/-- The error state asked for. -/
def wanted (enable : Bool) : UlpError := if enable then ENONE else EUSRBLOCKED

/-- The error state in which there is something to do. -/
def unwanted (enable : Bool) : UlpError := if enable then EUSRBLOCKED else ENONE

namespace Request

/-- The target has toggled for this request. -/
def hasToggled : Request → Bool
  | ran changed        => changed
  | finished _ changed => changed
  | _                  => false

/-- The request holds the target's threads. -/
def holds : Request → Bool
  | hijacked => true
  | ran _    => true
  | _        => false

/-- The request has returned without an error: `ENONE`, or the state asked for, which it has found. -/
def Done (enable : Bool) : Request → Prop
  | finished code _ => code = ENONE ∨ code = wanted enable
  | _               => False

end Request

/-- The target process and the requests for it. -/
structure Requests (ι : Type) where
  target : State
  phase  : ι → Request

variable {ι : Type} [DecidableEq ι]

def Requests.set (w : Requests ι) (i : ι) (r : Request) : Requests ι := { w with phase := Function.update w.phase i r }

@[simp] theorem set_phase_self (w : Requests ι) (i : ι) (r : Request) : (w.set i r).phase i = r := by
  simp [Requests.set]

theorem set_phase_of_ne (w : Requests ι) {i j : ι} (r : Request) (h : j ≠ i) : (w.set i r).phase j = w.phase j := by
  simp [Requests.set, h]

/-- What `get_libpulp_error_state_remote` returns for a process with libpulp if it cannot read the state. -/
def remoteStateErrors : List UlpError := [EOLDLIBPULP, EUNKNOWN]

/-- What one of the requests does: it reads the state or fails to, it hijacks the target or fails to, the routine toggles
or the run fails before that, the target is released. -/
inductive RequestAct where
  | read
  | readFails
  | hijack (ok : Bool)
  | run (toggles : Bool)
  | restore
deriving DecidableEq

/-- **A step of one of the requests**, all for `enable`.  What `run_and_redirect` and `restore_threads` return makes no
difference to the code returned; the routine does not return `EAGAIN`, so that there is no second attempt. -/
inductive RequestStep (enable : Bool) : RequestAct → Requests ι → Requests ι → Prop
  | decide (w : Requests ι) (i : ι) (h : w.phase i = .start) (hs : w.target.errorState = unwanted enable) :
      RequestStep enable .read w (w.set i .decided)
  | nothingToDo (w : Requests ι) (i : ι) (h : w.phase i = .start) (hs : w.target.errorState ≠ unwanted enable) :
      RequestStep enable .read w (w.set i (.finished w.target.errorState false))
  | readFails (w : Requests ι) (i : ι) (h : w.phase i = .start) (code : UlpError) (hcode : code ∈ remoteStateErrors) :
      RequestStep enable .readFails w (w.set i (.finished code false))
  | hijack (w : Requests ι) (i : ι) (h : w.phase i = .decided) (hfree : ∀ j, (w.phase j).holds = false) :
      RequestStep enable (.hijack true) w (w.set i .hijacked)
  | hijackFails (w : Requests ι) (i : ι) (h : w.phase i = .decided) :
      RequestStep enable (.hijack false) w (w.set i (.finished ENONE false))
  | toggle (w : Requests ι) (i : ι) (h : w.phase i = .hijacked) :
      RequestStep enable (.run true) w ({ w with target := ulpEnableOrDisablePatching w.target }.set i (.ran true))
  | runFails (w : Requests ι) (i : ι) (h : w.phase i = .hijacked) : RequestStep enable (.run false) w (w.set i (.ran false))
  | restore (w : Requests ι) (i : ι) (changed : Bool) (h : w.phase i = .ran changed) :
      RequestStep enable .restore w (w.set i (.finished ENONE changed))

/-- A step of whatever kind. -/
def AnyStep (enable : Bool) (w w' : Requests ι) : Prop := ∃ a, RequestStep enable a w w'

/-- No request has been made yet, and libpulp is not in an error state. -/
structure Requests.Start (w : Requests ι) : Prop where
  phase      : ∀ i, w.phase i = .start
  errorState : w.target.errorState = ENONE ∨ w.target.errorState = EUSRBLOCKED

/-- All requests have returned without an error. -/
def Requests.Finished (enable : Bool) (w : Requests ι) : Prop := ∀ i, (w.phase i).Done enable

/-- A step that does not change the error state but from the one in which there is something to do, so that whoever
toggles finds the state it read; and neither a hijack nor the run of the routine fails. -/
def UndisturbedStep (enable : Bool) (w w' : Requests ι) : Prop :=
  ∃ a, RequestStep enable a w w' ∧ a ≠ .hijack false ∧ a ≠ .run false ∧
    (w'.target.errorState ≠ w.target.errorState → w.target.errorState = unwanted enable)

/-! ## One step -/

/-- A step moves one request on; either nothing else happens, or it toggles. -/
theorem RequestStep.cases {enable : Bool} {a : RequestAct} {w w' : Requests ι} (h : RequestStep enable a w w') :
    (∃ i r, w' = w.set i r ∧ r.hasToggled = (w.phase i).hasToggled ∧
      (r = .ran false → a = .run false) ∧
      (r.Done enable → w.target.errorState ≠ unwanted enable ∨ a = .hijack false ∨ ∃ c, w.phase i = .ran c)) ∨
      ∃ i, (w.phase i).hasToggled = false ∧
        w' = { w with target := ulpEnableOrDisablePatching w.target }.set i (.ran true) := by
  cases h with
  | decide _ i h => exact Or.inl ⟨i, _, rfl, by rw [h]; rfl, fun hr => (by cases hr), False.elim⟩
  | nothingToDo _ i h hs => exact Or.inl ⟨i, _, rfl, by rw [h]; rfl, fun hr => (by cases hr), fun _ => Or.inl hs⟩
  | readFails _ i h code hcode =>
    refine Or.inl ⟨i, _, rfl, by rw [h]; rfl, fun hr => (by cases hr), fun hd => ?_⟩
    have hnot : ∀ code ∈ remoteStateErrors, ¬ (code = ENONE ∨ code = wanted enable) := by
      cases enable <;> decide
    exact absurd hd (hnot code hcode)
  | hijack _ i h => exact Or.inl ⟨i, _, rfl, by rw [h]; rfl, fun hr => (by cases hr), False.elim⟩
  | hijackFails _ i h => exact Or.inl ⟨i, _, rfl, by rw [h]; rfl, fun hr => (by cases hr), fun _ => Or.inr (Or.inl rfl)⟩
  | toggle _ i h => exact Or.inr ⟨i, by rw [h]; rfl, rfl⟩
  | runFails _ i h => exact Or.inl ⟨i, _, rfl, by rw [h]; rfl, fun _ => rfl, False.elim⟩
  | restore _ i changed h =>
    exact Or.inl ⟨i, _, rfl, by rw [h]; rfl, fun hr => (by cases hr), fun _ => Or.inr (Or.inr ⟨changed, h⟩)⟩

/-- The toggle changes the one error state into the other. -/
theorem toggle_errorState {s : State} (h : s.errorState = ENONE ∨ s.errorState = EUSRBLOCKED) :
    (ulpEnableOrDisablePatching s).errorState = if s.errorState = ENONE then EUSRBLOCKED else ENONE := by
  unfold ulpEnableOrDisablePatching
  rcases h with h | h
  · rw [if_pos h, if_pos h]
  · rw [if_neg (by rw [h]; decide), if_pos h, if_neg (by rw [h]; decide)]

/-! ## Counting the toggles -/

section Count

variable [Fintype ι]

/-- The requests for which the target has toggled. -/
def Requests.changers (w : Requests ι) : Finset ι := Finset.univ.filter (fun i => (w.phase i).hasToggled = true)

omit [DecidableEq ι] in
theorem mem_changers {w : Requests ι} {i : ι} : i ∈ w.changers ↔ (w.phase i).hasToggled = true := by
  simp [Requests.changers]

theorem changers_set {w : Requests ι} {i : ι} {r : Request} (h : r.hasToggled = (w.phase i).hasToggled) :
    (w.set i r).changers = w.changers := by
  ext j
  rw [mem_changers, mem_changers]
  by_cases hj : j = i
  · subst hj
    rw [set_phase_self, h]
  · rw [set_phase_of_ne w r hj]

theorem changers_toggle {w : Requests ι} {i : ι} (h : (w.phase i).hasToggled = false) (t : State) :
    ({ w with target := t }.set i (.ran true)).changers.card = w.changers.card + 1 := by
  have hinsert : ({ w with target := t }.set i (.ran true)).changers = insert i w.changers := by
    ext j
    rw [Finset.mem_insert, mem_changers, mem_changers]
    by_cases hj : j = i
    · subst hj
      simp [Request.hasToggled]
    · rw [set_phase_of_ne _ _ hj]
      simp [hj]
  rw [hinsert, Finset.card_insert_of_notMem]
  rw [mem_changers, h]
  decide

/-- The error state is the first one or the other, by the number of toggles. -/
structure Counted (e₀ : UlpError) (w : Requests ι) : Prop where
  state : w.target.errorState = ENONE ∨ w.target.errorState = EUSRBLOCKED
  count : w.target.errorState = e₀ ↔ Even w.changers.card

theorem RequestStep.counted {enable : Bool} {a : RequestAct} {e₀ : UlpError} {w w' : Requests ι}
    (h : RequestStep enable a w w') (he₀ : e₀ = ENONE ∨ e₀ = EUSRBLOCKED) (hw : Counted e₀ w) : Counted e₀ w' := by
  rcases h.cases with ⟨i, r, rfl, hr, -, -⟩ | ⟨i, hi, rfl⟩
  · refine ⟨hw.state, ?_⟩
    rw [changers_set hr]
    exact hw.count
  · have ht := toggle_errorState hw.state
    have hc := hw.count
    refine ⟨?_, ?_⟩
    · change (ulpEnableOrDisablePatching w.target).errorState = ENONE ∨
        (ulpEnableOrDisablePatching w.target).errorState = EUSRBLOCKED
      rw [ht]
      split
      · exact Or.inr rfl
      · exact Or.inl rfl
    · rw [changers_toggle hi, Nat.even_add_one, ← hc]
      change (ulpEnableOrDisablePatching w.target).errorState = e₀ ↔ _
      rw [ht]
      have hne : ENONE ≠ EUSRBLOCKED := by decide
      rcases he₀ with rfl | rfl <;> rcases hw.state with hs | hs <;> rw [hs] <;> simp [hne, hne.symm]

theorem counted_of_run {enable : Bool} {w₀ w : Requests ι} (h₀ : w₀.Start)
    (h : ReflTransGen (AnyStep enable) w₀ w) : Counted w₀.target.errorState w := by
  induction h with
  | refl =>
    have hnone : w₀.changers = ∅ := by
      ext i
      rw [mem_changers, h₀.phase i]
      simp [Request.hasToggled]
    exact ⟨h₀.errorState, by simp [hnone]⟩
  | tail _ hstep ih =>
    obtain ⟨a, hstep⟩ := hstep
    exact hstep.counted h₀.errorState ih

end Count

/-! ## Requests that do not disturb each other -/

/-- No run has failed, and as soon as a request has toggled or returned without an error, the error state is the one
asked for. -/
structure Settled (enable : Bool) (w : Requests ι) : Prop where
  state : w.target.errorState = ENONE ∨ w.target.errorState = EUSRBLOCKED
  ran   : ∀ i, w.phase i ≠ .ran false
  done  : ∀ i, (w.phase i).hasToggled = true ∨ (w.phase i).Done enable → w.target.errorState = wanted enable

theorem wanted_of_ne {enable : Bool} {e : UlpError} (h : e = ENONE ∨ e = EUSRBLOCKED) :
    e = wanted enable ↔ e ≠ unwanted enable := by
  have hne : ENONE ≠ EUSRBLOCKED := by decide
  rcases h with rfl | rfl <;> cases enable <;> simp [wanted, unwanted, hne, hne.symm]

theorem UndisturbedStep.settled {enable : Bool} {w w' : Requests ι} (h : UndisturbedStep enable w w')
    (hw : Settled enable w) : Settled enable w' := by
  obtain ⟨a, hstep, hhijack, hrun, hsame⟩ := h
  rcases hstep.cases with ⟨i, r, rfl, hr, hran, hdone⟩ | ⟨i, -, rfl⟩
  · refine ⟨hw.state, fun j hj => ?_, fun j hj => ?_⟩
    · by_cases hji : j = i
      · subst hji
        rw [set_phase_self] at hj
        exact hrun (hran hj)
      · rw [set_phase_of_ne w r hji] at hj
        exact hw.ran j hj
    by_cases hji : j = i
    · subst hji
      rw [set_phase_self] at hj
      rcases hj with hj | hj
      · exact hw.done j (Or.inl (hr ▸ hj))
      · rcases hdone hj with hne | hfails | ⟨c, hc⟩
        · exact (wanted_of_ne hw.state).2 hne
        · exact absurd hfails hhijack
        · -- what is released has toggled
          cases c with
          | false => exact absurd hc (hw.ran j)
          | true => exact hw.done j (Or.inl (by rw [hc]; rfl))
    · rw [set_phase_of_ne w r hji] at hj
      exact hw.done j hj
  · change (ulpEnableOrDisablePatching w.target).errorState ≠ _ → _ at hsame
    have ht := toggle_errorState hw.state
    have hne : ENONE ≠ EUSRBLOCKED := by decide
    have hun : w.target.errorState = unwanted enable := by
      apply hsame
      rcases hw.state with hs | hs
      · rw [ht, hs, if_pos rfl]
        exact hne.symm
      · rw [ht, hs, if_neg hne.symm]
        exact hne
    have hwant : (ulpEnableOrDisablePatching w.target).errorState = wanted enable := by
      rw [ht, hun]
      cases enable <;> simp [wanted, unwanted, hne.symm]
    refine ⟨?_, fun j hj => ?_, fun _ _ => hwant⟩
    swap
    · by_cases hji : j = i
      · subst hji
        rw [set_phase_self] at hj
        cases hj
      · rw [set_phase_of_ne _ _ hji] at hj
        exact hw.ran j hj
    change (ulpEnableOrDisablePatching w.target).errorState = ENONE ∨
      (ulpEnableOrDisablePatching w.target).errorState = EUSRBLOCKED
    rw [hwant]
    cases enable <;> simp [wanted]

theorem settled_of_run {enable : Bool} {w₀ w : Requests ι} (h₀ : w₀.Start)
    (h : ReflTransGen (UndisturbedStep enable) w₀ w) : Settled enable w := by
  induction h with
  | refl =>
    refine ⟨h₀.errorState, fun i hi => ?_, fun i hi => ?_⟩
    · rw [h₀.phase i] at hi
      cases hi
    · rw [h₀.phase i] at hi
      rcases hi with hi | hi
      · cases hi
      · exact hi.elim
  | tail _ hstep ih => exact hstep.settled ih

/-! ## When the requests agree -/

/-- **Requests of one kind agree** if no hijack and no run of the routine fails and none toggles between another's look at
the error state and its toggle: once all have returned without an error the error state is the one asked for.  In any run
it is so exactly when the number of those for which the target toggled is odd if the target started in the other state,
and even if not. -/
theorem setPatchable_agrees [Fintype ι] (enable : Bool) (w₀ w : Requests ι) (h₀ : w₀.Start) :
    (ReflTransGen (UndisturbedStep enable) w₀ w → w.Finished enable → Nonempty ι → w.target.errorState = wanted enable) ∧
      (ReflTransGen (AnyStep enable) w₀ w → (w.target.errorState = wanted enable ↔
        (Odd (Finset.univ.filter (fun i => (w.phase i).hasToggled = true)).card ↔
          w₀.target.errorState = unwanted enable))) := by
  constructor
  · rintro hrun hfin ⟨i⟩
    exact (settled_of_run h₀ hrun).done i (Or.inr (hfin i))
  · intro hrun
    have hc := counted_of_run h₀ hrun
    have hcount := hc.count
    rw [show Finset.univ.filter (fun i => (w.phase i).hasToggled = true) = w.changers from rfl, ← Nat.not_even_iff_odd,
      ← hcount]
    have hne : ENONE ≠ EUSRBLOCKED := by decide
    rcases hc.state with hs | hs <;> rcases h₀.errorState with hs₀ | hs₀ <;> rw [hs, hs₀] <;> cases enable <;>
      simp [wanted, unwanted, hne, hne.symm]

/-- Requests at a process just started. -/
def requestsStart : Requests ι := ⟨demoStart, fun _ => .start⟩

omit [DecidableEq ι] in
theorem requestsStart_start : (requestsStart : Requests ι).Start := ⟨fun _ => rfl, Or.inl rfl⟩

/-- Of two requests to disable patching one does, and the other looks before the target is released. -/
theorem setPatchable_agrees_two : ∃ w : Requests Bool, ReflTransGen (UndisturbedStep false) requestsStart w ∧
    w.phase false = .finished ENONE true ∧ w.phase true = .finished EUSRBLOCKED false ∧
    w.target.errorState = wanted false := by
  let w₁ : Requests Bool := requestsStart.set false .decided
  let w₂ := w₁.set false .hijacked
  let w₃ := { w₂ with target := ulpEnableOrDisablePatching w₂.target }.set false (.ran true)
  let w₄ := w₃.set true (.finished w₃.target.errorState false)
  let w₅ := w₄.set false (.finished ENONE true)
  have h₁ : UndisturbedStep false requestsStart w₁ :=
    ⟨.read, .decide _ false rfl rfl, by decide, by decide, fun h => absurd rfl h⟩
  have h₂ : UndisturbedStep false w₁ w₂ := by
    refine ⟨.hijack true, .hijack w₁ false (set_phase_self _ _ _) (fun j => ?_), by decide, by decide,
      fun h => absurd rfl h⟩
    cases j <;> rfl
  have h₃ : UndisturbedStep false w₂ w₃ :=
    ⟨.run true, .toggle w₂ false (set_phase_self _ _ _), by decide, by decide, fun _ => rfl⟩
  have h₄ : UndisturbedStep false w₃ w₄ :=
    ⟨.read, .nothingToDo w₃ true rfl (by decide), by decide, by decide, fun h => absurd rfl h⟩
  have h₅ : UndisturbedStep false w₄ w₅ :=
    ⟨.restore, .restore w₄ false true rfl, by decide, by decide, fun h => absurd rfl h⟩
  have hrun : ReflTransGen (UndisturbedStep false) requestsStart w₅ := .tail (.tail (.tail (.tail (.single h₁) h₂) h₃) h₄) h₅
  have hfin : w₅.Finished false := fun j => by
    cases j with
    | false => exact Or.inl rfl
    | true => exact Or.inr rfl
  exact ⟨w₅, hrun, rfl, rfl, (setPatchable_agrees false requestsStart w₅ requestsStart_start).1 hrun hfin ⟨true⟩⟩

/-- **A failed hijack is not reported**: a single request to disable patching returns `ENONE`, and nothing has changed. -/
theorem hijackFails_unreported : ∃ w : Requests Unit, ReflTransGen (AnyStep false) requestsStart w ∧ w.Finished false ∧
    w.target.errorState ≠ wanted false := by
  let w₁ : Requests Unit := requestsStart.set () .decided
  have h₁ : AnyStep false requestsStart w₁ := ⟨_, .decide _ () rfl rfl⟩
  have h₂ : AnyStep false w₁ (w₁.set () (.finished ENONE false)) := ⟨_, .hijackFails w₁ () (set_phase_self _ _ _)⟩
  exact ⟨_, .tail (.single h₁) h₂, fun _ => Or.inl rfl, by decide⟩

/-- The steps of a request that found something to do, from its hijack on. -/
theorem request_runs (enable : Bool) (w : Requests ι) (i : ι) (h : w.phase i = .decided)
    (hfree : ∀ j, (w.phase j).holds = false) :
    ∃ w', ReflTransGen (AnyStep enable) w w' ∧ w'.target = ulpEnableOrDisablePatching w.target ∧
      w'.phase i = .finished ENONE true ∧ ∀ j, j ≠ i → w'.phase j = w.phase j := by
  have h₁ : AnyStep enable w (w.set i .hijacked) := ⟨_, .hijack w i h hfree⟩
  have h₂ : AnyStep enable (w.set i .hijacked)
      ({ w.set i .hijacked with target := ulpEnableOrDisablePatching w.target }.set i (.ran true)) :=
    ⟨_, .toggle (w.set i .hijacked) i (set_phase_self _ _ _)⟩
  have h₃ : AnyStep enable _ _ := ⟨_, .restore ({ w.set i .hijacked with
    target := ulpEnableOrDisablePatching w.target }.set i (.ran true)) i true (set_phase_self _ _ _)⟩
  refine ⟨_, .tail (.tail (.single h₁) h₂) h₃, rfl, set_phase_self _ _ _, fun j hj => ?_⟩
  rw [set_phase_of_ne _ _ hj, set_phase_of_ne _ _ hj]
  exact set_phase_of_ne _ _ hj

/-- **Two requests to disable patching cancel out** when both look before one toggles. -/
theorem setPatchable_cancels : ¬ ∀ w₀ w : Requests Bool, w₀.Start → ReflTransGen (AnyStep false) w₀ w →
    w.Finished false → w.target.errorState = wanted false := by
  intro hall
  let w₁ : Requests Bool := requestsStart.set false .decided
  let w₂ := w₁.set true .decided
  have h₁ : AnyStep false requestsStart w₁ := ⟨_, .decide _ false rfl rfl⟩
  have h₂ : AnyStep false w₁ w₂ := ⟨_, .decide w₁ true (set_phase_of_ne _ _ (by decide)) rfl⟩
  have hdec : ∀ j, w₂.phase j = .decided := fun j => by
    cases j with
    | true => exact set_phase_self _ _ _
    | false => exact (set_phase_of_ne _ _ (by decide)).trans (set_phase_self _ _ _)
  obtain ⟨w₃, hrun₃, ht₃, hf₃, hs₃⟩ := request_runs false w₂ false (hdec false) (fun j => by rw [hdec j]; rfl)
  have hd₃ : w₃.phase true = .decided := (hs₃ true (by decide)).trans (hdec true)
  obtain ⟨w₄, hrun₄, ht₄, hf₄, hs₄⟩ := request_runs false w₃ true hd₃ (fun j => by
    cases j with
    | true => rw [hd₃]; rfl
    | false => rw [hf₃]; rfl)
  have hfin : w₄.Finished false := fun j => by
    cases j with
    | true => rw [hf₄]; exact Or.inl rfl
    | false => rw [hs₄ false (by decide), hf₃]; exact Or.inl rfl
  have hstate := hall requestsStart w₄ requestsStart_start
    ((ReflTransGen.tail (.single h₁) h₂).trans (hrun₃.trans hrun₄)) hfin
  rw [ht₄, ht₃] at hstate
  exact absurd hstate (by decide)

end Libpulp
