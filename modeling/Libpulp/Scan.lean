import Mathlib.Data.List.Basic
/-!
# Scan — a reader that takes one item after the other

A step relates the state before an item to the state behind it, and there is none where the reader gives up.  A scan
`Meets` an item when the items before it are passed and the reader stands in a state in which the item counts.
-/
namespace Scan

variable {σ α : Type} {step : σ → α → σ → Prop} {meets : σ → α → Prop}

/-- The reader passes the items of a list. -/
inductive Run (step : σ → α → σ → Prop) : σ → List α → σ → Prop where
  | nil (a : σ) : Run step a [] a
  | cons {a b c : σ} {x : α} {l : List α} : step a x b → Run step b l c → Run step a (x :: l) c

def Meets (step : σ → α → σ → Prop) (meets : σ → α → Prop) (a : σ) (l : List α) : Prop :=
  ∃ pre x post b, l = pre ++ x :: post ∧ Run step a pre b ∧ meets b x

theorem not_meets_nil (a : σ) : ¬ Meets step meets a [] := by
  rintro ⟨pre, x, post, b, hl, -⟩
  cases pre <;> cases hl

/-- Either the first item is the one, or it is passed and the rest has it. -/
theorem meets_cons (a : σ) (x : α) (l : List α) :
    Meets step meets a (x :: l) ↔ meets a x ∨ ∃ b, step a x b ∧ Meets step meets b l := by
  constructor
  · rintro ⟨pre, y, post, c, hl, hrun, hy⟩
    cases hrun with
    | nil =>
      obtain ⟨rfl, rfl⟩ := List.cons.inj hl
      exact Or.inl hy
    | cons hstep hrun =>
      obtain ⟨rfl, rfl⟩ := List.cons.inj hl
      exact Or.inr ⟨_, hstep, _, y, post, c, rfl, hrun, hy⟩
  · rintro (hx | ⟨b, hstep, pre, y, post, c, rfl, hrun, hy⟩)
    · exact ⟨[], x, l, a, rfl, Run.nil a, hx⟩
    · exact ⟨x :: pre, y, post, c, rfl, Run.cons hstep hrun, hy⟩

theorem meets_here {a : σ} {x : α} (h : meets a x) (l : List α) : Meets step meets a (x :: l) :=
  (meets_cons a x l).2 (Or.inl h)

theorem not_meets_of_stuck {a : σ} {x : α} (h : ¬ meets a x) (hstuck : ∀ b, ¬ step a x b) (l : List α) :
    ¬ Meets step meets a (x :: l) := by
  rw [meets_cons]
  rintro (hx | ⟨b, hb, -⟩)
  · exact h hx
  · exact hstuck b hb

theorem meets_of_pass {a b : σ} {x : α} (h : ¬ meets a x) (hstep : step a x b) (hunique : ∀ b', step a x b' → b' = b)
    (l : List α) : Meets step meets a (x :: l) ↔ Meets step meets b l := by
  rw [meets_cons]
  constructor
  · rintro (hx | ⟨b', hb', hl⟩)
    · exact absurd hx h
    · rwa [hunique b' hb'] at hl
  · intro hl
    exact Or.inr ⟨b, hstep, hl⟩

end Scan
