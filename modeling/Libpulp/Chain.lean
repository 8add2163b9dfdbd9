import Libpulp.Fuel
import Mathlib.Data.List.Forall2
/-!
# Chain — linked records in a memory

A list in memory is a chain of records, each with a link to the next one and the last with the null link.  What a record
looks like is a parameter.  A reader that follows the links returns the list (`Linked.returns`); one that hands on what it
has collected returns the fold over it (`Linked.folds`).
-/
namespace Chain

open Fuel (Returns Settles)

variable {A α β σ : Type} {null : A} {node : A → α → A → Prop}

/-- From `a` on lie the records of the list, `node a x next` saying that at `a` is the record of `x` with the link
`next`. -/
inductive Linked (null : A) (node : A → α → A → Prop) : A → List α → Prop
  | nil : Linked null node null []
  | cons {a next : A} {x : α} {xs : List α} (there : a ≠ null) (here : node a x next)
      (rest : Linked null node next xs) : Linked null node a (x :: xs)

/-- **A reader of one record after the other returns the list**, the records numbered from `i` on. -/
theorem Linked.returns (read : Nat → A → Nat → Option (List β)) {f : α → β → Prop}
    (hnil : ∀ i, Returns (read i null) [])
    (hcons : ∀ i a x next l, a ≠ null → node a x next → Returns (read (i + 1) next) l →
      ∃ y, f x y ∧ Returns (read i a) (y :: l)) {a : A} {xs : List α} (h : Linked null node a xs) :
    ∀ i, ∃ l, Returns (read i a) l ∧ List.Forall₂ f xs l := by
  induction h with
  | nil => exact fun i => ⟨[], hnil i, .nil⟩
  | cons there here rest ih =>
    intro i
    obtain ⟨l, hl, hall⟩ := ih (i + 1)
    obtain ⟨y, hy, hread⟩ := hcons i _ _ _ l there here hl
    exact ⟨y :: l, hread, .cons hy hall⟩

/-- **A loop that hands on what it has collected** returns the fold over the list. -/
theorem Linked.folds (read : σ → A → Nat → Option β) (step : σ → α → σ) (done : σ → β)
    (hnil : ∀ s, Settles (read s null) (done s))
    (hcons : ∀ s a x next b, a ≠ null → node a x next → Settles (read (step s x) next) b → Settles (read s a) b)
    {a : A} {xs : List α} (h : Linked null node a xs) : ∀ s, Settles (read s a) (done (xs.foldl step s)) := by
  induction h with
  | nil => exact hnil
  | cons there here rest ih => exact fun s => hcons s _ _ _ _ there here (ih _)

end Chain
