import Mathlib.Data.Option.Basic
/-!
# Fuel — computations that may not come back

A function that is not known to terminate takes a number of rounds and answers `none` when they are used up.  More rounds
never change an answer (`Steady`), so that it makes sense to say what the computation returns.
-/
namespace Fuel

variable {α β : Type}

/-- More fuel does not change the answer. -/
def Steady (f : Nat → Option α) : Prop := ∀ n m a, n ≤ m → f n = some a → f m = some a

/-- The computation comes back, with `a`. -/
def Returns (f : Nat → Option α) (a : α) : Prop := ∃ n, f n = some a

theorem Steady.const (o : Option α) : Steady (fun _ => o) := by
  intro n m a _ h
  exact h

theorem Steady.bind {f : Nat → Option α} {g : α → Nat → Option β} (hf : Steady f) (hg : ∀ a, Steady (g a)) :
    Steady (fun n => (f n).bind (fun a => g a n)) := by
  intro n m b hnm h
  obtain ⟨a, ha, hb⟩ := Option.bind_eq_some_iff.1 h
  exact Option.bind_eq_some_iff.2 ⟨a, hf n m a hnm ha, hg a n m b hnm hb⟩

theorem Steady.map {f : Nat → Option α} (hf : Steady f) (g : α → β) : Steady (fun n => (f n).map g) := by
  intro n m b hnm h
  obtain ⟨a, ha, hb⟩ := Option.map_eq_some_iff.1 h
  exact Option.map_eq_some_iff.2 ⟨a, hf n m a hnm ha, hb⟩

theorem Returns.unique {f : Nat → Option α} (hf : Steady f) {a b : α} (ha : Returns f a) (hb : Returns f b) : a = b := by
  obtain ⟨n, hn⟩ := ha
  obtain ⟨m, hm⟩ := hb
  have hn' := hf n (max n m) a (Nat.le_max_left n m) hn
  have hm' := hf m (max n m) b (Nat.le_max_right n m) hm
  exact Option.some.inj (hn'.symm.trans hm')

/-- From some number of rounds on the computation comes back, with `a`. -/
def Settles (f : Nat → Option α) (a : α) : Prop := ∃ n, ∀ m, n ≤ m → f m = some a

theorem Settles.returns {f : Nat → Option α} {a : α} (h : Settles f a) : Returns f a := by
  obtain ⟨n, hn⟩ := h
  exact ⟨n, hn n (Nat.le_refl n)⟩

theorem Settles.const (a : α) : Settles (fun _ => some a) a := ⟨0, fun _ _ => rfl⟩

theorem Settles.bind {f : Nat → Option α} {g : α → Nat → Option β} {a : α} {b : β} (hf : Settles f a)
    (hg : Settles (g a) b) : Settles (fun n => (f n).bind (fun a => g a n)) b := by
  obtain ⟨n, hn⟩ := hf
  obtain ⟨m, hm⟩ := hg
  refine ⟨max n m, fun k hk => ?_⟩
  have hn' := hn k (Nat.le_trans (Nat.le_max_left n m) hk)
  have hm' := hm k (Nat.le_trans (Nat.le_max_right n m) hk)
  simp only [hn', Option.bind_some, hm']

theorem Settles.map {f : Nat → Option α} {a : α} (hf : Settles f a) (g : α → β) :
    Settles (fun n => (f n).map g) (g a) := by
  obtain ⟨n, hn⟩ := hf
  exact ⟨n, fun m hm => by simp only [hn m hm, Option.map_some]⟩

/-- A round takes one from the fuel. -/
theorem Settles.succ {f : Nat → Option α} {a : α} (h : Settles (fun n => f (n + 1)) a) : Settles f a := by
  obtain ⟨n, hn⟩ := h
  refine ⟨n + 1, fun m hm => ?_⟩
  obtain ⟨k, rfl⟩ : ∃ k, m = k + 1 := ⟨m - 1, by omega⟩
  exact hn k (by omega)

end Fuel
