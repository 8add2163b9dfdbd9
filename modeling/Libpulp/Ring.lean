import Mathlib.Data.List.Infix
import Mathlib.Data.Int.ModEq
/-!
# Ring — a ring of slots as a window on a history

A ring of `n` slots holds the part of a growing list that has not been taken out yet: element `k` of the list is in slot
`k % n` as long as fewer than `n` elements were put in after it.
-/
namespace Ring

variable {α : Type} {n r : Nat} {slot : Nat → α} {hist : List α}

/-- **The slots hold the history from position `r` on.** -/
def Window (n : Nat) (slot : Nat → α) (hist : List α) (r : Nat) : Prop :=
  ∀ k e, r ≤ k → hist[k]? = some e → slot (k % n) = e

theorem Window.empty (n : Nat) (slot : Nat → α) : Window n slot [] 0 := by
  intro k e _ hk
  cases hk

/-- Two positions of one slot are a whole turn apart. -/
theorem turn_le {j k : Nat} (hjk : j < k) (h : j % n = k % n) : j + n ≤ k := by
  obtain ⟨m, hm⟩ : n ∣ k - j := (Nat.modEq_iff_dvd' hjk.le).1 h
  have hm0 : m ≠ 0 := by
    rintro rfl
    omega
  have := Nat.le_mul_of_pos_right n (Nat.pos_of_ne_zero hm0)
  omega

/-- **A put into a ring with a free slot** goes behind the window. -/
theorem Window.push (h : Window n slot hist r) (hfree : hist.length < r + n) (e : α) :
    Window n (Function.update slot (hist.length % n) e) (hist ++ [e]) r := by
  intro k e' hk he
  rcases Nat.lt_or_ge k hist.length with hlt | hge
  · rw [List.getElem?_append_left hlt] at he
    have hne : k % n ≠ hist.length % n := by
      intro heq
      have := turn_le hlt heq
      omega
    rw [Function.update_of_ne hne]
    exact h k e' hk he
  · rw [List.getElem?_append_right hge, List.getElem?_singleton] at he
    split at he
    · obtain rfl : k = hist.length := by omega
      rw [Function.update_self]
      exact Option.some.inj he
    · cases he

/-- Taking an element out leaves the slots as they are. -/
theorem Window.pop (h : Window n slot hist r) : Window n slot hist (r + 1) :=
  fun k e hk he => h k e (by omega) he

/-- Moving an index on by one, back to 0 at the end of the ring. -/
theorem wrap_succ (hn : 0 < n) (k : Nat) : (if n ≤ k % n + 1 then 0 else k % n + 1) = (k + 1) % n := by
  have hlt := Nat.mod_lt k hn
  rw [← Nat.mod_add_mod k n 1]
  split
  · have hend : k % n + 1 = n := by omega
    rw [hend, Nat.mod_self]
  · exact (Nat.mod_eq_of_lt (by omega : k % n + 1 < n)).symm

end Ring
