import Mathlib.Data.List.TakeWhile
/-!
# Tokens — strings taken apart at a separator

`strchr` and `strtok` of the C library on strings without their NUL, and what they hand out in terms of `List.splitOn`:
`strchr` cuts off the first part, `strtok` the first part that is not empty.
-/
namespace Tokens

variable {α : Type} [DecidableEq α] (sep : α)

/-- `strchr(s, sep)` with a NUL then stored there: what stands before and behind. -/
def strchr (s : List α) : Option (List α × List α) :=
  if sep ∈ s then some (s.takeWhile (· != sep), (s.dropWhile (· != sep)).tail) else none

/-- `strtok(s, sep)`: how many separators are skipped, the token, and where the next call goes on. -/
def strtok (s : List α) : Option (Nat × List α × List α) :=
  let t := s.dropWhile (· == sep)
  if t = [] then none
  else some ((s.takeWhile (· == sep)).length, t.takeWhile (· != sep), (t.dropWhile (· != sep)).tail)

/-- The parts that are not empty. -/
def fields (s : List α) : List (List α) := (s.splitOn sep).filter (fun f => !f.isEmpty)

variable {sep} {s : List α}

theorem eq_append_of_mem (h : sep ∈ s) : s = s.takeWhile (· != sep) ++ sep :: (s.dropWhile (· != sep)).tail := by
  obtain ⟨a, t, hd⟩ : ∃ a t, s.dropWhile (· != sep) = a :: t := by
    apply List.exists_cons_of_ne_nil
    intro h0
    have := List.dropWhile_eq_nil_iff.1 h0 sep h
    simp at this
  have ha : a = sep := by
    have := List.head?_dropWhile_not (· != sep) s
    rw [hd] at this
    simpa using this
  conv => lhs; rw [← List.takeWhile_append_dropWhile (p := (· != sep)) (l := s)]
  rw [hd, ha, List.tail_cons]

theorem splitOn_of_not_mem (h : sep ∉ s) : s.splitOn sep = [s] := by
  rw [List.splitOn_eq_splitOnP]
  apply List.splitOnP_eq_singleton
  intro x hx
  have : x ≠ sep := fun h0 => h (h0 ▸ hx)
  simpa using this

theorem splitOn_of_mem (h : sep ∈ s) :
    s.splitOn sep = s.takeWhile (· != sep) :: ((s.dropWhile (· != sep)).tail).splitOn sep := by
  rw [List.splitOn_eq_splitOnP, List.splitOn_eq_splitOnP]
  conv => lhs; rw [eq_append_of_mem h]
  apply List.splitOnP_append_cons_of_forall_mem
  · intro x hx
    have := List.all_eq_true.1 (List.all_takeWhile (p := (· != sep)) (l := s)) x hx
    simpa using this
  · simp

theorem strchr_none (h : strchr sep s = none) : s.splitOn sep = [s] := by
  unfold strchr at h
  by_cases hc : sep ∈ s
  · rw [if_pos hc] at h
    cases h
  · exact splitOn_of_not_mem hc

theorem strchr_some {before behind : List α} (h : strchr sep s = some (before, behind)) :
    s.splitOn sep = before :: behind.splitOn sep := by
  unfold strchr at h
  by_cases hc : sep ∈ s
  · rw [if_pos hc] at h
    obtain ⟨rfl, rfl⟩ := Prod.mk.inj (Option.some.inj h)
    exact splitOn_of_mem hc
  · rw [if_neg hc] at h
    cases h

theorem fields_of_not_mem (h : sep ∉ s) (hne : s ≠ []) : fields sep s = [s] := by
  unfold fields
  rw [splitOn_of_not_mem h, List.filter_cons_of_pos (by simpa using hne), List.filter_nil]

theorem fields_append_cons (h : sep ∉ s) (hne : s ≠ []) (t : List α) :
    fields sep (s ++ sep :: t) = s :: fields sep t := by
  have hs : ∀ x ∈ s, (x == sep) = false := by
    intro x hx
    rw [beq_eq_false_iff_ne]
    rintro rfl
    exact h hx
  have hsplit : (s ++ sep :: t).splitOn sep = s :: t.splitOn sep := by
    rw [List.splitOn_eq_splitOnP, List.splitOn_eq_splitOnP]
    exact List.splitOnP_append_cons_of_forall_mem hs sep (beq_self_eq_true sep) t
  unfold fields
  rw [hsplit, List.filter_cons_of_pos (by simpa using hne)]

theorem fields_dropWhile : ∀ s : List α, fields sep (s.dropWhile (· == sep)) = fields sep s
  | []     => rfl
  | c :: s => by
    by_cases hc : c = sep
    · rw [List.dropWhile_cons_of_pos (by simpa using hc), fields_dropWhile s]
      unfold fields
      rw [hc, splitOn_of_mem (s := sep :: s) List.mem_cons_self]
      simp
    · rw [List.dropWhile_cons_of_neg (by simpa using hc)]

theorem strtok_none (h : strtok sep s = none) : fields sep s = [] := by
  unfold strtok at h
  by_cases ht : s.dropWhile (· == sep) = []
  · rw [← fields_dropWhile, ht]
    simp [fields]
  · rw [if_neg ht] at h
    cases h

theorem strtok_some {token behind : List α} {skipped : Nat} (h : strtok sep s = some (skipped, token, behind)) :
    fields sep s = token :: fields sep behind ∧ token ≠ [] ∧ skipped = (s.takeWhile (· == sep)).length := by
  unfold strtok at h
  by_cases ht : s.dropWhile (· == sep) = []
  · rw [if_pos ht] at h
    cases h
  rw [if_neg ht] at h
  simp only [Option.some.injEq, Prod.mk.injEq] at h
  obtain ⟨hs, htok, hrest⟩ := h
  obtain ⟨c, t, hc⟩ := List.exists_cons_of_ne_nil ht
  have hne : c ≠ sep := by
    have := List.head?_dropWhile_not (· == sep) s
    rw [hc] at this
    simpa using this
  rw [hc] at htok hrest
  have htoken : token ≠ [] := by
    rw [← htok, List.takeWhile_cons_of_pos (by simpa using hne)]
    exact List.cons_ne_nil _ _
  refine ⟨?_, htoken, hs.symm⟩
  rw [← fields_dropWhile, hc]
  unfold fields
  by_cases hmem : sep ∈ c :: t
  · rw [splitOn_of_mem hmem, htok, hrest, List.filter_cons_of_pos (by simpa using htoken)]
  · -- the token is all there is
    have hall : ∀ x ∈ c :: t, (x != sep) = true := by
      intro x hx
      have : x ≠ sep := fun h0 => hmem (h0 ▸ hx)
      simpa using this
    rw [List.takeWhile_eq_self_iff.2 hall] at htok
    rw [List.dropWhile_eq_nil_iff.2 hall] at hrest
    rw [splitOn_of_not_mem hmem, htok, ← hrest, List.filter_cons_of_pos (by simpa using htoken)]
    simp

theorem strtok_append {token : List α} (h : sep ∉ token) (hne : token ≠ []) (rest : List α) :
    strtok sep (token ++ sep :: rest) = some (0, token, rest) := by
  have hall : ∀ x ∈ token, (x != sep) = true := by
    intro x hx
    have : x ≠ sep := fun h0 => h (h0 ▸ hx)
    simpa using this
  obtain ⟨c, t, rfl⟩ := List.exists_cons_of_ne_nil hne
  have hc : ¬ (c == sep) = true := by simpa using hall c List.mem_cons_self
  have hdrop : (c :: t ++ sep :: rest).dropWhile (· == sep) = c :: t ++ sep :: rest := List.dropWhile_cons_of_neg hc
  have hskip : (c :: t ++ sep :: rest).takeWhile (· == sep) = [] := List.takeWhile_cons_of_neg hc
  unfold strtok
  rw [hdrop, hskip]
  simp only
  rw [if_neg (by simp), List.takeWhile_append_of_pos hall, List.dropWhile_append_of_pos hall]
  simp

end Tokens
