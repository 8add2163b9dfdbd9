import Mathlib.Data.List.Nodup
import Mathlib.Logic.Relation
/-!
# Layers — named replacements put on top of one another

A general store of replacements: a stack of layers, newest first.  A layer has a name, rests on layers further down and
sets the values of some keys; the value of a key is that of the topmost layer that sets it.  Layers are pushed on top and
may be taken out anywhere, as long as no other layer rests on them.  What the store shows depends only on the layers that
are there, and they could have been pushed one after the other (`Sound.pushes`).
-/
namespace Layers

open Relation (ReflTransGen)

structure Layer (ι κ υ : Type) where
  name : ι
  on   : List ι
  sets : List (κ × υ)

variable {ι κ υ : Type}

/-- A new layer, whose name is not used and which rests on layers that are there. -/
inductive Push : List (Layer ι κ υ) → List (Layer ι κ υ) → Prop
  | intro {ls : List (Layer ι κ υ)} (l : Layer ι κ υ) (fresh : l.name ∉ ls.map (·.name))
      (on : ∀ d ∈ l.on, d ∈ ls.map (·.name)) : Push ls (l :: ls)

/-- Names are used once, and every layer rests on layers further down. -/
inductive Sound : List (Layer ι κ υ) → Prop
  | nil : Sound []
  | cons {l : Layer ι κ υ} {ls : List (Layer ι κ υ)} (rest : Sound ls) (fresh : l.name ∉ ls.map (·.name))
      (on : ∀ d ∈ l.on, d ∈ ls.map (·.name)) : Sound (l :: ls)

theorem Sound.nodup {ls : List (Layer ι κ υ)} (h : Sound ls) : (ls.map (·.name)).Nodup := by
  induction h with
  | nil => exact List.nodup_nil
  | cons rest fresh on ih => exact List.nodup_cons.2 ⟨fresh, ih⟩

/-- **Layers taken out leave no trace**: what is there could have been pushed in its order, and nothing else. -/
theorem Sound.pushes {ls : List (Layer ι κ υ)} (h : Sound ls) : ReflTransGen Push [] ls := by
  induction h with
  | nil => exact .refl
  | cons rest fresh on ih => exact ih.tail (.intro _ fresh on)

/-! ## Values -/

section Values

variable [DecidableEq κ]

/-- What the layer sets the key to; the last entry counts. -/
def Layer.value (l : Layer ι κ υ) (k : κ) : Option υ := (l.sets.reverse.find? (·.1 = k)).map (·.2)

/-- What the topmost layer that sets the key sets it to. -/
def value (ls : List (Layer ι κ υ)) (k : κ) : Option υ := ls.findSome? (·.value k)

/-- The topmost layer that sets the key. -/
def owner (ls : List (Layer ι κ υ)) (k : κ) : Option (Layer ι κ υ) := ls.find? (fun l => (l.value k).isSome)

theorem value_cons (l : Layer ι κ υ) (ls : List (Layer ι κ υ)) (k : κ) :
    value (l :: ls) k = (l.value k).or (value ls k) := by
  unfold value
  rw [List.findSome?_cons]
  cases l.value k <;> rfl

theorem owner_cons (l : Layer ι κ υ) (ls : List (Layer ι κ υ)) (k : κ) :
    owner (l :: ls) k = if (l.value k).isSome then some l else owner ls k := by
  unfold owner
  rw [List.find?_cons]
  cases (l.value k).isSome <;> rfl

end Values

/-! ## Taking out -/

section TakingOut

variable [DecidableEq ι]

def takeOut (name : ι) (ls : List (Layer ι κ υ)) : List (Layer ι κ υ) := ls.eraseP (·.name = name)

/-- The layers below the topmost one of the name. -/
def below (name : ι) (ls : List (Layer ι κ υ)) : List (Layer ι κ υ) := (ls.dropWhile (·.name ≠ name)).tail

inductive Move : List (Layer ι κ υ) → List (Layer ι κ υ) → Prop
  | push {ls ls' : List (Layer ι κ υ)} (h : Push ls ls') : Move ls ls'
  | takeOut {ls : List (Layer ι κ υ)} (name : ι) (there : name ∈ ls.map (·.name)) (free : ∀ l ∈ ls, name ∉ l.on) :
      Move ls (takeOut name ls)

theorem takeOut_cons (name : ι) (l : Layer ι κ υ) (ls : List (Layer ι κ υ)) :
    takeOut name (l :: ls) = if l.name = name then ls else l :: takeOut name ls := by
  unfold takeOut
  rw [List.eraseP_cons]
  by_cases h : l.name = name <;> simp [h]

theorem mem_names_takeOut {name n : ι} {ls : List (Layer ι κ υ)} (h : n ∈ ls.map (·.name)) (hne : n ≠ name) :
    n ∈ (takeOut name ls).map (·.name) := by
  obtain ⟨l, hl, rfl⟩ := List.mem_map.1 h
  refine List.mem_map_of_mem ?_
  unfold takeOut
  rw [List.mem_eraseP_of_neg (by simpa using hne)]
  exact hl

theorem Sound.takeOut {name : ι} {ls : List (Layer ι κ υ)} (h : Sound ls) (free : ∀ l ∈ ls, name ∉ l.on) :
    Sound (takeOut name ls) := by
  induction h with
  | nil => exact .nil
  | @cons l ls rest fresh on ih =>
    rw [takeOut_cons]
    split
    · exact rest
    · refine .cons (ih (fun l' h' => free l' (List.mem_cons_of_mem _ h'))) (fun hm => fresh ?_) (fun d hd => ?_)
      · exact (List.eraseP_sublist.map _).subset hm
      · exact mem_names_takeOut (on d hd) (fun e => free l List.mem_cons_self (e ▸ hd))

theorem Move.sound {ls ls' : List (Layer ι κ υ)} (h : Move ls ls') (hs : Sound ls) : Sound ls' := by
  cases h with
  | push h =>
    obtain ⟨l, fresh, on⟩ := h
    exact .cons hs fresh on
  | takeOut name there free => exact hs.takeOut free

theorem sound_of_moves {ls : List (Layer ι κ υ)} (h : ReflTransGen Move [] ls) : Sound ls := by
  induction h with
  | refl => exact .nil
  | tail _ hm ih => exact hm.sound ih

variable [DecidableEq κ]

/-- **Taking out a layer that does not own the key leaves its value.** -/
theorem value_takeOut_other {name : ι} {k : κ} : ∀ {ls : List (Layer ι κ υ)},
    (∀ l, owner ls k = some l → l.name ≠ name) → value (takeOut name ls) k = value ls k
  | [], _      => rfl
  | l :: ls, h => by
    rw [owner_cons] at h
    rw [takeOut_cons, value_cons]
    cases hv : l.value k with
    | some v =>
      have hne : l.name ≠ name := h l (by rw [hv]; rfl)
      rw [if_neg hne, value_cons, hv]
      rfl
    | none =>
      rw [hv] at h
      split
      · rfl
      · rw [value_cons, hv, value_takeOut_other h]

/-- **Taking out the layer that owns the key leaves the value of the layers below.** -/
theorem value_takeOut_owner {k : κ} {o : Layer ι κ υ} : ∀ {ls : List (Layer ι κ υ)}, (ls.map (·.name)).Nodup →
    owner ls k = some o → value (takeOut o.name ls) k = value (below o.name ls) k
  | [], _, h       => by cases h
  | l :: ls, hn, h => by
    rw [owner_cons] at h
    obtain ⟨hl, hls⟩ : l.name ∉ ls.map (·.name) ∧ (ls.map (·.name)).Nodup := List.nodup_cons.1 hn
    cases hv : l.value k with
    | some v =>
      rw [hv] at h
      obtain rfl := Option.some.inj h
      rw [takeOut_cons, if_pos rfl, below, List.dropWhile_cons_of_neg (by simp)]
      rfl
    | none =>
      rw [hv] at h
      have hne : l.name ≠ o.name := by
        intro e
        rw [e] at hl
        exact hl (List.mem_map_of_mem (List.mem_of_find?_eq_some h))
      rw [takeOut_cons, if_neg hne, value_cons, hv, Option.none_or, value_takeOut_owner hls h, below, below,
        List.dropWhile_cons_of_pos (by simpa using hne)]

end TakingOut

end Layers
