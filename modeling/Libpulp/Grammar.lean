import Libpulp.RoundTrip
import Libpulp.ParseSpec
/-!
# Grammar — which bytes a parser step accepts, and on which it writes out of bounds

`Reads calloc full p c L O` says what `p`, started with the length `c`, does with any bytes.  `L bs a`: the bytes `bs` are
read as `a`.  `O pre`: after the bytes `pre` the next byte is copied out of bounds.  A success has read bytes of `L`
unless it ran into the end of the buffer, which `full` excludes; conversely `L` and `O` are what `p` does when every
allocation succeeds.  The rules follow the constructs the parser is built from.
-/
namespace Libpulp

open Bytes (Byte toLE ofLE)

structure Reads {α : Type} (calloc : AllocSite → Bool) (full : Bool) (p : Parse α) (c : Nat)
    (L : List Byte → α → Prop) (O : List Byte → Prop) : Prop where
  le       : ∀ {r r' c' a}, p ⟨r, c⟩ = Except.ok (a, ⟨r', c'⟩) → r'.length ≤ r.length
  ok       : ∀ {r r' c' a}, p ⟨r, c⟩ = Except.ok (a, ⟨r', c'⟩) → (full = false → r' ≠ []) → ∃ bs, r = bs ++ r' ∧ L bs a
  overflow : ∀ {r}, p ⟨r, c⟩ = Except.error .overflow → ∃ pre t, r = pre ++ t ∧ t ≠ [] ∧ O pre
  accepts  : (∀ site, calloc site = true) → ∀ {bs a}, L bs a → ∀ t, ∃ c', p ⟨bs ++ t, c⟩ = Except.ok (a, ⟨t, c'⟩)
  breaks   : (∀ site, calloc site = true) → ∀ {pre}, O pre → ∀ {t}, t ≠ [] → p ⟨pre ++ t, c⟩ = Except.error .overflow

/-! ## A length -/

section
variable {least c v : Nat} {e : UlpError} {r r' : List Byte} {a : Unit}

theorem readC_le (h : readC least e ⟨r, c⟩ = Except.ok (a, ⟨r', v⟩)) : r'.length ≤ r.length := by
  rw [readC_run] at h
  split at h <;> cases h
  simp

theorem readC_lt (h : readC least e ⟨r, c⟩ = Except.ok (a, ⟨r', v⟩)) : v < 2 ^ 32 := by
  rw [readC_run] at h
  split at h <;> cases h
  have h4 : (2 : Nat) ^ 32 = 256 ^ 4 := by decide
  rw [h4]
  refine Nat.lt_of_lt_of_le (Bytes.ofLE_lt _) (Nat.pow_le_pow_right (by decide) ?_)
  simp only [List.length_append, List.length_drop, Bytes.length_toLE, List.length_take]
  omega

/-- A length read in full is the next four bytes, whatever `c` was. -/
theorem readC_full {full : Bool} (h : readC least e ⟨r, c⟩ = Except.ok (a, ⟨r', v⟩)) (hl : full = true → least = 4)
    (hne : full = false → r' ≠ []) : r = toLE 4 v ++ r' := by
  rw [readC_run] at h
  split at h
  · cases h
  rename_i hk
  cases h
  simp only at hk hne ⊢
  have h4 : 4 ≤ r.length := by
    cases full with
    | true => rw [hl rfl, List.length_take] at hk; omega
    | false =>
      have := hne rfl
      rw [ne_eq, List.drop_eq_nil_iff] at this
      omega
  have ht : (r.take 4).length = 4 := by rw [List.length_take]; omega
  have hd : (toLE 4 c).drop 4 = [] := List.drop_of_length_le (by simp)
  have hc := Bytes.toLE_ofLE (r.take 4)
  rw [ht] at hc
  rw [ht, hd, List.append_nil, hc, List.take_append_drop]

end

theorem readName_run (calloc : AllocSite → Bool) (site : AllocSite) (extra : Nat) (noMem short : UlpError)
    (r : List Byte) (c : Nat) :
    readName calloc site extra noMem short ⟨r, c⟩ = if !calloc site then Except.error (.err noMem)
      else if (c + extra) % 2 ^ 32 < (r.take c).length then .error .overflow
      else if (r.take c).length < c then .error (.err short)
      else .ok (r.take c ++ (List.replicate ((c + extra) % 2 ^ 32) 0).drop (r.take c).length, ⟨r.drop c, c⟩) := by
  unfold readName
  change (if _ then _ else _ : Parse (List Byte)) _ = _
  split
  · rfl
  · change (Except.bind (readFromMem _ c ⟨r, c⟩) _) = _
    unfold readFromMem
    simp only [List.length_replicate]
    split
    · rfl
    · change (if _ then _ else _ : Parse (List Byte)) _ = _
      split <;> rfl

/-! ## The rules -/

/-- A parser that fails at the end of the buffer. -/
def Hungry {α : Type} (p : Parse α) : Prop := ∀ c a s, p ⟨[], c⟩ ≠ Except.ok (a, s)

theorem parse_bind_overflow {α β : Type} {p : Parse α} {f : α → Parse β} {s : Cursor}
    (h : (p >>= f) s = Except.error .overflow) :
    p s = Except.error .overflow ∨ ∃ a t, p s = Except.ok (a, t) ∧ f a t = Except.error .overflow := by
  change Except.bind _ _ = _ at h
  unfold Except.bind at h
  cases hp : p s with
  | error e =>
    rw [hp] at h
    obtain rfl : e = .overflow := by cases h; rfl
    exact Or.inl rfl
  | ok r => rw [hp] at h; exact Or.inr ⟨r.1, r.2, rfl, h⟩

theorem bind_of_overflow {α β : Type} {p : Parse α} {s : Cursor} (f : α → Parse β)
    (h : p s = Except.error .overflow) : (p >>= f) s = Except.error .overflow := by
  change Except.bind _ _ = _
  rw [h]
  rfl

theorem bind_of_ok {α β : Type} {p : Parse α} {s t : Cursor} {a : α} (f : α → Parse β) (h : p s = Except.ok (a, t)) :
    (p >>= f) s = f a t := Parse.run_bind_ok h

theorem Hungry.bind {α β : Type} {p : Parse α} (hp : Hungry p) (f : α → Parse β) : Hungry (p >>= f) := by
  intro c b s h
  obtain ⟨a, t, ha, -⟩ := parse_bind_ok h
  exact hp c a t ha

theorem hungry_get {β : Type} {f : Cursor → Parse β} (hf : ∀ s, Hungry (f s)) : Hungry (get >>= f) :=
  fun c a s h => hf ⟨[], c⟩ c a s h

theorem hungry_readC {least : Nat} {e : UlpError} (hl : 0 < least) : Hungry (readC least e) := by
  intro c a s h
  rw [readC_run, if_pos (by simpa using hl)] at h
  cases h

theorem hungry_readField {size least : Nat} {e : UlpError} (hl : 0 < least) : Hungry (readField size least e) := by
  intro c a s h
  rw [readField_run, if_pos (by simpa using hl)] at h
  cases h

namespace Reads

variable {α β : Type} {calloc : AllocSite → Bool} {full : Bool} {c : Nat} {p : Parse α} {f : α → Parse β}
  {L L' : List Byte → α → Prop} {O O' : List Byte → Prop} {M : α → List Byte → β → Prop} {Q : α → List Byte → Prop}

theorem congr (h : Reads calloc full p c L O) (hL : ∀ bs a, L bs a ↔ L' bs a) (hO : ∀ pre, O pre ↔ O' pre) :
    Reads calloc full p c L' O' := by
  have hL' : L = L' := funext (fun bs => funext (fun a => propext (hL bs a)))
  have hO' : O = O' := funext (fun pre => propext (hO pre))
  exact hL' ▸ hO' ▸ h

/-- After a parser that stands at the end of the buffer, one that needs a byte fails. -/
theorem hungry_bind (hp : ∀ c, Reads calloc full p c L O) (hf : ∀ a, Hungry (f a)) : Hungry (p >>= f) := by
  intro c b s h
  obtain ⟨a, ⟨r, c'⟩, ha, hb⟩ := parse_bind_ok h
  have := (hp c).le ha
  obtain rfl : r = [] := List.length_eq_zero_iff.1 (by simpa using this)
  exact hf a c' b s hb

theorem pure (a : α) : Reads calloc full (pure a) c (fun bs b => bs = [] ∧ b = a) (fun _ => False) where
  le h := by cases h; exact Nat.le_refl _
  ok h _ := by cases h; exact ⟨[], rfl, rfl, rfl⟩
  overflow h := by cases h
  accepts _ _ _ h t := by obtain ⟨rfl, rfl⟩ := h; exact ⟨c, rfl⟩
  breaks _ _ h := h.elim

/-- A step that cannot fall short, and the rest of the parser. -/
theorem bindBy {q : Bool} (hp : Reads calloc q p c L O) (hf : ∀ a c', Reads calloc full (f a) c' (M a) (Q a))
    (hfull : q = false → full = true → ∀ a, Hungry (f a)) :
    Reads calloc full (p >>= f) c (fun bs b => ∃ x y a, bs = x ++ y ∧ L x a ∧ M a y b)
      (fun pre => O pre ∨ ∃ x y a, pre = x ++ y ∧ L x a ∧ Q a y) where
  le h := by
    obtain ⟨a, ⟨r, c'⟩, ha, hb⟩ := parse_bind_ok h
    exact Nat.le_trans ((hf a c').le hb) (hp.le ha)
  ok {r r' c'' b} h hne := by
    obtain ⟨a, ⟨r₁, c'⟩, ha, hb⟩ := parse_bind_ok h
    have hne₁ : q = false → r₁ ≠ [] := by
      rintro hq rfl
      cases full with
      | true => exact hfull hq rfl a c' b _ hb
      | false =>
        have := (hf a c').le hb
        exact hne rfl (List.length_eq_zero_iff.1 (by simpa using this))
    obtain ⟨x, rfl, hx⟩ := hp.ok ha hne₁
    obtain ⟨y, rfl, hy⟩ := (hf a c').ok hb hne
    exact ⟨x ++ y, by simp, x, y, a, rfl, hx, hy⟩
  overflow {r} h := by
    rcases parse_bind_overflow h with ha | ⟨a, ⟨r₁, c'⟩, ha, hb⟩
    · obtain ⟨pre, t, hr, ht, hO⟩ := hp.overflow ha
      exact ⟨pre, t, hr, ht, Or.inl hO⟩
    · obtain ⟨y, t, rfl, ht, hQ⟩ := (hf a c').overflow hb
      obtain ⟨x, rfl, hx⟩ := hp.ok ha (fun _ => by simp [ht])
      exact ⟨x ++ y, t, by simp, ht, Or.inr ⟨x, y, a, rfl, hx, hQ⟩⟩
  accepts hc := by
    rintro bs b ⟨x, y, a, rfl, hx, hy⟩ t
    obtain ⟨c', ha⟩ := hp.accepts hc hx (y ++ t)
    obtain ⟨c'', hb⟩ := (hf a c').accepts hc hy t
    exact ⟨c'', by rw [List.append_assoc, bind_of_ok f ha, hb]⟩
  breaks hc := by
    rintro pre (hO | ⟨x, y, a, rfl, hx, hQ⟩) t ht
    · exact bind_of_overflow f (hp.breaks hc hO ht)
    · obtain ⟨c', ha⟩ := hp.accepts hc hx (y ++ t)
      rw [List.append_assoc, bind_of_ok f ha, (hf a c').breaks hc hQ ht]

theorem bind (hp : Reads calloc full p c L O) (hf : ∀ a c', Reads calloc full (f a) c' (M a) (Q a)) :
    Reads calloc full (p >>= f) c (fun bs b => ∃ x y a, bs = x ++ y ∧ L x a ∧ M a y b)
      (fun pre => O pre ∨ ∃ x y a, pre = x ++ y ∧ L x a ∧ Q a y) :=
  bindBy hp hf (fun h h' => by rw [h] at h'; cases h')

theorem alloc {site : AllocSite} {e : UlpError} (h : Reads calloc full p c L O) :
    Reads calloc full (do
      if !calloc site then throw (ParseStop.err e)
      p) c L O := by
  by_cases hs : calloc site = true
  · simp only [hs, Bool.not_true, Bool.false_eq_true, ↓reduceIte]
    exact h
  · rw [Bool.not_eq_true] at hs
    simp only [hs, Bool.not_false, ↓reduceIte]
    exact ⟨fun h' => (by cases h'), fun h' => (by cases h'), fun h' => (by cases h'),
      fun hc => absurd (hc site) (by simp [hs]), fun hc => absurd (hc site) (by simp [hs])⟩

theorem check {b : Prop} [Decidable b] {e : UlpError} (h : Reads calloc full p c L O) :
    Reads calloc full (do
      if b then throw (ParseStop.err e)
      p) c (fun bs a => ¬ b ∧ L bs a) (fun pre => ¬ b ∧ O pre) := by
  by_cases hb : b
  · simp only [hb, ↓reduceIte]
    exact ⟨fun h' => (by cases h'), fun h' => (by cases h'), fun h' => (by cases h'),
      fun _ _ _ h' => absurd trivial h'.1, fun _ _ h' => absurd trivial h'.1⟩
  · simp only [hb, ↓reduceIte, not_false_eq_true, true_and]
    exact h

/-- What follows may use the length just read, and nothing else of the cursor. -/
theorem length {f : Cursor → Parse β} {L : List Byte → β → Prop} {O : List Byte → Prop} (hf : ∀ s, f s = f ⟨[], s.c⟩)
    (h : Reads calloc full (f ⟨[], c⟩) c L O) : Reads calloc full (get >>= f) c L O := by
  have hrun : ∀ r, (get >>= f : Parse β) ⟨r, c⟩ = f ⟨[], c⟩ ⟨r, c⟩ := fun r => congrFun (hf ⟨r, c⟩) ⟨r, c⟩
  refine ⟨?_, ?_, ?_, ?_, ?_⟩ <;> simp only [hrun]
  · exact h.le
  · exact h.ok
  · exact h.overflow
  · exact h.accepts
  · exact h.breaks

theorem readC {q : Bool} {least : Nat} {e : UlpError} {g : Parse β} {M : Nat → List Byte → β → Prop}
    {Q : Nat → List Byte → Prop} (hl : least ≤ 4) (hq : q = true → least = 4)
    (hg : ∀ v, v < 2 ^ 32 → Reads calloc full g v (M v) (Q v)) (hfull : q = false → full = true → Hungry g) :
    Reads calloc full (do Libpulp.readC least e; g) c (fun bs b => ∃ v y, v < 2 ^ 32 ∧ bs = toLE 4 v ++ y ∧ M v y b)
      (fun pre => ∃ v y, v < 2 ^ 32 ∧ pre = toLE 4 v ++ y ∧ Q v y) := by
  have hrun : ∀ v t, v < 2 ^ 32 → Libpulp.readC least e ⟨toLE 4 v ++ t, c⟩ = Except.ok ((), ⟨t, v⟩) :=
    fun v t hv => readC_append e hv hl
  refine ⟨?_, ?_, ?_, ?_, ?_⟩
  · intro r r' c' b h
    obtain ⟨a, ⟨r₁, v⟩, ha, hb⟩ := parse_bind_ok h
    have hv := readC_lt ha
    have hle := readC_le ha
    exact Nat.le_trans ((hg v hv).le hb) hle
  · intro r r' c' b h hne
    obtain ⟨a, ⟨r₁, v⟩, ha, hb⟩ := parse_bind_ok h
    have hv := readC_lt ha
    obtain ⟨y, rfl, hy⟩ := (hg v hv).ok hb hne
    have hr := readC_full ha hq (by
      intro hf hnil
      rw [hnil] at hb
      cases full with
      | true => exact hfull hf rfl v b _ hb
      | false => exact hne rfl (List.append_eq_nil_iff.1 hnil).2)
    exact ⟨toLE 4 v ++ y, by rw [hr, List.append_assoc], v, y, hv, rfl, hy⟩
  · intro r h
    rcases parse_bind_overflow h with ha | ⟨a, ⟨r₁, v⟩, ha, hb⟩
    · rw [readC_run] at ha
      split at ha <;> cases ha
    · have hv := readC_lt ha
      obtain ⟨y, t, rfl, ht, hQ⟩ := (hg v hv).overflow hb
      have hr := readC_full ha hq (fun _ => by simp [ht])
      exact ⟨toLE 4 v ++ y, t, by rw [hr, List.append_assoc], ht, v, y, hv, rfl, hQ⟩
  · rintro hc bs b ⟨v, y, hv, rfl, hy⟩ t
    obtain ⟨c', hb⟩ := (hg v hv).accepts hc hy t
    refine ⟨c', ?_⟩
    rw [List.append_assoc, bind_of_ok _ (hrun v _ hv), hb]
  · rintro hc pre ⟨v, y, hv, rfl, hQ⟩ t ht
    rw [List.append_assoc, bind_of_ok _ (hrun v _ hv), (hg v hv).breaks hc hQ ht]

theorem readField {size least : Nat} {e : UlpError} (hl : least ≤ size) (hf : full = true → least = size) :
    Reads calloc full (Libpulp.readField size least e) c (fun bs a => bs.length = size ∧ a = bs) (fun _ => False) where
  le h := by
    rw [readField_run] at h
    split at h <;> cases h
    simp
  ok {r r' c' a} h hne := by
    rw [readField_run] at h
    split at h
    · cases h
    rename_i hk
    cases h
    simp only at hk
    have hlen : size ≤ r.length := by
      cases full with
      | true => rw [hf rfl, List.length_take] at hk; omega
      | false =>
        have := hne rfl
        simp only [ne_eq, List.drop_eq_nil_iff] at this
        omega
    have ht : (r.take size).length = size := by rw [List.length_take]; omega
    exact ⟨r.take size, (List.take_append_drop size r).symm, ht, by simp [ht]⟩
  overflow h := by
    rw [readField_run] at h
    split at h <;> cases h
  accepts _ _ _ h t := by
    obtain ⟨hb, rfl⟩ := h
    exact ⟨c, readField_append e hb hl⟩
  breaks _ _ h := h.elim

/-- A name read into as many bytes as its length says, or into one more: a length of `2^32 - 1` then wraps. -/
theorem readName {site : AllocSite} {extra : Nat} {noMem short : UlpError} (hx : extra ≤ 1) (hc : c < 2 ^ 32) :
    Reads calloc full (Libpulp.readName calloc site extra noMem short) c
      (fun bs a => bs.length = c ∧ c + extra < 2 ^ 32 ∧ a = bs ++ List.replicate extra 0)
      (fun pre => pre = [] ∧ extra = 1 ∧ c = 2 ^ 32 - 1) := by
  refine ⟨?_, ?_, ?_, ?_, ?_⟩
  · intro r r' c' a h
    rw [readName_run] at h
    split at h
    · cases h
    split at h
    · cases h
    split at h <;> cases h
    simp
  · intro r r' c' a h hne
    rw [readName_run] at h
    split at h
    · cases h
    split at h
    · cases h
    rename_i hno
    split at h
    · cases h
    rename_i hk
    cases h
    have ht : (r.take c).length = c := by rw [List.length_take] at hk ⊢; omega
    rw [ht] at hno
    have hfit : c + extra < 2 ^ 32 := by omega
    refine ⟨r.take c, (List.take_append_drop c r).symm, ht, hfit, ?_⟩
    rw [ht, Nat.mod_eq_of_lt hfit, List.drop_replicate, Nat.add_sub_cancel_left]
  · intro r h
    rw [readName_run] at h
    split at h
    · cases h
    split at h
    · rename_i hlt
      rw [List.length_take] at hlt
      refine ⟨[], r, rfl, ?_, rfl, by omega, by omega⟩
      rintro rfl
      simp at hlt
    · split at h <;> cases h
  · rintro ha bs a ⟨hb, hfit, rfl⟩ t
    exact ⟨c, readName_append noMem short (ha site) hb hfit⟩
  · rintro ha pre ⟨rfl, rfl, rfl⟩ t ht
    have hlen : 0 < t.length := List.length_pos_iff.2 ht
    rw [readName_run, if_neg (by simp [ha site]), if_pos (by rw [List.length_take, List.nil_append]; omega)]

end Reads
end Libpulp
