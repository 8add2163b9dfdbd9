import Libpulp.Parse
/-!
# ParseSpec — what a successful parse says

`Eats full n P p`: when `p` succeeds its value has `P` and the cursor moved on by at least `n` bytes, or to the end of
the buffer if reads may fall short (`full = false`); when it fails the code is one of `parseCodes`.  After a short read
no later read succeeds, so the units and references of parsed metadata are bounded by the bytes it was parsed from
(`parseMetadataFromMem_parsed`).
-/
namespace Libpulp

open Bytes (Byte toLE ofLE)

/-- The cursor moved on by at least `n` bytes, or to the end of the buffer if `full` does not exclude that. -/
def Consumed (full : Bool) (n : Nat) (s s' : Cursor) : Prop :=
  s'.rest.length + n ≤ s.rest.length ∨ full = false ∧ s'.rest = []

theorem Consumed.mono {full : Bool} {m n : Nat} {s t : Cursor} (h : Consumed full m s t) (hn : n ≤ m) :
    Consumed full n s t := h.imp (fun h => by omega) id

theorem Consumed.trans {full : Bool} {m n : Nat} {s t u : Cursor} (h : Consumed full m s t) (h' : Consumed full n t u) :
    Consumed full (m + n) s u := by
  rcases h' with h' | h'
  · rcases h with h | ⟨hf, h⟩
    · exact Or.inl (by omega)
    · rw [h, List.length_nil] at h'
      exact Or.inr ⟨hf, List.length_eq_zero_iff.1 (by omega)⟩
  · exact Or.inr h'

theorem consumed_drop {full : Bool} {n : Nat} {s s' : Cursor} (h : s'.rest = s.rest.drop n)
    (hf : full = true → n ≤ (s.rest.take n).length) : Consumed full n s s' := by
  unfold Consumed
  rw [h, List.length_drop, List.drop_eq_nil_iff]
  by_cases hn : n ≤ s.rest.length
  · exact Or.inl (by omega)
  · refine Or.inr ⟨Bool.eq_false_iff.2 (fun ht => hn ?_), by omega⟩
    exact Nat.le_trans (hf ht) (List.length_take_le' _ _)

theorem Consumed.le {full : Bool} {n : Nat} {s t : Cursor} (h : Consumed full n s t) :
    t.rest.length ≤ s.rest.length := by
  rcases h with h | ⟨-, h⟩
  · omega
  · simp [h]

/-- What the parser may return when it fails; a missing number of units is the 1. -/
def parseCodes : List UlpError := [EINVALIDULP, ENOMEM, 1]

structure Eats {α : Type} (full : Bool) (n : Nat) (P : α → Prop) (p : Parse α) : Prop where
  ok    : ∀ {s a s'}, p s = Except.ok (a, s') → P a ∧ Consumed full n s s'
  error : ∀ {s e}, p s = Except.error (.err e) → e ∈ parseCodes

namespace Eats

variable {α β : Type} {full : Bool} {m n : Nat} {P : α → Prop} {R : β → Prop}

theorem mono {p : Parse α} (h : Eats full m P p) (hn : n ≤ m) : Eats full n P p :=
  ⟨fun hp => ⟨(h.ok hp).1, (h.ok hp).2.mono hn⟩, h.error⟩

theorem pure {a : α} (h : P a) : Eats full 0 P (pure a : Parse α) := by
  refine ⟨fun hp => ?_, fun hp => by cases hp⟩
  cases hp
  exact ⟨h, Or.inl (Nat.le_refl _)⟩

theorem get : Eats full 0 (fun _ => True) (get : Parse Cursor) := by
  refine ⟨fun hp => ?_, fun hp => by cases hp⟩
  cases hp
  exact ⟨trivial, Or.inl (Nat.le_refl _)⟩

theorem throw {e : UlpError} (he : e ∈ parseCodes) : Eats full n P (throw (ParseStop.err e) : Parse α) := by
  refine ⟨fun hp => ?_, fun hp => ?_⟩
  · cases hp
  · cases hp
    exact he

theorem bind {p : Parse α} {f : α → Parse β} (hp : Eats full m P p) (hf : ∀ a, P a → Eats full n R (f a)) :
    Eats full (m + n) R (p >>= f) := by
  have hb : ∀ s, (p >>= f) s = match p s with
      | .error e => Except.error e
      | .ok (a, t) => f a t := fun s => by
    change Except.bind _ _ = _
    unfold Except.bind
    cases p s <;> rfl
  refine ⟨?_, ?_⟩
  · intro s b u hr
    rw [hb] at hr
    cases ha : p s with
    | error e => rw [ha] at hr; cases hr
    | ok r =>
      rw [ha] at hr
      obtain ⟨hP, hc⟩ := hp.ok ha
      obtain ⟨hR, hc'⟩ := (hf r.1 hP).ok hr
      exact ⟨hR, hc.trans hc'⟩
  · intro s e hr
    rw [hb] at hr
    cases ha : p s with
    | error e' =>
      rw [ha] at hr
      obtain rfl : e' = .err e := by cases hr; rfl
      exact hp.error ha
    | ok r =>
      rw [ha] at hr
      exact (hf r.1 (hp.ok ha).1).error hr

/-- A check that fails with one of the parser's codes. -/
theorem check {c : Prop} [Decidable c] {e : UlpError} (he : e ∈ parseCodes) {p : Parse α} (hp : Eats full n P p) :
    Eats full n P (do
      if c then MonadExcept.throw (ParseStop.err e)
      p) := by
  split
  · exact mono (bind (m := 0) (P := fun _ => True) (throw he) (fun _ _ => hp)) (Nat.le_add_left n 0)
  · exact hp

end Eats

/-! ## Reads -/

theorem readC_run (least : Nat) (e : UlpError) (s : Cursor) :
    readC least e s = if (s.rest.take 4).length < least then Except.error (.err e)
      else .ok ((), ⟨s.rest.drop 4, ofLE (s.rest.take 4 ++ (toLE 4 s.c).drop (s.rest.take 4).length)⟩) := by
  have hno : ¬ (toLE 4 s.c).length < (s.rest.take 4).length := by rw [Bytes.length_toLE, List.length_take]; omega
  change (Except.bind (readFromMem (toLE 4 s.c) 4 s) _) = _
  unfold readFromMem
  simp only [if_neg hno]
  change (if _ then _ else _ : Parse Unit) _ = _
  split <;> rfl

theorem readField_run (size least : Nat) (e : UlpError) (s : Cursor) :
    readField size least e s = if (s.rest.take size).length < least then Except.error (.err e)
      else .ok (s.rest.take size ++ (List.replicate size 0).drop (s.rest.take size).length, ⟨s.rest.drop size, s.c⟩) := by
  have hno : ¬ (List.replicate size (0 : Byte)).length < (s.rest.take size).length := by
    rw [List.length_replicate, List.length_take]; omega
  change (Except.bind (readFromMem (List.replicate size 0) size s) _) = _
  unfold readFromMem
  simp only [if_neg hno]
  change (if _ then _ else _ : Parse (List Byte)) _ = _
  split <;> rfl

theorem readC_eats {full : Bool} {least : Nat} {e : UlpError} (he : e ∈ parseCodes) (hf : full = true → least = 4) :
    Eats full 4 (fun _ => True) (readC least e) := by
  refine ⟨fun {s a s'} h => ?_, fun {s e'} h => ?_⟩
  · rw [readC_run] at h
    split at h
    · cases h
    · rename_i hn
      cases h
      exact ⟨trivial, consumed_drop rfl (fun ht => by have := hf ht; omega)⟩
  · rw [readC_run] at h
    split at h <;> cases h
    exact he

theorem readField_eats {full : Bool} {size least : Nat} {e : UlpError} (he : e ∈ parseCodes)
    (hf : full = true → least = size) : Eats full size (fun _ => True) (readField size least e) := by
  refine ⟨fun {s a s'} h => ?_, fun {s e'} h => ?_⟩
  · rw [readField_run] at h
    split at h
    · cases h
    · rename_i hn
      cases h
      exact ⟨trivial, consumed_drop rfl (fun ht => by have := hf ht; omega)⟩
  · rw [readField_run] at h
    split at h <;> cases h
    exact he

theorem readFromMem_eats {full : Bool} (dst : List Byte) (n : Nat) : Eats full 0 (fun _ => True) (readFromMem dst n) := by
  refine ⟨fun {s a s'} h => ?_, fun {s e} h => ?_⟩
  · unfold readFromMem at h
    simp only at h
    split at h
    · cases h
    · cases h
      refine ⟨trivial, Or.inl ?_⟩
      simp only [List.length_drop]
      omega
  · unfold readFromMem at h
    simp only at h
    split at h <;> cases h

theorem readName_eats {full : Bool} (calloc : AllocSite → Bool) (site : AllocSite) (extra : Nat)
    {noMem short : UlpError} (h₁ : noMem ∈ parseCodes) (h₂ : short ∈ parseCodes) :
    Eats full 0 (fun _ => True) (readName calloc site extra noMem short) := by
  unfold readName
  exact Eats.bind .get (fun s _ => .check h₁ (Eats.bind (n := 0) (R := fun _ => True) (readFromMem_eats _ s.c)
    (fun r _ => .check h₂ (.pure trivial))))

/-! ## Records -/

theorem einvalidulp_mem : EINVALIDULP ∈ parseCodes := by decide
theorem enomem_mem : ENOMEM ∈ parseCodes := by decide

theorem parseUnit_eats (calloc : AllocSite → Bool) (j : Nat) : Eats false 16 (fun _ => True) (parseUnit calloc j) := by
  have hC : Eats false 4 (fun _ => True) (readC 1 EINVALIDULP) := readC_eats einvalidulp_mem (by simp)
  have hN : ∀ site extra, Eats false 0 (fun _ => True) (readName calloc site extra EINVALIDULP EINVALIDULP) :=
    fun site extra => readName_eats calloc site extra einvalidulp_mem einvalidulp_mem
  have hF : Eats false 8 (fun _ => True) (readField 8 1 EINVALIDULP) := readField_eats einvalidulp_mem (by simp)
  unfold parseUnit
  exact .check enomem_mem (hC.bind (fun _ _ => (hN _ _).bind (fun _ _ => hC.bind (fun _ _ => (hN _ _).bind (fun _ _ =>
    hF.bind (fun _ _ => .pure trivial))))))

theorem parseDependency_eats (calloc : AllocSite → Bool) (i : Nat) :
    Eats false 0 (fun d => d.patchIdCheck = false) (parseDependency calloc i) := by
  unfold parseDependency
  exact .check enomem_mem
    (Eats.mono (n := 0) ((readField_eats einvalidulp_mem (by simp)).bind (fun _ _ => .pure rfl)) (Nat.zero_le _))

theorem parseReference_eats (calloc : AllocSite → Bool) (i : Nat) :
    Eats true 25 (fun _ => True) (parseReference calloc i) := by
  have hC : Eats true 4 (fun _ => True) (readC 4 EINVALIDULP) := readC_eats einvalidulp_mem (by simp)
  have hN : ∀ site extra, Eats true 0 (fun _ => True) (readName calloc site extra ENOMEM EINVALIDULP) :=
    fun site extra => readName_eats calloc site extra enomem_mem einvalidulp_mem
  have hF : ∀ size, Eats true size (fun _ => True) (readField size size EINVALIDULP) :=
    fun size => readField_eats einvalidulp_mem (fun _ => rfl)
  unfold parseReference
  exact .check enomem_mem (hC.bind (fun _ _ => (hN _ _).bind (fun _ _ => hC.bind (fun _ _ => (hN _ _).bind (fun _ _ =>
    (hF 8).bind (fun _ _ => (hF 8).bind (fun _ _ => (hF 1).bind (fun _ _ => .pure trivial))))))))

theorem parseMany_eats {α : Type} {full : Bool} {k : Nat} {P : α → Prop} {item : Nat → Parse α}
    (h : ∀ i, Eats full k P (item i)) :
    ∀ (n i : Nat), Eats full (k * n) (fun xs => xs.length = n ∧ ∀ x ∈ xs, P x) (parseMany item n i)
  | 0, _     => .pure ⟨rfl, by simp⟩
  | n + 1, i => by
    rw [parseMany]
    refine ((h i).bind (fun x hx => (parseMany_eats h n (i + 1)).bind (fun xs hxs => .pure ?_))).mono
      (by rw [Nat.mul_succ]; omega)
    exact ⟨by rw [List.length_cons, hxs.1], fun y hy => (List.mem_cons.1 hy).elim (· ▸ hx) (hxs.2 y)⟩

/-- **Parsed metadata has none of its dependencies marked, and no more units and references than fit into the bytes it
was parsed from.** -/
structure Parsed (size : Nat) (m : UlpMetadata) : Prop where
  deps : ∀ d ∈ m.deps, d.patchIdCheck = false
  fits : 16 * m.objs.units.length + 25 * m.refs.length ≤ size

theorem parseHeader_eats (calloc : AllocSite → Bool) :
    Eats false 0 (fun m => m.deps = [] ∧ m.objs.units = [] ∧ m.refs = []) (parseHeader calloc) := by
  have hC : Eats false 4 (fun _ => True) (readC 1 EINVALIDULP) := readC_eats einvalidulp_mem (by simp)
  have hN : ∀ site extra, Eats false 0 (fun _ => True) (readName calloc site extra EINVALIDULP EINVALIDULP) :=
    fun site extra => readName_eats calloc site extra einvalidulp_mem einvalidulp_mem
  have hF : ∀ size, Eats false size (fun _ => True) (readField size size EINVALIDULP) :=
    fun size => readField_eats einvalidulp_mem (fun _ => rfl)
  unfold parseHeader
  refine Eats.mono (n := 0) ((hF 1).bind (fun _ _ => (hF 32).bind (fun _ _ => hC.bind (fun _ _ =>
    Eats.bind (n := 8) (hN _ _) ?_)))) (Nat.zero_le _)
  exact fun _ _ => .check einvalidulp_mem (.check enomem_mem (hC.bind (fun _ _ => Eats.get.bind (fun _ _ =>
    (hN _ _).bind (fun _ _ => hC.bind (fun _ _ => (hN _ _).bind (fun _ _ => .pure ⟨rfl, rfl, rfl⟩)))))))

theorem parse_bind_ok {α β : Type} {p : Parse α} {f : α → Parse β} {s u : Cursor} {b : β}
    (h : (p >>= f) s = Except.ok (b, u)) : ∃ a t, p s = Except.ok (a, t) ∧ f a t = Except.ok (b, u) := by
  change Except.bind _ _ = _ at h
  unfold Except.bind at h
  cases hp : p s with
  | error e => rw [hp] at h; cases h
  | ok r => rw [hp] at h; exact ⟨r.1, r.2, rfl, h⟩

theorem parseTail_parsed {calloc : AllocSite → Bool} {m m' : UlpMetadata} {s s' : Cursor}
    (h : parseTail calloc m s = Except.ok (m', s')) : Parsed s.rest.length m' := by
  unfold parseTail at h
  obtain ⟨nunits, s₁, h₁, h⟩ := parse_bind_ok h
  obtain ⟨units, s₂, h₂, h⟩ := parse_bind_ok h
  obtain ⟨_, s₃, h₃, h⟩ := parse_bind_ok h
  obtain ⟨t, s₄, h₄, h⟩ := parse_bind_ok h
  obtain ⟨deps, s₅, h₅, h⟩ := parse_bind_ok h
  obtain ⟨nrefs, s₆, h₆, h⟩ := parse_bind_ok h
  obtain ⟨refs, s₇, h₇, h⟩ := parse_bind_ok h
  cases h
  cases h₄
  obtain ⟨⟨hul, -⟩, hu⟩ := (parseMany_eats (parseUnit_eats calloc) _ _).ok h₂
  obtain ⟨⟨-, hd⟩, -⟩ := (parseMany_eats (parseDependency_eats calloc) _ _).ok h₅
  obtain ⟨⟨hrl, -⟩, hr⟩ := (parseMany_eats (parseReference_eats calloc) _ _).ok h₇
  have hn : Eats false 4 (fun _ => True) (readField 4 1 1) := readField_eats (by decide) (by simp)
  have hC : Eats false 4 (fun _ => True) (readC 1 EINVALIDULP) := readC_eats einvalidulp_mem (by simp)
  have hF : Eats true 4 (fun _ => True) (readField 4 4 EINVALIDULP) := readField_eats einvalidulp_mem (fun _ => rfl)
  have l₁ := (hn.ok h₁).2.le
  have l₃ := (hC.ok h₃).2.le
  have l₅ := ((parseMany_eats (parseDependency_eats calloc) _ _).ok h₅).2.le
  have l₆ := (hF.ok h₆).2.le
  -- the units were read in full: the number of dependencies was still to be read
  have l₂ : s₂.rest.length + 16 * ofLE nunits ≤ s₁.rest.length := by
    rcases hu with hu | ⟨-, hnil⟩
    · exact hu
    · rw [readC_run, hnil, if_pos (by simp)] at h₃
      cases h₃
  have l₇ : s'.rest.length + 25 * ofLE nrefs ≤ s₆.rest.length := by
    rcases hr with hr | ⟨hf, -⟩
    · exact hr
    · cases hf
  refine ⟨hd, ?_⟩
  simp only [hul, hrl]
  omega

theorem parseBody_parsed {calloc : AllocSite → Bool} {m : UlpMetadata} {s s' : Cursor}
    (h : parseBody calloc s = Except.ok (m, s')) : Parsed s.rest.length m := by
  unfold parseBody at h
  obtain ⟨m₀, t, h₀, h⟩ := parse_bind_ok h
  obtain ⟨⟨hd, hu, hr⟩, hc⟩ := (parseHeader_eats calloc).ok h₀
  split at h
  · cases h
    exact ⟨by simp [hd], by simp [hu, hr]⟩
  · have hp := parseTail_parsed h
    exact ⟨hp.deps, Nat.le_trans hp.fits hc.le⟩

theorem parseMetadataFromMem_parsed {calloc : AllocSite → Bool} {src : List Byte} {c : Nat} {m : UlpMetadata}
    (h : parseMetadataFromMem calloc src c = Except.ok m) : Parsed src.length m := by
  unfold parseMetadataFromMem at h
  cases hp : (parseBody calloc).run ⟨src, c⟩ with
  | error e => rw [hp] at h; cases h
  | ok r =>
    rw [hp] at h
    cases h
    exact parseBody_parsed hp

theorem parseTail_eats {calloc : AllocSite → Bool} {m : UlpMetadata} :
    Eats false 0 (fun _ => True) (parseTail calloc m) := by
  have hn : Eats false 4 (fun _ => True) (readField 4 1 1) := readField_eats (by decide) (by simp)
  have hC : Eats false 4 (fun _ => True) (readC 1 EINVALIDULP) := readC_eats einvalidulp_mem (by simp)
  have hF : Eats false 4 (fun _ => True) (readField 4 4 EINVALIDULP) := readField_eats einvalidulp_mem (by simp)
  have hr : ∀ i, Eats false 0 (fun _ => True) (parseReference calloc i) := fun i =>
    ⟨fun h => ⟨trivial, Or.inl ((parseReference_eats calloc i).ok h).2.le⟩, (parseReference_eats calloc i).error⟩
  have hu : ∀ i, Eats false 0 (fun _ => True) (parseUnit calloc i) := fun i => (parseUnit_eats calloc i).mono (by omega)
  have h0 : ∀ {α : Type} {P : α → Prop} {item : Nat → Parse α} (n i : Nat), (∀ i, Eats false 0 P (item i)) →
      Eats false 0 (fun _ => True) (parseMany item n i) := fun n i h =>
    ⟨fun hp => ⟨trivial, Or.inl ((parseMany_eats h n i).ok hp).2.le⟩, (parseMany_eats h n i).error⟩
  unfold parseTail
  exact Eats.mono (hn.bind (fun _ _ => (h0 _ _ hu).bind (fun _ _ => hC.bind (fun _ _ => Eats.get.bind (fun _ _ =>
    (h0 _ _ (parseDependency_eats calloc)).bind (fun _ _ => hF.bind (fun _ _ => (h0 _ _ hr).bind (fun _ _ =>
      .pure trivial)))))))) (Nat.zero_le _)

/-- **A parse that fails does so with one of its codes.** -/
theorem parseMetadataFromMem_error {calloc : AllocSite → Bool} {src : List Byte} {c : Nat} {e : UlpError}
    (h : parseMetadataFromMem calloc src c = Except.error (.err e)) : e ∈ parseCodes := by
  have hb : Eats false 0 (fun _ => True) (parseBody calloc) := by
    unfold parseBody
    refine Eats.bind (n := 0) (parseHeader_eats calloc) (fun m _ => ?_)
    split
    · exact .pure trivial
    · exact parseTail_eats
  unfold parseMetadataFromMem at h
  cases hp : (parseBody calloc).run ⟨src, c⟩ with
  | error e' =>
    rw [hp] at h
    obtain rfl : e' = .err e := by cases h; rfl
    exact hb.error hp
  | ok r => rw [hp] at h; cases h

end Libpulp
