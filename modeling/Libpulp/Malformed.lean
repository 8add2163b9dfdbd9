import Libpulp.Wire
/-!
# Malformed — the parser on bytes that are not metadata

The parser runs inside the patched process and inside a root tool, on bytes neither has checked.  A cut apply patch is
always refused, although most reads are content with a single byte.  Hostile bytes can do two things: a length of
`2^32 - 1` wraps when the parser adds one to it, and the names of a reference are NUL-terminated only if their own bytes
are.
-/
namespace Libpulp

open Bytes (Byte toLE)

theorem parseMetadataFromMem_ok {calloc : AllocSite → Bool} {src : List Byte} {c : Nat} {m : UlpMetadata}
    (h : parseMetadataFromMem calloc src c = Except.ok m) :
    ∃ r c', parseBody calloc ⟨src, c⟩ = Except.ok (m, ⟨r, c'⟩) := by
  unfold parseMetadataFromMem at h
  cases hp : (parseBody calloc).run ⟨src, c⟩ with
  | error e => rw [hp] at h; cases h
  | ok s =>
    rw [hp] at h
    cases h
    exact ⟨s.2.rest, s.2.c, hp⟩

theorem parseMetadataFromMem_eq {calloc : AllocSite → Bool} {src : List Byte} {c : Nat}
    {x : Except ParseStop (UlpMetadata × Cursor)} (h : parseBody calloc ⟨src, c⟩ = x) :
    parseMetadataFromMem calloc src c = x.map (·.1) := by
  unfold parseMetadataFromMem
  rw [← h]
  rfl

theorem parseMetadataFromMem_overflow {calloc : AllocSite → Bool} {src : List Byte} {c : Nat}
    (h : parseMetadataFromMem calloc src c = Except.error .overflow) :
    parseBody calloc ⟨src, c⟩ = Except.error .overflow := by
  unfold parseMetadataFromMem at h
  cases hp : (parseBody calloc).run ⟨src, c⟩ with
  | error e =>
    rw [hp] at h
    obtain rfl : e = .overflow := by cases h; rfl
    exact hp
  | ok s => rw [hp] at h; cases h

theorem readName_nul {calloc : AllocSite → Bool} {site : AllocSite} {noMem short : UlpError} {s s' : Cursor}
    {b : List Byte} (h : readName calloc site 1 noMem short s = Except.ok (b, s')) : (0 : Byte) ∈ b := by
  obtain ⟨r, c⟩ := s
  rw [readName_run] at h
  split at h
  · cases h
  split at h
  · cases h
  rename_i hno
  split at h
  · cases h
  rename_i hk
  cases h
  have hlt : (r.take c).length < (c + 1) % 2 ^ 32 := by
    rw [List.length_take] at hk hno ⊢
    omega
  apply List.mem_append_right _
  rw [List.drop_replicate, List.mem_replicate]
  exact ⟨by omega, rfl⟩

theorem parse_check_ok {α : Type} {b : Prop} [Decidable b] {e : UlpError} {p : Parse α} {s : Cursor} {x : α × Cursor}
    (h : (do
      if b then throw (ParseStop.err e)
      p : Parse α) s = Except.ok x) : p s = Except.ok x := by
  by_cases hb : b
  · simp only [hb, ↓reduceIte] at h
    cases h
  · simpa only [hb, ↓reduceIte] using h

/-- What a parsed header says even where a length was cut short. -/
theorem parseHeader_inv {calloc : AllocSite → Bool} {s s' : Cursor} {m : UlpMetadata}
    (h : parseHeader calloc s = Except.ok (m, s')) :
    s.rest.head? = some m.type ∧ (0 : Byte) ∈ m.soFilename ∧ (0 : Byte) ∈ m.objs.name := by
  unfold parseHeader at h
  obtain ⟨type, s₁, h₁, h⟩ := parse_bind_ok h
  obtain ⟨id, s₂, -, h⟩ := parse_bind_ok h
  obtain ⟨_, s₃, -, h⟩ := parse_bind_ok h
  obtain ⟨so, s₄, h₄, h⟩ := parse_bind_ok h
  have h := parse_check_ok (parse_check_ok h)
  obtain ⟨_, s₅, -, h⟩ := parse_bind_ok h
  obtain ⟨t, s₆, -, h⟩ := parse_bind_ok h
  obtain ⟨b, s₇, -, h⟩ := parse_bind_ok h
  obtain ⟨_, s₈, -, h⟩ := parse_bind_ok h
  obtain ⟨nm, s₉, h₉, h⟩ := parse_bind_ok h
  cases h
  refine ⟨?_, readName_nul h₄, readName_nul h₉⟩
  rw [readField_run] at h₁
  cases hr : s.rest with
  | nil => simp [hr] at h₁
  | cons x xs =>
    simp only [hr, List.take_succ_cons, List.take_zero, List.length_cons, List.length_nil] at h₁
    cases h₁
    rfl

theorem parseTail_type {calloc : AllocSite → Bool} {s s' : Cursor} {m m' : UlpMetadata}
    (h : parseTail calloc m s = Except.ok (m', s')) : m'.type = m.type := by
  unfold parseTail at h
  obtain ⟨_, _, -, h⟩ := parse_bind_ok h
  obtain ⟨_, _, -, h⟩ := parse_bind_ok h
  obtain ⟨_, _, -, h⟩ := parse_bind_ok h
  obtain ⟨_, _, -, h⟩ := parse_bind_ok h
  obtain ⟨_, _, -, h⟩ := parse_bind_ok h
  obtain ⟨_, _, -, h⟩ := parse_bind_ok h
  obtain ⟨_, _, -, h⟩ := parse_bind_ok h
  cases h
  rfl

/-- The type of parsed metadata is its first byte. -/
theorem parseBody_type {calloc : AllocSite → Bool} {s s' : Cursor} {m : UlpMetadata}
    (h : parseBody calloc s = Except.ok (m, s')) : s.rest.head? = some m.type := by
  unfold parseBody at h
  obtain ⟨m₀, t, h₀, h⟩ := parse_bind_ok h
  have ht := (parseHeader_inv h₀).1
  split at h
  · cases h
    exact ht
  · rw [parseTail_type h]
    exact ht

/-! ## Truncated metadata -/

/-- **A cut apply patch is refused.**  No proper prefix of an encoding is parsed, whatever the lengths read from the
cut field are mixed with. -/
theorem truncated_rejected (calloc : AllocSite → Bool) (c : Nat) (w : Wire) (p : List Byte) (hp : p <+: w.encode)
    (hne : p ≠ w.encode) : ∃ e, parseMetadataFromMem calloc p c = Except.error (.err e) ∧ e ≠ ENONE := by
  obtain ⟨q, hq⟩ := hp
  have hq0 : q ≠ [] := fun h => hne (by rw [← hq, h, List.append_nil])
  obtain ⟨c₁, h₁⟩ := @parseBody_encode (fun _ => true) (fun _ => rfl) w [] c
  rw [List.append_nil, ← hq] at h₁
  cases h : parseMetadataFromMem calloc p c with
  | ok m =>
    -- what `p` encodes would be read from `w` as well, with bytes left over
    exfalso
    obtain ⟨r, c', hb⟩ := parseMetadataFromMem_ok h
    have hm : m.type ≠ 2 := by
      have ht := parseBody_type hb
      have hw : w.encode.head? = some w.type := rfl
      rw [← hq, List.head?_append_of_ne_nil _ (by rintro rfl; cases ht), ht, Option.some.injEq] at hw
      rw [hw]
      exact w.apply
    obtain ⟨w', rfl, -⟩ := encode_of_parseBody hb hm
    obtain ⟨c₂, h₂⟩ := @parseBody_encode (fun _ => true) (fun _ => rfl) w' (r ++ q) c
    rw [← List.append_assoc, h₁] at h₂
    simp only [Except.ok.injEq, Prod.mk.injEq, Cursor.mk.injEq] at h₂
    exact hq0 (List.append_eq_nil_iff.1 h₂.2.1.symm).2
  | error x =>
    cases x with
    | overflow =>
      exfalso
      obtain ⟨b, t, hb, ht, rfl⟩ := widened_of_parseBody (parseMetadataFromMem_overflow h)
      have := @parseBody_widened (fun _ => true) (t ++ q) (fun _ => rfl) b hb (by simp [ht]) c
      rw [List.append_assoc, List.append_assoc, this] at h₁
      cases h₁
    | err e =>
      have he : ∀ e ∈ parseCodes, e ≠ ENONE := by decide
      exact ⟨e, rfl, he e (parseMetadataFromMem_error h)⟩

/-- A small patch in the container `/p`, as the packer writes it, cut inside the name of its object. -/
theorem truncated_rejected_small : ∃ e, parseMetadataFromMem (fun _ => true)
    ((spliceContainerPath (createPatchMetadataFile smallPatch) [47, 112]).take 51) 0 = Except.error (.err e) ∧
      e ≠ ENONE := by
  obtain ⟨w, -, hw⟩ := splice_create_encode smallPatch [47, 112] rfl rfl rfl rfl (by simp) (by decide) (by decide +kernel)
  have hlen : (spliceContainerPath (createPatchMetadataFile smallPatch) [47, 112]).take 51 ≠
      spliceContainerPath (createPatchMetadataFile smallPatch) [47, 112] := by decide +kernel
  rw [hw] at hlen ⊢
  exact truncated_rejected (fun _ => true) 0 w _ (List.take_prefix _ _) hlen

/-! ## Hostile metadata -/

/-- Every name of `m` is NUL-terminated inside its buffer. -/
def NamesTerminated (m : UlpMetadata) : Prop :=
  (0 : Byte) ∈ m.soFilename ∧ (0 : Byte) ∈ m.objs.name ∧
    (∀ u ∈ m.objs.units, (0 : Byte) ∈ u.oldFname ∧ (0 : Byte) ∈ u.newFname) ∧
    ∀ r ∈ m.refs, (0 : Byte) ∈ r.targetName ∧ (0 : Byte) ∈ r.referenceName

/-- The parser stays inside the objects it allocates for `src` and returns only names that end. -/
def ParserSafe (src : List Byte) : Prop := ∀ calloc c, parseMetadataFromMem calloc src c ≠ Except.error .overflow ∧
  ∀ m, parseMetadataFromMem calloc src c = Except.ok m → NamesTerminated m

/-- The length of the container path, the object name or a function name is `2^32 - 1`, with bytes behind it. -/
def Overlong (src : List Byte) : Prop := ∃ b t, Widened b ∧ t ≠ [] ∧ src = b ++ (ones ++ t)

/-- The bytes begin with an apply patch one of whose references has a name without a NUL. -/
def Unterminated (src : List Byte) : Prop := ∃ (w : Wire) (t : List Byte), src = w.encode ++ t ∧
  ∃ r ∈ w.refs, (0 : Byte) ∉ r.targetName ∨ (0 : Byte) ∉ r.referenceName

theorem namesTerminated_parsed (w : Wire) : NamesTerminated w.parsed ↔
    ∀ r ∈ w.refs, (0 : Byte) ∈ r.targetName ∧ (0 : Byte) ∈ r.referenceName := by
  unfold NamesTerminated
  constructor
  · rintro ⟨-, -, -, hr⟩ r hm
    exact hr r.parsed (List.mem_map_of_mem hm)
  · intro hr
    refine ⟨by simp [Wire.parsed, WireHeader.parsed], by simp [Wire.parsed, WireHeader.parsed], ?_, ?_⟩
    · intro u hu
      obtain ⟨v, -, rfl⟩ := List.mem_map.1 hu
      exact ⟨by simp [WireUnit.parsed], by simp [WireUnit.parsed]⟩
    · intro r hm
      obtain ⟨v, hv, rfl⟩ := List.mem_map.1 hm
      exact hr v hv

theorem namesTerminated_of_reverse {calloc : AllocSite → Bool} {s s' : Cursor} {m : UlpMetadata}
    (h : parseBody calloc s = Except.ok (m, s')) (h2 : m.type = 2) : NamesTerminated m := by
  unfold parseBody at h
  obtain ⟨m₀, t, h₀, h⟩ := parse_bind_ok h
  obtain ⟨-, hso, hnm⟩ := parseHeader_inv h₀
  obtain ⟨⟨-, hu, hr⟩, -⟩ := (parseHeader_eats calloc).ok h₀
  split at h
  · cases h
    exact ⟨hso, hnm, by simp [hu], by simp [hr]⟩
  · rename_i hne
    exact absurd ((parseTail_type h).symm.trans h2) hne

/-- **Exactly when the parser is safe.** -/
theorem parserSafe_iff (src : List Byte) : ParserSafe src ↔ ¬ Overlong src ∧ ¬ Unterminated src := by
  constructor
  · intro hs
    constructor
    · rintro ⟨b, t, hb, ht, rfl⟩
      have h := @parseBody_widened (fun _ => true) t (fun _ => rfl) b hb ht 0
      exact (hs (fun _ => true) 0).1 (parseMetadataFromMem_eq h)
    · rintro ⟨w, t, rfl, r, hr, hn⟩
      obtain ⟨c', h⟩ := @parseBody_encode (fun _ => true) (fun _ => rfl) w t 0
      have hN := (namesTerminated_parsed w).1 ((hs (fun _ => true) 0).2 w.parsed (parseMetadataFromMem_eq h)) r hr
      exact hn.elim (fun h => h hN.1) (fun h => h hN.2)
  · rintro ⟨ho, hu⟩ calloc c
    constructor
    · intro h
      exact ho (widened_of_parseBody (parseMetadataFromMem_overflow h))
    · intro m h
      obtain ⟨r, c', hb⟩ := parseMetadataFromMem_ok h
      by_cases h2 : m.type = 2
      · exact namesTerminated_of_reverse hb h2
      · obtain ⟨w, rfl, rfl⟩ := encode_of_parseBody hb h2
        refine (namesTerminated_parsed w).2 (fun x hx => ?_)
        by_contra hn
        exact hu ⟨w, r, rfl, x, hx, not_and_or.1 hn⟩

/-- The length of the container path is `2^32 - 1`: its buffer has no byte, and the one byte left is copied there. -/
theorem copied_out_of_bounds : ¬ ParserSafe (1 :: List.replicate 32 0 ++ (ones ++ [47])) := by
  intro hs
  have h := @parseBody_widened (fun _ => true) [47] (fun _ => rfl) _ (.path 1 (Vector.replicate 32 0)) (by simp) 0
  rw [Vector.toList_replicate] at h
  exact (hs (fun _ => true) 0).1 (parseMetadataFromMem_eq h)

end Libpulp
