import Libpulp.Extract
/-!
# BuildIdText — build ids as text (tools/extract.c, `str_to_buildid`)

Twenty bytes are forty digits, but the string is asked for twenty characters only, and what `sscanf` returns is not looked
at.  Strings of twenty to thirty-seven characters are read behind their end, and a longer one that does not start with
forty digits gives a build id of its own (`buildidRead_iff`).
-/
namespace Libpulp

open Bytes (Byte)

/-- `str_to_buildid` with its accesses: `none` when `&str[2 * i]` is behind the terminator, `some none` for `EINVAL`. -/
def strToBuildidRead (val : Nat → Nat) (str : CString) : Option (Option (Vector Byte buildidLen)) :=
  if str.1.length < buildidLen then some none
  else if (List.range buildidLen).all (fun i => 2 * i ≤ str.1.length) then some (strToBuildid val str)
  else none

/-- The string starts with forty hexadecimal digits. -/
def StartsHex (str : CString) : Prop :=
  2 * buildidLen ≤ str.1.length ∧ ∀ i < 2 * buildidLen, (hexValue (str.1.getD i 0)).isSome = true

/-- The byte that the digits at `2 * i` denote. -/
def digitsByte (str : CString) (i : Nat) : Byte :=
  UInt8.ofNat (16 * (hexValue (str.1.getD (2 * i) 0)).getD 0 + (hexValue (str.1.getD (2 * i + 1) 0)).getD 0)

/-- **A build id is read from a string as it should be**: no access is behind the terminator, and 0 is returned for forty
digits only, with what they denote. -/
structure BuildidRead (val : Nat → Nat) (str : CString) : Prop where
  inside : strToBuildidRead val str ≠ none
  digits : ∀ id, strToBuildidRead val str = some (some id) →
    StartsHex str ∧ ∀ i (h : i < buildidLen), id[i] = digitsByte str i

/-! ## Two digits -/

theorem hexValue_not_blank {c : Byte} {d : Nat} (h : hexValue c = some d) : isspace c = false ∧ c ≠ 43 ∧ c ≠ 45 := by
  have hrange : 48 ≤ c.toNat := by
    simp only [hexValue] at h
    split at h
    · omega
    · split at h
      · omega
      · split at h
        · omega
        · cases h
  refine ⟨?_, ?_, ?_⟩
  · simp only [isspace, Bool.or_eq_false_iff, decide_eq_false_iff_not, Bool.and_eq_false_iff]
    omega
  · rintro rfl
    exact absurd hrange (by decide)
  · rintro rfl
    exact absurd hrange (by decide)

theorem sscanfHex_digits {c₁ c₂ : Byte} {d₁ d₂ : Nat} (h₁ : hexValue c₁ = some d₁) (h₂ : hexValue c₂ = some d₂)
    (t : List Byte) (val : Nat) : sscanfHex (c₁ :: c₂ :: t) val = 16 * d₁ + d₂ := by
  obtain ⟨hspace, hplus, hminus⟩ := hexValue_not_blank h₁
  have hdrop : (c₁ :: c₂ :: t).dropWhile isspace = c₁ :: c₂ :: t :=
    List.dropWhile_cons_of_neg (by rw [hspace]; decide)
  unfold sscanfHex
  rw [hdrop]
  split
  · rename_i heq
    exact absurd (List.cons.inj heq).1 hplus
  · rename_i heq
    exact absurd (List.cons.inj heq).1 hminus
  · simp only [hexDigits, h₁, h₂, Option.getD_none, Option.getD_some]
    omega

theorem drop_two {s : List Byte} {i : Nat} (h : 2 * i + 1 < s.length) :
    s.drop (2 * i) = s.getD (2 * i) 0 :: s.getD (2 * i + 1) 0 :: s.drop (2 * i + 2) := by
  rw [List.drop_eq_getElem_cons (by omega), List.drop_eq_getElem_cons h]
  simp [List.getD_eq_getElem?_getD, h, show 2 * i < s.length by omega]

theorem StartsHex.strToBuildid {str : CString} (h : StartsHex str) (val : Nat → Nat) :
    strToBuildid val str = some (Vector.ofFn (fun i => digitsByte str i.val)) := by
  obtain ⟨hlen, hdig⟩ := h
  have hbyte : ∀ i < buildidLen, UInt8.ofNat (sscanfHex (str.1.drop (2 * i)) (val i)) = digitsByte str i := by
    intro i hi
    obtain ⟨d₁, h₁⟩ := Option.isSome_iff_exists.1 (hdig (2 * i) (by omega))
    obtain ⟨d₂, h₂⟩ := Option.isSome_iff_exists.1 (hdig (2 * i + 1) (by omega))
    rw [drop_two (by omega), sscanfHex_digits h₁ h₂, digitsByte, h₁, h₂, Option.getD_some, Option.getD_some]
  have hshort : ¬ str.1.length < buildidLen := by omega
  unfold Libpulp.strToBuildid
  rw [if_neg hshort, Option.some.injEq]
  exact congrArg Vector.ofFn (funext fun i => hbyte i.val i.isLt)

theorem StartsHex.read {str : CString} (h : StartsHex str) (val : Nat → Nat) :
    strToBuildidRead val str = some (some (Vector.ofFn (fun i => digitsByte str i.val))) := by
  have hlen := h.1
  have hall : (List.range buildidLen).all (fun i => decide (2 * i ≤ str.1.length)) = true := by
    rw [List.all_eq_true]
    intro i hi
    rw [List.mem_range] at hi
    exact decide_eq_true (by omega)
  unfold strToBuildidRead
  rw [if_neg (by omega), if_pos hall, h.strToBuildid]

theorem strToBuildidRead_buildidToString (val : Nat → Nat) (id : Vector Byte buildidLen) :
    strToBuildidRead val (buildidToString id) = some (some id) := by
  have hlen : (buildidToString id).1.length = 2 * buildidLen := by
    unfold buildidToString
    rw [length_flatMap_hexByte, Vector.length_toList]
  have hall : (List.range buildidLen).all (fun i => decide (2 * i ≤ (buildidToString id).1.length)) = true := by
    rw [List.all_eq_true]
    intro i hi
    rw [List.mem_range] at hi
    exact decide_eq_true (by omega)
  unfold strToBuildidRead
  rw [if_neg (by omega), if_pos hall, strToBuildid_buildidToString]

/-! ## The conversion -/

/-- **Build ids are read from a string as they should be if and only if it has fewer than twenty characters or starts with
forty digits**; what is printed is read back. -/
theorem buildidRead_iff (val : Nat → Nat) :
    (∀ str, BuildidRead val str ↔ str.1.length < buildidLen ∨ StartsHex str) ∧
    ∀ id, strToBuildidRead val (buildidToString id) = some (some id) := by
  refine ⟨fun str => ⟨fun h => ?_, fun h => ?_⟩, strToBuildidRead_buildidToString val⟩
  · by_cases hshort : str.1.length < buildidLen
    · exact Or.inl hshort
    · cases hr : strToBuildidRead val str with
      | none => exact absurd hr h.inside
      | some r =>
        cases r with
        | some id => exact Or.inr (h.digits id hr).1
        | none =>
          unfold strToBuildidRead Libpulp.strToBuildid at hr
          rw [if_neg hshort] at hr
          split at hr <;> simp at hr
  · rcases h with hshort | hhex
    · have hr : strToBuildidRead val str = some none := if_pos hshort
      exact ⟨by rw [hr]; simp, fun id hid => by rw [hr] at hid; simp at hid⟩
    · have hr := hhex.read val
      refine ⟨by rw [hr]; simp, fun id hid => ⟨hhex, fun i hi => ?_⟩⟩
      rw [hr, Option.some.injEq, Option.some.injEq] at hid
      rw [← hid, Vector.getElem_ofFn]

/-- Twenty digits are half a build id, and are read behind their end. -/
theorem half_buildid_overread : ¬ ∀ (val : Nat → Nat) (str : CString), BuildidRead val str := by
  intro h
  exact (h (fun _ => 0) ⟨List.replicate 20 48, by decide⟩).inside (by decide)

end Libpulp
