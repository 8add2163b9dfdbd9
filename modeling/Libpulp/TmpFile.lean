import Libpulp.Fuel
import Libpulp.VersionText
/-!
# TmpFile — a path for a temporary file (common/common.c: `create_path_to_tmp_file`)

Random tokens are tried until one names no file.  The flag of a conflict is set in the loop and cleared nowhere, so that
after one conflict no token ends the search: only the first one is ever taken (`tmpFile_iff`).
-/
namespace Libpulp
namespace TmpFile

open Bytes (Byte)
open Fuel (Returns)

abbrev Path := List Byte

/-- What is under `/tmp`: the files, those of them that `fopen` opens for reading, and the paths that it opens for
writing, where a file that is not there is created. -/
structure Tmp where
  present : Path → Bool
  reads   : Path → Bool
  writes  : Path → Bool
  present_of_reads : ∀ p, reads p = true → present p = true

/-- `fopen(p, "w")`: a file that was not there is one that can be read. -/
def Tmp.create (d : Tmp) (p : Path) : Tmp where
  present q := d.present q || q == p
  reads q := d.reads q || (q == p && !d.present p)
  writes := d.writes
  present_of_reads q h := by
    rcases Bool.or_eq_true_iff.1 h with h | h
    · rw [d.present_of_reads q h, Bool.true_or]
    · rw [(Bool.and_eq_true_iff.1 h).1, Bool.or_true]

/-- `/tmp/ulp-`. -/
def tmpPrefix : List Byte := [47, 116, 109, 112, 47, 117, 108, 112, 45]

/-- The size of `buffer`. -/
def bufferSize : Nat := 24

/-- `snprintf` into a buffer, without the NUL. -/
def snprintf (size : Nat) (text : List Byte) : List Byte := text.take (size - 1)

/-- The path of a token. -/
def tmpPath (token : BitVec 32) : Path := snprintf bufferSize (tmpPrefix ++ printDecimal token.toNat)

/-- The loop from the `i`-th call of `getrandom` on, which `none` is a failure of: `some none` is its `return NULL`, and
`none` that the fuel is used up. -/
def tmpLoop (d : Tmp) (getrandom : Nat → Option (BitVec 32)) : Nat → Nat → Bool → Option (Option Path)
  | 0, _, _               => none
  | fuel + 1, i, conflict =>
    match getrandom i with
    | none       => some none
    | some token =>
      let buffer := tmpPath token
      let conflict := if d.reads buffer then true else conflict
      if conflict then tmpLoop d getrandom fuel (i + 1) conflict else some (some buffer)

/-- What a call comes to: `NULL`, an access through the null pointer of an `fopen` that failed, or a path, with what is
then under `/tmp`. -/
inductive TmpResult where
  | null
  | crash
  | path (buffer : Path) (d : Tmp)

/-- `create_path_to_tmp_file`. -/
def createPathToTmpFile (d : Tmp) (getrandom : Nat → Option (BitVec 32)) (fuel : Nat) : Option TmpResult :=
  (tmpLoop d getrandom fuel 0 false).map (fun r =>
    match r with
    | none        => .null
    | some buffer => if d.writes buffer then .path buffer (d.create buffer) else .crash)

/-- **The search stops at the first token that names no file**, and returns its path. -/
def StopsAtFirst (d : Tmp) (tokens : Nat → BitVec 32) : Prop :=
  ∀ n, d.present (tmpPath (tokens n)) = false → (∀ m < n, d.present (tmpPath (tokens m)) = true) →
    ∃ d', Returns (createPathToTmpFile d (fun i => some (tokens i))) (.path (tmpPath (tokens n)) d')

/-! ## Paths -/

theorem length_printDecimal_le : ∀ (k n : Nat), n < 10 ^ (k + 1) → (printDecimal n).length ≤ k + 1
  | 0, n, h     => by
    unfold printDecimal
    rw [if_pos (by omega)]
    exact Nat.le_refl 1
  | k + 1, n, h => by
    unfold printDecimal
    split
    · exact Nat.le_add_left 1 _
    · have hdiv : n / 10 < 10 ^ (k + 1) := Nat.div_lt_of_lt_mul (by rwa [← Nat.pow_succ'])
      rw [List.length_append, List.length_singleton]
      exact Nat.succ_le_succ (length_printDecimal_le k (n / 10) hdiv)

theorem tmpPath_eq (token : BitVec 32) : tmpPath token = tmpPrefix ++ printDecimal token.toNat := by
  have hlen := length_printDecimal_le 9 token.toNat (Nat.lt_of_lt_of_le token.isLt (by decide))
  have htmp : tmpPrefix.length = 9 := rfl
  apply List.take_of_length_le
  rw [List.length_append, htmp, bufferSize]
  omega

/-- **Two tokens never share a path.** -/
theorem tmpPath_inj {a b : BitVec 32} (h : tmpPath a = tmpPath b) : a = b := by
  rw [tmpPath_eq, tmpPath_eq] at h
  have hdigits := congrArg digitsValue (List.append_cancel_left h)
  rw [(printDecimal_spec _).2.2, (printDecimal_spec _).2.2] at hdigits
  exact BitVec.eq_of_toNat_eq hdigits

/-! ## The loop -/

variable {d : Tmp} {getrandom : Nat → Option (BitVec 32)}

/-- One turn: the flag is set when the file can be read, and is left as it was when not. -/
theorem tmpLoop_turn {i : Nat} {token : BitVec 32} (h : getrandom i = some token) (fuel : Nat) (conflict : Bool) :
    tmpLoop d getrandom (fuel + 1) i conflict =
      if d.reads (tmpPath token) = true ∨ conflict = true then tmpLoop d getrandom fuel (i + 1) true
      else some (some (tmpPath token)) := by
  rw [tmpLoop, h]
  cases conflict <;> cases hreads : d.reads (tmpPath token) <;> simp [hreads]

/-- **After a conflict no path is found any more**: the flag stays set from turn to turn. -/
theorem tmpLoop_conflict : ∀ (fuel i : Nat) (r : Option Path), tmpLoop d getrandom fuel i true = some r → r = none
  | 0, _, _, h        => by cases h
  | fuel + 1, i, r, h => by
    cases hr : getrandom i with
    | none =>
      rw [tmpLoop, hr] at h
      exact (Option.some.inj h).symm
    | some token =>
      rw [tmpLoop_turn hr, if_pos (Or.inr rfl)] at h
      exact tmpLoop_conflict fuel (i + 1) r h

/-- **What the search finds is the path of the first token.** -/
theorem tmpLoop_some {fuel : Nat} {p : Path} : tmpLoop d getrandom (fuel + 1) 0 false = some (some p) ↔
    ∃ token, getrandom 0 = some token ∧ tmpPath token = p ∧ d.reads p = false := by
  constructor
  · intro h
    cases hr : getrandom 0 with
    | none =>
      rw [tmpLoop, hr] at h
      cases h
    | some token =>
      rw [tmpLoop_turn hr] at h
      split at h
      · cases tmpLoop_conflict fuel 1 (some p) h
      · rename_i hfree
        obtain rfl := Option.some.inj (Option.some.inj h)
        exact ⟨token, rfl, rfl, Bool.eq_false_of_not_eq_true (fun hreads => hfree (Or.inl hreads))⟩
  · rintro ⟨token, hr, rfl, hreads⟩
    rw [tmpLoop_turn hr, if_neg]
    simp [hreads]

/-- **When a path is returned**, and which. -/
theorem returns_path_iff {p : Path} {d' : Tmp} : Returns (createPathToTmpFile d getrandom) (.path p d') ↔
    (∃ token, getrandom 0 = some token ∧ tmpPath token = p ∧ d.reads p = false) ∧
      d.writes p = true ∧ d' = d.create p := by
  constructor
  · rintro ⟨fuel, h⟩
    obtain ⟨r, hr, hres⟩ := Option.map_eq_some_iff.1 h
    cases r with
    | none => cases hres
    | some buffer =>
      simp only at hres
      split at hres
      · rename_i hwrites
        cases hres
        cases fuel with
        | zero => cases hr
        | succ fuel => exact ⟨tmpLoop_some.1 hr, hwrites, rfl⟩
      · cases hres
  · rintro ⟨hfirst, hwrites, rfl⟩
    refine ⟨1, ?_⟩
    rw [createPathToTmpFile, tmpLoop_some.2 hfirst, Option.map_some]
    simp only [if_pos hwrites]

/-- **The search stops at the first token that names no file if and only if that is the first token of all**, and its file
can be created. -/
theorem tmpFile_iff (d : Tmp) (tokens : Nat → BitVec 32) (h : ∃ n, d.present (tmpPath (tokens n)) = false) :
    StopsAtFirst d tokens ↔ d.present (tmpPath (tokens 0)) = false ∧ d.writes (tmpPath (tokens 0)) = true := by
  constructor
  · intro hstops
    have hbefore : ∀ m < Nat.find h, d.present (tmpPath (tokens m)) = true := fun m hm =>
      Bool.eq_true_of_not_eq_false (Nat.find_min h hm)
    obtain ⟨d', hret⟩ := hstops (Nat.find h) (Nat.find_spec h) hbefore
    obtain ⟨⟨token, htoken, hpath, -⟩, hwrites, -⟩ := returns_path_iff.1 hret
    -- the path that comes back is always the first token's
    obtain rfl : tokens 0 = token := Option.some.inj htoken
    rw [hpath]
    exact ⟨Nat.find_spec h, hwrites⟩
  · rintro ⟨hfree, hwrites⟩ n - hbefore
    have hreads : d.reads (tmpPath (tokens 0)) = false := by
      cases hr : d.reads (tmpPath (tokens 0)) with
      | false => rfl
      | true => exact absurd (d.present_of_reads _ hr) (by simp [hfree])
    have hn : n = 0 := by
      by_contra hne
      rw [hbefore 0 (Nat.pos_of_ne_zero hne)] at hfree
      cases hfree
    subst hn
    exact ⟨_, returns_path_iff.2 ⟨⟨_, rfl, rfl, hreads⟩, hwrites, rfl⟩⟩

/-! ## One file -/

/-- `/tmp` with nothing in it. -/
def emptyTmp : Tmp := ⟨fun _ => false, fun _ => false, fun _ => true, fun _ h => h⟩

/-- `/tmp` with the file of token 0. -/
def tmpOfZero : Tmp := emptyTmp.create (tmpPath 0)

theorem tmpOfZero_free : tmpOfZero.present (tmpPath 1) = false := by
  have hne : tmpPath 1 ≠ tmpPath 0 := fun h => absurd (tmpPath_inj h) (by decide)
  change (false || tmpPath 1 == tmpPath 0) = false
  rw [Bool.false_or, beq_eq_false_iff_ne.2 hne]

theorem tmpFile_iff_free : StopsAtFirst tmpOfZero (fun _ => 1) :=
  (tmpFile_iff tmpOfZero (fun _ => 1) ⟨0, tmpOfZero_free⟩).2 ⟨tmpOfZero_free, rfl⟩

/-- **One conflict is one too many**: token 1 names no file, but token 0 came before. -/
theorem second_token_unused : ¬ ∀ (d : Tmp) (tokens : Nat → BitVec 32),
    (∃ n, d.present (tmpPath (tokens n)) = false) → StopsAtFirst d tokens := by
  intro h
  have htaken : tmpOfZero.present (tmpPath 0) = true := by simp [tmpOfZero, Tmp.create]
  have hstops := h tmpOfZero (fun i => BitVec.ofNat 32 i) ⟨1, tmpOfZero_free⟩
  obtain ⟨d', hret⟩ := hstops 1 tmpOfZero_free (fun m hm => by
    obtain rfl : m = 0 := by omega
    exact htaken)
  obtain ⟨⟨token, htoken, hpath, -⟩, -⟩ := returns_path_iff.1 hret
  obtain rfl : 0 = token := Option.some.inj htoken
  exact absurd (tmpPath_inj hpath) (by decide)

end TmpFile
end Libpulp
