import Libpulp.ProcessList
import Libpulp.ReadState
import Libpulp.Tokens
/-!
# VersionText — libpulp's version as text and as a number (common/common.c)

A version is three numbers of sixteen bits in one word, in the order of their weight, so the words are ordered as the
triples are (`ulpVersionTriplet_lt`) and what is printed is read back.  What is read goes through `atoi`, which cuts to
thirty-two bits before the bound is checked: `4294967297.0.0` is version 1.0.0 (`version_decoded`).
-/
namespace Libpulp

open Bytes (Byte)
open Tokens (strtok fields)
open ReadState (ulpVersionTriplet)

/-! ## Reading -/

/-- One turn of the loop in `ulp_version_from_string`: `none` is the early return. -/
def versionNumber (number : List Byte) : Option (BitVec 64) :=
  if !isnumber number then none
  else if BitVec.ofInt 64 (atoi number) > 0xFFFF#64 then none
  else some (BitVec.ofInt 64 (atoi number))

/-- The loop of `ulp_version_from_string` with `n` turns left. -/
def versionNumbers : Nat → List Byte → Option (List (BitVec 64))
  | 0, _       => some []
  | n + 1, str =>
    match strtok 46 str with
    | none                  => none
    | some (_, number, str) => (versionNumber number).bind (fun v => (versionNumbers n str).map (v :: ·))

def ulpVersionFromString (str : List Byte) : BitVec 64 :=
  match versionNumbers 3 str with
  | some [a, b, c] => ulpVersionTriplet a b c
  | _              => 0

/-- The triple of the first three tokens that are read by `f`, 0 when one is missing or is not read. -/
def firstThree (f : List Byte → Option (BitVec 64)) : List (List Byte) → BitVec 64
  | a :: b :: c :: _ =>
    match f a, f b, f c with
    | some a, some b, some c => ulpVersionTriplet a b c
    | _, _, _                => 0
  | _ => 0

/-- A decimal number that is at most 65535. -/
def decimalNumber (number : List Byte) : Option (BitVec 64) :=
  if isnumber number ∧ digitsValue number ≤ 65535 then some (BitVec.ofNat 64 (digitsValue number)) else none

/-- The version a string stands for. -/
def versionOf (str : List Byte) : BitVec 64 := firstThree decimalNumber (fields 46 str)

/-- **A number that is too large goes through**: the first three tokens are decimal numbers below 2^63 whose remainders
modulo 2^32 are at most 65535, one of them is above 65535, and not all the remainders are 0. -/
def Wraps (str : List Byte) : Prop :=
  ∃ a b c rest, fields 46 str = a :: b :: c :: rest ∧
    (∀ n ∈ [a, b, c], isnumber n = true ∧ digitsValue n < 2 ^ 63 ∧ digitsValue n % 2 ^ 32 ≤ 65535) ∧
    (∃ n ∈ [a, b, c], 65535 < digitsValue n) ∧ ∃ n ∈ [a, b, c], digitsValue n % 2 ^ 32 ≠ 0

/-! ## Printing -/

/-- The decimal digits of a number, as `%hu` prints them. -/
def printDecimal (n : Nat) : List Byte :=
  if n < 10 then [UInt8.ofNat (48 + n)] else printDecimal (n / 10) ++ [UInt8.ofNat (48 + n % 10)]

def ulpVersionAsString (ver : BitVec 64) : List Byte :=
  let a := ((ver &&& 0x0000FFFF00000000#64) >>> 32).setWidth 16
  let b := ((ver &&& 0x00000000FFFF0000#64) >>> 16).setWidth 16
  let c := (ver &&& 0x000000000000FFFF#64).setWidth 16
  printDecimal a.toNat ++ 46 :: (printDecimal b.toNat ++ 46 :: printDecimal c.toNat)

/-! ## The word -/

theorem toNat_ulpVersionTriplet {a b c : BitVec 64} (ha : a.toNat ≤ 65535) (hb : b.toNat ≤ 65535)
    (hc : c.toNat ≤ 65535) : (ulpVersionTriplet a b c).toNat = c.toNat + b.toNat * 2 ^ 16 + a.toNat * 2 ^ 32 := by
  unfold ulpVersionTriplet
  rw [BitVec.toNat_add, BitVec.toNat_add, BitVec.toNat_shiftLeft, BitVec.toNat_shiftLeft, Nat.shiftLeft_eq,
    Nat.shiftLeft_eq]
  omega

theorem toNat_widened (x : BitVec 16) : (x.setWidth 64).toNat = x.toNat ∧ (x.setWidth 64).toNat ≤ 65535 := by
  have h := x.isLt
  rw [BitVec.toNat_setWidth]
  omega

/-- **Words are ordered as versions are.** -/
theorem ulpVersionTriplet_lt (a b c a' b' c' : BitVec 16) :
    ulpVersionTriplet (a.setWidth 64) (b.setWidth 64) (c.setWidth 64) <
        ulpVersionTriplet (a'.setWidth 64) (b'.setWidth 64) (c'.setWidth 64) ↔
      a < a' ∨ a = a' ∧ (b < b' ∨ b = b' ∧ c < c') := by
  rw [BitVec.lt_def, toNat_ulpVersionTriplet (toNat_widened a).2 (toNat_widened b).2 (toNat_widened c).2,
    toNat_ulpVersionTriplet (toNat_widened a').2 (toNat_widened b').2 (toNat_widened c').2]
  simp only [(toNat_widened _).1, BitVec.lt_def, BitVec.toNat_inj.symm]
  have := a.isLt
  have := b.isLt
  have := c.isLt
  have := a'.isLt
  have := b'.isLt
  have := c'.isLt
  omega

/-! ## One number -/

theorem toNat_atoi (number : List Byte) : (BitVec.ofInt 64 (atoi number)).toNat =
    if strtol number % 2 ^ 32 < 2 ^ 31 then strtol number % 2 ^ 32 else strtol number % 2 ^ 32 + (2 ^ 64 - 2 ^ 32) := by
  rw [BitVec.toNat_ofInt, atoi, int32, Int.bmod_def]
  split <;> split <;> omega

/-- **What one turn of the loop reads**: a number below 2^63, modulo 2^32. -/
theorem versionNumber_eq_some (number : List Byte) (v : BitVec 64) : versionNumber number = some v ↔
    (isnumber number = true ∧ digitsValue number < 2 ^ 63 ∧ digitsValue number % 2 ^ 32 ≤ 65535) ∧
      v = BitVec.ofNat 64 (digitsValue number % 2 ^ 32) := by
  have hv := toNat_atoi number
  have hgt : BitVec.ofInt 64 (atoi number) > 0xFFFF#64 ↔
      ¬ (digitsValue number < 2 ^ 63 ∧ digitsValue number % 2 ^ 32 ≤ 65535) := by
    -- the largest `long` is too large modulo 2^32
    rw [gt_iff_lt, BitVec.lt_def, hv]
    unfold strtol
    simp only [BitVec.toNat_ofNat]
    split <;> omega
  unfold versionNumber
  by_cases hn : isnumber number = true
  · by_cases hsmall : digitsValue number < 2 ^ 63 ∧ digitsValue number % 2 ^ 32 ≤ 65535
    · have heq : BitVec.ofInt 64 (atoi number) = BitVec.ofNat 64 (digitsValue number % 2 ^ 32) := by
        apply BitVec.eq_of_toNat_eq
        rw [hv, BitVec.toNat_ofNat]
        unfold strtol
        split <;> omega
      rw [if_neg (by simp [hn]), if_neg (by rw [hgt]; exact not_not_intro hsmall), heq, Option.some.injEq]
      exact ⟨fun h => ⟨⟨hn, hsmall⟩, h.symm⟩, fun h => h.2.symm⟩
    · rw [if_neg (by simp [hn]), if_pos (hgt.2 hsmall)]
      exact ⟨fun h => (by cases h), fun h => absurd h.1.2 hsmall⟩
  · rw [if_pos (by simpa using hn)]
    exact ⟨fun h => (by cases h), fun h => absurd h.1.1 hn⟩

theorem decimalNumber_eq_some (number : List Byte) (v : BitVec 64) : decimalNumber number = some v ↔
    (isnumber number = true ∧ digitsValue number ≤ 65535) ∧ v = BitVec.ofNat 64 (digitsValue number) := by
  unfold decimalNumber
  split
  · rename_i h
    rw [Option.some.injEq]
    exact ⟨fun hv => ⟨h, hv.symm⟩, fun hv => hv.2.symm⟩
  · rename_i h
    exact ⟨fun hv => (by cases hv), fun hv => absurd hv.1 h⟩

/-- A number that is not too large is read as it is. -/
theorem versionNumber_of_decimal {number : List Byte} {v : BitVec 64} (h : decimalNumber number = some v) :
    versionNumber number = some v := by
  obtain ⟨⟨hn, hle⟩, rfl⟩ := (decimalNumber_eq_some number v).1 h
  have hmod : digitsValue number % 2 ^ 32 = digitsValue number := Nat.mod_eq_of_lt (by omega)
  rw [versionNumber_eq_some, hmod]
  exact ⟨⟨hn, by omega, hle⟩, rfl⟩

/-! ## The loop -/

/-- A text read by the loop: the tokens one after another. -/
theorem versionNumbers_eq : ∀ (n : Nat) (str : List Byte), versionNumbers n str =
    if n ≤ (fields 46 str).length then ((fields 46 str).take n).mapM versionNumber else none
  | 0, str     => by simp [versionNumbers]
  | n + 1, str => by
    unfold versionNumbers
    cases h : strtok 46 str with
    | none =>
      have h0 := Tokens.strtok_none h
      simp [h0]
    | some r =>
      obtain ⟨skipped, number, behind⟩ := r
      have hf := (Tokens.strtok_some h).1
      simp only
      rw [hf, versionNumbers_eq n behind, List.length_cons, List.take_succ_cons]
      by_cases hn : n ≤ (fields 46 behind).length
      · rw [if_pos hn, if_pos (by omega), List.mapM_cons]
        cases versionNumber number <;> cases ((fields 46 behind).take n).mapM versionNumber <;> rfl
      · rw [if_neg hn, if_neg (by omega)]
        cases versionNumber number <;> rfl

theorem ulpVersionFromString_eq (str : List Byte) :
    ulpVersionFromString str = firstThree versionNumber (fields 46 str) := by
  unfold ulpVersionFromString
  rw [versionNumbers_eq]
  match fields 46 str with
  | []                 => rfl
  | [_]                => rfl
  | [_, _]             => rfl
  | a :: b :: c :: rest =>
    have hlen : 3 ≤ (a :: b :: c :: rest).length := by simp
    rw [if_pos hlen, List.take_succ_cons, List.take_succ_cons, List.take_succ_cons, List.take_zero]
    simp only [List.mapM_cons, List.mapM_nil, firstThree]
    cases versionNumber a <;> cases versionNumber b <;> cases versionNumber c <;> rfl

theorem firstThree_of_none {f : List Byte → Option (BitVec 64)} {a b c : List Byte} {rest : List (List Byte)}
    (h : ∃ n ∈ [a, b, c], f n = none) : firstThree f (a :: b :: c :: rest) = 0 := by
  obtain ⟨n, hmem, hn⟩ := h
  simp only [List.mem_cons, List.not_mem_nil, or_false] at hmem
  simp only [firstThree]
  rcases hmem with rfl | rfl | rfl
  · rw [hn]
  · rw [hn]
    cases f a <;> rfl
  · rw [hn]
    cases f a <;> cases f b <;> rfl

theorem firstThree_of_some {f : List Byte → Option (BitVec 64)} {a b c : List Byte} {va vb vc : BitVec 64}
    (ha : f a = some va) (hb : f b = some vb) (hc : f c = some vc) (rest : List (List Byte)) :
    firstThree f (a :: b :: c :: rest) = ulpVersionTriplet va vb vc := by
  simp only [firstThree, ha, hb, hc]

theorem triple_ne_zero {a b c : BitVec 64} (ha : a.toNat ≤ 65535) (hb : b.toNat ≤ 65535) (hc : c.toNat ≤ 65535)
    (h : a.toNat ≠ 0 ∨ b.toNat ≠ 0 ∨ c.toNat ≠ 0) : ulpVersionTriplet a b c ≠ 0 := by
  intro h0
  have hw := toNat_ulpVersionTriplet ha hb hc
  have hz : (0 : BitVec 64).toNat = 0 := BitVec.toNat_zero
  rw [h0, hz] at hw
  omega

theorem toNat_remainder {n : Nat} (h : n % 2 ^ 32 ≤ 65535) :
    (BitVec.ofNat 64 (n % 2 ^ 32)).toNat = n % 2 ^ 32 ∧ (BitVec.ofNat 64 (n % 2 ^ 32)).toNat ≤ 65535 := by
  have hmod : (BitVec.ofNat 64 (n % 2 ^ 32)).toNat = n % 2 ^ 32 := by
    rw [BitVec.toNat_ofNat]
    omega
  exact ⟨hmod, by rwa [hmod]⟩

theorem decimalNumber_of_large {number : List Byte} (h : 65535 < digitsValue number) : decimalNumber number = none := by
  cases hd : decimalNumber number with
  | none   => rfl
  | some v => exact absurd ((decimalNumber_eq_some number v).1 hd).1.2 (Nat.not_le_of_lt h)

theorem Wraps.wrong {str : List Byte} (h : Wraps str) : ulpVersionFromString str ≠ versionOf str := by
  obtain ⟨a, b, c, rest, hf, hall, ⟨n, hn, hlarge⟩, m, hm, hnz⟩ := h
  have ha := hall a (by simp)
  have hb := hall b (by simp)
  have hc := hall c (by simp)
  obtain ⟨ta, la⟩ := toNat_remainder ha.2.2
  obtain ⟨tb, lb⟩ := toNat_remainder hb.2.2
  obtain ⟨tc, lc⟩ := toNat_remainder hc.2.2
  rw [ulpVersionFromString_eq, versionOf, hf, firstThree_of_none ⟨n, hn, decimalNumber_of_large hlarge⟩,
    firstThree_of_some ((versionNumber_eq_some a _).2 ⟨ha, rfl⟩) ((versionNumber_eq_some b _).2 ⟨hb, rfl⟩)
      ((versionNumber_eq_some c _).2 ⟨hc, rfl⟩)]
  apply triple_ne_zero la lb lc
  rw [ta, tb, tc]
  simp only [List.mem_cons, List.not_mem_nil, or_false] at hm
  rcases hm with rfl | rfl | rfl
  · exact Or.inl hnz
  · exact Or.inr (Or.inl hnz)
  · exact Or.inr (Or.inr hnz)

/-- Three numbers that are read, and none of them too large unless all are read as 0. -/
theorem firstThree_eq_of_read {a b c : List Byte} (rest : List (List Byte))
    (hall : ∀ n ∈ [a, b, c], isnumber n = true ∧ digitsValue n < 2 ^ 63 ∧ digitsValue n % 2 ^ 32 ≤ 65535)
    (h : (∃ n ∈ [a, b, c], 65535 < digitsValue n) → ∀ n ∈ [a, b, c], digitsValue n % 2 ^ 32 = 0) :
    firstThree versionNumber (a :: b :: c :: rest) = firstThree decimalNumber (a :: b :: c :: rest) := by
  by_cases hlarge : ∃ n ∈ [a, b, c], 65535 < digitsValue n
  · have hzero : ∀ n ∈ [a, b, c], versionNumber n = some 0 := by
      intro n hn
      have hz := h hlarge n hn
      rw [versionNumber_eq_some]
      exact ⟨hall n hn, by rw [hz]; rfl⟩
    obtain ⟨n, hn, hlt⟩ := hlarge
    rw [firstThree_of_none ⟨n, hn, decimalNumber_of_large hlt⟩,
      firstThree_of_some (hzero a (by simp)) (hzero b (by simp)) (hzero c (by simp))]
    simp [ulpVersionTriplet]
  · have hread : ∀ n ∈ [a, b, c], decimalNumber n = some (BitVec.ofNat 64 (digitsValue n)) := by
      intro n hn
      have hle : digitsValue n ≤ 65535 := by
        by_contra hlt
        exact hlarge ⟨n, hn, Nat.lt_of_not_le hlt⟩
      exact (decimalNumber_eq_some n _).2 ⟨⟨(hall n hn).1, hle⟩, rfl⟩
    have ha := hread a (by simp)
    have hb := hread b (by simp)
    have hc := hread c (by simp)
    rw [firstThree_of_some ha hb hc, firstThree_of_some (versionNumber_of_decimal ha) (versionNumber_of_decimal hb)
      (versionNumber_of_decimal hc)]

theorem ulpVersionFromString_of_not_wraps {str : List Byte} (h : ¬ Wraps str) :
    ulpVersionFromString str = versionOf str := by
  rw [ulpVersionFromString_eq, versionOf]
  rcases hf : fields 46 str with _ | ⟨a, _ | ⟨b, _ | ⟨c, rest⟩⟩⟩
  · simp only [firstThree]
  · simp only [firstThree]
  · simp only [firstThree]
  · by_cases hv : ∃ n ∈ [a, b, c], versionNumber n = none
    · have hd : ∃ n ∈ [a, b, c], decimalNumber n = none := by
        obtain ⟨n, hn, hnone⟩ := hv
        refine ⟨n, hn, ?_⟩
        cases hd : decimalNumber n with
        | none   => rfl
        | some v => rw [versionNumber_of_decimal hd] at hnone; cases hnone
      rw [firstThree_of_none hv, firstThree_of_none hd]
    · have hall : ∀ n ∈ [a, b, c],
          isnumber n = true ∧ digitsValue n < 2 ^ 63 ∧ digitsValue n % 2 ^ 32 ≤ 65535 := by
        intro n hn
        cases hn' : versionNumber n with
        | none   => exact absurd ⟨n, hn, hn'⟩ hv
        | some v => exact ((versionNumber_eq_some n v).1 hn').1
      refine firstThree_eq_of_read rest hall (fun hlarge n hn => ?_)
      by_contra hne
      exact h ⟨a, b, c, rest, hf, hall, hlarge, n, hn, hne⟩

/-! ## Reading what is printed -/

theorem printDecimal_spec (n : Nat) : printDecimal n ≠ [] ∧
    (∀ c ∈ printDecimal n, 48 ≤ c.toNat ∧ c.toNat ≤ 57) ∧ digitsValue (printDecimal n) = n := by
  have hdigit : ∀ d < 10, (UInt8.ofNat (48 + d)).toNat = 48 + d := by
    intro d hd
    rw [UInt8.toNat_ofNat']
    omega
  induction n using printDecimal.induct with
  | case1 n h =>
    unfold printDecimal
    rw [if_pos h]
    refine ⟨List.cons_ne_nil _ _, fun c hc => ?_, ?_⟩
    · rw [List.mem_singleton.1 hc, hdigit n h]
      omega
    · simp only [digitsValue, List.foldl_cons, List.foldl_nil]
      rw [hdigit n h]
      omega
  | case2 n h ih =>
    have hd := hdigit (n % 10) (Nat.mod_lt _ (by decide))
    unfold printDecimal
    rw [if_neg h]
    refine ⟨List.append_ne_nil_of_right_ne_nil _ (List.cons_ne_nil _ _), fun c hc => ?_, ?_⟩
    · rcases List.mem_append.1 hc with hc | hc
      · exact ih.2.1 c hc
      · rw [List.mem_singleton.1 hc, hd]
        omega
    · have hval := ih.2.2
      unfold digitsValue at hval ⊢
      rw [List.foldl_append, hval, List.foldl_cons, List.foldl_nil, hd]
      omega

theorem dot_not_mem_printDecimal (n : Nat) : 46 ∉ printDecimal n := by
  intro h
  have := (printDecimal_spec n).2.1 46 h
  exact absurd this.1 (by decide)

theorem isnumber_printDecimal (n : Nat) : isnumber (printDecimal n) = true := by
  obtain ⟨hne, hdig, -⟩ := printDecimal_spec n
  unfold isnumber
  rw [Bool.and_eq_true, decide_eq_true_eq, List.all_eq_true]
  exact ⟨hne, fun c hc => by simpa using hdig c hc⟩

theorem versionNumber_printDecimal (x : BitVec 16) : versionNumber (printDecimal x.toNat) = some (x.setWidth 64) := by
  have hx := x.isLt
  have hval := (printDecimal_spec x.toNat).2.2
  apply versionNumber_of_decimal
  rw [decimalNumber_eq_some, hval]
  refine ⟨⟨isnumber_printDecimal _, by omega⟩, ?_⟩
  apply BitVec.eq_of_toNat_eq
  rw [(toNat_widened x).1, BitVec.toNat_ofNat]
  omega

theorem fields_ulpVersionAsString (a b c : Nat) :
    fields 46 (printDecimal a ++ 46 :: (printDecimal b ++ 46 :: printDecimal c)) =
      [printDecimal a, printDecimal b, printDecimal c] := by
  rw [Tokens.fields_append_cons (dot_not_mem_printDecimal a) (printDecimal_spec a).1,
    Tokens.fields_append_cons (dot_not_mem_printDecimal b) (printDecimal_spec b).1,
    Tokens.fields_of_not_mem (dot_not_mem_printDecimal c) (printDecimal_spec c).1]

theorem toNat_masked (x mask : BitVec 64) (k : Nat) (h : mask >>> k = 0xFFFF#64) :
    (((x &&& mask) >>> k).setWidth 16).toNat = x.toNat / 2 ^ k % 2 ^ 16 := by
  rw [BitVec.ushiftRight_and_distrib, h, BitVec.toNat_setWidth, BitVec.toNat_and, BitVec.toNat_ushiftRight,
    Nat.shiftRight_eq_div_pow, BitVec.toNat_ofNat, show 0xFFFF % 2 ^ 64 = 2 ^ 16 - 1 by decide,
    Nat.and_two_pow_sub_one_eq_mod, Nat.mod_mod]

/-- **What is printed is read back.** -/
theorem ulpVersionFromString_ulpVersionAsString (v : BitVec 48) :
    ulpVersionFromString (ulpVersionAsString (v.setWidth 64)) = v.setWidth 64 := by
  rw [ulpVersionFromString_eq, ulpVersionAsString, fields_ulpVersionAsString,
    firstThree_of_some (versionNumber_printDecimal _) (versionNumber_printDecimal _) (versionNumber_printDecimal _)]
  have hv := v.isLt
  apply BitVec.eq_of_toNat_eq
  rw [toNat_ulpVersionTriplet (toNat_widened _).2 (toNat_widened _).2 (toNat_widened _).2]
  have hc := toNat_masked (v.setWidth 64) 0x000000000000FFFF#64 0 (by decide)
  rw [BitVec.ushiftRight_zero] at hc
  rw [(toNat_widened _).1, (toNat_widened _).1, (toNat_widened _).1, hc,
    toNat_masked _ _ _ (by decide), toNat_masked _ _ _ (by decide), BitVec.toNat_setWidth]
  omega

/-! ## Both ways -/

/-- **Versions are decoded as they should be if and only if no number is too large and goes through**, the words are
ordered as the versions are, and what is printed is read back. -/
theorem version_decoded (str : List Byte) :
    (ulpVersionFromString str = versionOf str ↔ ¬ Wraps str) ∧
    (∀ a b c a' b' c' : BitVec 16,
      ulpVersionTriplet (a.setWidth 64) (b.setWidth 64) (c.setWidth 64) <
          ulpVersionTriplet (a'.setWidth 64) (b'.setWidth 64) (c'.setWidth 64) ↔
        a < a' ∨ a = a' ∧ (b < b' ∨ b = b' ∧ c < c')) ∧
    ∀ v : BitVec 48, ulpVersionFromString (ulpVersionAsString (v.setWidth 64)) = v.setWidth 64 :=
  ⟨⟨fun h hw => hw.wrong h, ulpVersionFromString_of_not_wraps⟩, ulpVersionTriplet_lt,
    ulpVersionFromString_ulpVersionAsString⟩

/-- `4294967297.0.0` is read as version 1.0.0. -/
theorem large_version_wraps : ¬ ∀ str, ulpVersionFromString str = versionOf str := by
  intro h
  exact absurd (h [52, 50, 57, 52, 57, 54, 55, 50, 57, 55, 46, 48, 46, 48]) (by decide +kernel)

end Libpulp
