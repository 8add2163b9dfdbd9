import Libpulp.Extract
/-!
# CommentLabels — the bug labels of a livepatch (tools/patches.c: `print_relevant_labels`)

The comments are scanned for labels in place: a NUL is stored where a label ends, and the scan goes on behind it.  The
character stored over is never looked at, so a label that is directly behind another one is missed, and at the end of the
text, where there is nothing to store over, the scan goes on behind the terminator (`labels_shown_iff`).
-/
namespace Libpulp
namespace CommentLabels

open Bytes (Byte cstr)

def isdigit (c : Byte) : Bool := 48 ≤ c.toNat && c.toNat ≤ 57
def isalpha (c : Byte) : Bool := (65 ≤ c.toNat && c.toNat ≤ 90) || (97 ≤ c.toNat && c.toNat ≤ 122)
def tolower (c : Byte) : Byte := if 65 ≤ c.toNat && c.toNat ≤ 90 then c + 32 else c

def bsc : List Byte := [98, 115, 99, 35]
def jsc : List Byte := [106, 115, 99, 35]
def cve : List Byte := [99, 118, 101, 45]
def dash : Byte := 45

/-- `!strncasecmp(head, label, 4)`, for a label of four characters in lower case. -/
def strncasecmp (label head : List Byte) : Bool := (head.take 4).map tolower == label

/-- A loop that moves `head` on over characters of a class. -/
def skip (p : Byte → Bool) (head : List Byte) (n : Nat) : Nat :=
  n + ((head.drop n).takeWhile (fun c => c != 0 && p c)).length

/-- How far a label at `head` moves it; `none` when there is none. -/
def labelLength (head : List Byte) : Option Nat :=
  if strncasecmp bsc head then some (skip isdigit head 4)
  else if strncasecmp jsc head then
    let n := skip (fun c => isalpha c && c != dash) head 4
    if head[n]? = some dash then some (skip isdigit head (n + 1)) else some n
  else if strncasecmp cve head then
    let n := skip (fun c => c != dash && isdigit c) head 4
    if head[n]? = some dash then some (skip isdigit head (n + 1)) else some n
  else none

/-- What is printed, with its place in the text. -/
structure Label where
  pos  : Nat
  text : List Byte
deriving DecidableEq

/-- The scan with `head` at `pos`: `some none` when it is behind the terminator, `none` when the fuel runs out. -/
def scan : Nat → Nat → List Byte → Option (Option (List Label))
  | 0, _, _                => none
  | _ + 1, _, []           => some none
  | fuel + 1, pos, c :: cs =>
    let head := c :: cs
    if c = 0 then some (some [])
    else
      match labelLength head with
      | none   => scan fuel (pos + 1) cs
      | some n =>
        -- `*head = '\0'` unless it is the terminator
        let str := if head[n]? = some 0 then head else head.set n 0
        (scan fuel (pos + n + 1) (str.drop (n + 1))).map (fun r => r.map (fun labels => ⟨pos, cstr str⟩ :: labels))

/-- `print_relevant_labels` on a text and its terminator; each turn moves `head` on. -/
def printRelevantLabels (text : CString) : Option (Option (List Label)) := scan (text.1.length + 2) 0 (text.1 ++ [0])

/-! ## The labels of a text -/

/-- How many characters in front are of a class. -/
def run (p : Byte → Bool) (s : List Byte) : Nat := (s.takeWhile p).length

/-- A word of a class, a dash and a number. -/
def dashed (p : Byte → Bool) (s : List Byte) : Option Nat :=
  match s.drop (run p s) with
  | c :: t => if c = dash then some (run p s + 1 + run isdigit t) else none
  | []     => none

/-- The length of the label in front: `bsc#<number>`, `jsc#<alpha>-<number>` or `cve-<number>-<number>`. -/
def labelAt (s : List Byte) : Option Nat :=
  if strncasecmp bsc s then some (4 + run isdigit (s.drop 4))
  else if strncasecmp jsc s then (dashed isalpha (s.drop 4)).map (4 + ·)
  else if strncasecmp cve s then (dashed isdigit (s.drop 4)).map (4 + ·)
  else none

/-- The labels of a text from left to right, after `behind` characters that belong to a label. -/
def labelsFrom : Nat → Nat → List Byte → List Label
  | _, _, []                     => []
  | behind + 1, pos, _ :: cs => labelsFrom behind (pos + 1) cs
  | 0, pos, c :: cs          =>
    match labelAt (c :: cs) with
    | none   => labelsFrom 0 (pos + 1) cs
    | some n => ⟨pos, (c :: cs).take n⟩ :: labelsFrom (n - 1) (pos + 1) cs

/-- **The labels of a text.** -/
def labels (text : CString) : List Label := labelsFrom 0 0 text.1

/-- One of the three beginnings is in front. -/
def beginsLabel (s : List Byte) : Bool := strncasecmp bsc s || strncasecmp jsc s || strncasecmp cve s

/-- **The labels are apart**: there is a character behind each of them, no label begins there, and elsewhere every
beginning the scan gets to is a label's.  `afterLabel` says that a label has just ended. -/
def Apart : Bool → Nat → List Byte → Prop
  | afterLabel, 0, []              => afterLabel = false
  | _, _ + 1, []                   => False
  | _, behind + 1, _ :: cs         => Apart true behind cs
  | afterLabel, 0, c :: cs         =>
    match labelAt (c :: cs) with
    | none   => (afterLabel = true ∨ beginsLabel (c :: cs) = false) ∧ Apart false 0 cs
    | some n => afterLabel = false ∧ Apart true (n - 1) cs

/-! ## In front of the terminator -/

theorem takeWhile_nul (p : Byte → Bool) : ∀ s : List Byte, (0 : Byte) ∉ s →
    (s ++ [0]).takeWhile (fun c => c != 0 && p c) = s.takeWhile p
  | [], _     => rfl
  | c :: s, h => by
    have hc : (c != 0) = true := by
      have : c ≠ 0 := fun h0 => h (h0 ▸ List.mem_cons_self)
      simpa using this
    rw [List.cons_append, List.takeWhile_cons, List.takeWhile_cons, hc, Bool.true_and,
      takeWhile_nul p s (fun hm => h (List.mem_cons_of_mem _ hm))]

theorem skip_eq (p : Byte → Bool) {s : List Byte} (h : (0 : Byte) ∉ s) {n : Nat} (hn : n ≤ s.length) :
    skip p (s ++ [0]) n = n + run p (s.drop n) := by
  unfold skip run
  rw [List.drop_append_of_le_length hn, takeWhile_nul p _ (fun hm => h (List.mem_of_mem_drop hm))]

theorem run_le (p : Byte → Bool) (s : List Byte) : run p s ≤ s.length := (List.takeWhile_sublist p).length_le

/-- Comparing does not get behind the terminator. -/
theorem strncasecmp_nul {label : List Byte} (hlen : label.length = 4) (h0 : (0 : Byte) ∉ label) (s : List Byte) :
    strncasecmp label (s ++ [0]) = strncasecmp label s := by
  unfold strncasecmp
  by_cases hs : 4 ≤ s.length
  · rw [List.take_append_of_le_length hs]
  · have hleft : ((s ++ [0]).take 4).map tolower ≠ label := by
      intro heq
      apply h0
      rw [← heq, List.mem_map]
      refine ⟨0, ?_, rfl⟩
      rw [List.take_of_length_le (by rw [List.length_append, List.length_singleton]; omega)]
      exact List.mem_append_right _ List.mem_cons_self
    have hright : (s.take 4).map tolower ≠ label := by
      intro heq
      have := congrArg List.length heq
      rw [List.length_map, List.length_take, hlen] at this
      omega
    rw [beq_eq_false_iff_ne.2 hleft, beq_eq_false_iff_ne.2 hright]

theorem length_of_strncasecmp {label s : List Byte} (hlen : label.length = 4) (h : strncasecmp label s = true) :
    4 ≤ s.length := by
  have := congrArg List.length (beq_iff_eq.1 h)
  rw [List.length_map, List.length_take, hlen] at this
  omega

theorem beginnings : (bsc.length = 4 ∧ (0 : Byte) ∉ bsc) ∧ (jsc.length = 4 ∧ (0 : Byte) ∉ jsc) ∧
    (cve.length = 4 ∧ (0 : Byte) ∉ cve) := by
  decide

theorem dashed_le {p : Byte → Bool} {s : List Byte} {n : Nat} (h : dashed p s = some n) : n ≤ s.length := by
  unfold dashed at h
  split at h
  · rename_i c t hd
    split at h
    · have hlen := congrArg List.length hd
      rw [List.length_drop, List.length_cons] at hlen
      have := run_le isdigit t
      cases h
      omega
    · cases h
  · cases h

/-- The two kinds of labels with a dash, where the dash may be missing. -/
theorem word_eq {p q : Byte → Bool} (hq : q = p) {s : List Byte} (h : (0 : Byte) ∉ s) (hlen : 4 ≤ s.length) :
    (if (s ++ [0])[skip q (s ++ [0]) 4]? = some dash then
        some (skip isdigit (s ++ [0]) (skip q (s ++ [0]) 4 + 1))
      else some (skip q (s ++ [0]) 4)) =
    some ((dashed p (s.drop 4)).elim (4 + run p (s.drop 4)) (4 + ·)) := by
  have hrun := run_le p (s.drop 4)
  rw [List.length_drop] at hrun
  rw [hq, skip_eq p h hlen]
  have hget : (s ++ [0])[4 + run p (s.drop 4)]? = ((s.drop 4).drop (run p (s.drop 4)) ++ [0])[0]? := by
    rw [List.drop_drop, ← List.drop_append_of_le_length (by omega), List.getElem?_drop, Nat.add_zero]
  rw [hget, dashed]
  cases hd : (s.drop 4).drop (run p (s.drop 4)) with
  | nil => rfl
  | cons c t =>
    rw [List.cons_append, List.getElem?_cons_zero]
    have ht : s.drop (4 + run p (s.drop 4) + 1) = t := by
      rw [List.drop_drop] at hd
      rw [← List.drop_drop, hd, List.drop_succ_cons, List.drop_zero]
    have hroom : 4 + run p (s.drop 4) + 1 ≤ s.length := by
      have := congrArg List.length hd
      rw [List.length_drop, List.length_drop, List.length_cons] at this
      omega
    by_cases hc : c = dash
    · rw [if_pos (by rw [hc]), skip_eq isdigit h hroom, ht]
      simp only [if_pos hc, Option.elim_some, Option.some.injEq]
      omega
    · rw [if_neg (fun heq => hc (Option.some.inj heq))]
      simp only [if_neg hc, Option.elim_none]

/-- **How far the code goes**: over the label in front, and over a beginning without its dash. -/
theorem labelLength_eq {s : List Byte} (h : (0 : Byte) ∉ s) : labelLength (s ++ [0]) =
    if strncasecmp bsc s then some (4 + run isdigit (s.drop 4))
    else if strncasecmp jsc s then
      some ((dashed isalpha (s.drop 4)).elim (4 + run isalpha (s.drop 4)) (4 + ·))
    else if strncasecmp cve s then
      some ((dashed isdigit (s.drop 4)).elim (4 + run isdigit (s.drop 4)) (4 + ·))
    else none := by
  obtain ⟨⟨hb, hb0⟩, ⟨hj, hj0⟩, hc, hc0⟩ := beginnings
  have halpha : (fun c => isalpha c && c != dash) = isalpha := by
    funext c
    have hdash : isalpha dash = false := by decide
    by_cases heq : c = dash
    · rw [heq, hdash, Bool.false_and]
    · rw [bne_iff_ne.2 heq, Bool.and_true]
  have hdigit : (fun c => c != dash && isdigit c) = isdigit := by
    funext c
    have hdash : isdigit dash = false := by decide
    by_cases heq : c = dash
    · rw [heq, hdash, Bool.and_false]
    · rw [bne_iff_ne.2 heq, Bool.true_and]
  unfold labelLength
  rw [strncasecmp_nul hb hb0, strncasecmp_nul hj hj0, strncasecmp_nul hc hc0]
  by_cases h₁ : strncasecmp bsc s = true
  · rw [if_pos h₁, if_pos h₁, skip_eq isdigit h (length_of_strncasecmp hb h₁)]
  rw [if_neg h₁, if_neg h₁]
  by_cases h₂ : strncasecmp jsc s = true
  · rw [if_pos h₂, if_pos h₂]
    exact word_eq halpha h (length_of_strncasecmp hj h₂)
  rw [if_neg h₂, if_neg h₂]
  by_cases h₃ : strncasecmp cve s = true
  · rw [if_pos h₃, if_pos h₃]
    exact word_eq hdigit h (length_of_strncasecmp hc h₃)
  rw [if_neg h₃, if_neg h₃]

theorem labelLength_none {s : List Byte} (h : (0 : Byte) ∉ s) (hb : beginsLabel s = false) :
    labelLength (s ++ [0]) = none ∧ labelAt s = none := by
  unfold beginsLabel at hb
  simp only [Bool.or_eq_false_iff] at hb
  obtain ⟨⟨h₁, h₂⟩, h₃⟩ := hb
  rw [labelLength_eq h]
  simp [labelAt, h₁, h₂, h₃]

theorem labelLength_begins {s : List Byte} (h : (0 : Byte) ∉ s) (hb : beginsLabel s = true) :
    ∃ n, labelLength (s ++ [0]) = some n := by
  rw [labelLength_eq h]
  unfold beginsLabel at hb
  simp only [Bool.or_eq_true] at hb
  by_cases h₁ : strncasecmp bsc s = true
  · exact ⟨_, if_pos h₁⟩
  by_cases h₂ : strncasecmp jsc s = true
  · exact ⟨_, by rw [if_neg h₁, if_pos h₂]⟩
  have h₃ : strncasecmp cve s = true := by
    rcases hb with (h | h) | h
    · exact absurd h h₁
    · exact absurd h h₂
    · exact h
  exact ⟨_, by rw [if_neg h₁, if_neg h₂, if_pos h₃]⟩

/-- **A label is gone over as a whole.** -/
theorem labelLength_of_label {s : List Byte} (h : (0 : Byte) ∉ s) {n : Nat} (hl : labelAt s = some n) :
    labelLength (s ++ [0]) = some n ∧ beginsLabel s = true ∧ 0 < n ∧ n ≤ s.length := by
  obtain ⟨⟨hb, -⟩, ⟨hj, -⟩, hc, -⟩ := beginnings
  rw [labelLength_eq h]
  unfold labelAt at hl
  by_cases h₁ : strncasecmp bsc s = true
  · rw [if_pos h₁] at hl ⊢
    have hrun := run_le isdigit (s.drop 4)
    have hlen := length_of_strncasecmp hb h₁
    rw [List.length_drop] at hrun
    cases hl
    exact ⟨rfl, by simp [beginsLabel, h₁], by omega, by omega⟩
  rw [if_neg h₁] at hl ⊢
  by_cases h₂ : strncasecmp jsc s = true
  · rw [if_pos h₂] at hl ⊢
    obtain ⟨k, hk, rfl⟩ := Option.map_eq_some_iff.1 hl
    have hle := dashed_le hk
    have hlen := length_of_strncasecmp hj h₂
    rw [List.length_drop] at hle
    exact ⟨by rw [hk]; rfl, by simp [beginsLabel, h₂], by omega, by omega⟩
  rw [if_neg h₂] at hl ⊢
  by_cases h₃ : strncasecmp cve s = true
  · rw [if_pos h₃] at hl ⊢
    obtain ⟨k, hk, rfl⟩ := Option.map_eq_some_iff.1 hl
    have hle := dashed_le hk
    have hlen := length_of_strncasecmp hc h₃
    rw [List.length_drop] at hle
    exact ⟨by rw [hk]; rfl, by simp [beginsLabel, h₃], by omega, by omega⟩
  rw [if_neg h₃] at hl
  cases hl

/-! ## The scan -/

theorem labelsFrom_pos : ∀ (s : List Byte) (behind pos : Nat), ∀ l ∈ labelsFrom behind pos s, pos ≤ l.pos
  | [], _, _, l, h               => by
    rw [labelsFrom] at h
    cases h
  | _ :: cs, behind + 1, pos, l, h => by
    rw [labelsFrom] at h
    exact Nat.le_of_succ_le (labelsFrom_pos cs behind (pos + 1) l h)
  | c :: cs, 0, pos, l, h          => by
    rw [labelsFrom] at h
    split at h
    · exact Nat.le_of_succ_le (labelsFrom_pos cs 0 (pos + 1) l h)
    · rename_i n _
      rcases List.mem_cons.1 h with rfl | h
      · exact Nat.le_refl pos
      · exact Nat.le_of_succ_le (labelsFrom_pos cs (n - 1) (pos + 1) l h)

theorem labelsFrom_skip : ∀ (behind pos : Nat) (s : List Byte), behind ≤ s.length →
    labelsFrom behind pos s = labelsFrom 0 (pos + behind) (s.drop behind)
  | 0, _, _, _                    => rfl
  | behind + 1, pos, [], h        => absurd h (by simp)
  | behind + 1, pos, _ :: cs, h => by
    rw [labelsFrom, labelsFrom_skip behind (pos + 1) cs (Nat.le_of_succ_le_succ h), List.drop_succ_cons,
      Nat.add_right_comm, Nat.add_assoc]

theorem apart_skip : ∀ (behind : Nat) (s : List Byte), behind ≤ s.length →
    (Apart true behind s ↔ Apart true 0 (s.drop behind))
  | 0, _, _                    => Iff.rfl
  | behind + 1, [], h        => absurd h (by simp)
  | behind + 1, _ :: cs, h => by
    rw [Apart, apart_skip behind cs (Nat.le_of_succ_le_succ h), List.drop_succ_cons]

theorem scan_pos : ∀ (fuel pos : Nat) (head : List Byte) (ls : List Label), scan fuel pos head = some (some ls) →
    ∀ l ∈ ls, pos ≤ l.pos
  | 0, _, _, _, h                     => by cases h
  | _ + 1, _, [], _, h                => by cases h
  | fuel + 1, pos, c :: cs, ls, h => by
    rw [scan] at h
    simp only at h
    split at h
    · cases h
      simp
    · split at h
      · intro l hl
        exact Nat.le_of_succ_le (scan_pos fuel (pos + 1) cs ls h l hl)
      · rename_i n _
        obtain ⟨r, hr, hmap⟩ := Option.map_eq_some_iff.1 h
        obtain ⟨rest, rfl, rfl⟩ := Option.map_eq_some_iff.1 hmap
        intro l hl
        rcases List.mem_cons.1 hl with rfl | hl
        · exact Nat.le_refl pos
        · have := scan_pos fuel _ _ rest hr l hl
          omega

/-- **A turn at a beginning**: the label is printed, and the character behind it is gone. -/
theorem scan_label {s : List Byte} (h0 : (0 : Byte) ∉ s) (hne : s ≠ []) {n : Nat} (hl : labelLength (s ++ [0]) = some n)
    (hn : n ≤ s.length) (fuel pos : Nat) : scan (fuel + 1) pos (s ++ [0]) =
      (scan fuel (pos + n + 1) ((s.drop n ++ [0]).drop 1)).map (fun r => r.map (fun labels =>
        ⟨pos, s.take n⟩ :: labels)) := by
  obtain ⟨c, cs, rfl⟩ := List.exists_cons_of_ne_nil hne
  have hc : c ≠ 0 := fun hz => h0 (hz ▸ List.mem_cons_self)
  have hstr : ∀ str, str = (if (c :: cs ++ [0])[n]? = some 0 then c :: cs ++ [0] else (c :: cs ++ [0]).set n 0) →
      cstr str = (c :: cs).take n ∧ str.drop (n + 1) = ((c :: cs).drop n ++ [0]).drop 1 := by
    rintro str rfl
    generalize c :: cs = s at h0 hn
    have hsplit : s ++ [0] = s.take n ++ (s.drop n ++ [0]) := by rw [← List.append_assoc, List.take_append_drop]
    have hlen : (s.take n).length = n := by rw [List.length_take]; omega
    have htake : (0 : Byte) ∉ s.take n := fun hm => h0 (List.mem_of_mem_take hm)
    cases hd : s.drop n with
    | nil =>
      have hz : (s ++ [0])[n]? = some 0 := by
        rw [hsplit, hd, List.getElem?_append_right (by omega), hlen, Nat.sub_self]
        rfl
      rw [if_pos hz, hsplit, hd]
      refine ⟨Bytes.cstr_of_noNul htake [], ?_⟩
      rw [List.drop_append, hlen]
      simp [hlen]
    | cons x t =>
      have hx : x ≠ 0 := by
        rintro rfl
        have hmem : (0 : Byte) ∈ s.drop n := by rw [hd]; exact List.mem_cons_self
        exact h0 (List.mem_of_mem_drop hmem)
      have hz : (s ++ [0])[n]? ≠ some 0 := by
        rw [hsplit, hd, List.getElem?_append_right (by omega), hlen, Nat.sub_self]
        exact fun heq => hx (Option.some.inj heq)
      have hset : (s ++ [0]).set n 0 = s.take n ++ 0 :: (t ++ [0]) := by
        rw [hsplit, hd, List.set_append_right _ _ (by omega), hlen, Nat.sub_self]
        rfl
      rw [if_neg hz, hset]
      refine ⟨Bytes.cstr_of_noNul htake _, ?_⟩
      rw [List.drop_append, hlen]
      simp [hlen]
  obtain ⟨hcstr, hdrop⟩ := hstr _ rfl
  rw [List.cons_append] at hl hcstr hdrop ⊢
  rw [scan]
  simp only [if_neg hc, hl]
  rw [hcstr, hdrop]

theorem scan_begins {c : Byte} {cs : List Byte} (hc : c ≠ 0) {n : Nat} (hl : labelLength (c :: cs) = some n)
    {fuel pos : Nat} {ls : List Label} (h : scan (fuel + 1) pos (c :: cs) = some (some ls)) : ∃ l ∈ ls, l.pos = pos := by
  rw [scan] at h
  simp only [if_neg hc, hl] at h
  obtain ⟨r, -, hmap⟩ := Option.map_eq_some_iff.1 h
  obtain ⟨rest, -, rfl⟩ := Option.map_eq_some_iff.1 hmap
  exact ⟨_, List.mem_cons_self, rfl⟩

/-- The scan from the front of a text shows its labels just when they are apart. -/
def Shows (s : List Byte) : Prop := ∀ fuel pos, s.length + 1 ≤ fuel →
  (scan (fuel + 1) pos (s ++ [0]) = some (some (labelsFrom 0 pos s)) ↔ Apart false 0 s)

/-- **Behind a label**: the first character is not looked at. -/
theorem Shows.behind {t : List Byte} (h : ∀ c t', t = c :: t' → Shows t') (fuel pos : Nat) (hf : t.length + 1 ≤ fuel) :
    scan fuel (pos + 1) ((t ++ [0]).drop 1) = some (some (labelsFrom 0 pos t)) ↔ Apart true 0 t := by
  obtain ⟨fuel, rfl⟩ : ∃ f, fuel = f + 1 := ⟨fuel - 1, by omega⟩
  cases t with
  | nil => simp [scan, Apart]
  | cons c t' =>
    rw [List.length_cons] at hf
    rw [List.cons_append, List.drop_succ_cons, List.drop_zero]
    have hrest := h c t' rfl fuel (pos + 1) (by omega)
    cases hl : labelAt (c :: t') with
    | none =>
      rw [labelsFrom, hl, Apart, hl]
      simpa using hrest
    | some n =>
      rw [labelsFrom, hl, Apart, hl]
      simp only [Bool.true_eq_false, false_and, iff_false]
      intro heq
      exact absurd (scan_pos _ _ _ _ heq _ List.mem_cons_self) (Nat.not_succ_le_self pos)

/-- **The scan shows the labels of a text just when they are apart**, by induction on its length. -/
theorem shows_of_length : ∀ (n : Nat) (s : List Byte), s.length ≤ n → (0 : Byte) ∉ s → Shows s
  | _, [], _, _, fuel, pos, _                => by simp [scan, labelsFrom, Apart]
  | n + 1, c :: cs, hn, h0, fuel, pos, hf => by
    have hc : c ≠ 0 := fun hz => h0 (hz ▸ List.mem_cons_self)
    rw [List.length_cons] at hn hf
    obtain ⟨fuel, rfl⟩ : ∃ f, fuel = f + 1 := ⟨fuel - 1, by omega⟩
    by_cases hb : beginsLabel (c :: cs) = true
    · cases hl : labelAt (c :: cs) with
      | none =>
        obtain ⟨k, hk⟩ := labelLength_begins h0 hb
        rw [Apart, hl]
        simp only [Bool.false_eq_true, false_or, hb, Bool.true_eq_false, false_and, iff_false]
        intro heq
        obtain ⟨l, hmem, hpos⟩ := scan_begins hc hk heq
        rw [labelsFrom, hl] at hmem
        have := labelsFrom_pos cs 0 (pos + 1) l hmem
        omega
      | some k =>
        obtain ⟨hk, -, hpos, hle⟩ := labelLength_of_label h0 hl
        rw [List.length_cons] at hle
        obtain ⟨m, rfl⟩ : ∃ m, k = m + 1 := ⟨k - 1, by omega⟩
        have hdrop : (c :: cs).drop (m + 1) = cs.drop m := rfl
        have hrec : ∀ c' t', cs.drop m = c' :: t' → Shows t' := by
          intro c' t' ht
          have hlen := congrArg List.length ht
          rw [List.length_drop, List.length_cons] at hlen
          refine shows_of_length n t' (by omega) (fun hm => ?_)
          have hmem : (0 : Byte) ∈ cs.drop m := by
            rw [ht]
            exact List.mem_cons_of_mem _ hm
          exact h0 (List.mem_cons_of_mem _ (List.mem_of_mem_drop hmem))
        have hbehind := Shows.behind hrec (fuel + 1) (pos + (m + 1)) (by rw [List.length_drop]; omega)
        rw [scan_label h0 (List.cons_ne_nil c cs) hk (by rw [List.length_cons]; omega), hdrop, labelsFrom, hl, Apart, hl]
        simp only [Nat.add_sub_cancel, true_and]
        rw [labelsFrom_skip m (pos + 1) cs (by omega), apart_skip m cs (by omega), ← hbehind,
          show pos + 1 + m = pos + (m + 1) by omega]
        constructor
        · intro heq
          obtain ⟨r, hr, hmap⟩ := Option.map_eq_some_iff.1 heq
          obtain ⟨rest, rfl, hrest⟩ := Option.map_eq_some_iff.1 hmap
          rw [hr, (List.cons.inj hrest).2]
        · intro heq
          rw [heq]
          rfl
    · have hfalse : beginsLabel (c :: cs) = false := by simpa using hb
      obtain ⟨hlen, hl⟩ := labelLength_none h0 hfalse
      have hrest := shows_of_length n cs (by omega) (fun hm => h0 (List.mem_cons_of_mem _ hm)) fuel (pos + 1) (by omega)
      rw [List.cons_append] at hlen ⊢
      rw [scan, labelsFrom, hl, Apart, hl]
      simp only [if_neg hc, hlen, hfalse, or_true, true_and]
      exact hrest

/-- **All labels are shown, and nothing is read behind the terminator, if and only if the labels are apart.** -/
theorem labels_shown_iff (text : CString) :
    printRelevantLabels text = some (some (labels text)) ↔ Apart false 0 text.1 :=
  shows_of_length text.1.length text.1 (Nat.le_refl _) text.2 (text.1.length + 1) 0 (Nat.le_refl _)

/-- A label at the very end: the scan goes on behind the terminator. -/
theorem label_at_end_overread :
    ¬ ∀ text : CString, printRelevantLabels text = some (some (labels text)) := by
  intro h
  exact absurd (h ⟨[98, 115, 99, 35, 49], by decide⟩) (by decide)

end CommentLabels
end Libpulp
