import Libpulp.Described
import Libpulp.Scan
/-!
# BadLine — the lines that break the description parser

The parser passes a line, gives up on it with a message, or leaves what C defines.  `Position` is what the lines before
decide of that: which files are open and how full the buffer of the comments is.  A run ends in a fault exactly when it
reaches a line that is bad at its position.
-/
namespace Libpulp
namespace Description

open Bytes (Byte Addr cstr)
open Scan (Meets)

/-- Where the parser stands between two lines. -/
inductive Position where
  | opening (comments : Comments)
  | dependencies (container : UlpSoInfo) (comments : Comments)
  | body (container : UlpSoInfo) (comments : Comments) (target : Option UlpSoInfo)

section Grammar

variable (files : Files) (ov : Overrides)

/-- A line behind the dependencies that is passed. -/
inductive BodyPasses (container : UlpSoInfo) : Comments → Option UlpSoInfo → Line → Comments → Option UlpSoInfo → Prop where
  | blank {c t first} : kindOf first = .blank → BodyPasses container c t first c t
  | comment {c c' t first} : kindOf first = .comment → readComment c (lineLength first).toNat = .ok c' →
      BodyPasses container c t first c' t
  | target {c t first info} : kindOf first = .target → TargetGood files ov t first info →
      BodyPasses container c t first c (some info)
  | reference {c first info} : kindOf first = .reference → ReferenceGood container info (cstr (chomp first)) →
      BodyPasses container c (some info) first c (some info)
  | function {c first info unit} : kindOf first = .function → FunctionGood container info (cstr (chomp first)) unit →
      BodyPasses container c (some info) first c (some info)

/-- A line that is passed. -/
inductive Passes : Position → Line → Position → Prop where
  | blank {c first} : 0 < lineLength first → kindOf first = .blank → Passes (.opening c) first (.opening c)
  | comment {c c' first} : 0 < lineLength first → kindOf first = .comment →
      readComment c (lineLength first).toNat = .ok c' → Passes (.opening c) first (.opening c')
  | container {c first path container} : 0 < lineLength first → isSkipped first = false →
      soFilename ov.container first = .ok path → Opens files path container →
      Passes (.opening c) first (.dependencies container c)
  | dependency {c first container id} : 0 < lineLength first → isDependency first = true →
      addDependency files (cstr (chomp first).tail) = some id →
      Passes (.dependencies container c) first (.dependencies container c)
  | leave {c c' t' first container} : 0 < lineLength first → isDependency first = false →
      BodyPasses files ov container c none first c' t' → Passes (.dependencies container c) first (.body container c' t')
  | body {c t c' t' first container} : 0 < lineLength first → BodyPasses files ov container c t first c' t' →
      Passes (.body container c t) first (.body container c' t')

/-- A line that ends the run in a fault. -/
inductive Bad : Position → Line → Prop where
  | comment {c first} : 0 < lineLength first → kindOf first = .comment → CommentBad c first → Bad (.opening c) first
  | container {c first} : 0 < lineLength first → isSkipped first = false →
      soFilename ov.container first = .error .overrun → Bad (.opening c) first
  | leave {c first container} : 0 < lineLength first → isDependency first = false → BodyBad ov c none first →
      Bad (.dependencies container c) first
  | body {c t first container} : 0 < lineLength first → BodyBad ov c t first → Bad (.body container c t) first

end Grammar

/-! ## Behind the dependencies -/

section Body

variable {files : Files} {ov : Overrides} {container : UlpSoInfo} {c : Comments} {t : Option UlpSoInfo} {first : Line}

theorem BodyPasses.of_good {st st' : State} (h : BodyGood files ov container first st st') :
    BodyPasses files ov container st.comments (st.target.map Target.info) first st'.comments
      (st'.target.map Target.info) := by
  unfold BodyGood at h
  cases hk : kindOf first with
  | blank =>
    rw [hk] at h
    obtain rfl := h
    exact .blank hk
  | comment =>
    rw [hk] at h
    obtain ⟨c, hc, rfl⟩ := h
    exact .comment hk hc
  | target =>
    rw [hk] at h
    obtain ⟨info, hinfo, rfl⟩ := h
    exact .target hk hinfo
  | reference =>
    rw [hk] at h
    obtain ⟨t, ht, ref, href, rfl⟩ := h
    simp only [State.addReference, ht, Option.map_some]
    exact .reference hk href
  | function =>
    rw [hk] at h
    obtain ⟨t, ht, unit, hunit, rfl⟩ := h
    simp only [ht, Option.map_some, Target.addUnit]
    exact .function hk hunit

theorem BodyPasses.exists_good {st : State} {c' : Comments} {t' : Option UlpSoInfo}
    (h : BodyPasses files ov container st.comments (st.target.map Target.info) first c' t') :
    ∃ st', BodyGood files ov container first st st' := by
  unfold BodyGood
  generalize hc : st.comments = c at h
  generalize ht : st.target.map Target.info = t at h
  cases h with
  | blank hk => rw [hk]; exact ⟨st, rfl⟩
  | comment hk hcomment => rw [hk]; exact ⟨_, _, hcomment, rfl⟩
  | target hk hinfo => rw [hk]; exact ⟨_, _, hinfo, rfl⟩
  | reference hk href =>
    obtain ⟨t, hst, rfl⟩ := Option.map_eq_some_iff.1 ht
    rw [hk]
    exact ⟨_, t, hst, ⟨[], [], 0, 0, false⟩, href, rfl⟩
  | function hk hunit =>
    obtain ⟨t, hst, rfl⟩ := Option.map_eq_some_iff.1 ht
    rw [hk]
    exact ⟨_, t, hst, _, hunit, rfl⟩

theorem BodyPasses.unique {c₁ c₂ : Comments} {t₁ t₂ : Option UlpSoInfo} (h₁ : BodyPasses files ov container c t first c₁ t₁)
    (h₂ : BodyPasses files ov container c t first c₂ t₂) : c₁ = c₂ ∧ t₁ = t₂ := by
  -- the kind of the line is the same, and only a target line can say something new
  cases h₁ <;> cases h₂ <;> simp_all
  rename_i hinfo _ _ hinfo'
  exact Option.some.inj (hinfo.2.2.2.2.symm.trans hinfo'.2.2.2.2)

end Body

section Positions

variable {files : Files} {ov : Overrides} {a b b' : Position} {first : Line}

theorem Passes.pos (h : Passes files ov a first b) : 0 < lineLength first := by
  cases h <;> assumption

theorem Bad.pos (h : Bad ov a first) : 0 < lineLength first := by
  cases h <;> assumption

theorem Passes.unique (h : Passes files ov a first b) (h' : Passes files ov a first b') : b' = b := by
  cases h with
  | blank _ hk => cases h' <;> simp_all [isSkipped]
  | comment _ hk hc => cases h' <;> simp_all [isSkipped]
  | container _ hskip hpath hopen =>
    cases h' with
    | blank _ hk => simp [isSkipped, hk] at hskip
    | comment _ hk _ => simp [isSkipped, hk] at hskip
    | container _ _ hpath' hopen' =>
      obtain rfl := Except.ok.inj (hpath.symm.trans hpath')
      obtain rfl := Option.some.inj (hopen.2.2.symm.trans hopen'.2.2)
      rfl
  | dependency _ hdep _ =>
    cases h' with
    | dependency _ _ _ => rfl
    | leave _ hno _ => simp [hdep] at hno
  | leave _ hno hb =>
    cases h' with
    | dependency _ hdep _ => simp [hdep] at hno
    | leave _ _ hb' =>
      obtain ⟨rfl, rfl⟩ := hb.unique hb'
      rfl
  | body _ hb =>
    cases h' with
    | body _ hb' =>
      obtain ⟨rfl, rfl⟩ := hb.unique hb'
      rfl

/-- The parser gives up on a line that does not count. -/
theorem not_meets_of_nonpos (h : lineLength first ≤ 0) (rest : List Line) :
    ¬ Meets (Passes files ov) (Bad ov) a (first :: rest) := by
  apply Scan.not_meets_of_stuck
  · intro hbad
    have := hbad.pos
    omega
  · intro b hb
    have := hb.pos
    omega

end Positions

section Loop

variable {files : Files} {ov : Overrides} {container : UlpSoInfo} {containerPath : List Byte}

/-- **The loop ends in a fault exactly when it reaches a bad line.** -/
theorem parseBody_fault_iff {lines : List Line} {line : Nat} {st : State} :
    (∃ f, parseBody files ov container containerPath lines line st = .error (.fault f)) ↔
      Meets (Passes files ov) (Bad ov) (.body container st.comments (st.target.map Target.info)) lines := by
  induction lines generalizing line st with
  | nil =>
    refine iff_of_false ?_ (Scan.not_meets_nil _)
    rintro ⟨f, h⟩
    cases h
  | cons first rest ih =>
    rw [parseBody]
    by_cases hlen : lineLength first ≤ 0
    · rw [if_pos hlen]
      refine iff_of_false ?_ (not_meets_of_nonpos hlen rest)
      rintro ⟨f, h⟩
      cases h
    have hpos : 0 < lineLength first := by omega
    rw [if_neg hlen]
    obtain ⟨hfault, hok, hgood⟩ := @bodyLine_decides files ov container containerPath (line + 1) first st
    cases hline : bodyLine files ov container containerPath (line + 1) first st with
    | error e =>
      rw [hline] at hfault hok
      cases e with
      | fault f => exact iff_of_true ⟨f, rfl⟩ (Scan.meets_here (.body hpos (hfault.1 ⟨f, rfl⟩)) rest)
      | error e =>
        refine iff_of_false ?_ (Scan.not_meets_of_stuck ?_ ?_ rest)
        · rintro ⟨f, h⟩
          cases h
        · intro hbad
          cases hbad with
          | body _ hbad =>
            obtain ⟨f, hf⟩ := hfault.2 hbad
            cases hf
        · intro b hb
          cases hb with
          | body _ hb =>
            obtain ⟨st', hst'⟩ := hok.2 hb.exists_good
            cases hst'
    | ok st₁ =>
      have hstep := Passes.body hpos (BodyPasses.of_good (hgood st₁ hline))
      rw [hline] at hfault
      have hnot : ¬ Bad ov (.body container st.comments (st.target.map Target.info)) first := by
        intro hbad
        cases hbad with
        | body _ hbad =>
          obtain ⟨f, hf⟩ := hfault.2 hbad
          cases hf
      simp only
      rw [ih]
      exact (Scan.meets_of_pass hnot hstep (fun _ hb => hstep.unique hb) rest).symm

end Loop

/-! ## The dependencies and the container -/

section Front

variable {files : Files} {ov : Overrides} {container : UlpSoInfo} {c : Comments}

/-- A line that is not a dependency is read as the first line of the body. -/
theorem meets_leave {first : Line} {rest : List Line} (h : ¬ (0 < lineLength first ∧ isDependency first = true)) :
    Meets (Passes files ov) (Bad ov) (.body container c none) (first :: rest) ↔
      Meets (Passes files ov) (Bad ov) (.dependencies container c) (first :: rest) := by
  rw [Scan.meets_cons, Scan.meets_cons]
  have hno : 0 < lineLength first → isDependency first = false := by
    intro hpos
    by_contra hdep
    exact h ⟨hpos, by simpa using hdep⟩
  constructor
  · rintro (hbad | ⟨b, hb, hrest⟩)
    · cases hbad with
      | body hpos hbad => exact Or.inl (.leave hpos (hno hpos) hbad)
    · cases hb with
      | body hpos hb => exact Or.inr ⟨_, .leave hpos (hno hpos) hb, hrest⟩
  · rintro (hbad | ⟨b, hb, hrest⟩)
    · cases hbad with
      | leave hpos _ hbad => exact Or.inl (.body hpos hbad)
    · cases hb with
      | dependency hpos hdep _ => exact absurd ⟨hpos, hdep⟩ h
      | leave hpos _ hb => exact Or.inr ⟨_, .body hpos hb, hrest⟩

theorem not_bad_dependency {first : Line} (hdep : isDependency first = true) :
    ¬ Bad ov (.dependencies container c) first := by
  intro hbad
  cases hbad with
  | leave _ hno _ =>
    rw [hdep] at hno
    cases hno

theorem parseDependencies_meets_iff {lines : List Line} {line n : Nat} {deps : List UlpDependency} :
    (∃ n' deps' left line', parseDependencies files lines line n deps = .ok (n', deps', left, line') ∧
      Meets (Passes files ov) (Bad ov) (.body container c none) left) ↔
      Meets (Passes files ov) (Bad ov) (.dependencies container c) lines := by
  induction lines generalizing line n deps with
  | nil =>
    refine iff_of_false ?_ (Scan.not_meets_nil _)
    rintro ⟨_, _, _, _, h, hmeets⟩
    rw [parseDependencies] at h
    obtain ⟨-, -, rfl, -⟩ := Except.ok.inj h
    exact absurd hmeets (Scan.not_meets_nil _)
  | cons first rest ih =>
    rw [parseDependencies]
    by_cases hdep : 0 < lineLength first ∧ isDependency first = true
    · rw [if_pos hdep]
      cases hadd : addDependency files (cstr (chomp first).tail) with
      | none =>
        refine iff_of_false ?_ (Scan.not_meets_of_stuck (not_bad_dependency hdep.2) ?_ rest)
        · rintro ⟨_, _, _, _, h, -⟩
          cases h
        · intro b hb
          cases hb with
          | dependency _ _ hid =>
            rw [hadd] at hid
            cases hid
          | leave _ hno _ =>
            rw [hdep.2] at hno
            cases hno
      | some id =>
        have hstep := @Passes.dependency files ov c first container id hdep.1 hdep.2 hadd
        simp only
        rw [ih]
        exact (Scan.meets_of_pass (not_bad_dependency hdep.2) hstep (fun _ hb => hstep.unique hb) rest).symm
    · rw [if_neg hdep, ← meets_leave hdep]
      constructor
      · rintro ⟨_, _, _, _, h, hmeets⟩
        obtain ⟨-, -, rfl, -⟩ := Except.ok.inj h
        exact hmeets
      · intro h
        exact ⟨n, deps, _, line, rfl, h⟩

theorem parseDependencies_no_fault {lines : List Line} {line n : Nat} {deps : List UlpDependency} {f : Fault} :
    parseDependencies files lines line n deps ≠ .error (.fault f) := by
  induction lines generalizing line n deps with
  | nil => exact fun h => (by cases h)
  | cons first rest ih =>
    rw [parseDependencies]
    by_cases hdep : 0 < lineLength first ∧ isDependency first = true
    · rw [if_pos hdep]
      cases addDependency files (cstr (chomp first).tail) with
      | none => exact fun h => (by cases h)
      | some id => exact ih
    · rw [if_neg hdep]
      exact fun h => (by cases h)

theorem parseContents_fault_iff {path : List Byte} {lines : List Line} {line : Nat} :
    (∃ f, parseContents files ov container path c lines line = .error (.fault f)) ↔
      Meets (Passes files ov) (Bad ov) (.dependencies container c) lines := by
  rw [← @parseDependencies_meets_iff files ov container c lines line 0 [], parseContents]
  cases hdeps : parseDependencies files lines line 0 [] with
  | error e =>
    constructor
    · rintro ⟨f, hf⟩
      rw [Except.error.inj hf] at hdeps
      exact absurd hdeps parseDependencies_no_fault
    · rintro ⟨_, _, _, _, h, -⟩
      cases h
  | ok r =>
    obtain ⟨n', deps', left, line'⟩ := r
    have hbody := @parseBody_fault_iff files ov container path left line' ⟨c, none, 0, []⟩
    simp only
    constructor
    · rintro ⟨f, hf⟩
      refine ⟨_, _, _, _, rfl, hbody.1 ?_⟩
      cases hrun : parseBody files ov container path left line' ⟨c, none, 0, []⟩ with
      | error e =>
        rw [hrun] at hf
        exact ⟨f, congrArg _ (Except.error.inj hf)⟩
      | ok st =>
        rw [hrun] at hf
        cases hf
    · rintro ⟨_, _, _, _, h, hmeets⟩
      obtain ⟨-, -, rfl, -⟩ := Except.ok.inj h
      obtain ⟨f, hf⟩ := hbody.2 hmeets
      rw [hf]
      exact ⟨f, rfl⟩

theorem soFilename_error {o : Option CString} {first : Line} {f : Fault} (h : soFilename o first = .error f) :
    f = .overrun := by
  unfold soFilename at h
  cases o with
  | some path => cases h
  | none =>
    simp only at h
    by_cases hlen : lineLength first < (cstr first).length
    · rw [if_pos hlen] at h
      exact (Except.error.inj h).symm
    · rw [if_neg hlen] at h
      cases h

theorem containerLine_fault_iff {first : Line} {rest : List Line} {line : Nat} (hpos : 0 < lineLength first)
    (hskip : isSkipped first = false) :
    (∃ f, containerLine files ov first rest line c = .error (.fault f)) ↔
      Meets (Passes files ov) (Bad ov) (.opening c) (first :: rest) := by
  have hkind : kindOf first ≠ .blank ∧ kindOf first ≠ .comment := by simpa [isSkipped] using hskip
  rw [containerLine]
  cases hpath : soFilename ov.container first with
  | error f =>
    obtain rfl := soFilename_error hpath
    exact iff_of_true ⟨_, rfl⟩ (Scan.meets_here (.container hpos hskip hpath) rest)
  | ok path =>
    have hnot : ¬ Bad ov (.opening c) first := by
      intro hbad
      cases hbad with
      | comment _ hk _ => exact hkind.2 hk
      | container _ _ hover =>
        rw [hpath] at hover
        cases hover
    obtain ⟨hfault, hok, hgood⟩ : Decides (openContainer files line path) False (Opens files path) := openLibrary_decides
    simp only
    cases hopen : openContainer files line path with
    | error e =>
      rw [hopen] at hfault hok
      refine iff_of_false ?_ (Scan.not_meets_of_stuck hnot ?_ rest)
      · rintro ⟨f, hf⟩
        exact hfault.1 ⟨f, congrArg _ (Except.error.inj hf)⟩
      · intro b hb
        cases hb with
        | blank _ hk => exact hkind.1 hk
        | comment _ hk _ => exact hkind.2 hk
        | container _ _ hpath' hopens =>
          obtain rfl := Except.ok.inj (hpath.symm.trans hpath')
          obtain ⟨info, hinfo⟩ := hok.2 ⟨_, hopens⟩
          cases hinfo
    | ok container =>
      have hstep := @Passes.container files ov c first path container hpos hskip hpath (hgood container hopen)
      simp only
      rw [parseContents_fault_iff]
      exact (Scan.meets_of_pass hnot hstep (fun _ hb => hstep.unique hb) rest).symm

theorem parseLines_fault_iff {lines : List Line} {line : Nat} :
    (∃ f, parseLines files ov lines line c = .error (.fault f)) ↔
      Meets (Passes files ov) (Bad ov) (.opening c) lines := by
  induction lines generalizing line c with
  | nil =>
    refine iff_of_false ?_ (Scan.not_meets_nil _)
    rintro ⟨f, h⟩
    cases h
  | cons first rest ih =>
    rw [parseLines]
    by_cases hlen : lineLength first ≤ 0
    · rw [if_pos hlen]
      refine iff_of_false ?_ (not_meets_of_nonpos hlen rest)
      rintro ⟨f, h⟩
      cases h
    have hpos : 0 < lineLength first := by omega
    rw [if_neg hlen]
    cases hk : kindOf first with
    | blank =>
      have hstep := @Passes.blank files ov c first hpos hk
      have hnot : ¬ Bad ov (.opening c) first := by
        intro hbad
        cases hbad <;> simp_all [isSkipped]
      simp only
      rw [ih]
      exact (Scan.meets_of_pass hnot hstep (fun _ hb => hstep.unique hb) rest).symm
    | comment =>
      simp only
      cases hc : readComment c (lineLength first).toNat with
      | error f =>
        obtain rfl := readComment_error hc
        exact iff_of_true ⟨_, rfl⟩ (Scan.meets_here (.comment hpos hk hc) rest)
      | ok c' =>
        have hstep := @Passes.comment files ov c c' first hpos hk hc
        have hnot : ¬ Bad ov (.opening c) first := by
          intro hbad
          cases hbad <;> simp_all [isSkipped, CommentBad]
        simp only
        rw [ih]
        exact (Scan.meets_of_pass hnot hstep (fun _ hb => hstep.unique hb) rest).symm
    | target | reference | function => exact containerLine_fault_iff hpos (by simp [isSkipped, hk])

/-- **The parser reports an error or succeeds exactly when it does not reach a bad line.** -/
theorem parseDescription_behaves_iff (files : Files) (ov : Overrides) (filename : List Byte) :
    (∀ f, parseDescription files ov filename ≠ .error (.fault f)) ↔
      ∀ text, files.fopen filename = some text →
        ¬ Meets (Passes files ov) (Bad ov) (.opening ⟨0, 0⟩) (linesOf text) := by
  unfold parseDescription
  cases files.fopen filename with
  | none =>
    refine ⟨fun _ _ h => (by cases h), fun _ f h => (by cases h)⟩
  | some text =>
    simp only [Option.some.injEq, forall_eq']
    rw [← parseLines_fault_iff, not_exists]

end Front

/-- **A reference without a colon** (`c`, `@t`, `#x`) has the parser write through a NULL pointer. -/
theorem reference_without_colon : ¬ ∀ (files : Files) (ov : Overrides) (filename : List Byte) (f : Fault),
    parseDescription files ov filename ≠ .error (.fault f) := by
  intro hall
  have hrun : parseDescription (filesWith [99, 10, 64, 116, 10, 35, 120, 10]) ⟨none, none⟩ [100] =
      .error (.fault .nullDereference) := rfl
  exact hall _ _ _ _ hrun

-- A line that starts with NUL is looked at before its start, and behind a colon another pointer is freed.
example : parseDescription (filesWith [99, 10, 64, 116, 10, 0, 10]) ⟨none, none⟩ [100] = .error (.fault .beforeLine) := rfl
example : parseDescription (filesWith [99, 10, 64, 116, 10, 58, 102, 58, 103, 10]) ⟨none, none⟩ [100] =
    .error (.fault .wrongFree) := rfl

end Description
end Libpulp
