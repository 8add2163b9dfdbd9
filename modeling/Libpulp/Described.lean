import Libpulp.Description
/-!
# Described — what a successful parse of a description says

Over the lines read so far the lists of the parser hold one entry for each function and each reference line, in order, and
the counters are their lengths modulo `2^32`.  The parser notices a missing target only at a line that needs one, so a
description without any such line gets through with `ulp->objs` and `*info` still NULL.
-/
namespace Libpulp
namespace Description

open Bytes (Byte Addr cstr)
open Tokens (fields)

/-! ## The lines of a description -/

/-- The lines before the one with the container. -/
def isSkipped (first : Line) : Bool := kindOf first == .blank || kindOf first == .comment

def isFunction (first : Line) : Bool := kindOf first == .function
def isReference (first : Line) : Bool := kindOf first == .reference
def isTarget (first : Line) : Bool := kindOf first == .target

/-- The lines behind the container and its dependencies. -/
def bodyOf (lines : List Line) : List Line := (lines.dropWhile isSkipped).tail.dropWhile isDependency

/-- The lines up to one whose length is not positive as an `int`. -/
def readLines (lines : List Line) : List Line := lines.takeWhile (fun first => 0 < lineLength first)

def withoutNewline (first : Line) : Line := if first.getLast? = some newline then first.dropLast else first

/-- The two names of a function line. -/
def namesOf (first : Line) : List (List Byte) := (fields colon (cstr (withoutNewline first))).take 2

/-- The names as the parser finds them, with the newline taken off where an `int` says it is. -/
def namesRead (first : Line) : List (List Byte) := (fields colon (cstr (chomp first))).take 2

def names (unit : UlpUnit) : List (List Byte) := [unit.oldFname, unit.newFname]

theorem readLines_cons {first : Line} (h : 0 < lineLength first) (rest : List Line) :
    readLines (first :: rest) = first :: readLines rest := by
  unfold readLines
  rw [List.takeWhile_cons_of_pos (by simpa using h)]

theorem readLines_stop {first : Line} (h : lineLength first ≤ 0) (rest : List Line) : readLines (first :: rest) = [] := by
  unfold readLines
  rw [List.takeWhile_cons_of_neg (by simpa using h)]

theorem dropWhile_append_exists {α : Type} (p : α → Bool) (l m : List α) :
    ∃ t, (l ++ m).dropWhile p = l.dropWhile p ++ t := by
  rw [List.dropWhile_append]
  by_cases h : (l.dropWhile p).isEmpty = true
  · rw [if_pos h, List.isEmpty_iff.1 h]
    exact ⟨_, rfl⟩
  · rw [if_neg h]
    exact ⟨m, rfl⟩

/-- The lines read are the first lines of the body. -/
theorem bodyOf_readLines (lines : List Line) : ∃ unread, bodyOf lines = bodyOf (readLines lines) ++ unread := by
  have hsplit := List.takeWhile_append_dropWhile (p := fun first => decide (0 < lineLength first)) (l := lines)
  obtain ⟨t, ht⟩ := dropWhile_append_exists isSkipped (readLines lines)
    (lines.dropWhile (fun first => decide (0 < lineLength first)))
  unfold bodyOf
  rw [readLines] at ht
  rw [hsplit] at ht
  rw [ht, ← readLines]
  cases hr : (readLines lines).dropWhile isSkipped with
  | nil => exact ⟨_, rfl⟩
  | cons first rest =>
    rw [List.cons_append, List.tail_cons, List.tail_cons]
    exact dropWhile_append_exists isDependency rest t

/-! ## The invariant -/

/-- **What the state holds behind the lines `seen`.** -/
structure Holds (container : UlpSoInfo) (seen : List Line) (st : State) : Prop where
  refs   : st.refs.length = seen.countP isReference
  nrefs  : st.nrefs = st.refs.length % 2 ^ 32
  absent : st.target = none → ∀ first ∈ seen, isTarget first = false ∧ isFunction first = false
  target : ∀ t, st.target = some t → ∃ first ∈ seen, isTarget first = true
  nunits : ∀ t, st.target = some t → t.obj.nunits = t.obj.units.length % 2 ^ 32
  units  : ∀ t, st.target = some t → t.obj.units.map names = (seen.filter isFunction).map namesRead
  known  : ∀ t, st.target = some t → ∀ unit ∈ t.obj.units, Has t.info unit.oldFname ∧ Has container unit.newFname

section Run

variable {files : Files} {ov : Overrides} {container : UlpSoInfo} {containerPath : List Byte}

theorem Holds.start (comments : Comments) : Holds container [] ⟨comments, none, 0, []⟩ :=
  ⟨rfl, rfl, fun _ _ h => (by cases h), fun _ h => (by cases h), fun _ h => (by cases h), fun _ h => (by cases h),
    fun _ h => (by cases h)⟩

/-- A line that is neither a target, a function nor a reference leaves everything as it is. -/
theorem Holds.skip {seen : List Line} {st : State} (h : Holds container seen st) {first : Line}
    (htarget : isTarget first = false) (hfunction : isFunction first = false) (hreference : isReference first = false)
    (comments : Comments) : Holds container (seen ++ [first]) { st with comments := comments } := by
  refine ⟨?_, h.nrefs, ?_, ?_, h.nunits, ?_, h.known⟩
  · rw [List.countP_append, ← h.refs]
    simp [hreference]
  · intro ht x hx
    rcases List.mem_append.1 hx with hx | hx
    · exact h.absent ht x hx
    · rw [List.mem_singleton.1 hx]
      exact ⟨htarget, hfunction⟩
  · intro t ht
    obtain ⟨x, hx, hxt⟩ := h.target t ht
    exact ⟨x, List.mem_append_left _ hx, hxt⟩
  · intro t ht
    rw [List.filter_append, h.units t ht]
    simp [hfunction]

theorem Holds.opens {seen : List Line} {st st' : State} {first : Line} (h : Holds container seen st)
    (hk : kindOf first = .target) (hgood : BodyGood files ov container first st st') :
    Holds container (seen ++ [first]) st' := by
  unfold BodyGood at hgood
  rw [hk] at hgood
  obtain ⟨info, ⟨hnone, -⟩, rfl⟩ := hgood
  have hnone' : st.target = none := Option.map_eq_none_iff.1 hnone
  refine ⟨?_, h.nrefs, fun ht => (by cases ht), ?_, ?_, ?_, ?_⟩
  · rw [List.countP_append, ← h.refs]
    simp [isReference, hk]
  · intro t _
    exact ⟨first, List.mem_append_right _ List.mem_cons_self, by simp [isTarget, hk]⟩
  · rintro t ht
    obtain rfl := Option.some.inj ht
    rfl
  · rintro t ht
    obtain rfl := Option.some.inj ht
    have hno : seen.filter isFunction = [] :=
      List.filter_eq_nil_iff.2 (fun x hx => by simp [(h.absent hnone' x hx).2])
    rw [List.filter_append, hno]
    simp [isFunction, hk, freshObject]
  · rintro t ht unit hunit
    obtain rfl := Option.some.inj ht
    cases hunit

theorem Holds.refers {seen : List Line} {st st' : State} {first : Line} (h : Holds container seen st)
    (hk : kindOf first = .reference) (hgood : BodyGood files ov container first st st') :
    Holds container (seen ++ [first]) st' := by
  unfold BodyGood at hgood
  rw [hk] at hgood
  obtain ⟨t, ht, ref, -, rfl⟩ := hgood
  refine ⟨?_, ?_, ?_, ?_, h.nunits, ?_, h.known⟩
  · rw [List.countP_append, ← h.refs]
    simp [isReference, hk, State.addReference]
  · simp only [State.addReference, List.length_cons]
    rw [h.nrefs]
    omega
  · intro hnone
    exact absurd (ht.symm.trans hnone) (by simp)
  · intro t' ht'
    obtain ⟨x, hx, hxt⟩ := h.target t' ht'
    exact ⟨x, List.mem_append_left _ hx, hxt⟩
  · intro t' ht'
    rw [List.filter_append, h.units t' ht']
    simp [isFunction, hk]

theorem Holds.replaces {seen : List Line} {st st' : State} {first : Line} (h : Holds container seen st)
    (hk : kindOf first = .function) (hgood : BodyGood files ov container first st st') :
    Holds container (seen ++ [first]) st' := by
  unfold BodyGood at hgood
  rw [hk] at hgood
  obtain ⟨t, ht, unit, hunit, rfl⟩ := hgood
  refine ⟨?_, h.nrefs, fun hnone => (by cases hnone), ?_, ?_, ?_, ?_⟩
  · rw [List.countP_append, ← h.refs]
    simp [isReference, hk]
  · intro _ _
    obtain ⟨x, hx, hxt⟩ := h.target t ht
    exact ⟨x, List.mem_append_left _ hx, hxt⟩
  · intro t' ht'
    obtain rfl := Option.some.inj ht'
    simp only [Target.addUnit, List.length_append, List.length_singleton]
    rw [h.nunits t ht]
    omega
  · intro t' ht'
    obtain rfl := Option.some.inj ht'
    have hnames : namesRead first = names unit := hunit.names
    rw [List.filter_append]
    simp only [Target.addUnit, List.map_append, h.units t ht]
    simp [isFunction, hk, hnames]
  · intro t' ht' u hu
    obtain rfl := Option.some.inj ht'
    rcases List.mem_append.1 hu with hu | hu
    · exact h.known t ht u hu
    · rw [List.mem_singleton.1 hu]
      exact ⟨hunit.old, hunit.new⟩

/-- **One line keeps the invariant.** -/
theorem Holds.step {seen : List Line} {st st' : State} {first : Line} (h : Holds container seen st)
    (hgood : BodyGood files ov container first st st') : Holds container (seen ++ [first]) st' := by
  cases hk : kindOf first with
  | blank =>
    unfold BodyGood at hgood
    rw [hk] at hgood
    obtain rfl := hgood
    exact h.skip (by simp [isTarget, hk]) (by simp [isFunction, hk]) (by simp [isReference, hk]) _
  | comment =>
    unfold BodyGood at hgood
    rw [hk] at hgood
    obtain ⟨c, -, rfl⟩ := hgood
    exact h.skip (by simp [isTarget, hk]) (by simp [isFunction, hk]) (by simp [isReference, hk]) c
  | target => exact h.opens hk hgood
  | reference => exact h.refers hk hgood
  | function => exact h.replaces hk hgood

/-- **The loop keeps the invariant**, over the lines it reads. -/
theorem parseBody_holds {lines seen : List Line} {line : Nat} {st st' : State} (h : Holds container seen st)
    (hrun : parseBody files ov container containerPath lines line st = .ok st') :
    Holds container (seen ++ readLines lines) st' := by
  induction lines generalizing seen line st with
  | nil =>
    obtain rfl := Except.ok.inj hrun
    rw [readLines, List.takeWhile_nil, List.append_nil]
    exact h
  | cons first rest ih =>
    rw [parseBody] at hrun
    by_cases hlen : lineLength first ≤ 0
    · rw [if_pos hlen] at hrun
      obtain rfl := Except.ok.inj hrun
      rw [readLines_stop hlen, List.append_nil]
      exact h
    · rw [if_neg hlen] at hrun
      cases hline : bodyLine files ov container containerPath (line + 1) first st with
      | error e =>
        rw [hline] at hrun
        cases hrun
      | ok st₁ =>
        rw [hline] at hrun
        have h₁ := h.step (bodyLine_decides.ok_good st₁ hline)
        have := ih h₁ hrun
        rw [readLines_cons (by omega)]
        rwa [List.append_assoc, List.singleton_append] at this

/-- The dependencies are the lines with an asterisk. -/
theorem parseDependencies_left {lines left : List Line} {line line' n n' : Nat} {deps deps' : List UlpDependency}
    (h : parseDependencies files lines line n deps = .ok (n', deps', left, line')) :
    readLines left = (readLines lines).dropWhile isDependency := by
  induction lines generalizing line n deps with
  | nil =>
    rw [parseDependencies] at h
    obtain ⟨-, -, rfl, -⟩ := Except.ok.inj h
    rfl
  | cons first rest ih =>
    rw [parseDependencies] at h
    by_cases hdep : 0 < lineLength first ∧ isDependency first = true
    · rw [if_pos hdep] at h
      cases hadd : addDependency files (cstr (chomp first).tail) with
      | none =>
        rw [hadd] at h
        cases h
      | some id =>
        rw [hadd] at h
        rw [readLines_cons hdep.1, List.dropWhile_cons_of_pos hdep.2]
        exact ih h
    · rw [if_neg hdep] at h
      obtain ⟨-, -, rfl, -⟩ := Except.ok.inj h
      by_cases hlen : lineLength first ≤ 0
      · rw [readLines_stop hlen]
        rfl
      · have hno : ¬ isDependency first = true := fun h' => hdep ⟨by omega, h'⟩
        rw [readLines_cons (by omega), List.dropWhile_cons_of_neg hno]

theorem bodyOf_skip {first : Line} (h : isSkipped first = true) (rest : List Line) :
    bodyOf (first :: rest) = bodyOf rest := by
  unfold bodyOf
  rw [List.dropWhile_cons_of_pos h]

theorem bodyOf_container {first : Line} (h : isSkipped first = false) (rest : List Line) :
    bodyOf (first :: rest) = rest.dropWhile isDependency := by
  unfold bodyOf
  rw [List.dropWhile_cons_of_neg (by simp [h]), List.tail_cons]

/-- The lists of the metadata and the counters are those of a state behind the lines `seen`. -/
def Filled (files : Files) (seen : List Line) (ulp : Ulp) (info : Option UlpSoInfo) : Prop :=
  ∃ container st, files.ulpSoInfoOpen ulp.soFilename = some container ∧ Holds container seen st ∧
    ulp.objs = st.target.map Target.obj ∧ info = st.target.map Target.info ∧ ulp.nrefs = st.nrefs ∧ ulp.refs = st.refs

theorem containerLine_filled {first : Line} {rest : List Line} {line : Nat} {comments : Comments} {ulp : Ulp}
    {info : Option UlpSoInfo} (h : containerLine files ov first rest line comments = .ok (ulp, info)) :
    Filled files ((readLines rest).dropWhile isDependency) ulp info := by
  unfold containerLine at h
  cases hpath : soFilename ov.container first with
  | error f =>
    rw [hpath] at h
    cases h
  | ok path =>
    rw [hpath] at h
    simp only at h
    cases hopen : openContainer files line path with
    | error e =>
      rw [hopen] at h
      cases h
    | ok container =>
      rw [hopen] at h
      simp only [parseContents] at h
      cases hdeps : parseDependencies files rest line 0 [] with
      | error e =>
        rw [hdeps] at h
        cases h
      | ok r =>
        obtain ⟨ndeps, deps, left, line'⟩ := r
        rw [hdeps] at h
        simp only at h
        cases hbody : parseBody files ov container path left line' ⟨comments, none, 0, []⟩ with
        | error e =>
          rw [hbody] at h
          cases h
        | ok st =>
          rw [hbody] at h
          obtain ⟨rfl, rfl⟩ := Prod.mk.inj (Except.ok.inj h)
          have hholds := parseBody_holds (Holds.start comments) hbody
          rw [List.nil_append, parseDependencies_left hdeps] at hholds
          exact ⟨container, st, (openLibrary_decides.ok_good container hopen).2.2, hholds, rfl, rfl, rfl, rfl⟩

/-- **What a run that returns 1 has read.** -/
theorem parseLines_filled {lines : List Line} {line : Nat} {comments : Comments} {ulp : Ulp} {info : Option UlpSoInfo}
    (h : parseLines files ov lines line comments = .ok (ulp, info)) :
    Filled files (bodyOf (readLines lines)) ulp info := by
  induction lines generalizing line comments with
  | nil => cases h
  | cons first rest ih =>
    rw [parseLines] at h
    by_cases hlen : lineLength first ≤ 0
    · rw [if_pos hlen] at h
      cases h
    rw [if_neg hlen] at h
    rw [readLines_cons (by omega)]
    cases hk : kindOf first with
    | blank =>
      rw [hk] at h
      rw [bodyOf_skip (by simp [isSkipped, hk])]
      exact ih h
    | comment =>
      rw [hk] at h
      rw [bodyOf_skip (by simp [isSkipped, hk])]
      simp only at h
      cases hc : readComment comments (lineLength first).toNat with
      | error f =>
        rw [hc] at h
        cases h
      | ok c =>
        rw [hc] at h
        exact ih h
    | target | reference | function =>
      rw [hk] at h
      rw [bodyOf_container (by simp [isSkipped, hk])]
      exact containerLine_filled h

end Run

/-! ## A successful parse -/

/-- **A description is well formed as metadata**: there are an object and a library, the counters are the lengths of the
lists and the numbers of lines, the units are those of the function lines in their order, and their functions exist. -/
structure Described (files : Files) (lines : List Line) (ulp : Ulp) (info : Option UlpSoInfo) (obj : UlpObject)
    (target container : UlpSoInfo) : Prop where
  objs_eq      : ulp.objs = some obj
  info_eq      : info = some target
  container_eq : files.ulpSoInfoOpen ulp.soFilename = some container
  nunits       : obj.nunits = obj.units.length
  nrefs        : ulp.nrefs = ulp.refs.length
  functions    : obj.nunits = (bodyOf lines).countP isFunction
  references   : ulp.nrefs = (bodyOf lines).countP isReference
  units        : obj.units.map names = ((bodyOf lines).filter isFunction).map namesOf
  known        : ∀ unit ∈ obj.units, Has target unit.oldFname ∧ Has container unit.newFname
  metadata     : ∃ r, getUlpElfMetadata info ulp = .ok r

def WellFormed (files : Files) (lines : List Line) (ulp : Ulp) (info : Option UlpSoInfo) : Prop :=
  ∃ obj target container, Described files lines ulp info obj target container

/-- **When a description that is taken is well formed**: it names a target, has fewer than `2^32` lines of a kind, and no
line is so long that an `int` hides it, a line behind it, or its newline. -/
structure Countable (lines : List Line) : Prop where
  target     : ∃ first ∈ bodyOf (readLines lines), isTarget first = true
  functions  : (bodyOf lines).countP isFunction < 2 ^ 32
  references : (bodyOf lines).countP isReference < 2 ^ 32
  unread     : ∀ first ∈ (bodyOf lines).drop (bodyOf (readLines lines)).length, isFunction first = false ∧
    isReference first = false
  names      : ∀ first ∈ bodyOf lines, isFunction first = true → namesRead first = namesOf first

theorem Holds.length_units {container : UlpSoInfo} {seen : List Line} {st : State} (h : Holds container seen st)
    {t : Target} (ht : st.target = some t) : t.obj.units.length = seen.countP isFunction := by
  have := congrArg List.length (h.units t ht)
  rwa [List.length_map, List.length_map, ← List.countP_eq_length_filter] at this

/-- Lines that are neither functions nor references do not count. -/
theorem count_unread {unread : List Line} (h : ∀ first ∈ unread, isFunction first = false ∧ isReference first = false)
    (seen : List Line) :
    (seen ++ unread).filter isFunction = seen.filter isFunction ∧
      (seen ++ unread).countP isFunction = seen.countP isFunction ∧
      (seen ++ unread).countP isReference = seen.countP isReference := by
  have hf : unread.filter isFunction = [] := List.filter_eq_nil_iff.2 (fun x hx => by simp [(h x hx).1])
  have hr : unread.countP isReference = 0 := List.countP_eq_zero.2 (fun x hx => by simp [(h x hx).2])
  refine ⟨?_, ?_, ?_⟩
  · rw [List.filter_append, hf, List.append_nil]
  · rw [List.countP_eq_length_filter, List.filter_append, hf, List.append_nil, ← List.countP_eq_length_filter]
  · rw [List.countP_append, hr, Nat.add_zero]

section Filled

variable {files : Files} {lines : List Line} {ulp : Ulp} {info : Option UlpSoInfo}

theorem countable_of_wellFormed (h : Filled files (bodyOf (readLines lines)) ulp info)
    (hw : WellFormed files lines ulp info) : Countable lines := by
  obtain ⟨container, st, -, hst, hobjs, -, hnrefs, hrefs⟩ := h
  obtain ⟨obj, target, container', hd⟩ := hw
  obtain ⟨t, ht, rfl⟩ := Option.map_eq_some_iff.1 (hobjs.symm.trans hd.objs_eq)
  obtain ⟨unread, hsplit⟩ := bodyOf_readLines lines
  have hlen := hst.length_units ht
  have hnunits := hst.nunits t ht
  have hnrefs' := hst.nrefs
  have hfun := hd.nunits.symm.trans hd.functions
  have href := hd.nrefs.symm.trans hd.references
  rw [hsplit, List.countP_append, hlen] at hfun
  rw [hsplit, List.countP_append, hrefs, hst.refs] at href
  have hunread : ∀ first ∈ unread, isFunction first = false ∧ isReference first = false := by
    intro first hmem
    have h₁ := List.countP_eq_zero.1 (Nat.left_eq_add.1 hfun) first hmem
    have h₂ := List.countP_eq_zero.1 (Nat.left_eq_add.1 href) first hmem
    simpa using And.intro h₁ h₂
  obtain ⟨hfilter, hcf, hcr⟩ := count_unread hunread (bodyOf (readLines lines))
  refine ⟨hst.target t ht, ?_, ?_, ?_, ?_⟩
  · rw [hsplit, hcf, ← hlen, ← hd.nunits, hnunits]
    omega
  · rw [hsplit, hcr, ← hst.refs, ← hrefs, ← hd.nrefs, hnrefs, hnrefs']
    omega
  · rw [hsplit, List.drop_left]
    exact hunread
  · intro first hmem hf
    have hmap := hd.units
    rw [hst.units t ht, hsplit, hfilter] at hmap
    have hin : first ∈ (bodyOf (readLines lines)).filter isFunction := by
      rw [← hfilter, ← hsplit]
      exact List.mem_filter.2 ⟨hmem, hf⟩
    exact List.map_inj_left.1 hmap first hin

theorem wellFormed_of_countable (h : Filled files (bodyOf (readLines lines)) ulp info) (hc : Countable lines) :
    WellFormed files lines ulp info := by
  obtain ⟨container, st, hcontainer, hst, hobjs, hinfo, hnrefs, hrefs⟩ := h
  obtain ⟨first, hfirst, hfirst'⟩ := hc.target
  cases ht : st.target with
  | none =>
    have := (hst.absent ht first hfirst).1
    rw [hfirst'] at this
    cases this
  | some t =>
    rw [ht] at hobjs hinfo
    obtain ⟨unread, hsplit⟩ := bodyOf_readLines lines
    have hunread := hc.unread
    rw [hsplit, List.drop_left] at hunread
    obtain ⟨hfilter, hcf, hcr⟩ := count_unread hunread (bodyOf (readLines lines))
    have hlen := hst.length_units ht
    have hflt := hc.functions
    have hrlt := hc.references
    rw [hsplit, hcf] at hflt
    rw [hsplit, hcr] at hrlt
    have hn : t.obj.nunits = t.obj.units.length := by
      rw [hst.nunits t ht]
      omega
    have hr : ulp.nrefs = ulp.refs.length := by
      rw [hnrefs, hst.nrefs, hrefs, hst.refs]
      omega
    refine ⟨t.obj, t.info, container, hobjs, hinfo, hcontainer, hn, hr, ?_, ?_, ?_, hst.known t ht, ?_⟩
    · rw [hsplit, hcf, hn, hlen]
    · rw [hsplit, hcr, hr, hrefs, hst.refs]
    · rw [hst.units t ht, ← hfilter, ← hsplit]
      apply List.map_congr_left
      intro x hx
      obtain ⟨hx, hf⟩ := List.mem_filter.1 hx
      exact hc.names x hx hf
    · unfold getUlpElfMetadata
      rw [hobjs, hinfo]
      exact ⟨_, rfl⟩

end Filled

/-- **A parse that returns 1 is well formed exactly on such descriptions.** -/
theorem parseDescription_wellFormed_iff {files : Files} {ov : Overrides} {filename text : List Byte} {ulp : Ulp}
    {info : Option UlpSoInfo} (htext : files.fopen filename = some text)
    (h : parseDescription files ov filename = .ok (ulp, info)) :
    WellFormed files (linesOf text) ulp info ↔ Countable (linesOf text) := by
  rw [parseDescription, htext] at h
  have hfilled := parseLines_filled h
  exact ⟨countable_of_wellFormed hfilled, wellFormed_of_countable hfilled⟩

/-! ## Short lines -/

theorem linesOf_ne_nil : ∀ (text : List Byte), ∀ first ∈ linesOf text, first ≠ []
  | [], _, h            => by cases h
  | b :: bs, first, h => by
    rw [linesOf] at h
    by_cases hb : b = newline
    · rw [if_pos hb] at h
      rcases List.mem_cons.1 h with rfl | h
      · exact List.cons_ne_nil _ _
      · exact linesOf_ne_nil bs first h
    · rw [if_neg hb] at h
      have ih := linesOf_ne_nil bs
      cases hl : linesOf bs with
      | nil =>
        rw [hl] at h
        rw [List.mem_singleton.1 h]
        exact List.cons_ne_nil _ _
      | cons l ls =>
        rw [hl] at h ih
        rcases List.mem_cons.1 h with rfl | h
        · exact List.cons_ne_nil _ _
        · exact ih first (List.mem_cons_of_mem _ h)

theorem lineLength_short {first : Line} (h : first.length < 2 ^ 31) : lineLength first = first.length :=
  int32_of_range (by omega) (by omega)

theorem cstr_concat_zero : ∀ l : List Byte, cstr (l ++ [0]) = cstr l
  | []     => rfl
  | c :: l => by
    unfold cstr
    by_cases hc : c = 0
    · rw [List.cons_append, List.takeWhile_cons_of_neg (by simpa using hc), List.takeWhile_cons_of_neg (by simpa using hc)]
    · rw [List.cons_append, List.takeWhile_cons_of_pos (by simpa using hc), List.takeWhile_cons_of_pos (by simpa using hc)]
      exact congrArg _ (cstr_concat_zero l)

theorem namesRead_short {first : Line} (h : first.length < 2 ^ 31) : namesRead first = namesOf first := by
  have hcstr : cstr (chomp first) = cstr (withoutNewline first) := by
    unfold chomp withoutNewline
    simp only [lineLength_short h, Int.toNat_natCast]
    rw [List.getLast?_eq_getElem?]
    by_cases hn : first[first.length - 1]? = some newline
    · rw [if_pos hn, if_pos hn]
      rcases List.eq_nil_or_concat first with rfl | ⟨l, c, rfl⟩
      · rfl
      · rw [List.concat_eq_append, List.dropLast_concat, List.length_append, List.length_singleton, Nat.add_sub_cancel,
          List.set_append_right _ _ (Nat.le_refl _), Nat.sub_self, List.set_cons_zero, cstr_concat_zero]
    · rw [if_neg hn, if_neg hn]
  rw [namesRead, namesOf, hcstr]

/-- **With lines below 2 GiB only the target and the two counters matter.** -/
theorem countable_of_short {text : List Byte} (h : ∀ first ∈ linesOf text, first.length < 2 ^ 31)
    (htarget : ∃ first ∈ bodyOf (linesOf text), isTarget first = true)
    (hfunctions : (bodyOf (linesOf text)).countP isFunction < 2 ^ 32)
    (hreferences : (bodyOf (linesOf text)).countP isReference < 2 ^ 32) : Countable (linesOf text) := by
  have hread : readLines (linesOf text) = linesOf text := by
    apply List.takeWhile_eq_self_iff.2
    intro first hmem
    have := List.length_pos_iff.2 (linesOf_ne_nil text first hmem)
    rw [lineLength_short (h first hmem)]
    simpa using this
  have hbody : ∀ first ∈ bodyOf (linesOf text), first ∈ linesOf text := by
    intro first hmem
    have h₁ := (List.dropWhile_sublist _).subset hmem
    exact (List.dropWhile_sublist _).subset (List.mem_of_mem_tail h₁)
  refine ⟨?_, hfunctions, hreferences, ?_, ?_⟩
  · rw [hread]
    exact htarget
  · rw [hread, List.drop_length]
    intro _ hmem
    cases hmem
  · intro first hmem _
    exact namesRead_short (h first (hbody first hmem))

/-! ## A container `c` with `g` and a library `t` with `f` -/

theorem zero_not_mem {name : Byte} (h : name ≠ 0) : (0 : Byte) ∉ [name] := by
  simpa using h.symm

def oneSymbol (name : Byte) (h : name ≠ 0) : UlpSoInfo :=
  { name := ⟨[name], zero_not_mem h⟩, buildid := Vector.replicate 20 0,
    symbols := [⟨⟨[name], zero_not_mem h⟩, 16, 4, 18, 0⟩] }

def filesWith (text : List Byte) : Files :=
  { fopen := fun path => if path = [100] then some text else if path = [99] ∨ path = [116] then some [] else none,
    isDirectory := fun _ => false,
    ulpSoInfoOpen := fun path =>
      if path = [99] then some (oneSymbol 103 (by decide)) else if path = [116] then some (oneSymbol 102 (by decide))
      else none }

/-- `c`, `@t`, `f:g`. -/
def patchText : List Byte := [99, 10, 64, 116, 10, 102, 58, 103, 10]

theorem parse_patchText : parseDescription (filesWith patchText) ⟨none, none⟩ [100] =
    .ok (⟨[99], some { freshObject (oneSymbol 102 (by decide)) with nunits := 1, units := [⟨[102], [103], 0⟩] },
      0, [], 0, []⟩, some (oneSymbol 102 (by decide))) := by
  rfl

/-- **The patch of one function is well formed.** -/
theorem parseDescription_wellFormed_patch : WellFormed (filesWith patchText) (linesOf patchText)
    ⟨[99], some { freshObject (oneSymbol 102 (by decide)) with nunits := 1, units := [⟨[102], [103], 0⟩] }, 0, [], 0, []⟩
    (some (oneSymbol 102 (by decide))) := by
  refine (parseDescription_wellFormed_iff rfl parse_patchText).2 (countable_of_short ?_ ?_ ?_ ?_)
  · decide
  · decide
  · decide
  · decide

/-- **A description that names only the container gets through**, and the packer then follows a NULL pointer. -/
theorem no_target_taken : ¬ ∀ (files : Files) (ov : Overrides) (filename text : List Byte) (ulp : Ulp)
    (info : Option UlpSoInfo), files.fopen filename = some text → parseDescription files ov filename = .ok (ulp, info) →
      WellFormed files (linesOf text) ulp info := by
  intro hall
  have hparse : parseDescription (filesWith [99, 10]) ⟨none, none⟩ [100] = .ok (⟨[99], none, 0, [], 0, []⟩, none) := rfl
  obtain ⟨obj, target, container, hd⟩ := hall (filesWith [99, 10]) ⟨none, none⟩ [100] [99, 10] _ _ rfl hparse
  have hobjs := hd.objs_eq
  cases hobjs

end Description
end Libpulp
