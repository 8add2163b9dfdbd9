import Libpulp.BadLine
import Libpulp.RunPacker
/-!
# CommentText — the comments of a description (tools/packer.c: `read_comment`, `run_packer`)

The text behind each `!` is copied into one buffer, line by line, and the C string in it goes into `.ulp.comments`.  The
position moves on by the length of the line, one more than what is copied, so that behind each text stands a byte that
nobody writes; and the buffer grows by 128 KiB whatever the length of the line (`commentsSurvive_iff`).
-/
namespace Libpulp
namespace Description

open Bytes (Byte cstr)
open Scan (Run Meets)
open Pack (Steps Embedded PackEnd)

/-! ## The buffer -/

/-- `ulp->comments` with `cur_comment_pos` and `cur_comment_size`; what is not written yet is what the memory held. -/
structure CommentBuffer where
  comments : Comments
  bytes    : Nat → Byte

/-- What `strncpy` writes for a limit of `k` bytes. -/
def strncpy (src : List Byte) (k : Nat) : List Byte := (cstr src).take k ++ List.replicate (k - (cstr src).length) 0

/-- `read_comment`, with the bytes. -/
def readCommentBytes (b : CommentBuffer) (first : Line) : Except Fault CommentBuffer :=
  let n := (lineLength first).toNat
  let pos := b.comments.pos
  (readComment b.comments n).map (fun comments =>
    ⟨comments, fun i =>
      if i = pos + n then 0
      else if pos ≤ i ∧ i < pos + (n - 1) then (strncpy first.tail (n - 1)).getD (i - pos) 0
      else b.bytes i⟩)

def readComments : List Line → CommentBuffer → Except Fault CommentBuffer
  | [], b            => .ok b
  | first :: rest, b =>
    match readCommentBytes b first with
    | .error f => .error f
    | .ok b    => readComments rest b

def isComment (first : Line) : Bool := kindOf first == .comment

/-- The comments that the parser gets to. -/
def commentsReached (text : List Byte) : List Line := (readLines (linesOf text)).filter isComment

/-- `ulp->comments` behind a run that returns 1, with `fresh` in the memory it gets; `none` is NULL. -/
def ulpComments (fresh : Nat → Byte) (text : List Byte) : Option (List Byte) :=
  if commentsReached text = [] then none
  else
    match readComments (commentsReached text) ⟨⟨0, 0⟩, fresh⟩ with
    | .error _ => none
    | .ok b    => some ((List.range b.comments.size).map b.bytes)

/-! ## What is promised -/

/-- The texts behind the `!` of all comments of a description. -/
def commentTexts (text : List Byte) : List Byte := ((linesOf text).filter isComment).flatMap List.tail

def Position.comments : Position → Comments
  | .opening c        => c
  | .dependencies _ c => c
  | .body _ c _       => c

/-- A comment is written outside its buffer. -/
def WritesOutside (a : Position) (first : Line) : Prop :=
  0 < lineLength first ∧ kindOf first = .comment ∧ CommentBad a.comments first

/-- **What becomes of the comments**: no comment that the parser reaches is written outside the buffer, and behind a run
that returns 1 the buffer has the texts in it, whatever was in the memory, and the section that `run_packer` embeds has
them and a NUL. -/
structure CommentsSurvive (files : Files) (ov : Overrides) (filename text : List Byte) : Prop where
  inside : ¬ Meets (Passes files ov) WritesOutside (.opening ⟨0, 0⟩) (linesOf text)
  string : ∀ r, parseDescription files ov filename = .ok r → (linesOf text).filter isComment ≠ [] → ∀ fresh,
    ∃ buffer, ulpComments fresh text = some buffer ∧ cstr buffer = commentTexts text
  packed : ∀ r, parseDescription files ov filename = .ok r → ∀ (fresh : Nat → Byte) (s : Steps) (e : PackEnd)
    (done : Embedded) (bytes : List Byte), s.comments = ulpComments fresh text → s.runPacker = some (e, done) →
      (.comments, bytes) ∈ done → bytes = commentTexts text ++ [0]

/-- A comment at which the buffer has to grow, and one step of 128 KiB is too short, or takes the size out of an `int`. -/
def TooLong (a : Position) (first : Line) : Prop :=
  0 < lineLength first ∧ kindOf first = .comment ∧
    a.comments.size ≤ a.comments.pos + (lineLength first).toNat + 1 ∧
      (a.comments.size + 128 * 1024 ≤ a.comments.pos + (lineLength first).toNat ∨
        2 ^ 31 ≤ a.comments.size + 128 * 1024)

/-! ## The buffer as it fills -/

theorem length_strncpy (src : List Byte) (k : Nat) : (strncpy src k).length = k := by
  unfold strncpy
  rw [List.length_append, List.length_take, List.length_replicate]
  omega

theorem readComment_ok {c c' : Comments} {n : Nat} (h : readComment c n = .ok c') :
    c'.pos = c.pos + n ∧ c'.pos < c'.size ∧ c'.size < 2 ^ 31 := by
  unfold readComment at h
  simp only at h
  generalize (if c.size ≤ c.pos + (n + 1) then c.size + 128 * 1024 else c.size) = size at h
  by_cases hb : size ≤ c.pos + n ∨ 2 ^ 31 ≤ size
  · rw [if_pos hb] at h
    cases h
  · rw [if_neg hb] at h
    cases h
    exact ⟨rfl, by simp only; omega, by simp only; omega⟩

theorem readCommentBytes_ok {b b' : CommentBuffer} {first : Line} (h : readCommentBytes b first = .ok b') :
    readComment b.comments (lineLength first).toNat = .ok b'.comments ∧
      ∀ i, b'.bytes i = if i = b.comments.pos + (lineLength first).toNat then 0
        else if b.comments.pos ≤ i ∧ i < b.comments.pos + ((lineLength first).toNat - 1) then
          (strncpy first.tail ((lineLength first).toNat - 1)).getD (i - b.comments.pos) 0
        else b.bytes i := by
  unfold readCommentBytes at h
  simp only at h
  generalize readComment b.comments (lineLength first).toNat = c at h ⊢
  cases c with
  | error f => cases h
  | ok c =>
    cases h
    exact ⟨rfl, fun i => rfl⟩

theorem readComments_cons {first : Line} {rest : List Line} {b b' : CommentBuffer}
    (h : readComments (first :: rest) b = .ok b') :
    ∃ b₁, readCommentBytes b first = .ok b₁ ∧ readComments rest b₁ = .ok b' := by
  unfold readComments at h
  cases hf : readCommentBytes b first with
  | error f =>
    rw [hf] at h
    cases h
  | ok b₁ =>
    rw [hf] at h
    exact ⟨b₁, rfl, h⟩

/-- **The bytes before the position stay**, over any number of comments, and the position stays inside. -/
theorem readComments_ok : ∀ {ls : List Line} {b b' : CommentBuffer}, readComments ls b = .ok b' →
    b.comments.pos < b.comments.size →
      (∀ i < b.comments.pos, b'.bytes i = b.bytes i) ∧ b.comments.pos ≤ b'.comments.pos ∧
        b'.comments.pos < b'.comments.size
  | [], b, b', h, hlt            => by
    cases h
    exact ⟨fun _ _ => rfl, Nat.le_refl _, hlt⟩
  | first :: rest, b, b', h, hlt => by
    obtain ⟨b₁, hf, h⟩ := readComments_cons h
    obtain ⟨hread, hbytes⟩ := readCommentBytes_ok hf
    obtain ⟨hpos, hlt₁, -⟩ := readComment_ok hread
    obtain ⟨hkeep, hle, hlt'⟩ := readComments_ok h hlt₁
    refine ⟨fun i hi => ?_, by omega, hlt'⟩
    rw [hkeep i (by omega), hbytes i, if_neg (by omega), if_neg (by omega)]

/-- **What the buffer starts with**: the text of the first comment, and a byte that nobody wrote. -/
theorem buffer_eq {first : Line} {rest : List Line} {b₀ b : CommentBuffer} (hstart : b₀.comments.pos = 0)
    (hpos : 0 < lineLength first) (h : readComments (first :: rest) b₀ = .ok b) :
    ∃ tail, (List.range b.comments.size).map b.bytes =
      strncpy first.tail ((lineLength first).toNat - 1) ++ b₀.bytes ((lineLength first).toNat - 1) :: tail := by
  obtain ⟨b₁, hf, h⟩ := readComments_cons h
  obtain ⟨hread, hbytes⟩ := readCommentBytes_ok hf
  obtain ⟨hpos₁, hlt₁, -⟩ := readComment_ok hread
  obtain ⟨hkeep, hle, hlt⟩ := readComments_ok h hlt₁
  simp only [hstart, Nat.zero_add, Nat.sub_zero, Nat.zero_le, true_and] at hbytes hpos₁
  obtain ⟨k, hk⟩ : ∃ k, (lineLength first).toNat = k + 1 := ⟨(lineLength first).toNat - 1, by omega⟩
  rw [hk] at hbytes hpos₁ ⊢
  rw [Nat.add_sub_cancel] at hbytes ⊢
  obtain ⟨m, hm⟩ : ∃ m, b.comments.size = k + (1 + m) := ⟨b.comments.size - k - 1, by omega⟩
  have hfront : (List.range k).map b.bytes = strncpy first.tail k := by
    conv_rhs => rw [← Bytes.map_range_getD (strncpy first.tail k), length_strncpy]
    apply List.map_congr_left
    intro i hi
    rw [List.mem_range] at hi
    rw [hkeep i (by omega), hbytes i, if_neg (by omega), if_pos hi]
  have hgap : b.bytes k = b₀.bytes k := by
    rw [hkeep k (by omega), hbytes k, if_neg (by omega), if_neg (by omega)]
  refine ⟨(List.range m).map (fun i => b.bytes (k + (1 + i))), ?_⟩
  rw [hm, List.range_add, List.map_append, hfront, List.range_add]
  simp [hgap, Function.comp_def]

/-! ## The comments of a run -/

section run

variable {files : Files} {ov : Overrides} {container : UlpSoInfo}

/-- The buffer takes a comment that the parser takes. -/
theorem readComments_reads {first : Line} {rest : List Line} {c c' : Comments}
    (h : readComment c (lineLength first).toNat = .ok c')
    (hrest : ∀ bytes, ∃ b, readComments rest ⟨c', bytes⟩ = .ok b) (bytes : Nat → Byte) :
    ∃ b, readComments (first :: rest) ⟨c, bytes⟩ = .ok b := by
  unfold readComments readCommentBytes
  simp only [h]
  exact hrest _

/-- A line behind the container that is taken leaves the comments as they are, unless it is one. -/
theorem comments_of_good {first : Line} {st st' : State} (h : BodyGood files ov container first st st') :
    if isComment first then readComment st.comments (lineLength first).toNat = .ok st'.comments
    else st'.comments = st.comments := by
  unfold BodyGood at h
  unfold isComment
  cases hk : kindOf first with
  | blank =>
    rw [hk] at h
    rw [h]
    rfl
  | comment =>
    rw [hk] at h
    obtain ⟨c, hc, rfl⟩ := h
    exact hc
  | target =>
    rw [hk] at h
    obtain ⟨info, -, rfl⟩ := h
    rfl
  | reference =>
    rw [hk] at h
    obtain ⟨t, -, ref, -, rfl⟩ := h
    rfl
  | function =>
    rw [hk] at h
    obtain ⟨t, -, unit, -, rfl⟩ := h
    rfl

theorem parseBody_comments {containerPath : List Byte} {lines : List Line} {line : Nat} {st st' : State}
    (h : parseBody files ov container containerPath lines line st = .ok st') (bytes : Nat → Byte) :
    ∃ b, readComments ((readLines lines).filter isComment) ⟨st.comments, bytes⟩ = .ok b := by
  induction lines generalizing line st bytes with
  | nil => exact ⟨_, rfl⟩
  | cons first rest ih =>
    rw [parseBody] at h
    by_cases hlen : lineLength first ≤ 0
    · rw [readLines_stop hlen]
      exact ⟨_, rfl⟩
    · rw [if_neg hlen] at h
      rw [readLines_cons (by omega)]
      cases hline : bodyLine files ov container containerPath (line + 1) first st with
      | error e =>
        rw [hline] at h
        cases h
      | ok st₁ =>
        rw [hline] at h
        have hcomments := comments_of_good (bodyLine_decides.ok_good st₁ hline)
        by_cases hc : isComment first = true
        · rw [if_pos hc] at hcomments
          rw [List.filter_cons_of_pos hc]
          exact readComments_reads hcomments (ih h) bytes
        · rw [if_neg hc] at hcomments
          rw [List.filter_cons_of_neg hc, ← hcomments]
          exact ih h bytes

theorem filter_dropWhile_dependency (lines : List Line) :
    (lines.dropWhile isDependency).filter isComment = lines.filter isComment := by
  have hnone : (lines.takeWhile isDependency).filter isComment = [] := by
    rw [List.filter_eq_nil_iff]
    intro first hfirst hc
    have hdep := List.mem_takeWhile_imp hfirst
    unfold isDependency at hdep
    unfold isComment kindOf at hc
    rw [beq_iff_eq] at hdep
    rw [hdep] at hc
    exact absurd hc (by decide)
  conv_rhs => rw [← @List.takeWhile_append_dropWhile _ isDependency lines]
  rw [List.filter_append, hnone, List.nil_append]

theorem containerLine_comments {first : Line} {rest : List Line} {line : Nat} {c : Comments} {r : Ulp × Option UlpSoInfo}
    (h : containerLine files ov first rest line c = .ok r) (bytes : Nat → Byte) :
    ∃ b, readComments ((readLines rest).filter isComment) ⟨c, bytes⟩ = .ok b := by
  unfold containerLine at h
  cases hpath : soFilename ov.container first with
  | error f =>
    rw [hpath] at h
    cases h
  | ok path =>
    rw [hpath] at h
    simp only at h
    cases hopen : openContainer files line path with
    | error e =>
      rw [hopen] at h
      cases h
    | ok container =>
      rw [hopen] at h
      simp only [parseContents] at h
      cases hdeps : parseDependencies files rest line 0 [] with
      | error e =>
        rw [hdeps] at h
        cases h
      | ok d =>
        obtain ⟨ndeps, deps, left, line'⟩ := d
        rw [hdeps] at h
        simp only at h
        cases hbody : parseBody files ov container path left line' ⟨c, none, 0, []⟩ with
        | error e =>
          rw [hbody] at h
          cases h
        | ok st =>
          have hrun := parseBody_comments hbody bytes
          rwa [parseDependencies_left hdeps, filter_dropWhile_dependency] at hrun

theorem parseLines_comments {lines : List Line} {line : Nat} {c : Comments} {r : Ulp × Option UlpSoInfo}
    (h : parseLines files ov lines line c = .ok r) (bytes : Nat → Byte) :
    ∃ b, readComments ((readLines lines).filter isComment) ⟨c, bytes⟩ = .ok b := by
  induction lines generalizing line c bytes with
  | nil => cases h
  | cons first rest ih =>
    rw [parseLines] at h
    by_cases hlen : lineLength first ≤ 0
    · rw [if_pos hlen] at h
      cases h
    · rw [if_neg hlen] at h
      rw [readLines_cons (by omega)]
      cases hk : kindOf first with
      | blank =>
        rw [hk] at h
        rw [List.filter_cons_of_neg (by simp [isComment, hk])]
        exact ih h bytes
      | comment =>
        rw [hk] at h
        rw [List.filter_cons_of_pos (by simp [isComment, hk])]
        simp only at h
        cases hc : readComment c (lineLength first).toNat with
        | error f =>
          rw [hc] at h
          cases h
        | ok c' =>
          rw [hc] at h
          exact readComments_reads hc (ih h) bytes
      | target | reference | function =>
        rw [hk] at h
        rw [List.filter_cons_of_neg (by simp [isComment, hk])]
        exact containerLine_comments h bytes

end run

/-! ## Whatever was in the memory -/

/-- What `getline` returns is no more than there is. -/
theorem lineLength_le (first : Line) : (lineLength first).toNat ≤ first.length := by
  unfold lineLength
  obtain ⟨k, hk, h₀, h₁⟩ := int32_cases first.length
  omega

/-- A NUL in what `strncpy` writes is a NUL in the line. -/
theorem mem_of_mem_strncpy {src : List Byte} {k : Nat} (hk : k ≤ src.length) (h : 0 ∈ strncpy src k) : 0 ∈ src := by
  by_contra hno
  have hall : cstr src = src := by
    apply List.takeWhile_eq_self_iff.2
    intro c hc
    rw [bne_iff_ne]
    rintro rfl
    exact hno hc
  unfold strncpy at h
  rw [hall, Nat.sub_eq_zero_of_le hk, List.replicate_zero, List.append_nil] at h
  exact hno (List.mem_of_mem_take h)

/-- With a NUL in the fresh memory the string ends behind the first text, with another byte it does not. -/
theorem cstr_depends {front tail tail' : List Byte} (h : 0 ∉ front) :
    cstr (front ++ 0 :: tail) ≠ cstr (front ++ 1 :: tail') := by
  rw [Bytes.cstr_of_noNul h]
  intro heq
  have hfront : ∀ c ∈ front, (c != 0) = true := by
    intro c hc
    rw [bne_iff_ne]
    rintro rfl
    exact h hc
  have hlen := congrArg List.length heq
  unfold cstr at hlen
  rw [List.takeWhile_append_of_pos hfront, List.takeWhile_cons_of_pos (by decide), List.length_append,
    List.length_cons] at hlen
  omega

theorem ulpComments_of_reached {fresh : Nat → Byte} {text : List Byte} {first : Line} {rest : List Line}
    (hreached : commentsReached text = first :: rest)
    (hrun : ∃ b, readComments (commentsReached text) ⟨⟨0, 0⟩, fresh⟩ = .ok b) :
    ∃ tail, ulpComments fresh text = some (strncpy first.tail ((lineLength first).toNat - 1) ++
      fresh ((lineLength first).toNat - 1) :: tail) := by
  obtain ⟨b, hb⟩ := hrun
  have hpos : 0 < lineLength first := by
    have hmem : first ∈ commentsReached text := by rw [hreached]; exact List.mem_cons_self
    have := List.mem_takeWhile_imp (List.mem_filter.1 hmem).1
    simpa using this
  have hbuf := hb
  rw [hreached] at hbuf
  obtain ⟨tail, htail⟩ := buffer_eq (rfl : (CommentBuffer.mk ⟨0, 0⟩ fresh).comments.pos = 0) hpos hbuf
  refine ⟨tail, ?_⟩
  unfold ulpComments
  rw [if_neg (by rw [hreached]; exact List.cons_ne_nil _ _), hb, ← htail]

/-- **One comment is enough** for the string to depend on what was in the memory. -/
theorem no_comment_survives {text : List Byte}
    (hrun : ∀ fresh, ∃ b, readComments (commentsReached text) ⟨⟨0, 0⟩, fresh⟩ = .ok b)
    (hstring : ∀ fresh, ∃ buffer, ulpComments fresh text = some buffer ∧ cstr buffer = commentTexts text) : False := by
  cases hreached : commentsReached text with
  | nil =>
    obtain ⟨buffer, hbuffer, -⟩ := hstring (fun _ => 0)
    unfold ulpComments at hbuffer
    rw [if_pos hreached] at hbuffer
    cases hbuffer
  | cons first rest =>
    obtain ⟨t₀, h₀⟩ := ulpComments_of_reached hreached (hrun (fun _ => 0))
    obtain ⟨t₁, h₁⟩ := ulpComments_of_reached hreached (hrun (fun _ => 1))
    obtain ⟨buf₀, hbuf₀, hs₀⟩ := hstring (fun _ => 0)
    obtain ⟨buf₁, hbuf₁, hs₁⟩ := hstring (fun _ => 1)
    rw [Option.some.inj (hbuf₀.symm.trans h₀)] at hs₀
    rw [Option.some.inj (hbuf₁.symm.trans h₁)] at hs₁
    refine cstr_depends ?_ (hs₀.trans hs₁.symm)
    intro hnul
    have hle := lineLength_le first
    have hmem : 0 ∈ first.tail := mem_of_mem_strncpy (by rw [List.length_tail]; omega) hnul
    have hfirst : first ∈ (linesOf text).filter isComment := by
      have hin : first ∈ commentsReached text := by rw [hreached]; exact List.mem_cons_self
      obtain ⟨hline, hc⟩ := List.mem_filter.1 hin
      exact List.mem_filter.2 ⟨(List.takeWhile_prefix _).subset hline, hc⟩
    have htexts : 0 ∈ commentTexts text := List.mem_flatMap.2 ⟨first, hfirst, hmem⟩
    rw [← hs₀] at htexts
    exact Bytes.noNul_cstr _ htexts

/-! ## The whole -/

/-- A comment overruns when the buffer grows and is still too short. -/
theorem readComment_overrun_iff {c : Comments} (hsize : c.size < 2 ^ 31) (n : Nat) :
    readComment c n = .error .overrun ↔
      c.size ≤ c.pos + n + 1 ∧ (c.size + 128 * 1024 ≤ c.pos + n ∨ 2 ^ 31 ≤ c.size + 128 * 1024) := by
  have hcases : ∀ size : Nat, (if size ≤ c.pos + n ∨ 2 ^ 31 ≤ size then Except.error Fault.overrun
      else Except.ok (Comments.mk (c.pos + n) size)) = .error .overrun ↔ size ≤ c.pos + n ∨ 2 ^ 31 ≤ size := by
    intro size
    split
    · rename_i h
      exact iff_of_true rfl h
    · rename_i h
      exact iff_of_false (fun h => (by cases h)) h
  unfold readComment
  refine (hcases _).trans ?_
  generalize 128 * 1024 = step
  by_cases hgrow : c.size ≤ c.pos + (n + 1)
  · rw [if_pos hgrow]
    exact ⟨fun h => ⟨hgrow, h⟩, fun h => h.2⟩
  · rw [if_neg hgrow]
    omega

theorem writesOutside_iff {a : Position} (hsize : a.comments.size < 2 ^ 31) (first : Line) :
    WritesOutside a first ↔ TooLong a first := by
  unfold WritesOutside TooLong CommentBad
  rw [readComment_overrun_iff hsize]

section whole

variable {files : Files} {ov : Overrides}

theorem BodyPasses.size_lt {container : UlpSoInfo} {c c' : Comments} {t t' : Option UlpSoInfo} {first : Line}
    (h : BodyPasses files ov container c t first c' t') (hc : c.size < 2 ^ 31) : c'.size < 2 ^ 31 := by
  cases h with
  | comment _ hread => exact (readComment_ok hread).2.2
  | blank | target | reference | function => exact hc

theorem Passes.size_lt {a b : Position} {first : Line} (h : Passes files ov a first b) (ha : a.comments.size < 2 ^ 31) :
    b.comments.size < 2 ^ 31 := by
  cases h with
  | comment _ _ hread => exact (readComment_ok hread).2.2
  | leave _ _ hbody => exact hbody.size_lt ha
  | body _ hbody => exact hbody.size_lt ha
  | blank | container | dependency => exact ha

theorem size_lt_of_run {a b : Position} {ls : List Line} (h : Run (Passes files ov) a ls b)
    (ha : a.comments.size < 2 ^ 31) : b.comments.size < 2 ^ 31 := by
  induction h with
  | nil => exact ha
  | cons hstep _ ih => exact ih (hstep.size_lt ha)

theorem meets_writesOutside_iff (lines : List Line) :
    Meets (Passes files ov) WritesOutside (.opening ⟨0, 0⟩) lines ↔
      Meets (Passes files ov) TooLong (.opening ⟨0, 0⟩) lines := by
  constructor
  · rintro ⟨pre, x, post, b, hl, hrun, hx⟩
    exact ⟨pre, x, post, b, hl, hrun, (writesOutside_iff (size_lt_of_run hrun (by decide)) x).1 hx⟩
  · rintro ⟨pre, x, post, b, hl, hrun, hx⟩
    exact ⟨pre, x, post, b, hl, hrun, (writesOutside_iff (size_lt_of_run hrun (by decide)) x).2 hx⟩

/-- **The comments of a description** survive, whatever was in the memory, exactly when the parser reaches none that is
too long, and does not take a description that has one. -/
theorem commentsSurvive_iff {filename text : List Byte} (hopen : files.fopen filename = some text) :
    CommentsSurvive files ov filename text ↔
      ¬ Meets (Passes files ov) TooLong (.opening ⟨0, 0⟩) (linesOf text) ∧
        ((∃ r, parseDescription files ov filename = .ok r) → (linesOf text).filter isComment = []) := by
  constructor
  · intro h
    refine ⟨fun hmeets => h.inside ((meets_writesOutside_iff _).2 hmeets), ?_⟩
    rintro ⟨r, hr⟩
    by_contra hne
    refine no_comment_survives (fun fresh => ?_) (h.string r hr hne)
    unfold parseDescription at hr
    rw [hopen] at hr
    exact parseLines_comments hr fresh
  · rintro ⟨hlong, hnone⟩
    refine ⟨fun hmeets => hlong ((meets_writesOutside_iff _).1 hmeets), ?_, ?_⟩
    · intro r hr hne
      exact absurd (hnone ⟨r, hr⟩) hne
    · intro r hr fresh s e done bytes hcomments hrun hmem
      obtain ⟨comments, hc, -⟩ := Pack.Steps.runPacker_comments hrun hmem
      have hreached : commentsReached text = [] := by
        apply List.filter_eq_nil_iff.2
        intro first hfirst
        exact List.filter_eq_nil_iff.1 (hnone ⟨r, hr⟩) first ((List.takeWhile_prefix _).subset hfirst)
      unfold ulpComments at hcomments
      rw [if_pos hreached, hc] at hcomments
      cases hcomments

end whole

/-- A description without comments has none to lose. -/
theorem commentsSurvive_patch : CommentsSurvive (filesWith patchText) ⟨none, none⟩ [100] patchText := by
  have hkinds : ∀ first ∈ linesOf patchText, kindOf first ≠ .comment := by decide
  refine (commentsSurvive_iff rfl).2 ⟨?_, fun _ => by decide⟩
  rintro ⟨pre, first, post, a, hl, -, hlong⟩
  exact hkinds first (by rw [hl]; simp) hlong.2.1

/-- `!a`, then `c`, `@t` and `f:g`. -/
def commentedText : List Byte := 33 :: 97 :: 10 :: patchText

/-- **One line of comment**: the string depends on the byte behind its text. -/
theorem comment_not_kept : ¬ ∀ (files : Files) (ov : Overrides) (filename text : List Byte),
    files.fopen filename = some text → CommentsSurvive files ov filename text := by
  intro hall
  have hsurvive := hall (filesWith commentedText) ⟨none, none⟩ [100] commentedText rfl
  obtain ⟨r, hr⟩ : ∃ r, parseLines (filesWith commentedText) ⟨none, none⟩ (linesOf commentedText) 0 ⟨0, 0⟩ = .ok r :=
    ⟨_, rfl⟩
  exact no_comment_survives (parseLines_comments hr) (hsurvive.string r hr (by decide))

end Description
end Libpulp
