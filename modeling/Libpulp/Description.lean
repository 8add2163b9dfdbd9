import Libpulp.Extract
import Libpulp.InsnQueue
import Libpulp.Tokens
/-!
# Description — the packer reads a livepatch description (tools/packer.c: `parse_description`)

A description names the container, its dependencies (`*`), the target library (`@`), the functions to replace
(`old:new`) and data references (`#`), one a line.  The parser takes lines apart in place with `strchr` and `strtok` and
checks the results in some branches only; where it then leaves what C defines, the run ends in a `Fault`.  Memory is
never short here.
-/
namespace Libpulp
namespace Description

open Bytes (Byte Addr cstr)
open Tokens (strchr strtok fields)

abbrev Line := List Byte

def newline : Byte := 10
def percent : Byte := 37
def asterisk : Byte := 42
def colon : Byte := 58

inductive Fault where
  | nullDereference
  | beforeLine
  | wrongFree
  | overrun
deriving DecidableEq

inductive Message where
  | cannotOpen
  | isEmpty
  | containerNotFound
  | containerNotFile
  | containerFormat
  | dependency
  | duplicatedTarget
  | targetNotOpened
  | targetNotFile
  | targetFormat
  | noSharedObject
  | notPresent (symbol path : List Byte)
  | expectedName
  | expectedColon
deriving DecidableEq

/-- What `parse_error` prints, with the `loc` it is given. -/
structure ParseError where
  line    : Nat
  col     : Nat
  message : Message
deriving DecidableEq

/-- How a run ends that does not return 1. -/
inductive Stop where
  | error (e : ParseError)
  | fault (f : Fault)
deriving DecidableEq

/-- What the tool finds in the file system; `ulpSoInfoOpen` is `ulp_so_info_open`, for an ELF or a JSON file. -/
structure Files where
  fopen         : List Byte → Option (List Byte)
  isDirectory   : List Byte → Bool
  ulpSoInfoOpen : List Byte → Option UlpSoInfo

structure Overrides where
  container : Option CString
  target    : Option CString

/-- `cur_comment_pos` and `cur_comment_size`. -/
structure Comments where
  pos  : Nat
  size : Nat
deriving DecidableEq

/-- The target object: `target_path`, `target`, and `ulp->objs`. -/
structure Target where
  path : List Byte
  info : UlpSoInfo
  obj  : UlpObject

structure State where
  comments : Comments
  target   : Option Target
  nrefs    : Nat
  refs     : List UlpReference

/-- The part of `struct ulp_metadata` that the parser fills in. -/
structure Ulp where
  soFilename : List Byte
  objs       : Option UlpObject
  ndeps      : Nat
  deps       : List UlpDependency
  nrefs      : Nat
  refs       : List UlpReference

/-! ## Lines -/

/-- The lines as `getline` hands them out, each with its newline. -/
def linesOf : List Byte → List Line
  | []      => []
  | b :: bs =>
    if b = newline then [b] :: linesOf bs
    else
      match linesOf bs with
      | []      => [[b]]
      | l :: ls => (b :: l) :: ls

/-- What `getline` returns, kept in an `int`. -/
def lineLength (first : Line) : Int := int32 first.length

/-- `if (first[n - 1] == '\n') first[n - 1] = '\0';` -/
def chomp (first : Line) : Line :=
  let last := (lineLength first).toNat - 1
  if first[last]? = some newline then first.set last 0 else first

inductive Kind where
  | blank
  | comment
  | target
  | reference
  | function
deriving DecidableEq

/-- What a line is by its first byte. -/
def kindOf (first : Line) : Kind :=
  if first.head? = some newline then .blank
  else if first.head? = some 33 then .comment
  else if first.head? = some 64 then .target
  else if first.head? = some 35 then .reference
  else .function

def isDependency (first : Line) : Bool := first.head? == some asterisk

/-- `strtol(s, NULL, 16)`. -/
def strtol16 (s : List Byte) : Addr :=
  let s := s.dropWhile isspace
  let digits := if s.head? = some 43 ∨ s.head? = some 45 then s.tail else s
  let digits := if digits.head? = some 48 ∧ (digits[1]? = some 120 ∨ digits[1]? = some 88) then digits.drop 2 else digits
  let value := (digits.takeWhile (fun c => (hexValue c).isSome)).foldl (fun v c => 16 * v + (hexValue c).getD 0) 0
  if s.head? = some 45 then BitVec.ofInt 64 (-(min value (2 ^ 63) : Nat)) else BitVec.ofNat 64 (min value (2 ^ 63 - 1))

def getSymbolWithName (info : UlpSoInfo) (sym : List Byte) : Option Symbol := info.symbols.find? (fun s => s.name.val == sym)

/-! ## One line -/

/-- `read_comment`, for a line of `n` bytes. -/
def readComment (c : Comments) (n : Nat) : Except Fault Comments :=
  let size := if c.size ≤ c.pos + (n + 1) then c.size + 128 * 1024 else c.size
  -- `strncpy` pads to `n - 1` bytes, and a NUL goes to `pos + n`; the size is an `int`
  if size ≤ c.pos + n ∨ 2 ^ 31 ≤ size then .error .overrun else .ok ⟨c.pos + n, size⟩

/-- `ulp->so_filename`: the override, or the line copied to a buffer of `n + 1` bytes. -/
def soFilename (containerOverride : Option CString) (first : Line) : Except Fault (List Byte) :=
  match containerOverride with
  | some path => .ok path.val
  | none      => if lineLength first < (cstr first).length then .error .overrun else .ok (cstr (chomp first))

/-- `target_path`, before it is copied. -/
def targetPath (targetOverride : Option CString) (first : Line) : List Byte :=
  match targetOverride with
  | some path => path.val
  | none      => cstr (chomp first).tail

/-- `add_dependency`: the id of the patch in the file. -/
def addDependency (files : Files) (filename : List Byte) : Option PatchId :=
  match files.fopen filename with
  | none      => none
  | some file => if file.head? = some 1 ∧ 32 ≤ file.tail.length then some (PatchId.ofBytes (file.tail.take 32)) else none

/-- The checks on the file of a container or a target, and `ulp_so_info_open`. -/
def openLibrary (files : Files) (path : List Byte) (line col : Nat) (notFound notFile format : Message) :
    Except Stop UlpSoInfo :=
  if (files.fopen path).isNone then .error (.error ⟨line, col, notFound⟩)
  else if files.isDirectory path then .error (.error ⟨line, col, notFile⟩)
  else
    match files.ulpSoInfoOpen path with
    | none      => .error (.error ⟨line, col, format⟩)
    | some info => .ok info

/-- `ulp->objs` as it is allocated. -/
def freshObject (info : UlpSoInfo) : UlpObject :=
  { buildIdLen := 0, buildIdCheck := false, buildId := [], name := info.name.val, nunits := 0, units := [] }

section Line

variable (files : Files) (ov : Overrides) (container : UlpSoInfo) (containerPath : List Byte) (line : Nat)

/-- A line that starts with `@`. -/
def targetLine (first : Line) (s : State) : Except Stop State :=
  if s.target.isSome then .error (.error ⟨line, 1, .duplicatedTarget⟩)
  else
    let path := targetPath ov.target first
    -- `strcpy` into `char target_path[PATH_MAX]`
    if pathMax ≤ path.length then .error (.fault .overrun)
    else
      (openLibrary files path line 2 .targetNotOpened .targetNotFile .targetFormat).map (fun info =>
        { s with target := some ⟨path, info, freshObject info⟩ })

/-- A reference by name: the offsets are those of the symbols. -/
def namedReference (t : Target) (tls : Bool) (col : Nat) (targetName referenceName : List Byte) :
    Except Stop UlpReference :=
  match getSymbolWithName t.info targetName with
  | none        => .error (.error ⟨line, col, .notPresent targetName t.path⟩)
  | some newSym =>
    match getSymbolWithName container referenceName with
    | none        => .error (.error ⟨line, col + targetName.length + 1, .notPresent referenceName containerPath⟩)
    | some oldSym => .ok ⟨targetName, referenceName, newSym.offset, oldSym.offset, tls⟩

/-- A line that starts with `#`: `#target:reference` or `#target:reference:offset:offset`, with `#%` for a thread-local
one. -/
def referenceLine (t : Target) (first : List Byte) : Except Stop UlpReference :=
  let tls := first[1]? == some percent
  let third := first.drop (if tls then 2 else 1)
  let col := if tls then 3 else 2
  match strchr colon third with
  | none                     => .error (.fault .nullDereference)
  | some (targetName, third) =>
    match strchr colon third with
    | none                        => namedReference container containerPath line t tls col targetName third
    | some (referenceName, third) =>
      match strchr colon third with
      | none                             => .error (.fault .nullDereference)
      | some (targetOffset, patchOffset) =>
        .ok ⟨targetName, referenceName, strtol16 targetOffset, strtol16 patchOffset, tls⟩

/-- The replacement of the function `old`, from what stands behind it. -/
def replacement (old behind : List Byte) : Except Stop UlpUnit :=
  match strtok colon behind with
  | none                   => .error (.error ⟨line, 1, .expectedColon⟩)
  | some (skipped, new, _) =>
    let col := old.length + 1 + skipped + 1
    if new = [] then .error (.error ⟨line, col, .expectedName⟩)
    else if (getSymbolWithName container new).isNone then .error (.error ⟨line, col, .notPresent new containerPath⟩)
    else .ok ⟨old, new, 0⟩

/-- A line with the names of a replaced function and its replacement. -/
def functionLine (t : Target) (first : List Byte) : Except Stop UlpUnit :=
  match first.getLast? with
  | none   => .error (.fault .beforeLine)
  | some c =>
    if c = colon then .error (.error ⟨line, first.length, .expectedName⟩)
    else
      match strtok colon first with
      | none                        => .error (.fault .nullDereference)
      | some (skipped, old, behind) =>
        -- `first` is the token now, and on every way from here it is freed
        if skipped ≠ 0 then .error (.fault .wrongFree)
        else if (getSymbolWithName t.info old).isNone then .error (.error ⟨line, 1, .notPresent old t.path⟩)
        else replacement container containerPath line old behind

def State.addReference (s : State) (ref : UlpReference) : State :=
  { s with refs := ref :: s.refs, nrefs := (s.nrefs + 1) % 2 ^ 32 }

def Target.addUnit (t : Target) (unit : UlpUnit) : Target :=
  { t with obj := { t.obj with units := t.obj.units ++ [unit], nunits := (t.obj.nunits + 1) % 2 ^ 32 } }

/-- A line behind the container and its dependencies. -/
def bodyLine (first : Line) (s : State) : Except Stop State :=
  match kindOf first with
  | .blank   => .ok s
  | .comment =>
    match readComment s.comments (lineLength first).toNat with
    | .error f     => .error (.fault f)
    | .ok comments => .ok { s with comments := comments }
  | .target    => targetLine files ov line first s
  | .reference =>
    match s.target with
    | none   => .error (.error ⟨line, 1, .noSharedObject⟩)
    | some t => (referenceLine container containerPath line t (cstr (chomp first))).map s.addReference
  | .function =>
    match s.target with
    | none   => .error (.error ⟨line, 1, .noSharedObject⟩)
    | some t =>
      (functionLine container containerPath line t (cstr (chomp first))).map (fun unit =>
        { s with target := some (t.addUnit unit) })

end Line

/-! ## The loops -/

section Loops

variable (files : Files) (ov : Overrides)

/-- The loop over the lines behind the dependencies; `line` lines are read. -/
def parseBody (container : UlpSoInfo) (containerPath : List Byte) : List Line → Nat → State → Except Stop State
  | [], _, s               => .ok s
  | first :: rest, line, s =>
    if lineLength first ≤ 0 then .ok s
    else
      match bodyLine files ov container containerPath (line + 1) first s with
      | .error e => .error e
      | .ok s    => parseBody container containerPath rest (line + 1) s

/-- The loop over the dependencies: what is added, and the lines that are left. -/
def parseDependencies : List Line → Nat → Nat → List UlpDependency →
    Except Stop (Nat × List UlpDependency × List Line × Nat)
  | [], line, ndeps, deps            => .ok (ndeps, deps, [], line)
  | first :: rest, line, ndeps, deps =>
    if 0 < lineLength first ∧ isDependency first = true then
      match addDependency files (cstr (chomp first).tail) with
      | none    => .error (.error ⟨line + 1, 1, .dependency⟩)
      | some id => parseDependencies rest (line + 1) ((ndeps + 1) % 2 ^ 32) (⟨id, false⟩ :: deps)
    else .ok (ndeps, deps, first :: rest, line)

def openContainer (line : Nat) (path : List Byte) : Except Stop UlpSoInfo :=
  openLibrary files path line 1 .containerNotFound .containerNotFile .containerFormat

/-- The lines behind the container. -/
def parseContents (container : UlpSoInfo) (path : List Byte) (comments : Comments) (lines : List Line) (line : Nat) :
    Except Stop (Ulp × Option UlpSoInfo) :=
  match parseDependencies files lines line 0 [] with
  | .error e                      => .error e
  | .ok (ndeps, deps, left, line) =>
    match parseBody files ov container path left line ⟨comments, none, 0, []⟩ with
    | .error e => .error e
    | .ok s    => .ok (⟨path, s.target.map Target.obj, ndeps, deps, s.nrefs, s.refs⟩, s.target.map Target.info)

/-- The line with the container, and on through the others. -/
def containerLine (first : Line) (rest : List Line) (line : Nat) (comments : Comments) :
    Except Stop (Ulp × Option UlpSoInfo) :=
  match soFilename ov.container first with
  | .error f => .error (.fault f)
  | .ok path =>
    match openContainer files line path with
    | .error e      => .error e
    | .ok container => parseContents files ov container path comments rest line

/-- The loop up to the line with the container. -/
def parseLines : List Line → Nat → Comments → Except Stop (Ulp × Option UlpSoInfo)
  | [], line, _                   => .error (.error ⟨line + 1, 1, .isEmpty⟩)
  | first :: rest, line, comments =>
    if lineLength first ≤ 0 then .error (.error ⟨line + 1, 1, .isEmpty⟩)
    else
      match kindOf first with
      | .blank   => parseLines rest (line + 1) comments
      | .comment =>
        match readComment comments (lineLength first).toNat with
        | .error f     => .error (.fault f)
        | .ok comments => parseLines rest (line + 1) comments
      | _ => containerLine files ov first rest (line + 1) comments

/-- `parse_description`: the metadata and `*info` when it returns 1. -/
def parseDescription (filename : List Byte) : Except Stop (Ulp × Option UlpSoInfo) :=
  match files.fopen filename with
  | none      => .error (.error ⟨0, 0, .cannotOpen⟩)
  | some text => parseLines files ov (linesOf text) 0 ⟨0, 0⟩

end Loops

/-! ## What the packer does next -/

def getTargetAddrs (info : UlpSoInfo) (units : List UlpUnit) : Option (List UlpUnit) :=
  units.mapM (fun unit => (getSymbolWithName info unit.oldFname).map (fun s => { unit with oldFaddr := s.offset }))

def getTargetRefAddrs (info : UlpSoInfo) (refs : List UlpReference) : Option (List UlpReference) :=
  refs.mapM (fun ref =>
    if ref.targetOffset ≠ 0 then some ref
    else (getSymbolWithName info ref.targetName).map (fun s => { ref with targetOffset := s.offset }))

/-- `get_ulp_elf_metadata`; `none` where it returns 0. -/
def getUlpElfMetadata (info : Option UlpSoInfo) (ulp : Ulp) : Except Fault (Option Ulp) :=
  match ulp.objs, info with
  | none, _             => .error .nullDereference
  | some _, none        => .error .nullDereference
  | some obj, some info =>
    let obj := { obj with buildIdLen := buildidLen, buildId := info.buildid.toList }
    .ok ((getTargetAddrs info obj.units).bind (fun units =>
      (getTargetRefAddrs info ulp.refs).map (fun refs =>
        { ulp with objs := some { obj with units := units }, refs := refs })))

/-! ## When a line is taken, and when it ends in a fault -/

/-- The symbol is in the table. -/
def Has (info : UlpSoInfo) (sym : List Byte) : Prop := ∃ s ∈ info.symbols, s.name.val = sym

theorem getSymbolWithName_isSome {info : UlpSoInfo} {sym : List Byte} :
    (getSymbolWithName info sym).isSome = true ↔ Has info sym := by
  unfold getSymbolWithName Has
  rw [List.find?_isSome]
  simp

theorem getSymbolWithName_isNone {info : UlpSoInfo} {sym : List Byte} :
    (getSymbolWithName info sym).isNone = true ↔ ¬ Has info sym := by
  rw [← getSymbolWithName_isSome]
  cases getSymbolWithName info sym <;> simp

/-- How a line comes out: in a fault when it is `bad`, with a result when there is a `good` one, which it then is, and with
an error message otherwise. -/
structure Decides {α : Type} (r : Except Stop α) (bad : Prop) (good : α → Prop) : Prop where
  fault_iff : (∃ f, r = .error (.fault f)) ↔ bad
  ok_iff    : (∃ a, r = .ok a) ↔ ∃ a, good a
  ok_good   : ∀ a, r = .ok a → good a

section Decides

variable {α β : Type} {bad : Prop} {good : α → Prop}

theorem Decides.of_fault {f : Fault} (hb : bad) (hg : ¬ ∃ a, good a) : Decides (.error (.fault f)) bad good :=
  ⟨⟨fun _ => hb, fun _ => ⟨f, rfl⟩⟩, ⟨fun ⟨_, h⟩ => (by cases h), fun h => absurd h hg⟩, fun _ h => (by cases h)⟩

theorem Decides.of_error {e : ParseError} (hb : ¬ bad) (hg : ¬ ∃ a, good a) : Decides (.error (.error e)) bad good :=
  ⟨⟨fun ⟨_, h⟩ => (by cases h), fun h => absurd h hb⟩, ⟨fun ⟨_, h⟩ => (by cases h), fun h => absurd h hg⟩,
    fun _ h => (by cases h)⟩

theorem Decides.of_ok {a : α} (hb : ¬ bad) (hg : good a) : Decides (.ok a) bad good :=
  ⟨⟨fun ⟨_, h⟩ => (by cases h), fun h => absurd h hb⟩, ⟨fun _ => ⟨a, hg⟩, fun _ => ⟨a, rfl⟩⟩,
    fun b h => Except.ok.inj h ▸ hg⟩

theorem Decides.map {r : Except Stop α} (h : Decides r bad good) (g : α → β) :
    Decides (r.map g) bad (fun b => ∃ a, good a ∧ b = g a) := by
  cases r with
  | error e =>
    refine ⟨?_, ?_, fun b hb => (by cases hb)⟩
    · rw [← h.fault_iff]
      simp [Except.map]
    · refine ⟨fun ⟨b, hb⟩ => (by cases hb), ?_⟩
      rintro ⟨b, a, ha, -⟩
      obtain ⟨a', ha'⟩ := h.ok_iff.2 ⟨a, ha⟩
      cases ha'
  | ok a =>
    have hg := h.ok_good a rfl
    exact Decides.of_ok (fun hb => (by obtain ⟨f, hf⟩ := h.fault_iff.2 hb; cases hf)) ⟨a, hg, rfl⟩

theorem Decides.congr {r : Except Stop α} {bad' : Prop} {good' : α → Prop} (h : Decides r bad good) (hb : bad ↔ bad')
    (hg : ∀ a, good a ↔ good' a) : Decides r bad' good' :=
  ⟨h.fault_iff.trans hb, h.ok_iff.trans (exists_congr hg), fun a ha => (hg a).1 (h.ok_good a ha)⟩

end Decides

section Lines

variable {files : Files} {ov : Overrides} {container : UlpSoInfo} {containerPath : List Byte} {line : Nat} {t : Target}
  {s : List Byte}

/-- A function line that makes the parser read before it, or free another pointer. -/
def FunctionBad (s : List Byte) : Prop := s = [] ∨ s.head? = some colon ∧ s.getLast? ≠ some colon

/-- A function line that has no colon at an end, and whose first two fields are a function of the target and one of the
container. -/
structure FunctionGood (container target : UlpSoInfo) (s : List Byte) (unit : UlpUnit) : Prop where
  head  : s.head? ≠ some colon
  last  : s.getLast? ≠ some colon
  names : (fields colon s).take 2 = [unit.oldFname, unit.newFname]
  old   : Has target unit.oldFname
  new   : Has container unit.newFname

theorem head?_colon_iff : s.head? = some colon ↔ (s.takeWhile (· == colon)).length ≠ 0 := by
  cases s with
  | nil => simp
  | cons c s =>
    by_cases hc : c = colon
    · rw [List.takeWhile_cons_of_pos (by simpa using hc)]
      simp [hc]
    · rw [List.takeWhile_cons_of_neg (by simpa using hc)]
      simp [hc]

/-- A string that does not end with a colon has a token. -/
theorem strtok_ne_none {c : Byte} (hlast : s.getLast? = some c) (hc : c ≠ colon) : strtok colon s ≠ none := by
  intro h
  unfold strtok at h
  by_cases ht : s.dropWhile (· == colon) = []
  · have := List.dropWhile_eq_nil_iff.1 ht c (List.mem_of_getLast? hlast)
    exact hc (by simpa using this)
  · rw [if_neg ht] at h
    cases h

theorem replacement_decides {old behind : List Byte} :
    Decides (replacement container containerPath line old behind) False (fun unit =>
      unit.oldFname = old ∧ (fields colon behind).head? = some unit.newFname ∧ Has container unit.newFname) := by
  unfold replacement
  cases htok : strtok colon behind with
  | none =>
    refine Decides.of_error not_false ?_
    rintro ⟨unit, -, hhead, -⟩
    rw [Tokens.strtok_none htok] at hhead
    cases hhead
  | some tok =>
    obtain ⟨skipped, new, more⟩ := tok
    obtain ⟨hf, hnew, -⟩ := Tokens.strtok_some htok
    simp only
    rw [if_neg hnew, hf]
    by_cases hin : (getSymbolWithName container new).isNone = true
    · rw [if_pos hin]
      refine Decides.of_error not_false ?_
      rintro ⟨unit, -, hhead, hhas⟩
      obtain rfl := Option.some.inj hhead
      exact getSymbolWithName_isNone.1 hin hhas
    · rw [if_neg hin]
      rw [getSymbolWithName_isNone, not_not] at hin
      exact Decides.of_ok not_false ⟨rfl, rfl, hin⟩

theorem functionLine_decides :
    Decides (functionLine container containerPath line t s) (FunctionBad s) (FunctionGood container t.info s) := by
  unfold functionLine
  cases hlast : s.getLast? with
  | none =>
    have hs : s = [] := List.getLast?_eq_none_iff.1 hlast
    refine Decides.of_fault (Or.inl hs) ?_
    rintro ⟨unit, hunit⟩
    have := hunit.names
    rw [hs] at this
    simp [fields] at this
  | some c =>
    have hne : s ≠ [] := by
      rintro rfl
      cases hlast
    simp only
    by_cases hc : c = colon
    · rw [if_pos hc]
      refine Decides.of_error ?_ ?_
      · rintro (h | ⟨-, h⟩)
        · exact hne h
        · exact h (by rw [hlast, hc])
      · rintro ⟨unit, hunit⟩
        exact hunit.last (by rw [hlast, hc])
    have hlast' : s.getLast? ≠ some colon := by
      rw [hlast]
      exact fun h => hc (Option.some.inj h)
    rw [if_neg hc]
    cases htok : strtok colon s with
    | none => exact absurd htok (strtok_ne_none hlast hc)
    | some tok =>
      obtain ⟨skipped, old, behind⟩ := tok
      obtain ⟨hf, -, hskip⟩ := Tokens.strtok_some htok
      simp only
      by_cases h0 : skipped ≠ 0
      · rw [if_pos h0]
        have hhead : s.head? = some colon := head?_colon_iff.2 (hskip ▸ h0)
        refine Decides.of_fault (Or.inr ⟨hhead, hlast'⟩) ?_
        rintro ⟨unit, hunit⟩
        exact hunit.head hhead
      have hhead : s.head? ≠ some colon := fun h => h0 (hskip ▸ head?_colon_iff.1 h)
      have hbad : ¬ FunctionBad s := by
        rintro (h | ⟨h, -⟩)
        · exact hne h
        · exact hhead h
      rw [if_neg h0]
      by_cases hold : (getSymbolWithName t.info old).isNone = true
      · rw [if_pos hold]
        refine Decides.of_error hbad ?_
        rintro ⟨unit, hunit⟩
        have hnames := hunit.names
        rw [hf, List.take_succ_cons] at hnames
        rw [getSymbolWithName_isNone, (List.cons.inj hnames).1] at hold
        exact hold hunit.old
      · rw [if_neg hold]
        rw [getSymbolWithName_isNone, not_not] at hold
        -- the second name decides
        refine replacement_decides.congr (iff_of_false not_false hbad) (fun unit => ?_)
        constructor
        · rintro ⟨rfl, hnew, hin⟩
          refine ⟨hhead, hlast', ?_, hold, hin⟩
          rw [hf, List.take_succ_cons, List.take_one, hnew]
          rfl
        · intro hunit
          have hnames := hunit.names
          rw [hf, List.take_succ_cons, List.take_one] at hnames
          obtain ⟨hold', hnew⟩ := List.cons.inj hnames
          refine ⟨hold'.symm, ?_, hunit.new⟩
          simpa using hnew

/-- A reference line between its colons, without `#` or `#%`. -/
def referenceParts (s : List Byte) : List (List Byte) :=
  (s.drop (if s[1]? == some percent then 2 else 1)).splitOn colon

/-- A reference line that makes the parser write through a NULL pointer: it has no colon, or two. -/
def ReferenceBad (s : List Byte) : Prop := (referenceParts s).length = 1 ∨ (referenceParts s).length = 3

/-- A reference line with two names that are known, or with offsets. -/
def ReferenceGood (container target : UlpSoInfo) (s : List Byte) : Prop :=
  (∃ old new, referenceParts s = [old, new] ∧ Has target old ∧ Has container new) ∨ 4 ≤ (referenceParts s).length

theorem namedReference_decides {tls : Bool} {col : Nat} {old new : List Byte} :
    Decides (namedReference container containerPath line t tls col old new) False
      (fun _ => Has t.info old ∧ Has container new) := by
  unfold namedReference
  cases hold : getSymbolWithName t.info old with
  | none =>
    refine Decides.of_error not_false ?_
    rintro ⟨-, hhas, -⟩
    rw [← getSymbolWithName_isSome, hold] at hhas
    cases hhas
  | some newSym =>
    simp only
    cases hnew : getSymbolWithName container new with
    | none =>
      refine Decides.of_error not_false ?_
      rintro ⟨-, -, hhas⟩
      rw [← getSymbolWithName_isSome, hnew] at hhas
      cases hhas
    | some oldSym =>
      refine Decides.of_ok not_false ⟨?_, ?_⟩
      · rw [← getSymbolWithName_isSome, hold]
        rfl
      · rw [← getSymbolWithName_isSome, hnew]
        rfl

theorem referenceLine_decides : Decides (referenceLine container containerPath line t s) (ReferenceBad s)
    (fun _ => ReferenceGood container t.info s) := by
  unfold referenceLine ReferenceBad ReferenceGood referenceParts
  simp only
  generalize s.drop (if (s[1]? == some percent) = true then 2 else 1) = third
  cases h₁ : strchr colon third with
  | none =>
    rw [Tokens.strchr_none h₁]
    refine Decides.of_fault (Or.inl rfl) ?_
    rintro ⟨-, ⟨_, _, h, -⟩ | h⟩
    · simp at h
    · simp at h
  | some p₁ =>
    obtain ⟨old, third₂⟩ := p₁
    rw [Tokens.strchr_some h₁]
    simp only
    cases h₂ : strchr colon third₂ with
    | none =>
      rw [Tokens.strchr_none h₂]
      refine namedReference_decides.congr (iff_of_false not_false (by simp)) (fun _ => ?_)
      constructor
      · intro h
        exact Or.inl ⟨old, third₂, rfl, h⟩
      · rintro (⟨_, _, h, hhas⟩ | h)
        · simp only [List.cons.injEq, and_true] at h
          obtain ⟨rfl, rfl⟩ := h
          exact hhas
        · simp at h
    | some p₂ =>
      obtain ⟨new, third₃⟩ := p₂
      rw [Tokens.strchr_some h₂]
      simp only
      cases h₃ : strchr colon third₃ with
      | none =>
        rw [Tokens.strchr_none h₃]
        refine Decides.of_fault (Or.inr rfl) ?_
        rintro ⟨-, ⟨_, _, h, -⟩ | h⟩
        · simp at h
        · simp at h
      | some p₃ =>
        obtain ⟨targetOffset, patchOffset⟩ := p₃
        rw [Tokens.strchr_some h₃]
        have hpos : 0 < (patchOffset.splitOn colon).length := List.length_pos_iff.2 (List.splitOn_ne_nil _ _)
        refine Decides.of_ok ?_ (Or.inr ?_)
        · simp only [List.length_cons]
          omega
        · simp only [List.length_cons]
          omega

/-- The file can be opened, is not a directory, and is a library. -/
def Opens (files : Files) (path : List Byte) (info : UlpSoInfo) : Prop :=
  (files.fopen path).isSome = true ∧ files.isDirectory path = false ∧ files.ulpSoInfoOpen path = some info

def TargetBad (ov : Overrides) (target : Option UlpSoInfo) (first : Line) : Prop :=
  target = none ∧ pathMax ≤ (targetPath ov.target first).length

/-- The first target line is taken when its file opens. -/
def TargetGood (files : Files) (ov : Overrides) (target : Option UlpSoInfo) (first : Line) (info : UlpSoInfo) : Prop :=
  target = none ∧ (targetPath ov.target first).length < pathMax ∧ Opens files (targetPath ov.target first) info

theorem openLibrary_decides {path : List Byte} {col : Nat} {notFound notFile format : Message} :
    Decides (openLibrary files path line col notFound notFile format) False (Opens files path) := by
  unfold openLibrary Opens
  by_cases hopen : (files.fopen path).isNone = true
  · rw [if_pos hopen]
    refine Decides.of_error not_false ?_
    rintro ⟨_, h, -⟩
    rw [Option.isNone_iff_eq_none.1 hopen] at h
    cases h
  rw [if_neg hopen]
  by_cases hdir : files.isDirectory path = true
  · rw [if_pos hdir]
    refine Decides.of_error not_false ?_
    rintro ⟨_, -, h, -⟩
    rw [hdir] at h
    cases h
  rw [if_neg hdir]
  cases hinfo : files.ulpSoInfoOpen path with
  | none =>
    refine Decides.of_error not_false ?_
    rintro ⟨_, -, -, h⟩
    cases h
  | some info =>
    refine Decides.of_ok not_false ⟨?_, by simpa using hdir, rfl⟩
    simpa [Option.isSome_iff_ne_none] using hopen

theorem targetLine_decides {first : Line} {st : State} :
    Decides (targetLine files ov line first st) (TargetBad ov (st.target.map Target.info) first)
      (fun st' => ∃ info, TargetGood files ov (st.target.map Target.info) first info ∧
        st' = { st with target := some ⟨targetPath ov.target first, info, freshObject info⟩ }) := by
  unfold targetLine TargetBad TargetGood
  cases ht : st.target with
  | some t =>
    simp only [Option.isSome_some, if_true]
    refine Decides.of_error ?_ ?_
    · rintro ⟨h, -⟩
      cases h
    · rintro ⟨_, _, ⟨h, -⟩, -⟩
      cases h
  | none =>
    simp only [Option.isSome_none, Bool.false_eq_true, if_false, Option.map_none, true_and]
    generalize targetPath ov.target first = path
    by_cases hlen : pathMax ≤ path.length
    · rw [if_pos hlen]
      refine Decides.of_fault hlen ?_
      rintro ⟨_, _, ⟨h, -⟩, -⟩
      omega
    · rw [if_neg hlen]
      refine (openLibrary_decides.map _).congr (iff_of_false not_false hlen) (fun st' => ?_)
      simp only [Nat.not_le.1 hlen, true_and]

/-- A comment that does not fit its buffer. -/
def CommentBad (c : Comments) (first : Line) : Prop := readComment c (lineLength first).toNat = .error .overrun

theorem readComment_error {c : Comments} {n : Nat} {f : Fault} (h : readComment c n = .error f) : f = .overrun := by
  unfold readComment at h
  generalize (if c.size ≤ c.pos + (n + 1) then c.size + 128 * 1024 else c.size) = size at h
  by_cases hb : size ≤ c.pos + n ∨ 2 ^ 31 ≤ size
  · rw [if_pos hb] at h
    exact (Except.error.inj h).symm
  · rw [if_neg hb] at h
    cases h

/-- A line behind the container and its dependencies that ends in a fault. -/
def BodyBad (ov : Overrides) (comments : Comments) (target : Option UlpSoInfo) (first : Line) : Prop :=
  match kindOf first with
  | .blank     => False
  | .comment   => CommentBad comments first
  | .target    => TargetBad ov target first
  | .reference => target.isSome = true ∧ ReferenceBad (cstr (chomp first))
  | .function  => target.isSome = true ∧ FunctionBad (cstr (chomp first))

/-- A line that is taken, and the state behind it. -/
def BodyGood (files : Files) (ov : Overrides) (container : UlpSoInfo) (first : Line) (st st' : State) : Prop :=
  match kindOf first with
  | .blank     => st' = st
  | .comment   => ∃ c, readComment st.comments (lineLength first).toNat = .ok c ∧ st' = { st with comments := c }
  | .target    => ∃ info, TargetGood files ov (st.target.map Target.info) first info ∧
      st' = { st with target := some ⟨targetPath ov.target first, info, freshObject info⟩ }
  | .reference => ∃ t, st.target = some t ∧ ∃ ref, ReferenceGood container t.info (cstr (chomp first)) ∧
      st' = st.addReference ref
  | .function  => ∃ t, st.target = some t ∧ ∃ unit, FunctionGood container t.info (cstr (chomp first)) unit ∧
      st' = { st with target := some (t.addUnit unit) }

/-- **What one line does.** -/
theorem bodyLine_decides {first : Line} {st : State} :
    Decides (bodyLine files ov container containerPath line first st)
      (BodyBad ov st.comments (st.target.map Target.info) first) (BodyGood files ov container first st) := by
  unfold bodyLine BodyBad BodyGood
  cases kindOf first with
  | blank => exact Decides.of_ok (fun h => h) rfl
  | comment =>
    simp only [CommentBad]
    cases hc : readComment st.comments (lineLength first).toNat with
    | error f =>
      obtain rfl := readComment_error hc
      refine Decides.of_fault rfl ?_
      rintro ⟨_, _, h, -⟩
      cases h
    | ok c => exact Decides.of_ok (fun h => (by cases h)) ⟨c, rfl, rfl⟩
  | target => exact targetLine_decides
  | reference =>
    simp only
    cases ht : st.target with
    | none =>
      refine Decides.of_error ?_ ?_
      · rintro ⟨h, -⟩
        cases h
      · rintro ⟨_, _, h, -⟩
        cases h
    | some t =>
      obtain ⟨hf, hok, hgood⟩ := (@referenceLine_decides container containerPath line t (cstr (chomp first))).map
        st.addReference
      refine ⟨hf.trans (by simp), hok.trans ?_, ?_⟩
      · simp
      · intro st' hst'
        exact ⟨t, rfl, hgood st' hst'⟩
  | function =>
    simp only
    cases ht : st.target with
    | none =>
      refine Decides.of_error ?_ ?_
      · rintro ⟨h, -⟩
        cases h
      · rintro ⟨_, _, h, -⟩
        cases h
    | some t =>
      obtain ⟨hf, hok, hgood⟩ := (@functionLine_decides container containerPath line t (cstr (chomp first))).map
        (fun unit => ({ st with target := some (t.addUnit unit) } : State))
      refine ⟨hf.trans (by simp), hok.trans ?_, ?_⟩
      · simp
      · intro st' hst'
        exact ⟨t, rfl, hgood st' hst'⟩

end Lines

end Description
end Libpulp
