import Libpulp.Common
import Mathlib.Data.List.DropRight
import Mathlib.Data.Nat.Bitwise
/-!
# TriggerMany — one trigger over many files and processes (tools/trigger.c)

`trigger_many_ulps` goes over the files of a folder that match a wildcard, in recursive mode also over those of its
subdirectories, and ORs a flag for each outcome; `trigger_many_processes` goes over the processes.  What
`trigger_one_process` makes of a process and a file is a parameter.  The recursion's flags are dropped, and so is what a
wildcard run found when it comes to the exit status (`triggerReports_iff`).
-/
namespace Libpulp
namespace Rollout

open Bytes (Byte)

abbrev Path := List Byte

def EWILDNOMATCH : UlpError := 279
def EPERM : UlpError := 1
def ENOSYS : UlpError := 38

/-! ## Paths -/

/-- A path without the slashes at its end. -/
def rstrip (path : Path) : Path := path.rdropWhile (· == 47)

/-- The directory that a path up to a slash names. -/
def dirOf (upto : Path) : Path :=
  if rstrip upto = [] then (if upto.length = 2 then [47, 47] else [47]) else rstrip upto

/-- `dirname` of the C library: `.` without a slash, two slashes at the front stay two. -/
def dirname (path : Path) : Path :=
  let upto := if rstrip path = [] then path else (rstrip path).rdropWhile (· != 47)
  if upto = [] then [46] else dirOf upto

/-- `strrchr(name, '.')` is `.so`. -/
def isSo (name : Path) : Bool := name.contains 46 && (name.reverse.takeWhile (· != 46)).reverse == [115, 111]

/-- What the system answers about directories: the names in them, in the order of `readdir`. -/
structure Tree where
  opendir     : Path → Option (List Path)
  isDirectory : Path → Bool
  names       : ∀ dir ns n, opendir dir = some ns → n ∈ ns → n ≠ [] ∧ 47 ∉ n

/-- Where a trigger runs: the tree, `fnmatch`, `--recursive`, and what `trigger_one_process` returns for a process and a
path. -/
structure World (P : Type) where
  tree          : Tree
  fnmatch       : Path → Path → Bool
  recursiveMode : Bool
  outcome       : P → Option Path → BitVec 32

/-! ## Outcomes -/

def skippableError (err : BitVec 32) : Bool :=
  [EBUILDID, ENOTARGETLIB, EUSRBLOCKED, EWILDNOMATCH, EAPPLIED, ENOPATCH, ESRCH].any (fun e => err == BitVec.ofInt 32 e)

def processPatchSuccess : Nat := 1
def processPatchSkipped : Nat := 2
def processPatchError : Nat := 4

/-- The flag of an outcome. -/
def flagOf (r : BitVec 32) : Nat :=
  if r = 0 then processPatchSuccess else if skippableError r then processPatchSkipped else processPatchError

/-- An entry of `target->results`. -/
structure TriggerResult where
  patchName : Option Path
  err       : BitVec 32
deriving DecidableEq

section many

variable {P : Type} (w : World P) (p : P) (folder wildcard : Path)

/-- The end of the loop body: a file that matches is triggered, under the name in the buffer. -/
def triggerEntry (name buffer : Path) (acc : Nat × List TriggerResult) : Nat × List TriggerResult :=
  if !isSo name then acc
  else if !w.fnmatch wildcard name then acc
  else
    let r := w.outcome p (some buffer)
    (acc.1 ||| flagOf r, ⟨some buffer, r⟩ :: acc.2)

/-- The path that the recursion is called with. -/
def subPath (buffer : Path) : Path := (if buffer.getLast? = some 47 then buffer else buffer ++ [47]) ++ wildcard

/-- The loop body for one entry. -/
def visitEntry (recur : Path → List TriggerResult → Option (Nat × List TriggerResult)) (name : Path)
    (acc : Nat × List TriggerResult) : Option (Nat × List TriggerResult) :=
  let bytes := folder.length + 1 + name.length
  let buffer := folder ++ 47 :: name
  if ulpPathLen ≤ bytes then some acc
  else if name = [46] ∨ name = [46, 46] then some acc
  else if w.tree.isDirectory buffer then
    if w.recursiveMode then
      if ulpPathLen ≤ bytes + wildcard.length + 1 then some acc
      else
        -- the recursion's flags are overwritten or forgotten, and the buffer keeps the wildcard
        match recur (subPath wildcard buffer) acc.2 with
        | none              => none
        | some (_, results) => some (triggerEntry w p wildcard name (subPath wildcard buffer) (acc.1, results))
    else some acc
  else some (triggerEntry w p wildcard name buffer acc)

def visitEntries (recur : Path → List TriggerResult → Option (Nat × List TriggerResult)) :
    List Path → Nat × List TriggerResult → Option (Nat × List TriggerResult)
  | [], acc            => some acc
  | name :: names, acc => (visitEntry w p folder wildcard recur name acc).bind (visitEntries recur names)

/-- `trigger_many_ulps`, with a depth of `fuel` calls: the flags and the process's results.  `none` when it does not come
back or overruns its buffer. -/
def triggerManyUlps : Nat → Path → List TriggerResult → Option (Nat × List TriggerResult)
  | 0, _, _                => none
  | fuel + 1, path, results =>
    match w.tree.opendir (dirname path) with
    | none       => some (0, results)
    | some names =>
      if ulpPathLen < (dirname path).length + 2 then none
      else visitEntries w p (dirname path) (getBasename path) (triggerManyUlps fuel) names (0, results)

end many

/-! ## Over the processes -/

/-- The locals of `trigger_many_processes`, and for each process what it got. -/
structure Tally (P : Type) where
  ret       : BitVec 32
  successes : Nat
  skippes   : Nat
  failures  : Nat
  report    : List (P × List TriggerResult)

/-- What `run_trigger` looks at of its arguments, and `check_sys_admin`. -/
structure Arguments where
  userWildcard   : Bool
  disableSeccomp : Bool
  checkSysAdmin  : Bool
  path           : Option Path

section processes

variable {P : Type} (w : World P)

/-- A path with a `*`. -/
def isWildcard (path : Option Path) : Bool := path.any (fun q => q.contains 42)

/-- The loop body for one process. -/
def triggerProcess (fuel : Nat) (path : Option Path) (p : P) (t : Tally P) : Option (Tally P) :=
  if isWildcard path then
    (triggerManyUlps w p fuel (path.getD []) []).map (fun (r, results) =>
      { t with
        successes := t.successes + (if r &&& processPatchSuccess ≠ 0 then 1 else 0)
        skippes := t.skippes + (if r &&& processPatchSuccess = 0 ∧ r &&& processPatchSkipped ≠ 0 then 1 else 0)
        failures := t.failures + (if r &&& processPatchError ≠ 0 then 1 else 0)
        report := t.report ++ [(p, results)] })
  else
    let r := w.outcome p path
    let t := { t with report := t.report ++ [(p, [TriggerResult.mk path r])] }
    if skippableError r then some { t with skippes := t.skippes + 1 }
    else
      let t := { t with ret := t.ret ||| r }
      if r = 0 then some { t with successes := t.successes + 1 } else some { t with failures := t.failures + 1 }

def triggerProcesses (fuel : Nat) (path : Option Path) : List P → Tally P → Option (Tally P)
  | [], t      => some t
  | p :: ps, t => (triggerProcess w fuel path p t).bind (triggerProcesses fuel path ps)

/-- `trigger_many_processes` over the processes that the iteration hands out. -/
def triggerManyProcesses (fuel : Nat) (path : Option Path) (ps : List P) : Option (Tally P) :=
  triggerProcesses w fuel path ps ⟨0, 0, 0, 0, []⟩

/-- The two refusals at the start of `run_trigger`. -/
def refusal (a : Arguments) : Option UlpError :=
  if a.userWildcard then some ENOSYS
  else if a.disableSeccomp && !a.checkSysAdmin then some EPERM
  else none

/-- `run_trigger`: its exit status and what each process got. -/
def runTrigger (fuel : Nat) (a : Arguments) (ps : List P) : Option (BitVec 32 × List (P × List TriggerResult)) :=
  match refusal a with
  | some err => some (BitVec.ofInt 32 err, [])
  | none     => (triggerManyProcesses w fuel a.path ps).map (fun t => (t.ret, t.report))

end processes

/-! ## What is promised -/

section spec

variable {P : Type} (w : World P)

/-- The directories of a tree: the folder, in recursive mode also what is below it. -/
inductive Below (folder : Path) : Path → Prop
  | here : Below folder folder
  | down {dir n : Path} {ns : List Path} (h : Below folder dir) (hrec : w.recursiveMode = true)
      (ho : w.tree.opendir dir = some ns) (hn : n ∈ ns) (hdots : ¬ (n = [46] ∨ n = [46, 46]))
      (hd : w.tree.isDirectory (dir ++ 47 :: n) = true) : Below folder (dir ++ 47 :: n)

/-- A `.so` file of the tree that matches the wildcard. -/
def Matching (path file : Path) : Prop :=
  ∃ dir ns n, Below w (dirname path) dir ∧ w.tree.opendir dir = some ns ∧ n ∈ ns ∧
    w.tree.isDirectory (dir ++ 47 :: n) = false ∧ isSo n = true ∧ w.fnmatch (getBasename path) n = true ∧
      file = dir ++ 47 :: n

/-- `ret` is the OR of the flags of all matching files. -/
def IsOr (p : P) (path : Path) (ret : Nat) : Prop :=
  ∀ i, ret.testBit i = true ↔ ∃ file, Matching w path file ∧ (flagOf (w.outcome p (some file))).testBit i = true

/-- An outcome that a trigger may end with and still be fine. -/
def Harmless (r : BitVec 32) : Prop := r = 0 ∨ skippableError r = true

/-- **What a trigger reports**: with a wildcard `trigger_many_ulps` comes back with the OR of the flags for every process,
and `run_trigger` comes back, not with 0 when some outcome was an error. -/
structure TriggerReports (a : Arguments) (ps : List P) : Prop where
  returns    : isWildcard a.path = true → ∀ p ∈ ps, ∃ fuel, (triggerManyUlps w p fuel (a.path.getD []) []).isSome = true
  flags      : isWildcard a.path = true → ∀ p ∈ ps, ∀ fuel ret results,
    triggerManyUlps w p fuel (a.path.getD []) [] = some (ret, results) → IsOr w p (a.path.getD []) ret
  runReturns : ∃ fuel, (runTrigger w fuel a ps).isSome = true
  exitStatus : ∀ fuel ret report, runTrigger w fuel a ps = some (ret, report) →
    (∃ p results, (p, results) ∈ report ∧ ∃ x ∈ results, ¬ Harmless x.err) → ret ≠ 0

end spec

/-! ## When it is kept -/

inductive EntryKind where
  | skipped
  | file
  | dir
deriving DecidableEq

section condition

variable {P : Type} (w : World P) (folder wildcard : Path)

/-- What the loop takes an entry of the folder for. -/
def kindOf (name : Path) : EntryKind :=
  if ulpPathLen ≤ folder.length + 1 + name.length ∨ name = [46] ∨ name = [46, 46] then .skipped
  else if w.tree.isDirectory (folder ++ 47 :: name) = false then .file
  else if w.recursiveMode = false ∨ ulpPathLen ≤ folder.length + 1 + name.length + wildcard.length + 1 then .skipped
  else .dir

/-- An entry is triggered as `file`: under its own path, or a directory's with the wildcard behind it. -/
def TriggeredAs (name file : Path) : Prop :=
  isSo name = true ∧ w.fnmatch wildcard name = true ∧
    (kindOf w folder wildcard name = .file ∧ file = folder ++ 47 :: name ∨
      kindOf w folder wildcard name = .dir ∧ file = subPath wildcard (folder ++ 47 :: name))

/-- A path that an entry of the folder is triggered as. -/
def Direct (file : Path) : Prop :=
  ∃ ns n, w.tree.opendir folder = some ns ∧ n ∈ ns ∧ TriggeredAs w folder wildcard n file

/-- The loop goes into a directory of the folder. -/
def HasDir : Prop := ∃ ns n, w.tree.opendir folder = some ns ∧ n ∈ ns ∧ kindOf w folder wildcard n = .dir

/-- The folders that the recursion gets to. -/
inductive Visited : Path → Path → Prop
  | here (folder : Path) : Visited folder folder
  | down {folder dir n : Path} {ns : List Path} (ho : w.tree.opendir folder = some ns) (hn : n ∈ ns)
      (hk : kindOf w folder wildcard n = .dir) (h : Visited (dirname (subPath wildcard (folder ++ 47 :: n))) dir) :
      Visited folder dir

/-- With nothing behind the last slash of a path, the recursion is called for the folder it is in. -/
def Loops (path : Path) : Prop :=
  getBasename path = [] ∧ HasDir w (dirname path) [] ∧ HasDir w (dirOf (dirname path ++ [47])) []

/-- **When `trigger_many_ulps` does what it says**: a folder that opens fits the buffer, the recursion ends, and as to
success, skip and error the entries of the folder itself tell all there is to tell. -/
structure ManyOk (p : P) (path : Path) : Prop where
  fits      : w.tree.opendir (dirname path) ≠ none → (dirname path).length + 2 ≤ ulpPathLen
  ends      : ¬ Loops w path
  noneBelow : ∀ file, Matching w path file → ∃ file', Direct w (dirname path) (getBasename path) file' ∧
    flagOf (w.outcome p (some file')) = flagOf (w.outcome p (some file))
  noneElse  : ∀ file, Direct w (dirname path) (getBasename path) file → ∃ file', Matching w path file' ∧
    flagOf (w.outcome p (some file')) = flagOf (w.outcome p (some file))

/-- No call that is made for the process ends with an error. -/
def AllHarmless (p : P) (path : Path) : Prop :=
  ∀ dir file, Visited w (getBasename path) (dirname path) dir → Direct w dir (getBasename path) file →
    Harmless (w.outcome p (some file))

end condition

/-! ## Paths of the recursion -/

theorem rstrip_slash (path : Path) : rstrip (path ++ [47]) = rstrip path := List.rdropWhile_concat_pos _ _ _ rfl

theorem rstrip_name {n : Path} (hn : n ≠ []) (h47 : 47 ∉ n) (front : Path) : rstrip (front ++ n) = front ++ n := by
  apply List.rdropWhile_eq_self_iff.2
  intro hne h
  rw [List.getLast_append_of_ne_nil _ hn, beq_iff_eq] at h
  exact h47 (h ▸ List.getLast_mem hn)

theorem ne_slash {n : Path} (h47 : 47 ∉ n) : ∀ a ∈ n.reverse, (a != 47) = true := by
  intro a ha
  rw [bne_iff_ne]
  rintro rfl
  exact h47 (List.mem_reverse.1 ha)

/-- From the end of a path back to a slash, over a name. -/
theorem rdropWhile_name {n : Path} (h47 : 47 ∉ n) (front : Path) :
    (front ++ 47 :: n).rdropWhile (· != 47) = front ++ [47] := by
  rw [List.rdropWhile, List.reverse_append, List.reverse_cons, List.append_assoc, List.singleton_append,
    List.dropWhile_append_of_pos (ne_slash h47), List.dropWhile_cons_of_neg (by decide), List.reverse_cons,
    List.reverse_reverse]

theorem not_mem_getBasename (path : Path) : 47 ∉ getBasename path := by
  intro h
  have := List.mem_takeWhile_imp (List.mem_reverse.1 h)
  simp at this

theorem getBasename_join {wildcard : Path} (h47 : 47 ∉ wildcard) (front : Path) :
    getBasename (front ++ 47 :: wildcard) = wildcard := by
  unfold getBasename
  rw [List.reverse_append, List.reverse_cons, List.append_assoc, List.singleton_append,
    List.takeWhile_append_of_pos (ne_slash h47), List.takeWhile_cons_of_neg (by decide), List.append_nil,
    List.reverse_reverse]

theorem subPath_eq {n : Path} (hn : n ≠ []) (h47 : 47 ∉ n) (folder wildcard : Path) :
    subPath wildcard (folder ++ 47 :: n) = folder ++ 47 :: n ++ 47 :: wildcard := by
  unfold subPath
  have hlast : (folder ++ 47 :: n).getLast? ≠ some 47 := by
    obtain ⟨m, c, rfl⟩ := List.eq_nil_or_concat n |>.resolve_left hn
    rw [List.concat_eq_append, ← List.cons_append, ← List.append_assoc, List.getLast?_concat]
    intro h
    exact h47 (by simp [Option.some.inj h])
  rw [if_neg hlast, List.append_assoc, List.singleton_append]

/-- A path that ends with a name is in the directory before it. -/
theorem dirname_of_rstrip {path front n : Path} (hstrip : rstrip path = front ++ 47 :: n) (h47 : 47 ∉ n) :
    dirname path = dirOf (front ++ [47]) := by
  have hupto : (if rstrip path = [] then path else (rstrip path).rdropWhile (· != 47)) = front ++ [47] := by
    rw [hstrip, if_neg (by simp), rdropWhile_name h47]
  unfold dirname
  rw [hupto]
  exact if_neg (by simp)

theorem rstrip_join {n : Path} (hn : n ≠ []) (h47 : 47 ∉ n) (front : Path) :
    rstrip (front ++ 47 :: n) = front ++ 47 :: n := by
  have := rstrip_name hn h47 (front ++ [47])
  rwa [List.append_assoc, List.singleton_append] at this

/-- The recursion splits its path again into the folder and the wildcard. -/
theorem dirname_subPath {n wildcard : Path} (hn : n ≠ []) (h47 : 47 ∉ n) (hw : wildcard ≠ []) (hw47 : 47 ∉ wildcard)
    (folder : Path) : dirname (subPath wildcard (folder ++ 47 :: n)) = folder ++ 47 :: n := by
  rw [subPath_eq hn h47, dirname_of_rstrip (rstrip_join hw hw47 _) hw47, dirOf, rstrip_slash, rstrip_join hn h47,
    if_neg (by simp)]

/-- With no wildcard it gets the folder itself again. -/
theorem dirname_subPath_nil {n : Path} (hn : n ≠ []) (h47 : 47 ∉ n) (folder : Path) :
    dirname (subPath [] (folder ++ 47 :: n)) = dirOf (folder ++ [47]) := by
  have hstrip : rstrip (subPath [] (folder ++ 47 :: n)) = folder ++ 47 :: n := by
    rw [subPath_eq hn h47, rstrip_slash, rstrip_join hn h47]
  exact dirname_of_rstrip hstrip h47

theorem getBasename_subPath {n wildcard : Path} (hn : n ≠ []) (h47 : 47 ∉ n) (hw47 : 47 ∉ wildcard) (folder : Path) :
    getBasename (subPath wildcard (folder ++ 47 :: n)) = wildcard := by
  rw [subPath_eq hn h47, getBasename_join hw47]

/-- A folder is the root, in one of two spellings, or does not end with a slash. -/
theorem dirname_cases (path : Path) :
    dirname path = [47] ∨ dirname path = [47, 47] ∨ dirname path ≠ [] ∧ rstrip (dirname path) = dirname path := by
  have hdirOf : ∀ upto,
      dirOf upto = [47] ∨ dirOf upto = [47, 47] ∨ dirOf upto ≠ [] ∧ rstrip (dirOf upto) = dirOf upto := by
    intro upto
    unfold dirOf
    split
    · split
      · exact .inr (.inl rfl)
      · exact .inl rfl
    · rename_i hne
      exact .inr (.inr ⟨hne, List.rdropWhile_idempotent _ upto⟩)
  unfold dirname
  generalize (if rstrip path = [] then path else (rstrip path).rdropWhile (· != 47)) = upto
  by_cases h : upto = []
  · subst h
    exact .inr (.inr (by decide))
  · simp only [if_neg h]
    exact hdirOf upto

/-- Two levels down with no wildcard the recursion is at the same folder again. -/
theorem dirOf_dirOf (path : Path) :
    dirOf (dirOf (dirname path ++ [47]) ++ [47]) = dirname path ∧
      (dirOf (dirname path ++ [47])).length ≤ max (dirname path).length 2 := by
  rcases dirname_cases path with h | h | ⟨hne, hstrip⟩
  · rw [h]
    decide
  · rw [h]
    decide
  · have hsame : dirOf (dirname path ++ [47]) = dirname path := by
      rw [dirOf, rstrip_slash, hstrip, if_neg hne]
    rw [hsame, hsame]
    exact ⟨rfl, Nat.le_max_left _ _⟩

/-! ## One entry -/

section entry

variable {P : Type} {w : World P} {p : P} {folder wildcard : Path}

theorem triggerEntry_spec (w : World P) (p : P) (wildcard name buffer : Path) (acc : Nat × List TriggerResult) :
    (∀ i, (triggerEntry w p wildcard name buffer acc).1.testBit i = true ↔ acc.1.testBit i = true ∨
        (isSo name = true ∧ w.fnmatch wildcard name = true) ∧ (flagOf (w.outcome p (some buffer))).testBit i = true) ∧
      ∀ x, x ∈ (triggerEntry w p wildcard name buffer acc).2 ↔ x ∈ acc.2 ∨
        (isSo name = true ∧ w.fnmatch wildcard name = true) ∧ x = ⟨some buffer, w.outcome p (some buffer)⟩ := by
  unfold triggerEntry
  cases isSo name with
  | false => simp
  | true  =>
    cases w.fnmatch wildcard name with
    | false => simp
    | true  =>
      simp only [Bool.not_true, Bool.false_eq_true, if_false, Nat.testBit_or, Bool.or_eq_true, List.mem_cons, and_self,
        true_and, implies_true]
      exact fun x => Or.comm

/-- What the loop body does, by what it takes the entry for. -/
theorem visitEntry_eq (recur : Path → List TriggerResult → Option (Nat × List TriggerResult)) (name : Path)
    (acc : Nat × List TriggerResult) :
    visitEntry w p folder wildcard recur name acc =
      match kindOf w folder wildcard name with
      | .skipped => some acc
      | .file    => some (triggerEntry w p wildcard name (folder ++ 47 :: name) acc)
      | .dir     => (recur (subPath wildcard (folder ++ 47 :: name)) acc.2).map (fun r =>
          triggerEntry w p wildcard name (subPath wildcard (folder ++ 47 :: name)) (acc.1, r.2)) := by
  unfold visitEntry kindOf
  by_cases hlen : ulpPathLen ≤ folder.length + 1 + name.length
  · simp only [hlen, if_true, true_or]
  · by_cases hdots : name = [46] ∨ name = [46, 46]
    · simp only [hlen, hdots, if_false, if_true, or_true]
    · cases hd : w.tree.isDirectory (folder ++ 47 :: name) with
      | false => simp only [hlen, hdots, hd, if_false, if_true, or_self, Bool.false_eq_true]
      | true  =>
        cases hrec : w.recursiveMode with
        | false =>
          simp only [hlen, hdots, hd, if_false, if_true, or_self, Bool.false_eq_true, Bool.true_eq_false, true_or]
        | true  =>
          by_cases hsub : ulpPathLen ≤ folder.length + 1 + name.length + wildcard.length + 1
          · simp only [hlen, hdots, hd, hsub, if_false, if_true, or_self, Bool.true_eq_false, or_true]
          · simp only [hlen, hdots, hd, hsub, if_false, if_true, or_self, Bool.true_eq_false]
            cases recur (subPath wildcard (folder ++ 47 :: name)) acc.2 with
            | none   => rfl
            | some r => rfl

/-- The results before an entry's own call: those of the recursion, where there is one. -/
def Recursed (w : World P) (folder wildcard : Path)
    (recur : Path → List TriggerResult → Option (Nat × List TriggerResult)) (name : Path)
    (before after : List TriggerResult) : Prop :=
  if kindOf w folder wildcard name = .dir then
    ∃ ret, recur (subPath wildcard (folder ++ 47 :: name)) before = some (ret, after)
  else after = before

theorem visitEntry_spec {recur : Path → List TriggerResult → Option (Nat × List TriggerResult)} {name : Path}
    {acc r : Nat × List TriggerResult} (h : visitEntry w p folder wildcard recur name acc = some r) :
    (∀ i, r.1.testBit i = true ↔ acc.1.testBit i = true ∨
        ∃ file, TriggeredAs w folder wildcard name file ∧ (flagOf (w.outcome p (some file))).testBit i = true) ∧
      ∃ mid, Recursed w folder wildcard recur name acc.2 mid ∧
        ∀ x, x ∈ r.2 ↔ x ∈ mid ∨
          ∃ file, TriggeredAs w folder wildcard name file ∧ x = ⟨some file, w.outcome p (some file)⟩ := by
  rw [visitEntry_eq] at h
  unfold Recursed TriggeredAs
  cases hk : kindOf w folder wildcard name with
  | skipped =>
    rw [hk] at h
    cases h
    simp
  | file =>
    rw [hk] at h
    cases h
    have hspec := triggerEntry_spec w p wildcard name (folder ++ 47 :: name) acc
    refine ⟨fun i => ?_, acc.2, by simp, fun x => ?_⟩
    · rw [hspec.1 i]
      simp [and_assoc]
    · rw [hspec.2 x]
      simp [and_assoc]
  | dir =>
    rw [hk] at h
    obtain ⟨⟨ret, mid⟩, hrecur, rfl⟩ := Option.map_eq_some_iff.1 h
    have hspec := triggerEntry_spec w p wildcard name
      (subPath wildcard (folder ++ 47 :: name)) (acc.1, mid)
    refine ⟨fun i => ?_, mid, by simpa using ⟨ret, hrecur⟩, fun x => ?_⟩
    · rw [hspec.1 i]
      simp [and_assoc]
    · rw [hspec.2 x]
      simp [and_assoc]

/-! ## One folder -/

variable {recur : Path → List TriggerResult → Option (Nat × List TriggerResult)}

/-- The flags that come out are those of the folder's own entries. -/
theorem visitEntries_flags : ∀ (ns : List Path) (acc : Nat × List TriggerResult) {r : Nat × List TriggerResult},
    visitEntries w p folder wildcard recur ns acc = some r →
      ∀ i, r.1.testBit i = true ↔ acc.1.testBit i = true ∨
        ∃ n ∈ ns, ∃ file, TriggeredAs w folder wildcard n file ∧ (flagOf (w.outcome p (some file))).testBit i = true
  | [], acc, r, h       => by
    cases h
    simp
  | n :: ns, acc, r, h => by
    intro i
    obtain ⟨mid, hn, hns⟩ := Option.bind_eq_some_iff.1 h
    rw [visitEntries_flags ns mid hns i, (visitEntry_spec hn).1 i]
    simp [or_assoc]

/-- The results that come out are those of the recursion and of the folder's own entries. -/
theorem visitEntries_results {R : Path → TriggerResult → Prop}
    (hrecur : ∀ q res ret res', recur q res = some (ret, res') → ∀ x, x ∈ res' ↔ x ∈ res ∨ R q x) :
    ∀ (ns : List Path) (acc : Nat × List TriggerResult) {r : Nat × List TriggerResult},
      visitEntries w p folder wildcard recur ns acc = some r →
        ∀ x, x ∈ r.2 ↔ x ∈ acc.2 ∨
          ∃ n ∈ ns, kindOf w folder wildcard n = .dir ∧ R (subPath wildcard (folder ++ 47 :: n)) x ∨
            ∃ file, TriggeredAs w folder wildcard n file ∧ x = ⟨some file, w.outcome p (some file)⟩
  | [], acc, r, h      => by
    cases h
    simp
  | n :: ns, acc, r, h => by
    intro x
    obtain ⟨step, hn, hns⟩ := Option.bind_eq_some_iff.1 h
    obtain ⟨mid, hmid, hx⟩ := (visitEntry_spec hn).2
    have hmem : x ∈ mid ↔ x ∈ acc.2 ∨ kindOf w folder wildcard n = .dir ∧ R (subPath wildcard (folder ++ 47 :: n)) x := by
      unfold Recursed at hmid
      split at hmid
      · rename_i hk
        obtain ⟨ret, hret⟩ := hmid
        rw [hrecur _ _ _ _ hret x]
        simp [hk]
      · rename_i hk
        rw [hmid]
        simp [hk]
    rw [visitEntries_results hrecur ns step hns x, hx x, hmem]
    simp only [List.exists_mem_cons_iff, or_assoc]

theorem visitEntries_isSome : ∀ (ns : List Path) (acc : Nat × List TriggerResult),
    (∀ n ∈ ns, kindOf w folder wildcard n = .dir →
      ∀ res, (recur (subPath wildcard (folder ++ 47 :: n)) res).isSome = true) →
    (visitEntries w p folder wildcard recur ns acc).isSome = true
  | [], acc, _      => rfl
  | n :: ns, acc, h => by
    have hn : ∃ mid, visitEntry w p folder wildcard recur n acc = some mid := by
      rw [visitEntry_eq]
      cases hk : kindOf w folder wildcard n with
      | skipped => exact ⟨_, rfl⟩
      | file    => exact ⟨_, rfl⟩
      | dir     =>
        obtain ⟨r, hr⟩ := Option.isSome_iff_exists.1 (h n List.mem_cons_self hk acc.2)
        rw [hr]
        exact ⟨_, rfl⟩
    obtain ⟨mid, hmid⟩ := hn
    unfold visitEntries
    rw [hmid, Option.bind_some]
    exact visitEntries_isSome ns mid (fun m hm => h m (List.mem_cons_of_mem n hm))

theorem visitEntries_none {m : Path} (hk : kindOf w folder wildcard m = .dir)
    (hrecur : ∀ res, recur (subPath wildcard (folder ++ 47 :: m)) res = none) :
    ∀ (ns : List Path) (acc : Nat × List TriggerResult), m ∈ ns → visitEntries w p folder wildcard recur ns acc = none
  | n :: ns, acc, hm => by
    unfold visitEntries
    rcases List.mem_cons.1 hm with rfl | hm
    · rw [visitEntry_eq, hk]
      simp only [hrecur]
      rfl
    · cases visitEntry w p folder wildcard recur n acc with
      | none     => rfl
      | some mid => exact visitEntries_none hk hrecur ns mid hm

end entry

/-! ## The recursion -/

section recursion

variable {P : Type} {w : World P} {p : P}

theorem kindOf_dir {folder wildcard n : Path} (h : kindOf w folder wildcard n = .dir) :
    folder.length + 1 + n.length + wildcard.length + 1 < ulpPathLen ∧ w.recursiveMode = true ∧
      w.tree.isDirectory (folder ++ 47 :: n) = true ∧ ¬ (n = [46] ∨ n = [46, 46]) := by
  unfold kindOf at h
  split at h
  · cases h
  · rename_i hlen
    split at h
    · cases h
    · rename_i hd
      split at h
      · cases h
      · rename_i hrec
        rw [not_or] at hlen hrec
        exact ⟨Nat.lt_of_not_le hrec.2, Bool.eq_true_of_not_eq_false hrec.1, Bool.eq_true_of_not_eq_false hd, hlen.2⟩

/-- A call that comes back: the folder does not open, or it fits the buffer and its entries are gone through. -/
theorem triggerManyUlps_some {fuel : Nat} {path : Path} {results : List TriggerResult} {r : Nat × List TriggerResult}
    (h : triggerManyUlps w p (fuel + 1) path results = some r) :
    (w.tree.opendir (dirname path) = none ∧ r = (0, results)) ∨
      ∃ ns, w.tree.opendir (dirname path) = some ns ∧ (dirname path).length + 2 ≤ ulpPathLen ∧
        visitEntries w p (dirname path) (getBasename path) (triggerManyUlps w p fuel) ns (0, results) = some r := by
  unfold triggerManyUlps at h
  cases ho : w.tree.opendir (dirname path) with
  | none =>
    rw [ho] at h
    exact .inl ⟨rfl, (Option.some.inj h).symm⟩
  | some ns =>
    rw [ho] at h
    simp only at h
    split at h
    · cases h
    · exact .inr ⟨ns, rfl, by omega, h⟩

/-- **The flags** are those of the folder's own entries. -/
theorem triggerManyUlps_flags {fuel : Nat} {path : Path} {results results' : List TriggerResult} {ret : Nat}
    (h : triggerManyUlps w p fuel path results = some (ret, results')) (i : Nat) :
    ret.testBit i = true ↔ ∃ file, Direct w (dirname path) (getBasename path) file ∧
      (flagOf (w.outcome p (some file))).testBit i = true := by
  cases fuel with
  | zero      => cases h
  | succ fuel =>
    rcases triggerManyUlps_some h with ⟨ho, hr⟩ | ⟨ns, ho, -, hns⟩
    · cases hr
      constructor
      · intro h0
        simp at h0
      · rintro ⟨file, ⟨ns, n, ho', -⟩, -⟩
        cases ho.symm.trans ho'
    · rw [visitEntries_flags ns _ hns i]
      constructor
      · rintro (h0 | ⟨n, hn, file, hfile, hi⟩)
        · simp at h0
        · exact ⟨file, ⟨ns, n, ho, hn, hfile⟩, hi⟩
      · rintro ⟨file, ⟨ns', n, ho', hn, hfile⟩, hi⟩
        cases ho.symm.trans ho'
        exact .inr ⟨n, hn, file, hfile, hi⟩

/-- A call made somewhere below the folder of a path. -/
def CalledBelow (w : World P) (p : P) (path : Path) (x : TriggerResult) : Prop :=
  ∃ dir file, Visited w (getBasename path) (dirname path) dir ∧ Direct w dir (getBasename path) file ∧
    x = ⟨some file, w.outcome p (some file)⟩

/-- What is below a folder: the calls for its own entries, and what is below its directories. -/
theorem calledBelow_iff {path : Path} {ns : List Path} (ho : w.tree.opendir (dirname path) = some ns)
    (x : TriggerResult) :
    CalledBelow w p path x ↔ ∃ n ∈ ns,
      kindOf w (dirname path) (getBasename path) n = .dir ∧
          CalledBelow w p (subPath (getBasename path) (dirname path ++ 47 :: n)) x ∨
        ∃ file, TriggeredAs w (dirname path) (getBasename path) n file ∧ x = ⟨some file, w.outcome p (some file)⟩ := by
  have hbase : ∀ n ∈ ns, getBasename (subPath (getBasename path) (dirname path ++ 47 :: n)) = getBasename path := by
    intro n hn
    obtain ⟨hne, h47⟩ := w.tree.names _ ns n ho hn
    exact getBasename_subPath hne h47 (not_mem_getBasename path) _
  constructor
  · rintro ⟨dir, file, hv, hdirect, hx⟩
    cases hv with
    | here =>
      obtain ⟨ns', n, ho', hn, hfile⟩ := hdirect
      cases ho.symm.trans ho'
      exact ⟨n, hn, .inr ⟨file, hfile, hx⟩⟩
    | down ho' hn hk hv =>
      cases ho.symm.trans ho'
      refine ⟨_, hn, .inl ⟨hk, dir, file, ?_, ?_, hx⟩⟩
      · rwa [hbase _ hn]
      · rwa [hbase _ hn]
  · rintro ⟨n, hn, ⟨hk, dir, file, hv, hdirect, hx⟩ | ⟨file, hfile, hx⟩⟩
    · rw [hbase n hn] at hv hdirect
      exact ⟨dir, file, .down ho hn hk hv, hdirect, hx⟩
    · exact ⟨dirname path, file, .here _, ⟨ns, n, ho, hn, hfile⟩, hx⟩

/-- **The results** are those of the calls made below the folder. -/
theorem triggerManyUlps_results : ∀ (fuel : Nat) (path : Path) (results : List TriggerResult) (ret : Nat)
    (results' : List TriggerResult), triggerManyUlps w p fuel path results = some (ret, results') →
      ∀ x, x ∈ results' ↔ x ∈ results ∨ CalledBelow w p path x
  | 0, _, _, _, _, h                          => by cases h
  | fuel + 1, path, results, ret, results', h => by
    intro x
    rcases triggerManyUlps_some h with ⟨ho, hr⟩ | ⟨ns, ho, -, hns⟩
    · cases hr
      refine ⟨.inl, ?_⟩
      rintro (hx | ⟨dir, file, hv, hdirect, -⟩)
      · exact hx
      · cases hv with
        | here =>
          obtain ⟨ns, n, ho', -⟩ := hdirect
          cases ho.symm.trans ho'
        | down ho' =>
          cases ho.symm.trans ho'
    · rw [calledBelow_iff ho]
      exact visitEntries_results (triggerManyUlps_results fuel) ns _ hns x

/-! ## Coming back -/

/-- A folder that opens fits the buffer. -/
def Fits (w : World P) (path : Path) : Prop :=
  w.tree.opendir (dirname path) ≠ none → (dirname path).length + 2 ≤ ulpPathLen

theorem triggerManyUlps_isSome {fuel : Nat} {path : Path} (hfit : Fits w path) (results : List TriggerResult)
    (hsub : ∀ n ns, w.tree.opendir (dirname path) = some ns → n ∈ ns →
      kindOf w (dirname path) (getBasename path) n = .dir →
        ∀ res, (triggerManyUlps w p fuel (subPath (getBasename path) (dirname path ++ 47 :: n)) res).isSome = true) :
    (triggerManyUlps w p (fuel + 1) path results).isSome = true := by
  unfold triggerManyUlps
  cases ho : w.tree.opendir (dirname path) with
  | none    => rfl
  | some ns =>
    have hlen := hfit (by rw [ho]; exact Option.some_ne_none ns)
    simp only
    rw [if_neg (by omega)]
    exact visitEntries_isSome ns _ (fun n hn hk => hsub n ns ho hn hk)

/-- With a wildcard every level is longer than the one before it, and the buffer bounds them all. -/
theorem triggerManyUlps_returns : ∀ (fuel : Nat) (path : Path), getBasename path ≠ [] → Fits w path →
    ulpPathLen ≤ fuel + (dirname path).length → ∀ results, (triggerManyUlps w p (fuel + 1) path results).isSome = true
  | fuel, path, hw, hfit, hfuel, results => by
    apply triggerManyUlps_isSome hfit
    intro n ns ho hn hk res
    obtain ⟨hne, h47⟩ := w.tree.names _ ns n ho hn
    have hlen := (kindOf_dir hk).1
    have hpos := List.length_pos_iff.2 hne
    have hwpos := List.length_pos_iff.2 hw
    have hdir := dirname_subPath hne h47 hw (not_mem_getBasename path) (dirname path)
    have hdirlen : (dirname (subPath (getBasename path) (dirname path ++ 47 :: n))).length =
        (dirname path).length + (n.length + 1) := by
      rw [hdir, List.length_append, List.length_cons]
    match fuel, hfuel with
    | 0, hfuel        => omega
    | fuel + 1, hfuel =>
      apply triggerManyUlps_returns fuel
      · rwa [getBasename_subPath hne h47 (not_mem_getBasename path)]
      · intro _
        omega
      · omega

/-- A folder that the recursion does not go below. -/
theorem triggerManyUlps_flat {fuel : Nat} {path : Path} (hfit : Fits w path)
    (hdir : ¬ HasDir w (dirname path) (getBasename path)) (results : List TriggerResult) :
    (triggerManyUlps w p (fuel + 1) path results).isSome = true := by
  apply triggerManyUlps_isSome hfit
  intro n ns ho hn hk
  exact absurd ⟨ns, n, ho, hn, hk⟩ hdir

/-- With no wildcard and a directory at both spellings of the folder there is always a next level. -/
theorem triggerManyUlps_loops {folder : Path} (hback : dirOf (dirOf (folder ++ [47]) ++ [47]) = folder)
    (hdir : HasDir w folder []) (hdir' : HasDir w (dirOf (folder ++ [47])) []) : ∀ (fuel : Nat) (path : Path),
      getBasename path = [] → dirname path = folder ∨ dirname path = dirOf (folder ++ [47]) →
        ∀ results, triggerManyUlps w p fuel path results = none
  | 0, _, _, _, _                             => rfl
  | fuel + 1, path, hbase, hpath, results => by
    obtain ⟨ns, n, ho, hn, hk⟩ : HasDir w (dirname path) [] := by
      rcases hpath with h | h
      · rwa [h]
      · rwa [h]
    obtain ⟨hne, h47⟩ := w.tree.names _ ns n ho hn
    unfold triggerManyUlps
    rw [ho, hbase]
    simp only
    split
    · rfl
    · apply visitEntries_none hk _ ns _ hn
      apply triggerManyUlps_loops hback hdir hdir' fuel
      · exact getBasename_subPath hne h47 List.not_mem_nil _
      · rw [dirname_subPath_nil hne h47]
        rcases hpath with h | h
        · exact .inr (by rw [h])
        · exact .inl (by rw [h, hback])

theorem returns_enough {path : Path} (hfit : Fits w path) (hloops : ¬ Loops w path) (results : List TriggerResult) :
    (triggerManyUlps w p (ulpPathLen + 2) path results).isSome = true := by
  by_cases hbase : getBasename path = []
  · by_cases hdir : HasDir w (dirname path) []
    · apply triggerManyUlps_isSome hfit
      intro n ns ho hn hk res
      rw [hbase]
      obtain ⟨hne, h47⟩ := w.tree.names _ ns n ho hn
      have hup := dirname_subPath_nil hne h47 (dirname path)
      apply triggerManyUlps_flat
      · intro _
        have hlen := hfit (by rw [ho]; exact Option.some_ne_none ns)
        have hle := (dirOf_dirOf path).2
        rw [hup]
        unfold ulpPathLen at hlen ⊢
        omega
      · rw [hup, getBasename_subPath hne h47 List.not_mem_nil]
        exact fun h => hloops ⟨hbase, hdir, h⟩
    · rw [← hbase] at hdir
      exact triggerManyUlps_flat hfit hdir results
  · exact triggerManyUlps_returns (ulpPathLen + 1) path hbase hfit (by omega) results

/-- **Coming back**: a folder that opens fits the buffer, and the recursion is not called for it again. -/
theorem returns_iff (path : Path) :
    (∃ fuel, (triggerManyUlps w p fuel path []).isSome = true) ↔ Fits w path ∧ ¬ Loops w path := by
  constructor
  · rintro ⟨fuel, h⟩
    constructor
    · intro ho
      obtain ⟨r, hr⟩ := Option.isSome_iff_exists.1 h
      cases fuel with
      | zero      => cases hr
      | succ fuel =>
        rcases triggerManyUlps_some hr with ⟨ho', -⟩ | ⟨ns, -, hlen, -⟩
        · exact absurd ho' ho
        · exact hlen
    · rintro ⟨hbase, hdir, hdir'⟩
      rw [triggerManyUlps_loops (dirOf_dirOf path).1 hdir hdir' fuel path hbase (.inl rfl)] at h
      cases h
  · rintro ⟨hfit, hloops⟩
    exact ⟨ulpPathLen + 2, returns_enough hfit hloops []⟩

end recursion

/-! ## The flags of a tree -/

section reports

variable {P : Type} {w : World P}

/-- The one bit of a flag. -/
def flagBit (r : BitVec 32) : Nat := if r = 0 then 0 else if skippableError r then 1 else 2

theorem flagOf_eq (r : BitVec 32) : flagOf r = 2 ^ flagBit r := by
  unfold flagOf flagBit
  split
  · rfl
  · split
    · rfl
    · rfl

theorem testBit_flagOf (r : BitVec 32) (i : Nat) : (flagOf r).testBit i = true ↔ flagBit r = i := by
  rw [flagOf_eq, Nat.testBit_two_pow, decide_eq_true_iff]

theorem flagOf_inj {r r' : BitVec 32} : flagOf r = flagOf r' ↔ flagBit r = flagBit r' := by
  rw [flagOf_eq, flagOf_eq]
  exact Nat.pow_right_injective (Nat.le_refl 2) |>.eq_iff

/-- A call that comes back has the OR of the tree's flags exactly when the folder's own entries tell all. -/
theorem isOr_iff {p : P} {path : Path} {fuel ret : Nat} {results results' : List TriggerResult}
    (h : triggerManyUlps w p fuel path results = some (ret, results')) :
    IsOr w p path ret ↔
      (∀ file, Matching w path file → ∃ file', Direct w (dirname path) (getBasename path) file' ∧
        flagOf (w.outcome p (some file')) = flagOf (w.outcome p (some file))) ∧
      (∀ file, Direct w (dirname path) (getBasename path) file → ∃ file', Matching w path file' ∧
        flagOf (w.outcome p (some file')) = flagOf (w.outcome p (some file))) := by
  unfold IsOr
  simp only [triggerManyUlps_flags h, testBit_flagOf, flagOf_inj]
  constructor
  · intro hor
    exact ⟨fun file hfile => (hor _).2 ⟨file, hfile, rfl⟩, fun file hfile => (hor _).1 ⟨file, hfile, rfl⟩⟩
  · rintro ⟨hbelow, helse⟩ i
    constructor
    · rintro ⟨file, hfile, rfl⟩
      exact helse file hfile
    · rintro ⟨file, hfile, rfl⟩
      exact hbelow file hfile

/-- **`trigger_many_ulps`** comes back with the OR of the flags exactly when `ManyOk`. -/
theorem manyOk_iff (p : P) (path : Path) :
    ((∃ fuel, (triggerManyUlps w p fuel path []).isSome = true) ∧
      ∀ fuel ret results, triggerManyUlps w p fuel path [] = some (ret, results) → IsOr w p path ret) ↔
      ManyOk w p path := by
  constructor
  · rintro ⟨hreturns, hflags⟩
    obtain ⟨hfit, hloops⟩ := (returns_iff path).1 hreturns
    obtain ⟨fuel, hsome⟩ := hreturns
    obtain ⟨⟨ret, results⟩, hr⟩ := Option.isSome_iff_exists.1 hsome
    obtain ⟨hbelow, helse⟩ := (isOr_iff hr).1 (hflags fuel ret results hr)
    exact ⟨hfit, hloops, hbelow, helse⟩
  · intro h
    refine ⟨(returns_iff path).2 ⟨h.fits, h.ends⟩, ?_⟩
    intro fuel ret results hr
    exact (isOr_iff hr).2 ⟨h.noneBelow, h.noneElse⟩

/-! ## The exit status -/

theorem triggerProcess_wildcard {fuel : Nat} {path : Option Path} (hw : isWildcard path = true) {p : P} {t t' : Tally P}
    (h : triggerProcess w fuel path p t = some t') :
    ∃ ret results, triggerManyUlps w p fuel (path.getD []) [] = some (ret, results) ∧
      t'.report = t.report ++ [(p, results)] ∧ t'.ret = t.ret := by
  unfold triggerProcess at h
  rw [if_pos hw] at h
  obtain ⟨⟨ret, results⟩, hret, rfl⟩ := Option.map_eq_some_iff.1 h
  exact ⟨ret, results, hret, rfl, rfl⟩

/-- With a wildcard the exit status stays what it was, whatever the processes get. -/
theorem triggerProcesses_wildcard {fuel : Nat} {path : Option Path} (hw : isWildcard path = true) :
    ∀ (ps : List P) (t : Tally P) {t' : Tally P}, triggerProcesses w fuel path ps t = some t' →
      t'.ret = t.ret ∧ ∀ p results, (p, results) ∈ t'.report ↔ (p, results) ∈ t.report ∨
        p ∈ ps ∧ ∃ ret, triggerManyUlps w p fuel (path.getD []) [] = some (ret, results)
  | [], t, t', h      => by
    cases h
    simp
  | q :: ps, t, t', h => by
    obtain ⟨mid, hmid, h⟩ := Option.bind_eq_some_iff.1 h
    obtain ⟨ret, res, hret, hmidreport, hmidret⟩ := triggerProcess_wildcard hw hmid
    obtain ⟨hsame, hreport⟩ := triggerProcesses_wildcard hw ps mid h
    refine ⟨hsame.trans hmidret, ?_⟩
    intro p results
    rw [hreport p results, hmidreport, List.mem_append, List.mem_singleton, Prod.mk.injEq, List.mem_cons]
    constructor
    · rintro ((h | ⟨rfl, rfl⟩) | ⟨hp, h⟩)
      · exact .inl h
      · exact .inr ⟨.inl rfl, ret, hret⟩
      · exact .inr ⟨.inr hp, h⟩
    · rintro (hold | ⟨hp, ret', hret'⟩)
      · exact .inl (.inl hold)
      · rcases hp with rfl | hp
        · cases hret.symm.trans hret'
          exact .inl (.inr ⟨rfl, rfl⟩)
        · exact .inr ⟨hp, ret', hret'⟩

theorem triggerProcesses_isSome {fuel : Nat} {path : Option Path} (hw : isWildcard path = true) :
    ∀ (ps : List P) (t : Tally P), (∀ p ∈ ps, (triggerManyUlps w p fuel (path.getD []) []).isSome = true) →
      (triggerProcesses w fuel path ps t).isSome = true
  | [], _, _      => rfl
  | p :: ps, t, h => by
    obtain ⟨r, hr⟩ := Option.isSome_iff_exists.1 (h p List.mem_cons_self)
    unfold triggerProcesses triggerProcess
    rw [if_pos hw, hr, Option.map_some, Option.bind_some]
    exact triggerProcesses_isSome hw ps _ (fun q hq => h q (List.mem_cons_of_mem p hq))

/-- An error in the report so far shows in the exit status. -/
def Tally.Shows (t : Tally P) : Prop :=
  (∃ p results, (p, results) ∈ t.report ∧ ∃ x ∈ results, ¬ Harmless x.err) → t.ret ≠ 0

/-- Without a wildcard one more process is added to the report, and an error to the exit status. -/
theorem triggerProcess_plain (fuel : Nat) {path : Option Path} (hw : isWildcard path = false) (p : P) (t : Tally P) :
    ∃ t', triggerProcess w fuel path p t = some t' ∧
      t'.report = t.report ++ [(p, [TriggerResult.mk path (w.outcome p path)])] ∧
      t'.ret = if skippableError (w.outcome p path) then t.ret else t.ret ||| w.outcome p path := by
  unfold triggerProcess
  rw [if_neg (by simp [hw])]
  simp only
  split
  · exact ⟨_, rfl, rfl, rfl⟩
  · split
    · exact ⟨_, rfl, rfl, rfl⟩
    · exact ⟨_, rfl, rfl, rfl⟩

theorem triggerProcesses_plain (fuel : Nat) {path : Option Path} (hw : isWildcard path = false) :
    ∀ (ps : List P) (t : Tally P), t.Shows → ∃ t', triggerProcesses w fuel path ps t = some t' ∧ t'.Shows
  | [], t, ht      => ⟨t, rfl, ht⟩
  | p :: ps, t, ht => by
    obtain ⟨mid, hmid, hreport, hret⟩ := triggerProcess_plain (w := w) fuel hw p t
    unfold triggerProcesses
    rw [hmid, Option.bind_some]
    apply triggerProcesses_plain fuel hw ps
    rintro ⟨q, results, hq, x, hx, hbad⟩
    rw [hreport, List.mem_append, List.mem_singleton] at hq
    rw [hret]
    rcases hq with hq | hq
    · have hne := ht ⟨q, results, hq, x, hx, hbad⟩
      split
      · exact hne
      · exact fun h0 => hne (BitVec.or_eq_zero_iff.1 h0).1
    · cases hq
      rw [List.mem_singleton] at hx
      subst hx
      unfold Harmless at hbad
      rw [not_or] at hbad
      rw [if_neg hbad.2]
      exact fun h0 => hbad.1 (BitVec.or_eq_zero_iff.1 h0).2

/-- **`run_trigger` comes back** when `trigger_many_ulps` does for every process. -/
theorem runTrigger_returns {a : Arguments} {ps : List P}
    (h : isWildcard a.path = true → ∀ p ∈ ps, ManyOk w p (a.path.getD [])) :
    (runTrigger w (ulpPathLen + 2) a ps).isSome = true := by
  unfold runTrigger triggerManyProcesses
  cases hw : isWildcard a.path with
  | false =>
    obtain ⟨t, ht, -⟩ := triggerProcesses_plain (w := w) (ulpPathLen + 2) hw ps ⟨0, 0, 0, 0, []⟩ (by simp [Tally.Shows])
    split
    · rfl
    · rw [ht]
      rfl
  | true =>
    have hsome := triggerProcesses_isSome (w := w) hw ps ⟨0, 0, 0, 0, []⟩
      (fun q hq => returns_enough (h hw q hq).fits (h hw q hq).ends [])
    split
    · rfl
    · rw [Option.isSome_map]
      exact hsome

/-- **An error shows in the exit status** without a wildcard; with one there must be none to show. -/
theorem runTrigger_shows {a : Arguments} {ps : List P}
    (h : isWildcard a.path = true → refusal a = none → ∀ p ∈ ps, AllHarmless w p (a.path.getD []))
    {fuel : Nat} {ret : BitVec 32} {report : List (P × List TriggerResult)}
    (hrun : runTrigger w fuel a ps = some (ret, report))
    (hbad : ∃ p results, (p, results) ∈ report ∧ ∃ x ∈ results, ¬ Harmless x.err) : ret ≠ 0 := by
  unfold runTrigger triggerManyProcesses at hrun
  cases href : refusal a with
  | some err =>
    rw [href] at hrun
    cases hrun
    obtain ⟨_, _, hnil, -⟩ := hbad
    cases hnil
  | none =>
    rw [href] at hrun
    obtain ⟨t, ht, hpair⟩ := Option.map_eq_some_iff.1 hrun
    cases hpair
    cases hw : isWildcard a.path with
    | false =>
      obtain ⟨t', ht', hshows⟩ := triggerProcesses_plain (w := w) fuel hw ps ⟨0, 0, 0, 0, []⟩ (by simp [Tally.Shows])
      cases ht.symm.trans ht'
      exact hshows hbad
    | true =>
      obtain ⟨p, results, hmem, x, hx, hx'⟩ := hbad
      obtain hmem | ⟨hp, ret, hr⟩ := ((triggerProcesses_wildcard hw ps _ ht).2 p results).1 hmem
      · cases hmem
      · rcases (triggerManyUlps_results _ _ _ _ _ hr x).1 hx with hnil | ⟨dir, file, hv, hdirect, rfl⟩
        · cases hnil
        · exact absurd (h hw href p hp dir file hv hdirect) hx'

/-- With a wildcard the exit status is 0, so that there is no error to report. -/
theorem TriggerReports.allHarmless {a : Arguments} {ps : List P} (h : TriggerReports w a ps)
    (hw : isWildcard a.path = true) (hmany : ∀ p ∈ ps, ManyOk w p (a.path.getD [])) (href : refusal a = none) :
    ∀ p ∈ ps, AllHarmless w p (a.path.getD []) := by
  intro p hp dir file hv hdirect
  by_contra hbad
  have hsome := triggerProcesses_isSome (w := w) hw ps ⟨0, 0, 0, 0, []⟩
    (fun q hq => returns_enough (hmany q hq).fits (hmany q hq).ends [])
  obtain ⟨t, ht⟩ := Option.isSome_iff_exists.1 hsome
  obtain ⟨hret, hreport⟩ := triggerProcesses_wildcard hw ps _ ht
  obtain ⟨⟨ret, results⟩, hr⟩ :=
    Option.isSome_iff_exists.1 (returns_enough (w := w) (p := p) (hmany p hp).fits (hmany p hp).ends [])
  have hrun : runTrigger w (ulpPathLen + 2) a ps = some (t.ret, t.report) := by
    unfold runTrigger triggerManyProcesses
    rw [href]
    simp only [ht, Option.map_some]
  refine h.exitStatus _ _ _ hrun ⟨p, results, (hreport p results).2 (.inr ⟨hp, ret, hr⟩), ?_⟩ hret
  exact ⟨_, (triggerManyUlps_results _ _ _ _ _ hr _).2 (.inr ⟨dir, file, hv, hdirect, rfl⟩), hbad⟩

/-- **What a trigger reports.**  Without a wildcard every error shows in the exit status.  With one, the flags are right
exactly when `ManyOk`, and the exit status, which is 0 then, when there is no error to show. -/
theorem triggerReports_iff (w : World P) (a : Arguments) (ps : List P) :
    TriggerReports w a ps ↔
      (isWildcard a.path = true → (∀ p ∈ ps, ManyOk w p (a.path.getD [])) ∧
        (refusal a = none → ∀ p ∈ ps, AllHarmless w p (a.path.getD []))) := by
  constructor
  · intro h hw
    have hmany : ∀ p ∈ ps, ManyOk w p (a.path.getD []) := fun p hp =>
      (manyOk_iff p _).1 ⟨h.returns hw p hp, h.flags hw p hp⟩
    exact ⟨hmany, h.allHarmless hw hmany⟩
  · intro h
    refine ⟨fun hw p hp => ?_, fun hw p hp => ?_, ⟨_, runTrigger_returns (fun hw => (h hw).1)⟩, fun _ _ _ hrun hbad => ?_⟩
    · exact ((manyOk_iff p _).2 ((h hw).1 p hp)).1
    · exact ((manyOk_iff p _).2 ((h hw).1 p hp)).2
    · exact runTrigger_shows (fun hw => (h hw).2) hrun hbad

end reports

/-! ## A patch that fails below the folder -/

/-- `.` with `a.so` and a directory `s`, and in it `b.so`. -/
def demoOpendir (dir : Path) : Option (List Path) :=
  if dir = [46] then some [[97, 46, 115, 111], [115]]
  else if dir = [46, 47, 115] then some [[98, 46, 115, 111]]
  else none

theorem demoOpendir_names (dir : Path) (ns : List Path) (n : Path) (h : demoOpendir dir = some ns) (hn : n ∈ ns) :
    n ≠ [] ∧ 47 ∉ n := by
  unfold demoOpendir at h
  split at h
  · cases h
    revert n
    decide
  · split at h
    · cases h
      revert n
      decide
    · cases h

/-- `a.so` is applied, `b.so` ends with `EUNKNOWN`; the wildcard is `*.so`. -/
def demoWorld : World Unit :=
  { tree := ⟨demoOpendir, fun path => path == [46, 47, 115], demoOpendir_names⟩
    fnmatch := fun _ name => isSo name
    recursiveMode := true
    outcome := fun _ path => if path = some [46, 47, 97, 46, 115, 111] then 0 else BitVec.ofInt 32 EUNKNOWN }

def demoArguments : Arguments := ⟨false, false, false, some [42, 46, 115, 111]⟩

theorem demo_matching : Matching demoWorld [42, 46, 115, 111] [46, 47, 115, 47, 98, 46, 115, 111] := by
  have hbelow : Below demoWorld [46] ([46] ++ 47 :: [115]) :=
    .down .here rfl (rfl : demoOpendir [46] = some [[97, 46, 115, 111], [115]]) (by decide) (by decide) rfl
  exact ⟨_, _, [98, 46, 115, 111], hbelow, (rfl : demoOpendir [46, 47, 115] = some [[98, 46, 115, 111]]),
    List.mem_singleton_self _, rfl, rfl, rfl, rfl⟩

/-- The error of `b.so` is in the report, but neither in the flags nor in the exit status. -/
theorem error_below_not_reported :
    (triggerManyUlps demoWorld () 3 [42, 46, 115, 111] []).map Prod.fst = some processPatchSuccess ∧
      ¬ IsOr demoWorld () [42, 46, 115, 111] processPatchSuccess ∧
      (runTrigger demoWorld 3 demoArguments [()]).map Prod.fst = some 0 ∧
      ¬ TriggerReports demoWorld demoArguments [()] := by
  refine ⟨by decide +kernel, ?_, by decide +kernel, ?_⟩
  · intro h
    exact absurd ((h 2).2 ⟨_, demo_matching, by decide⟩) (by decide)
  · intro h
    have hrun : runTrigger demoWorld 3 demoArguments [()] =
        some (0, [((), [⟨some [46, 47, 115, 47, 98, 46, 115, 111], BitVec.ofInt 32 EUNKNOWN⟩,
          ⟨some [46, 47, 97, 46, 115, 111], 0⟩])]) := by decide +kernel
    refine h.exitStatus 3 _ _ hrun ⟨(), _, List.mem_singleton_self _, _, List.mem_cons_self, ?_⟩ rfl
    unfold Harmless
    decide

end Rollout
end Libpulp
