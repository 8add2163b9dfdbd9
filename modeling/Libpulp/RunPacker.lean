import Libpulp.Common
/-!
# RunPacker — the packer's exit status (tools/packer.c: `run_packer`, tools/elf-extra.c)

`run_packer` embeds up to three sections into the container with `objcopy`, each by `embed_patch_metadata_into_elf`.  What
the steps come to is a parameter.  The status that `objcopy` exits with is never looked at, and a failure to embed the
comments is kept in a variable of the inner block (`packReports_iff`).
-/
namespace Libpulp
namespace Pack

open Bytes (Byte cstr)

def ENOENT : UlpError := 2
def EINVAL : UlpError := 22

/-! ## One section -/

inductive Section where
  | ulp
  | comments
  | rev
deriving DecidableEq

/-- What becomes of the child that runs `objcopy`.  Without a child `waitpid` leaves its status as it was. -/
inductive Child where
  | vforkFailed (wi : Nat)
  | execFailed
  | exited (status : Fin 256)
  | killed (signal : Fin 126)
deriving DecidableEq

/-- `WIFEXITED`. -/
def wifexited (wi : Nat) : Bool := wi % 128 == 0

/-- `WEXITSTATUS`. -/
def wexitstatus (wi : Nat) : Int := (wi / 256 % 256 : Nat)

/-- The status that `waitpid` stores; none in a child whose `execv` came back. -/
def Child.wi : Child → Option Nat
  | .vforkFailed wi => some wi
  | .execFailed     => none
  | .exited status  => some (status.val * 256)
  | .killed signal  => some (signal.val + 1)

/-- The steps of `embed_patch_metadata_into_elf`: whether `objcopy` is there and the container can be loaded, the length
of `section=file`, and the child. -/
structure EmbedSteps where
  objcopyExists : Bool
  elfLoads      : Bool
  nameLength    : Nat
  child         : Child

namespace EmbedSteps

variable (e : EmbedSteps)

/-- The checks before `objcopy` is run. -/
def check : UlpError :=
  if !e.objcopyExists then ENOENT
  else if !e.elfLoads then EINVAL
  else if 120 ≤ e.nameLength then EOVERFLOW
  else ENONE

/-- What `embed_patch_metadata_into_elf` returns; `none` when the child of a `vfork` returns from it. -/
def embedPatchMetadataIntoElf : Option UlpError :=
  if e.check ≠ ENONE then some e.check
  else
    let ret := 0
    -- `WEXITSTATUS(ret)` for the status just waited for
    e.child.wi.map (fun wi => if wifexited wi then wexitstatus ret else ret)

/-- `objcopy` ran and exited with 0. -/
def Embeds : Prop := e.check = ENONE ∧ e.child = .exited 0

instance : Decidable e.Embeds := inferInstanceAs (Decidable (_ ∧ _))

end EmbedSteps

/-! ## The whole run -/

/-- The steps of `run_packer`: what the first four come to, the comments, what becomes of the files in between (of the
comments' file, how many bytes `fwrite` writes), and the embedding of each section. -/
structure Steps where
  parsed       : Bool
  targetRead   : Bool
  idWritten    : Bool
  metadata     : Option (List Byte)
  comments     : Option (List Byte)
  commentsFile : Option Nat
  reverseOpens : Bool
  objName      : Bool
  reverse      : List Byte
  embed        : Section → EmbedSteps

inductive PackEnd where
  | returned (ret : Int)
  | aborted
deriving DecidableEq

/-- The sections that are in the container, with their bytes. -/
abbrev Embedded := List (Section × List Byte)

namespace Steps

variable (s : Steps)

/-- One call of `embed_patch_metadata_into_elf`, and what is embedded after it. -/
def embedInto (name : Section) (bytes : List Byte) (done : Embedded) : Option (UlpError × Embedded) :=
  (s.embed name).embedPatchMetadataIntoElf.map (fun ret =>
    (ret, if (s.embed name).Embeds then done ++ [(name, bytes)] else done))

/-- `write_reverse_patch`: 1 when it goes well. -/
def writeReversePatch (done : Embedded) : Option (Int × Embedded) :=
  if !s.reverseOpens then some (0, done)
  else if !s.objName then some (0, done)
  else (s.embedInto .rev s.reverse done).map (fun (ret, done) => (if ret ≠ 0 then 0 else 1, done))

/-- The end of `run_packer`, from the reverse patch on. -/
def packReverse (done : Embedded) : Option (PackEnd × Embedded) :=
  (s.writeReversePatch done).map (fun (ok, done) => (.returned (if ok = 0 then 1 else 0), done))

/-- The part on the comments, and on. -/
def packComments (done : Embedded) : Option (PackEnd × Embedded) :=
  let ret := 0
  match s.comments with
  | none          => s.packReverse done
  | some comments =>
    match s.commentsFile with
    | none         => some (.returned 1, done)
    | some written =>
      let n := (cstr comments).length + 1
      if written ≠ n then some (.aborted, done)
      else
        (s.embedInto .comments (cstr comments ++ [0]) done).bind (fun (r, done) =>
          -- the `ret` that is set to 1 here is the number of bytes written
          if r ≠ 0 then some (.returned ret, done) else s.packReverse done)

def runPacker : Option (PackEnd × Embedded) :=
  if !s.parsed then some (.returned 1, [])
  else if !s.targetRead then some (.returned 1, [])
  else if !s.idWritten then some (.returned 1, [])
  else
    match s.metadata with
    | none          => some (.returned 1, [])
    | some metadata =>
      (s.embedInto .ulp metadata []).bind (fun (ret, done) =>
        if ret ≠ 0 then some (.returned 1, done) else s.packComments done)

end Steps

/-! ## What is promised, and when it is kept -/

namespace Steps

variable (s : Steps)

/-- All sections that the description asks for are in the container. -/
def AllEmbedded (done : Embedded) : Prop :=
  .ulp ∈ done.map Prod.fst ∧ (s.comments.isSome = true → .comments ∈ done.map Prod.fst) ∧ .rev ∈ done.map Prod.fst

/-- A run comes to an end, with 0 exactly when all sections are embedded. -/
def Reports (run : Option (PackEnd × Embedded)) : Prop :=
  ∃ e done, run = some (e, done) ∧ (e = .returned 0 ↔ s.AllEmbedded done)

/-- **What the exit status promises.** -/
def PackReports : Prop := s.Reports s.runPacker

/-- `objcopy` is run for `.ulp`. -/
structure UlpReached : Prop where
  parsed     : s.parsed = true
  targetRead : s.targetRead = true
  idWritten  : s.idWritten = true
  metadata   : s.metadata.isSome = true
  check      : (s.embed .ulp).check = ENONE

/-- The file with the comments, if there are any, is written. -/
def CommentsWritten : Prop := ∀ comments, s.comments = some comments → s.commentsFile = some ((cstr comments).length + 1)

/-- `objcopy` is run for `.ulp.rev`, if `run_packer` gets there. -/
structure RevReached : Prop where
  opens : s.reverseOpens = true
  name  : s.objName = true
  check : (s.embed .rev).check = ENONE

/-- **No failure is lost.**  With comments, their embedding gets as far as `objcopy`; once `objcopy` is run for the last
section, all runs of it exit with 0. -/
def NothingLost : Prop :=
  s.UlpReached → (s.embed .ulp).child ≠ .execFailed ∧
    (s.CommentsWritten →
      (s.comments.isSome = true → (s.embed .comments).check = ENONE ∧ (s.embed .comments).child ≠ .execFailed) ∧
      (s.RevReached → (s.embed .ulp).child = .exited 0 ∧
        (s.comments.isSome = true → (s.embed .comments).child = .exited 0) ∧ (s.embed .rev).child = .exited 0))

end Steps

/-! ## The embedding of one section -/

/-- After the checks, whatever `objcopy` exits with, 0 is returned. -/
theorem EmbedSteps.embed_ran {e : EmbedSteps} (hc : e.check = ENONE) (hx : e.child ≠ .execFailed) :
    e.embedPatchMetadataIntoElf = some 0 := by
  unfold embedPatchMetadataIntoElf
  rw [if_neg (not_not.2 hc)]
  cases hchild : e.child with
  | execFailed => exact absurd hchild hx
  | vforkFailed wi => simp [Child.wi, wexitstatus]
  | exited status => simp [Child.wi, wexitstatus]
  | killed signal => simp [Child.wi, wexitstatus]

theorem EmbedSteps.embed_execFailed {e : EmbedSteps} (hc : e.check = ENONE) (hx : e.child = .execFailed) :
    e.embedPatchMetadataIntoElf = none := by
  unfold embedPatchMetadataIntoElf
  rw [if_neg (not_not.2 hc), hx]
  rfl

namespace Steps

variable {s : Steps} {name : Section} {bytes : List Byte} {done : Embedded}

theorem embedInto_refused (hc : (s.embed name).check ≠ ENONE) :
    s.embedInto name bytes done = some ((s.embed name).check, done) := by
  unfold embedInto EmbedSteps.embedPatchMetadataIntoElf
  rw [if_pos hc, Option.map_some, if_neg (fun h => hc h.1)]

theorem embedInto_execFailed (hc : (s.embed name).check = ENONE) (hx : (s.embed name).child = .execFailed) :
    s.embedInto name bytes done = none := by
  unfold embedInto
  rw [EmbedSteps.embed_execFailed hc hx, Option.map_none]

theorem embedInto_ran (hc : (s.embed name).check = ENONE) (hx : (s.embed name).child ≠ .execFailed) :
    s.embedInto name bytes done =
      some (0, if (s.embed name).child = .exited 0 then done ++ [(name, bytes)] else done) := by
  unfold embedInto
  rw [EmbedSteps.embed_ran hc hx, Option.map_some]
  by_cases h0 : (s.embed name).child = .exited 0
  · rw [if_pos ⟨hc, h0⟩, if_pos h0]
  · rw [if_neg (fun h => h0 h.2), if_neg h0]

/-! ## The run, from its end -/

/-- Over the reverse patch: 0 comes out when `objcopy` is run for it, whatever it does. -/
theorem packReverse_spec (s : Steps) (done : Embedded) :
    (s.RevReached ∧ (s.embed .rev).child = .execFailed ∧ s.packReverse done = none) ∨
    (s.RevReached ∧ (s.embed .rev).child ≠ .execFailed ∧ s.packReverse done =
      some (.returned 0, if (s.embed .rev).child = .exited 0 then done ++ [(.rev, s.reverse)] else done)) ∨
    (¬ s.RevReached ∧ s.packReverse done = some (.returned 1, done)) := by
  unfold packReverse writeReversePatch
  cases ho : s.reverseOpens with
  | false => exact .inr (.inr ⟨fun h => absurd (ho.symm.trans h.opens) (by decide), rfl⟩)
  | true  =>
    cases hn : s.objName with
    | false => exact .inr (.inr ⟨fun h => absurd (hn.symm.trans h.name) (by decide), rfl⟩)
    | true  =>
      simp only [Bool.not_true, Bool.false_eq_true, if_false]
      by_cases hc : (s.embed .rev).check = ENONE
      · by_cases hx : (s.embed .rev).child = .execFailed
        · refine .inl ⟨⟨ho, hn, hc⟩, hx, ?_⟩
          rw [embedInto_execFailed hc hx]
          rfl
        · refine .inr (.inl ⟨⟨ho, hn, hc⟩, hx, ?_⟩)
          rw [embedInto_ran hc hx]
          rfl
      · refine .inr (.inr ⟨fun h => hc h.check, ?_⟩)
        rw [embedInto_refused hc]
        simp only [Option.map_some]
        rw [if_pos (show (s.embed .rev).check ≠ 0 from hc)]
        rfl

/-! ## What is embedded -/

theorem embedInto_mem {ret : UlpError} {done' : Embedded} (h : s.embedInto name bytes done = some (ret, done'))
    {x : Section × List Byte} (hx : x ∈ done') : x ∈ done ∨ x = (name, bytes) := by
  obtain ⟨r, -, heq⟩ := Option.map_eq_some_iff.1 h
  cases heq
  split at hx
  · rcases List.mem_append.1 hx with hx | hx
    · exact .inl hx
    · exact .inr (List.mem_singleton.1 hx)
  · exact .inl hx

theorem packReverse_mem {e : PackEnd} {done' : Embedded} (h : s.packReverse done = some (e, done'))
    {x : Section × List Byte} (hx : x ∈ done') : x ∈ done ∨ x.1 = .rev := by
  rcases s.packReverse_spec done with ⟨-, -, hrun⟩ | ⟨-, -, hrun⟩ | ⟨-, hrun⟩
  · cases hrun.symm.trans h
  · cases hrun.symm.trans h
    split at hx
    · rcases List.mem_append.1 hx with hx | hx
      · exact .inl hx
      · exact .inr (by rw [List.mem_singleton.1 hx])
    · exact .inl hx
  · cases hrun.symm.trans h
    exact .inl hx

theorem packComments_mem {e : PackEnd} {done' : Embedded} (h : s.packComments done = some (e, done'))
    (hx : (.comments, bytes) ∈ done') :
    (.comments, bytes) ∈ done ∨ ∃ comments, s.comments = some comments ∧ bytes = cstr comments ++ [0] := by
  unfold packComments at h
  cases hc : s.comments with
  | none =>
    rw [hc] at h
    exact .inl ((packReverse_mem h hx).resolve_right (fun h => (by cases h)))
  | some comments =>
    rw [hc] at h
    simp only at h
    split at h
    · cases h
      exact .inl hx
    · split at h
      · cases h
        exact .inl hx
      · obtain ⟨⟨r, mid⟩, hembed, h⟩ := Option.bind_eq_some_iff.1 h
        have hmid : (.comments, bytes) ∈ mid := by
          simp only at h
          split at h
          · cases h
            exact hx
          · exact (packReverse_mem h hx).resolve_right (fun h => (by cases h))
        rcases embedInto_mem hembed hmid with hmem | heq
        · exact .inl hmem
        · exact .inr ⟨comments, rfl, (Prod.mk.inj heq).2⟩

/-- **The section with the comments** is their string and its NUL. -/
theorem runPacker_comments {e : PackEnd} {done' : Embedded} (h : s.runPacker = some (e, done'))
    (hx : (.comments, bytes) ∈ done') : ∃ comments, s.comments = some comments ∧ bytes = cstr comments ++ [0] := by
  unfold runPacker at h
  split at h
  · cases h
    cases hx
  · split at h
    · cases h
      cases hx
    · split at h
      · cases h
        cases hx
      · split at h
        · cases h
          cases hx
        · obtain ⟨⟨ret, mid⟩, hembed, h⟩ := Option.bind_eq_some_iff.1 h
          have hnot : (.comments, bytes) ∉ mid := by
            intro hmem
            rcases embedInto_mem hembed hmem with hnil | heq
            · cases hnil
            · cases heq
          simp only at h
          split at h
          · cases h
            exact absurd hx hnot
          · exact (packComments_mem h hx).resolve_left hnot

/-! ## When the exit status is right -/

theorem not_reports_none : ¬ s.Reports none := by
  rintro ⟨e, done, h, -⟩
  cases h

theorem reports_iff {e : PackEnd} {done : Embedded} :
    s.Reports (some (e, done)) ↔ (e = .returned 0 ↔ s.AllEmbedded done) := by
  constructor
  · rintro ⟨e', done', h, hiff⟩
    cases h
    exact hiff
  · intro hiff
    exact ⟨e, done, rfl, hiff⟩

/-- A run that ends before the last section may not return 0. -/
theorem reports_early {e : PackEnd} (hrev : .rev ∉ done.map Prod.fst) :
    s.Reports (some (e, done)) ↔ e ≠ .returned 0 := by
  rw [reports_iff]
  constructor
  · intro h h0
    exact hrev (h.1 h0).2.2
  · intro h
    exact ⟨fun h0 => absurd h0 h, fun hall => absurd hall.2.2 hrev⟩

theorem packReverse_reports (hrev : .rev ∉ done.map Prod.fst) :
    s.Reports (s.packReverse done) ↔ (s.RevReached → .ulp ∈ done.map Prod.fst ∧
      (s.comments.isSome = true → .comments ∈ done.map Prod.fst) ∧ (s.embed .rev).child = .exited 0) := by
  rcases s.packReverse_spec done with ⟨hr, hx, hrun⟩ | ⟨hr, hx, hrun⟩ | ⟨hr, hrun⟩
  · rw [hrun]
    refine iff_of_false not_reports_none (fun h => ?_)
    exact absurd (hx.symm.trans (h hr).2.2) (by decide)
  · rw [hrun]
    by_cases h0 : (s.embed .rev).child = .exited 0
    · rw [if_pos h0, reports_iff]
      simp [AllEmbedded, hr, h0]
    · rw [if_neg h0, reports_early hrev]
      simp [hr, h0]
  · rw [hrun, reports_early hrev]
    exact iff_of_true (by decide) (fun h => absurd h hr)

/-- The names of what is embedded after one more section. -/
theorem mem_names_embedded {c : Prop} [Decidable c] (other : Section) :
    other ∈ (if c then done ++ [(name, bytes)] else done).map Prod.fst ↔
      other ∈ done.map Prod.fst ∨ c ∧ other = name := by
  split
  · rename_i hc
    simp [hc]
  · rename_i hc
    simp [hc]

theorem packComments_reports (hrev : .rev ∉ done.map Prod.fst) (hcom : .comments ∉ done.map Prod.fst) :
    s.Reports (s.packComments done) ↔
      (s.CommentsWritten →
        (s.comments.isSome = true → (s.embed .comments).check = ENONE ∧ (s.embed .comments).child ≠ .execFailed) ∧
        (s.RevReached → .ulp ∈ done.map Prod.fst ∧
          (s.comments.isSome = true → (s.embed .comments).child = .exited 0) ∧ (s.embed .rev).child = .exited 0)) := by
  unfold packComments CommentsWritten
  cases hc : s.comments with
  | none =>
    simp only
    rw [packReverse_reports hrev]
    simp [hc]
  | some comments =>
    simp only [Option.some.injEq, forall_eq', Option.isSome_some, true_implies]
    cases hf : s.commentsFile with
    | none =>
      simp only
      rw [reports_early hrev]
      simp
    | some written =>
      simp only [Option.some.injEq]
      by_cases hn : written = (cstr comments).length + 1
      · rw [if_neg (not_not.2 hn)]
        simp only [hn, true_implies]
        by_cases hk : (s.embed .comments).check = ENONE
        · by_cases hx : (s.embed .comments).child = .execFailed
          · rw [embedInto_execFailed hk hx, Option.bind_none]
            exact iff_of_false not_reports_none (fun h => h.1.2 hx)
          · rw [embedInto_ran hk hx, Option.bind_some]
            simp only [ne_eq, not_true_eq_false, if_false]
            rw [packReverse_reports (by rw [mem_names_embedded]; simp [hrev])]
            simp [mem_names_embedded, hcom, hc, hk, hx]
        · rw [embedInto_refused hk, Option.bind_some]
          simp only
          rw [if_pos (show (s.embed .comments).check ≠ 0 from hk), reports_early hrev]
          exact iff_of_false (not_not.2 rfl) (fun h => hk h.1.1)
      · rw [if_pos hn, reports_early hrev]
        simp [hn]

/-- **The packer's exit status** is right exactly when no failure is lost. -/
theorem packReports_iff (s : Steps) : s.PackReports ↔ s.NothingLost := by
  unfold PackReports NothingLost
  by_cases hr : s.UlpReached
  · obtain ⟨metadata, hm⟩ := Option.isSome_iff_exists.1 hr.metadata
    have hrun : s.runPacker = (s.embedInto .ulp metadata []).bind (fun (ret, done) =>
        if ret ≠ 0 then some (.returned 1, done) else s.packComments done) := by
      simp [runPacker, hr.parsed, hr.targetRead, hr.idWritten, hm]
    by_cases hx : (s.embed .ulp).child = .execFailed
    · rw [hrun, embedInto_execFailed hr.check hx, Option.bind_none]
      exact iff_of_false not_reports_none (fun h => (h hr).1 hx)
    · rw [hrun, embedInto_ran hr.check hx, Option.bind_some]
      simp only [ne_eq, not_true_eq_false, if_false]
      rw [packComments_reports (by rw [mem_names_embedded]; simp) (by rw [mem_names_embedded]; simp)]
      simp [hr, hx]
  · refine iff_of_true ?_ (fun h => absurd h hr)
    have hrun : ∃ e, e ≠ .returned 0 ∧ s.runPacker = some (e, []) := by
      unfold runPacker
      cases hp : s.parsed with
      | false => exact ⟨.returned 1, by decide, rfl⟩
      | true  =>
        cases ht : s.targetRead with
        | false => exact ⟨.returned 1, by decide, rfl⟩
        | true  =>
          cases hi : s.idWritten with
          | false => exact ⟨.returned 1, by decide, rfl⟩
          | true  =>
            cases hm : s.metadata with
            | none          => exact ⟨.returned 1, by decide, rfl⟩
            | some metadata =>
              have hc : (s.embed .ulp).check ≠ ENONE := fun hc => hr ⟨hp, ht, hi, by rw [hm]; rfl, hc⟩
              refine ⟨.returned 1, by decide, ?_⟩
              simp only [Bool.not_true, Bool.false_eq_true, if_false]
              rw [embedInto_refused hc, Option.bind_some]
              simp only
              rw [if_pos (show (s.embed .ulp).check ≠ 0 from hc)]
    obtain ⟨e, he, hrun⟩ := hrun
    rw [hrun, reports_early (by simp)]
    exact he

end Steps

/-! ## A run of `objcopy` that fails -/

/-- `objcopy` exits with 1 for every section. -/
def failingObjcopy : Steps :=
  { parsed := true, targetRead := true, idWritten := true, metadata := some [1], comments := none, commentsFile := none
    reverseOpens := true, objName := true, reverse := [2], embed := fun _ => ⟨true, true, 20, .exited 1⟩ }

/-- The packer returns 0 with nothing embedded. -/
theorem objcopy_failure_lost : failingObjcopy.runPacker = some (.returned 0, []) ∧ ¬ failingObjcopy.PackReports := by
  have hrun : failingObjcopy.runPacker = some (.returned 0, []) := by decide
  refine ⟨hrun, ?_⟩
  unfold Steps.PackReports
  rw [hrun, Steps.reports_early (by simp)]
  exact not_not.2 rfl

end Pack
end Libpulp
