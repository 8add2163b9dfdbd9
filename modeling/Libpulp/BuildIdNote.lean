import Libpulp.BuildId
import Libpulp.Fuel
/-!
# BuildIdNote — the build id as the packer finds it (tools/packer.c: `get_build_id`, `parse_build_id`)

The loop over the notes keeps the result of a comparison where it means to keep the next offset: after the first note it
goes on at offset 1, and if that is a note it stays there.  So the build id is found as it should be when it comes first,
and otherwise only by what `gelf_getnote` makes of offset 1 (`buildIdNote_iff`).
-/
namespace Libpulp

open Bytes (Byte)
open Fuel (Returns)

/-- What `gelf_getnote` stores: `nhdr.n_type`, `descp` and `nhdr.n_descsz`. -/
structure GelfNote where
  nType  : Nat
  descp  : Nat
  descsz : Nat
deriving DecidableEq

/-- The data of the section and `gelf_getnote` on it: the result, 0 at the end, and what is stored. -/
structure NoteData where
  buf     : List Byte
  getnote : Nat → Nat × GelfNote

namespace NoteData

variable (d : NoteData)

/-- The loop of both functions from `offset` on: `some none` when no note is found, `none` when the fuel runs out. -/
def findNote : Nat → Nat → Option (Option GelfNote)
  | 0, _             => none
  | fuel + 1, offset =>
    -- `n = gelf_getnote(…) > 0`
    let n := if (d.getnote offset).1 > 0 then 1 else 0
    if n = 0 then some none
    else if (d.getnote offset).2.nType = NT_GNU_BUILD_ID then some (some (d.getnote offset).2)
    else findNote fuel n

/-- The bytes of a descriptor. -/
def descriptor (note : GelfNote) : List Byte := (d.buf.drop note.descp).take note.descsz

end NoteData

/-- `get_build_id` on what `elf_getdata` returns: the bytes copied and `*len`, or the error. -/
def getBuildId (data : Option NoteData) (fuel : Nat) : Option (Option (List Byte × Nat)) :=
  match data with
  | none   => some none
  | some d => (d.findNote fuel 0).map (fun found => found.map (fun note => (d.descriptor note, note.descsz)))

/-- `parse_build_id`: where in the data the descriptor is and `*length`, or the error.  `*length` is an `int` of the
program; the size of a descriptor is a natural number here. -/
def parseBuildId (data : Option NoteData) (fuel : Nat) : Option (Option (Nat × Nat)) :=
  match data with
  | none   => some none
  | some d => (d.findNote fuel 0).map (fun found => found.map (fun note => (note.descp, note.descsz)))

namespace NoteData

variable (d : NoteData)

/-- The notes from an offset on: each result is the offset of the next note, and 0 is the end. -/
inductive NotesFrom : Nat → List GelfNote → Prop where
  | done {offset : Nat} : (d.getnote offset).1 = 0 → NotesFrom offset []
  | note {offset : Nat} {notes : List GelfNote} : offset < (d.getnote offset).1 →
      NotesFrom (d.getnote offset).1 notes → NotesFrom offset ((d.getnote offset).2 :: notes)

def isBuildId (note : GelfNote) : Bool := note.nType = NT_GNU_BUILD_ID

/-- The first build id among the notes. -/
def firstBuildId (notes : List GelfNote) : Option GelfNote := notes.find? isBuildId

/-- **When offset 1 does no harm**: there is no note, or the build id is the first one, or no note is a build id and there
is none at offset 1, or what is read at offset 1 is a build id that looks like the first one. -/
def HarmlessStep {α : Type} (view : GelfNote → α) : List GelfNote → Prop
  | []            => True
  | first :: rest =>
    isBuildId first = true ∨
    ((d.getnote 1).1 = 0 ∧ firstBuildId (first :: rest) = none) ∨
    (0 < (d.getnote 1).1 ∧ isBuildId (d.getnote 1).2 = true ∧
      (firstBuildId (first :: rest)).map view = some (view (d.getnote 1).2))

variable {d}

/-- A note at offset 1 that is no build id is read again and again. -/
theorem findNote_stays (h : 0 < (d.getnote 1).1) (hn : isBuildId (d.getnote 1).2 = false) :
    ∀ fuel, d.findNote fuel 1 = none
  | 0        => rfl
  | fuel + 1 => by
    have hne : ¬ (d.getnote 1).2.nType = NT_GNU_BUILD_ID := of_decide_eq_false hn
    rw [findNote]
    simp only [if_pos h, if_neg hne, Nat.one_ne_zero, if_false]
    exact findNote_stays h hn fuel

theorem findNote_end {offset : Nat} (h : (d.getnote offset).1 = 0) (fuel : Nat) :
    d.findNote (fuel + 1) offset = some none := by
  have hle : ¬ (d.getnote offset).1 > 0 := by omega
  rw [findNote]
  simp only [if_neg hle, if_true]

theorem findNote_found {offset : Nat} (h : 0 < (d.getnote offset).1) (hb : isBuildId (d.getnote offset).2 = true)
    (fuel : Nat) : d.findNote (fuel + 1) offset = some (some (d.getnote offset).2) := by
  have heq : (d.getnote offset).2.nType = NT_GNU_BUILD_ID := of_decide_eq_true hb
  rw [findNote]
  simp only [if_pos h, if_pos heq, Nat.one_ne_zero, if_false]

/-- **Behind any other note the loop is at offset 1.** -/
theorem findNote_next {offset : Nat} (h : 0 < (d.getnote offset).1) (hb : isBuildId (d.getnote offset).2 = false)
    (fuel : Nat) : d.findNote (fuel + 1) offset = d.findNote fuel 1 := by
  have hne : ¬ (d.getnote offset).2.nType = NT_GNU_BUILD_ID := of_decide_eq_false hb
  rw [findNote]
  simp only [if_pos h, if_neg hne, Nat.one_ne_zero, if_false]

theorem findNote_returns {notes : List GelfNote} (h : d.NotesFrom 0 notes) (r : Option GelfNote) :
    Returns (fun fuel => d.findNote fuel 0) r ↔
      match notes with
      | []         => r = none
      | first :: _ =>
        if isBuildId first = true then r = some first
        else if (d.getnote 1).1 = 0 then r = none
        else isBuildId (d.getnote 1).2 = true ∧ r = some (d.getnote 1).2 := by
  have hsucc : ∀ (o : Nat) (r' : Option GelfNote), (∀ fuel, d.findNote (fuel + 1) o = some r') →
      (Returns (fun fuel => d.findNote fuel o) r ↔ r = r') := by
    intro o r' hrun
    constructor
    · rintro ⟨fuel, hf⟩
      cases fuel with
      | zero      => cases hf
      | succ fuel => exact (Option.some.inj ((hrun fuel).symm.trans hf)).symm
    · rintro rfl
      exact ⟨1, hrun 0⟩
  cases h with
  | done h0          => exact hsucc 0 none (findNote_end h0)
  | note hlt hrest =>
    by_cases hb : isBuildId (d.getnote 0).2 = true
    · simp only [if_pos hb]
      exact hsucc 0 _ (findNote_found hlt hb)
    · have hfalse : isBuildId (d.getnote 0).2 = false := by simpa using hb
      have hone : Returns (fun fuel => d.findNote fuel 0) r ↔ Returns (fun fuel => d.findNote fuel 1) r := by
        constructor
        · rintro ⟨fuel, hf⟩
          cases fuel with
          | zero      => cases hf
          | succ fuel => exact ⟨fuel, (findNote_next hlt hfalse fuel).symm.trans hf⟩
        · rintro ⟨fuel, hf⟩
          exact ⟨fuel + 1, (findNote_next hlt hfalse fuel).trans hf⟩
      rw [hone]
      simp only [if_neg hb]
      by_cases h1 : (d.getnote 1).1 = 0
      · rw [if_pos h1]
        exact hsucc 1 none (findNote_end h1)
      · rw [if_neg h1]
        by_cases hb1 : isBuildId (d.getnote 1).2 = true
        · rw [and_iff_right hb1]
          exact hsucc 1 _ (findNote_found (Nat.pos_of_ne_zero h1) hb1)
        · constructor
          · rintro ⟨fuel, hf⟩
            have hnone := findNote_stays (Nat.pos_of_ne_zero h1) (by simpa using hb1) fuel
            exact absurd (hnone.symm.trans hf) (by simp)
          · rintro ⟨hb1', -⟩
            exact absurd hb1' hb1

/-- **The loop finds what it should if and only if offset 1 does no harm.** -/
theorem findNote_iff {α : Type} {notes : List GelfNote} (h : d.NotesFrom 0 notes) (view : GelfNote → α) :
    Returns (fun fuel => (d.findNote fuel 0).map (fun found => found.map view)) ((firstBuildId notes).map view) ↔
      d.HarmlessStep view notes := by
  have hmap : Returns (fun fuel => (d.findNote fuel 0).map (fun found => found.map view))
      ((firstBuildId notes).map view) ↔
      ∃ r, Returns (fun fuel => d.findNote fuel 0) r ∧ r.map view = (firstBuildId notes).map view := by
    constructor
    · rintro ⟨fuel, hf⟩
      obtain ⟨r, hr, heq⟩ := Option.map_eq_some_iff.1 hf
      exact ⟨r, ⟨fuel, hr⟩, heq⟩
    · rintro ⟨r, ⟨fuel, hr⟩, heq⟩
      exact ⟨fuel, Option.map_eq_some_iff.2 ⟨r, hr, heq⟩⟩
  simp only [hmap, findNote_returns h]
  cases notes with
  | nil          => simp [HarmlessStep, firstBuildId]
  | cons first rest =>
    by_cases hb : isBuildId first = true
    · simp [HarmlessStep, firstBuildId, hb]
    · simp only [HarmlessStep, if_neg hb]
      by_cases h1 : (d.getnote 1).1 = 0
      · simp only [if_pos h1, exists_eq_left, Option.map_none]
        constructor
        · intro heq
          exact Or.inr (Or.inl ⟨h1, Option.map_eq_none_iff.1 heq.symm⟩)
        · rintro (hf | ⟨-, hnone⟩ | ⟨hpos, -⟩)
          · exact absurd hf hb
          · rw [hnone, Option.map_none]
          · exact absurd h1 (Nat.ne_of_gt hpos)
      · simp only [if_neg h1]
        constructor
        · rintro ⟨r, ⟨hb1, rfl⟩, heq⟩
          exact Or.inr (Or.inr ⟨Nat.pos_of_ne_zero h1, hb1, heq.symm⟩)
        · rintro (hf | ⟨h0, -⟩ | ⟨-, hb1, heq⟩)
          · exact absurd hf hb
          · exact absurd h0 h1
          · exact ⟨_, ⟨hb1, rfl⟩, heq.symm⟩

end NoteData

open NoteData

/-- **The packer finds the build id among the notes if and only if offset 1 does no harm**: then both functions come back,
with the descriptor of the first note that is a build id, or with the error if there is none. -/
theorem buildIdNote_iff (d : NoteData) (notes : List GelfNote) (h : d.NotesFrom 0 notes) :
    (Returns (getBuildId (some d)) ((firstBuildId notes).map (fun note => (d.descriptor note, note.descsz))) ↔
      d.HarmlessStep (fun note => (d.descriptor note, note.descsz)) notes) ∧
    (Returns (parseBuildId (some d)) ((firstBuildId notes).map (fun note => (note.descp, note.descsz))) ↔
      d.HarmlessStep (fun note => (note.descp, note.descsz)) notes) :=
  ⟨findNote_iff h _, findNote_iff h _⟩

/-- The header of a note and its name `GNU`. -/
def gnuNote (descsz type : Byte) : List Byte := [4, 0, 0, 0, descsz, 0, 0, 0, type, 0, 0, 0, 71, 78, 85, 0]

/-- An ABI tag of sixteen bytes and a build id of twenty.  At offset 1 the name's size is read as 2^28. -/
def abiTagFirst : NoteData :=
  ⟨gnuNote 16 1 ++ List.replicate 16 0 ++ gnuNote 20 3 ++ List.replicate 20 7,
    fun offset => if offset = 0 then (32, ⟨1, 16, 16⟩) else if offset = 32 then (68, ⟨3, 48, 20⟩) else (0, ⟨0, 0, 0⟩)⟩

/-- The two notes the other way round. -/
def buildIdFirst : NoteData :=
  ⟨gnuNote 20 3 ++ List.replicate 20 7 ++ gnuNote 16 1 ++ List.replicate 16 0,
    fun offset => if offset = 0 then (36, ⟨3, 16, 20⟩) else if offset = 36 then (68, ⟨1, 52, 16⟩) else (0, ⟨0, 0, 0⟩)⟩

theorem buildIdNote_iff_first : Returns (getBuildId (some buildIdFirst)) (some (List.replicate 20 7, 20)) ∧
    Returns (parseBuildId (some buildIdFirst)) (some (16, 20)) := by
  have hnotes : buildIdFirst.NotesFrom 0 [⟨3, 16, 20⟩, ⟨1, 52, 16⟩] :=
    NotesFrom.note (by decide) (NotesFrom.note (by decide) (NotesFrom.done (by decide)))
  have h := buildIdNote_iff buildIdFirst [⟨3, 16, 20⟩, ⟨1, 52, 16⟩] hnotes
  exact ⟨h.1.2 (Or.inl rfl), h.2.2 (Or.inl rfl)⟩

/-- A build id behind an ABI tag is not found. -/
theorem abi_tag_hides_buildid : ¬ ∀ (d : NoteData) (notes : List GelfNote), d.NotesFrom 0 notes →
    Returns (getBuildId (some d)) ((firstBuildId notes).map (fun note => (d.descriptor note, note.descsz))) := by
  intro h
  have hnotes : abiTagFirst.NotesFrom 0 [⟨1, 16, 16⟩, ⟨3, 48, 20⟩] :=
    NotesFrom.note (by decide) (NotesFrom.note (by decide) (NotesFrom.done (by decide)))
  obtain ⟨fuel, hf⟩ := h abiTagFirst _ hnotes
  have hnone : ∀ fuel, getBuildId (some abiTagFirst) (fuel + 2) = some none := fun _ => rfl
  match fuel, hf with
  | 0, hf        => cases hf
  | 1, hf        => cases hf
  | fuel + 2, hf => exact absurd ((hnone fuel).symm.trans hf) (by decide)

end Libpulp
