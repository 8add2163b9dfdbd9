import Libpulp.Common
/-!
# BuildId — the build-id gate (lib/ulp.c: `compare_build_ids`, `check_build_id`)

`compare_build_ids` walks the notes of every `PT_NOTE` segment of a loaded object.  At the first note that looks like a
build id it compares and leaves the segment; the comparison takes `memcmp`'s result as it is, so bytes that differ count
as a match.
-/
namespace Libpulp

open Bytes (Byte Addr Mem toLE ofLE)

def PT_NOTE : Nat := 4
def NT_GNU_BUILD_ID : Nat := 3

structure Phdr where
  pType   : Nat
  pVaddr  : Addr
  pFilesz : BitVec 64
deriving DecidableEq

/-- What `dl_iterate_phdr` hands to its callback for one loaded object. -/
structure DlPhdrInfo where
  dlpiAddr : Addr
  dlpiName : List Byte
  dlpiPhdr : List Phdr
deriving DecidableEq

/-- `ALIGN(val, 4)` on a `uint32_t`. -/
def align4 (val : Nat) : Nat := (val + 3) % 2 ^ 32 / 4 * 4

def readWord (mem : Mem) (a : Addr) : Nat := ofLE (mem.read a 4)

/-- The walk over one segment from `note` on, with `size` bytes left; whether it returns 1.  The walk advances by at
least 12 bytes, so `size` itself is fuel enough. -/
def compareNotes (mem : Mem) (o : UlpObject) : Nat → Addr → Int → Bool
  | 0, _, _              => false
  | fuel + 1, note, size =>
    if size < 16 then false
    else
      let namesz := readWord mem note
      let descsz := readWord mem (note + 4)
      if readWord mem (note + 8) = NT_GNU_BUILD_ID ∧ namesz = 4 ∧ 16 ≤ descsz then
        -- `memcmp(..)` without `== 0`: different bytes return 1, equal bytes go on to the next segment
        decide (descsz = o.buildIdLen) && decide (o.buildId.take descsz ≠ mem.read (note + 16) descsz)
      else
        let offset := 12 + align4 namesz + align4 descsz
        compareNotes mem o fuel (note + BitVec.ofNat 64 offset) (size - offset)

/-- Where the walk stops: the address and the length of the descriptor it compares. -/
def stopNotes (mem : Mem) : Nat → Addr → Int → Option (Addr × Nat)
  | 0, _, _              => none
  | fuel + 1, note, size =>
    if size < 16 then none
    else
      let namesz := readWord mem note
      let descsz := readWord mem (note + 4)
      if readWord mem (note + 8) = NT_GNU_BUILD_ID ∧ namesz = 4 ∧ 16 ≤ descsz then some (note + 16, descsz)
      else
        let offset := 12 + align4 namesz + align4 descsz
        stopNotes mem fuel (note + BitVec.ofNat 64 offset) (size - offset)

theorem compareNotes_stop (mem : Mem) (o : UlpObject) : ∀ (fuel : Nat) (note : Addr) (size : Int),
    compareNotes mem o fuel note size = (stopNotes mem fuel note size).any (fun x =>
      decide (x.2 = o.buildIdLen) && decide (o.buildId.take x.2 ≠ mem.read x.1 x.2))
  | 0, _, _              => rfl
  | fuel + 1, note, size => by
    rw [compareNotes, stopNotes]
    by_cases hs : size < 16
    · rw [if_pos hs, if_pos hs]
      rfl
    rw [if_neg hs, if_neg hs]
    simp only
    by_cases hb : readWord mem (note + 8) = NT_GNU_BUILD_ID ∧ readWord mem note = 4 ∧ 16 ≤ readWord mem (note + 4)
    · rw [if_pos hb, if_pos hb]
      rfl
    · rw [if_neg hb, if_neg hb, compareNotes_stop mem o fuel]

def compareSegment (mem : Mem) (o : UlpObject) (info : DlPhdrInfo) (ph : Phdr) : Bool :=
  decide (ph.pType = PT_NOTE) && compareNotes mem o ph.pFilesz.toNat (info.dlpiAddr + ph.pVaddr) ph.pFilesz.toInt

def compareBuildIds (mem : Mem) (o : UlpObject) (info : DlPhdrInfo) : Bool :=
  info.dlpiPhdr.any (compareSegment mem o info)

/-- `check_build_id`: `dl_iterate_phdr` stops at the first object whose callback returns 1, which sets
`build_id_check`. -/
def checkBuildId (mem : Mem) (objects : List DlPhdrInfo) (o : UlpObject) : Bool :=
  o.buildIdCheck || objects.any (compareBuildIds mem o)

/-! ## Notes -/

/-- An ELF note: name and descriptor, each followed by its padding to four bytes. -/
structure Note where
  type    : Nat
  name    : List Byte
  namePad : List Byte
  desc    : List Byte
  descPad : List Byte
  type_lt : type < 2 ^ 32
  name_lt : name.length + 3 < 2 ^ 32
  desc_lt : desc.length + 3 < 2 ^ 32
  namePad_len : namePad.length = (4 - name.length % 4) % 4
  descPad_len : descPad.length = (4 - desc.length % 4) % 4

namespace Note

def bytes (n : Note) : List Byte :=
  toLE 4 n.name.length ++ (toLE 4 n.desc.length ++ (toLE 4 n.type ++ (n.name ++ n.namePad ++ (n.desc ++ n.descPad))))

/-- A GNU build-id note, as the code recognises it. -/
def isBuildId (n : Note) : Bool :=
  decide (n.type = NT_GNU_BUILD_ID) && decide (n.name.length = 4) && decide (16 ≤ n.desc.length)

/-- The note carries the build id of `o`. -/
def carries (o : UlpObject) (n : Note) : Bool :=
  n.isBuildId && decide (n.desc.length = o.buildIdLen) && decide (n.desc = o.buildId.take o.buildIdLen)

/-- The note has a build id as long as that of `o`, with other bytes. -/
def differs (o : UlpObject) (n : Note) : Bool :=
  decide (n.desc.length = o.buildIdLen) && decide (n.desc ≠ o.buildId.take o.buildIdLen)

theorem length_bytes (n : Note) : n.bytes.length = 12 + align4 n.name.length + align4 n.desc.length := by
  have h₁ := n.name_lt
  have h₂ := n.desc_lt
  simp only [bytes, List.length_append, Bytes.length_toLE, n.namePad_len, n.descPad_len, align4]
  omega

end Note

/-- The segment at `a` of `size` bytes is the encoding of `notes`. -/
def HoldsNotes (mem : Mem) (a : Addr) (size : BitVec 64) (notes : List Note) : Prop :=
  mem.read a size.toNat = notes.flatMap Note.bytes ∧ size.toNat < 2 ^ 63

theorem read_note {mem : Mem} {a : Addr} {size : Nat} {n : Note} {t : List Byte} (h : mem.read a size = n.bytes ++ t) :
    readWord mem a = n.name.length ∧ readWord mem (a + 4) = n.desc.length ∧ readWord mem (a + 8) = n.type ∧
    (n.name.length = 4 → mem.read (a + 16) n.desc.length = n.desc) ∧
    mem.read (a + BitVec.ofNat 64 n.bytes.length) (size - n.bytes.length) = t := by
  have hword : ∀ {b : Addr} {v : Nat}, v < 2 ^ 32 → mem.read b (toLE 4 v).length = toLE 4 v → readWord mem b = v := by
    intro b v hv hr
    rw [Bytes.length_toLE] at hr
    rw [readWord, hr, Bytes.ofLE_toLE_of_lt (by simpa using hv)]
  obtain ⟨hn, ht⟩ := Mem.read_eq_append h
  rw [Note.bytes] at hn
  obtain ⟨h₁, hn⟩ := Mem.read_eq_append hn
  obtain ⟨h₂, hn⟩ := Mem.read_eq_append hn
  obtain ⟨h₃, hn⟩ := Mem.read_eq_append hn
  obtain ⟨h₄, hn⟩ := Mem.read_eq_append hn
  obtain ⟨h₅, hn⟩ := Mem.read_eq_append hn
  have hname := n.name_lt
  have hdesc := n.desc_lt
  simp only [Bytes.length_toLE, BitVec.add_assoc] at h₂ h₃ h₅
  refine ⟨hword (by omega) h₁, hword (by omega) ?_, hword n.type_lt ?_, fun h4 => ?_, ht⟩
  · rw [Bytes.length_toLE]; exact h₂
  · rw [Bytes.length_toLE]; exact h₃
  · have hpad : n.namePad.length = 0 := by rw [n.namePad_len, h4]
    rw [List.length_append, hpad, h4] at h₅
    exact h₅

/-- The notes of a segment at `a`, each with its address. -/
def placed : Addr → List Note → List (Addr × Note)
  | _, []      => []
  | a, n :: ns => (a, n) :: placed (a + BitVec.ofNat 64 n.bytes.length) ns

theorem map_placed : ∀ (a : Addr) (notes : List Note), (placed a notes).map Prod.snd = notes
  | _, []     => rfl
  | a, n :: l => by rw [placed, List.map_cons, map_placed]

theorem read_placed {mem : Mem} : ∀ {notes : List Note} {a : Addr} {size : Nat} {x : Addr × Note},
    mem.read a size = notes.flatMap Note.bytes → x ∈ placed a notes → mem.read x.1 x.2.bytes.length = x.2.bytes
  | [], _, _, _, _, hx        => by cases hx
  | n :: notes, a, size, x, h, hx => by
    rw [List.flatMap_cons] at h
    rcases List.mem_cons.1 hx with rfl | hx
    · exact (Mem.read_eq_append h).1
    · exact read_placed (Mem.read_eq_append h).2 hx

/-- **The walk stops at the first build-id note.** -/
theorem stopNotes_eq (mem : Mem) : ∀ (notes : List Note) (fuel size : Nat) (a : Addr),
    mem.read a size = notes.flatMap Note.bytes → size ≤ fuel →
      stopNotes mem fuel a size = ((placed a notes).find? (·.2.isBuildId)).map (fun x => (x.1 + 16, x.2.desc.length))
  | [], fuel, size, a, h, _ => by
    have : size = 0 := by simpa using congrArg List.length h
    subst this
    cases fuel <;> simp [stopNotes, placed]
  | n :: notes, fuel, size, a, h, hf => by
    rw [List.flatMap_cons] at h
    have hlen := congrArg List.length h
    rw [Mem.length_read, List.length_append] at hlen
    have hn := n.length_bytes
    obtain ⟨h₁, h₂, h₃, -, ht⟩ := read_note h
    cases fuel with
    | zero => omega
    | succ fuel =>
      have hstep := stopNotes_eq mem notes fuel (size - n.bytes.length) _ ht (by omega)
      unfold stopNotes
      by_cases hs : size < 16
      · -- only a note with neither name nor descriptor is that short, and nothing fits after it
        have hnil : notes = [] := by
          cases notes with
          | nil => rfl
          | cons n' _ =>
            have := n'.length_bytes
            simp only [List.flatMap_cons, List.length_append] at hlen
            omega
        have hname : n.name.length ≠ 4 := by
          intro h4
          rw [h4] at hn
          simp [align4] at hn
          omega
        rw [if_pos (by omega), hnil]
        simp [Note.isBuildId, hname, placed]
      · rw [if_neg (by omega)]
        simp only [h₁, h₂, h₃]
        rw [placed]
        by_cases hb : n.isBuildId = true
        · have hb' := hb
          simp only [Note.isBuildId, Bool.and_eq_true, decide_eq_true_eq] at hb'
          rw [if_pos ⟨hb'.1.1, hb'.1.2, hb'.2⟩]
          simp only [List.find?_cons, hb, Option.map_some]
        · have hb' : ¬ (n.type = NT_GNU_BUILD_ID ∧ n.name.length = 4 ∧ 16 ≤ n.desc.length) := fun ⟨x, y, z⟩ =>
            hb (by simp [Note.isBuildId, x, y, z])
          rw [if_neg hb', List.find?_cons_of_neg (by simpa using hb), ← hn, ← hstep]
          congr 1
          omega

/-- **At the first build-id note the walk reports a difference.** -/
theorem compareNotes_eq (mem : Mem) (o : UlpObject) (notes : List Note) (fuel size : Nat) (a : Addr)
    (h : mem.read a size = notes.flatMap Note.bytes) (hf : size ≤ fuel) :
    compareNotes mem o fuel a size = (notes.find? Note.isBuildId).any (Note.differs o) := by
  have hfind : notes.find? Note.isBuildId = ((placed a notes).find? (·.2.isBuildId)).map Prod.snd := by
    conv => lhs; rw [← map_placed a notes]
    rw [List.find?_map]
    rfl
  rw [compareNotes_stop, stopNotes_eq mem notes fuel size a h hf, hfind, Option.any_map, Option.any_map]
  cases hx : (placed a notes).find? (·.2.isBuildId) with
  | none => rfl
  | some x =>
    have hb := List.find?_some hx
    simp only [Note.isBuildId, Bool.and_eq_true, decide_eq_true_eq] at hb
    have hread := read_placed h (List.mem_of_find?_eq_some hx)
    have hdesc := (@read_note mem x.1 _ x.2 [] (by rw [hread, List.append_nil])).2.2.2.1 hb.1.2
    simp only [Option.any_some, hdesc, Note.differs]
    by_cases hl : x.2.desc.length = o.buildIdLen
    · rw [hl]; simp [eq_comm]
    · simp [hl]

/-! ## The gate -/

section Gate

variable (mem : Mem) (objects : List DlPhdrInfo) (o : UlpObject) (notes : DlPhdrInfo → Phdr → List Note)

/-- Every `PT_NOTE` segment of every loaded object is the encoding of its notes. -/
def NotesWf : Prop := ∀ info ∈ objects, ∀ ph ∈ info.dlpiPhdr, ph.pType = PT_NOTE →
  HoldsNotes mem (info.dlpiAddr + ph.pVaddr) ph.pFilesz (notes info ph)

/-- Some loaded object carries a note with the build id of `o`. -/
def BuildIdLoaded : Prop := ∃ info ∈ objects, ∃ ph ∈ info.dlpiPhdr, ph.pType = PT_NOTE ∧
  ∃ n ∈ notes info ph, n.carries o = true

/-- The first build-id note of some loaded segment is as long as the build id of `o` and differs from it. -/
def OtherBuildIdFirst : Prop := ∃ info ∈ objects, ∃ ph ∈ info.dlpiPhdr, ph.pType = PT_NOTE ∧
  ∃ n, (notes info ph).find? Note.isBuildId = some n ∧ n.differs o = true

/-- **The gate opens exactly when a build id of the same length is different.** -/
theorem checkBuildId_eq (hwf : NotesWf mem objects notes) (hnew : o.buildIdCheck = false) :
    checkBuildId mem objects o = true ↔ OtherBuildIdFirst objects o notes := by
  have hseg : ∀ info ∈ objects, ∀ ph ∈ info.dlpiPhdr, (compareSegment mem o info ph = true ↔ ph.pType = PT_NOTE ∧
      ∃ n, (notes info ph).find? Note.isBuildId = some n ∧ n.differs o = true) := by
    intro info hi ph hp
    simp only [compareSegment, Bool.and_eq_true, decide_eq_true_eq]
    refine and_congr_right (fun ht => ?_)
    obtain ⟨hr, hlt⟩ := hwf info hi ph hp ht
    have hsize : ph.pFilesz.toInt = (ph.pFilesz.toNat : Int) := BitVec.toInt_eq_toNat_of_lt (by omega)
    rw [hsize, compareNotes_eq mem o _ _ _ _ hr (Nat.le_refl _)]
    exact Option.any_eq_true _ _
  unfold checkBuildId OtherBuildIdFirst
  rw [hnew, Bool.false_or, List.any_eq_true]
  refine exists_congr (fun info => and_congr_right (fun hi => ?_))
  rw [compareBuildIds, List.any_eq_true]
  exact exists_congr (fun ph => and_congr_right (fun hp => hseg info hi ph hp))

/-- **When the gate is right.**  It answers whether the build id is loaded exactly when the build id is loaded and some
segment's first build-id note of that length differs from it, or when neither holds. -/
theorem checkBuildId_right_iff (hwf : NotesWf mem objects notes) (hnew : o.buildIdCheck = false) :
    (checkBuildId mem objects o = true ↔ BuildIdLoaded objects o notes) ↔
      (BuildIdLoaded objects o notes ∧ OtherBuildIdFirst objects o notes) ∨
      (¬ BuildIdLoaded objects o notes ∧ ¬ OtherBuildIdFirst objects o notes) := by
  rw [checkBuildId_eq mem objects o notes hwf hnew]
  by_cases h₁ : BuildIdLoaded objects o notes <;> by_cases h₂ : OtherBuildIdFirst objects o notes <;> simp [h₁, h₂]

end Gate

/-- A library whose only note is the build id `01 01 … 01`. -/
def soleNote : Note :=
  { type := 3, name := [71, 78, 85, 0], namePad := [], desc := List.replicate 20 1, descPad := [],
    type_lt := by decide, name_lt := by decide, desc_lt := by decide, namePad_len := by decide,
    descPad_len := by decide }

def soleLibrary : DlPhdrInfo := { dlpiAddr := 4096, dlpiName := [], dlpiPhdr := [⟨PT_NOTE, 16, 36⟩] }

def soleMem : Mem := Mem.write (fun _ => 0) 4112 soleNote.bytes

/-- Metadata for the object with the build id `b b … b`. -/
def objectWithBuildId (b : Byte) : UlpObject :=
  { buildIdLen := 20, buildIdCheck := false, buildId := List.replicate 20 b, name := [], nunits := 0, units := [] }

theorem soleLibrary_wf : NotesWf soleMem [soleLibrary] (fun _ _ => [soleNote]) := by
  intro info hi ph hp _
  rw [List.mem_singleton.1 hi] at hp ⊢
  rw [List.mem_singleton.1 hp]
  exact ⟨by decide, by decide⟩

/-- With nothing else loaded, no segment differs from a build id of another length. -/
theorem checkBuildId_right_sole : (checkBuildId soleMem [soleLibrary] { objectWithBuildId 1 with buildIdLen := 16 } = true ↔
    BuildIdLoaded [soleLibrary] { objectWithBuildId 1 with buildIdLen := 16 } (fun _ _ => [soleNote])) := by
  refine (checkBuildId_right_iff soleMem [soleLibrary] { objectWithBuildId 1 with buildIdLen := 16 } _ soleLibrary_wf
    rfl).2 (Or.inr ⟨?_, ?_⟩)
  · rintro ⟨info, -, ph, -, -, n, hn, hc⟩
    rw [List.mem_singleton.1 hn] at hc
    exact absurd hc (by decide)
  · rintro ⟨info, -, ph, -, -, n, hn, hc⟩
    have : n = soleNote := by simpa using List.mem_of_find?_eq_some hn
    rw [this] at hc
    exact absurd hc (by decide)

/-- **The right build id is refused and a wrong one accepted**: the library carries `01 … 01`. -/
theorem checkBuildId_inverted :
    ¬ (checkBuildId soleMem [soleLibrary] (objectWithBuildId 1) = true ↔
        BuildIdLoaded [soleLibrary] (objectWithBuildId 1) (fun _ _ => [soleNote])) ∧
    ¬ (checkBuildId soleMem [soleLibrary] (objectWithBuildId 2) = true ↔
        BuildIdLoaded [soleLibrary] (objectWithBuildId 2) (fun _ _ => [soleNote])) := by
  have h₁ : checkBuildId soleMem [soleLibrary] (objectWithBuildId 1) = false := by decide
  have h₂ : checkBuildId soleMem [soleLibrary] (objectWithBuildId 2) = true := by decide
  refine ⟨fun h => ?_, fun h => ?_⟩
  · have : BuildIdLoaded [soleLibrary] (objectWithBuildId 1) (fun _ _ => [soleNote]) :=
      ⟨soleLibrary, by simp, ⟨PT_NOTE, 16, 36⟩, by simp [soleLibrary], rfl, soleNote, by simp, by decide⟩
    rw [h.2 this] at h₁
    cases h₁
  · obtain ⟨info, -, ph, -, -, n, hn, hc⟩ := h.1 h₂
    rw [List.mem_singleton.1 hn] at hc
    exact absurd hc (by decide)

end Libpulp
