import Libpulp.Bytes
/-!
# MiniElf — reading a section without allocating (lib/minielf.c)

`Get_Elf_Section` reads the header, the table of section names and the section headers of a file, one `lseek` and one
`read` after the other; nobody looks at what `lseek` and `Elf_Load_Strtbl` return.  A result of `none` means that the
program uses something the file has not given: a name beyond the loaded table, a field of a header that was read in part,
or a header that is longer than its buffer.  `readsExactly_iff` says for which files neither this nor a wrong section
happens.
-/
namespace Libpulp
namespace MiniElf

open Bytes (Byte ofLE toLE)

def strtblSizeMax : Nat := 0x500

/-- `sizeof(Elf_Ehdr)`. -/
def ehdrSize : Nat := 64

/-- `sizeof(Elf_Shdr)`. -/
def shdrSize : Nat := 64

/-- The most that one `read` transfers. -/
def readMax : Nat := 0x7ffff000

/-- A regular file: its contents, and the last offset that `lseek` takes. -/
structure ElfFile where
  bytes    : List Byte
  maxBytes : Nat
  fits     : bytes.length ≤ maxBytes

namespace ElfFile

/-- `lseek(fd, off, SEEK_SET)` from `pos`, which it stays at when it fails. -/
def lseek (f : ElfFile) (pos off : Nat) : Nat := if off ≤ f.maxBytes then off else pos

def read (f : ElfFile) (pos count : Nat) : List Byte := (f.bytes.drop pos).take (min count readMax)

end ElfFile

/-- The fields of `Elf_Ehdr` that are used. -/
structure Ehdr where
  eShoff     : Nat
  eShentsize : Nat
  eShnum     : Nat
  eShstrndx  : Nat
deriving DecidableEq

/-- The `w` bytes at `off` of a header, `none` if they were not all read. -/
def field (raw : List Byte) (off w : Nat) : Option Nat :=
  if off + w ≤ raw.length then some (ofLE ((raw.drop off).take w)) else none

def shName (raw : List Byte) : Option Nat := field raw 0 4
def shOffset (raw : List Byte) : Option Nat := field raw 24 8
def shSize (raw : List Byte) : Option Nat := field raw 32 8

def elfParseEhdr (f : ElfFile) : Option Ehdr :=
  let raw := f.read (f.lseek 0 0) ehdrSize
  if raw.length ≠ ehdrSize then none
  else if raw.take 4 ≠ [0x7f, 0x45, 0x4c, 0x46] then none
  else some ⟨ofLE ((raw.drop 40).take 8), ofLE ((raw.drop 58).take 2), ofLE ((raw.drop 60).take 2),
    ofLE ((raw.drop 62).take 2)⟩

/-- `strcmp(name, t) == 0` for a C string, `none` when `t` ends before the comparison does. -/
def strcmpEq : List Byte → List Byte → Option Bool
  | _, []           => none
  | [], c :: _      => some (c = 0)
  | x :: xs, c :: t => if x = c then strcmpEq xs t else some false

/-- The loop over the section headers of `Elf_Get_Shdr` and `Elf_Get_Shdr_By_Name` from index `i` on: the header found and
the position in the file.  A header longer than the buffer is written past its end. -/
def findShdr (f : ElfFile) (shentsize : Nat) (test : Nat → List Byte → Option Bool) :
    Nat → Nat → Nat → Option (Option (List Byte) × Nat)
  | _, 0, pos     => some (none, pos)
  | i, k + 1, pos =>
    let raw := f.read pos shentsize
    if shdrSize < raw.length then none
    else if raw.length ≠ shentsize then some (none, pos + raw.length)
    else
      (test i raw).bind (fun found =>
        if found then some (some raw, pos + shentsize) else findShdr f shentsize test (i + 1) k (pos + shentsize))

def elfGetShdr (f : ElfFile) (ehdr : Ehdr) (index pos : Nat) : Option (Option (List Byte) × Nat) :=
  findShdr f ehdr.eShentsize (fun i _ => some (decide (index = i))) 0 ehdr.eShnum (f.lseek pos ehdr.eShoff)

def elfGetShdrByName (f : ElfFile) (ehdr : Ehdr) (name strtbl : List Byte) (pos : Nat) :
    Option (Option (List Byte) × Nat) :=
  findShdr f ehdr.eShentsize (fun _ raw => (shName raw).bind (fun n => strcmpEq name (strtbl.drop n))) 0 ehdr.eShnum
    (f.lseek pos ehdr.eShoff)

/-- `Elf_Load_Strtbl`: the bytes that were loaded into the table and the position in the file. -/
def elfLoadStrtbl (f : ElfFile) (ehdr : Ehdr) (pos : Nat) : Option (List Byte × Nat) :=
  (elfGetShdr f ehdr ehdr.eShstrndx pos).bind (fun
    | (none, pos)     => some ([], pos)
    | (some raw, pos) =>
      (shSize raw).bind (fun size =>
        if strtblSizeMax < size then some ([], pos)
        else
          (shOffset raw).map (fun offset =>
            (f.read (f.lseek pos offset) size,
              f.lseek pos offset + (f.read (f.lseek pos offset) size).length))))

/-- `Elf_Load_Section`: what it returns and the bytes that were loaded. -/
def elfLoadSection (f : ElfFile) (destSize : Nat) (raw : List Byte) (pos : Nat) : Option (Nat × List Byte) :=
  (shSize raw).bind (fun size =>
    if destSize < size then some (0, [])
    else
      (shOffset raw).map (fun offset =>
        let loaded := f.read (f.lseek pos offset) size
        (if loaded.length ≠ size then 0 else size, loaded)))

def ENOENT : Int := 2
def EINVAL : Int := 22

/-- `Get_Elf_Section`: what it returns and what it leaves in the buffer. -/
def getElfSection (destSize : Nat) (name : List Byte) : Option ElfFile → Option (Int × List Byte)
  | none   => some (-ENOENT, [])
  | some f =>
    match elfParseEhdr f with
    | none      => some (-EINVAL, [])
    | some ehdr =>
      (elfLoadStrtbl f ehdr ehdrSize).bind (fun (strtbl, pos) =>
        (elfGetShdrByName f ehdr name strtbl pos).bind (fun
          | (none, _)       => some (-EINVAL, [])
          | (some raw, pos) =>
            (elfLoadSection f destSize raw pos).map (fun (len, dest) =>
              if len = 0 then (-EINVAL, dest) else (len, dest))))

/-! ## Sections of a file -/

/-- The section header with index `i`, if the file has it. -/
def shdrAt (f : ElfFile) (ehdr : Ehdr) (i : Nat) : Option (List Byte) :=
  if i < ehdr.eShnum ∧ ehdr.eShoff + (i + 1) * ehdr.eShentsize ≤ f.bytes.length then
    some ((f.bytes.drop (ehdr.eShoff + i * ehdr.eShentsize)).take ehdr.eShentsize)
  else none

/-- What the file has of the section names. -/
def stringTable (f : ElfFile) (ehdr : Ehdr) : List Byte :=
  (((shdrAt f ehdr ehdr.eShstrndx).bind (fun raw =>
    (shOffset raw).bind (fun offset => (shSize raw).map (fun size => (f.bytes.drop offset).take size))))).getD []

/-- The section with index `i` has the name. -/
def NamedAt (f : ElfFile) (ehdr : Ehdr) (name : List Byte) (i : Nat) : Prop :=
  ∃ raw n, shdrAt f ehdr i = some raw ∧ shName raw = some n ∧ name ++ [0] <+: (stringTable f ehdr).drop n

/-- The contents of a section that lies in the file. -/
def contents (f : ElfFile) (raw : List Byte) : Option (List Byte) :=
  (shOffset raw).bind (fun offset => (shSize raw).bind (fun size =>
    if offset + size ≤ f.bytes.length then some ((f.bytes.drop offset).take size) else none))

/-- `data` are the contents of the first section with the name. -/
def FirstSection (f : ElfFile) (ehdr : Ehdr) (name data : List Byte) : Prop :=
  ∃ i raw, NamedAt f ehdr name i ∧ (∀ j < i, ¬ NamedAt f ehdr name j) ∧ shdrAt f ehdr i = some raw ∧
    contents f raw = some data

/-- **What reading a section promises**: only what was loaded is used, and a length is returned only for the first
section with the name, with its contents in the buffer. -/
def ReadsExactly (f : ElfFile) (destSize : Nat) (name : List Byte) : Prop :=
  ∃ ret dest, getElfSection destSize name (some f) = some (ret, dest) ∧
    (0 ≤ ret → ∃ ehdr data, elfParseEhdr f = some ehdr ∧ FirstSection f ehdr name data ∧ ret = data.length ∧ dest = data)

/-! ## The condition -/

/-- The section headers that the file has from a position on, up to the first that it does not have whole. -/
def wholeHeaders (f : ElfFile) (shentsize : Nat) : Nat → Nat → List (List Byte)
  | 0, _       => []
  | k + 1, pos =>
    if shentsize ≤ f.bytes.length - pos then
      (f.bytes.drop pos).take shentsize :: wholeHeaders f shentsize k (pos + shentsize)
    else []

/-- Where the section headers are first read. -/
def headerPos (f : ElfFile) (ehdr : Ehdr) : Nat := f.lseek ehdrSize ehdr.eShoff

/-- The table of names that is loaded, and the position after it. -/
def loadedTable (f : ElfFile) (ehdr : Ehdr) : List Byte × Nat := (elfLoadStrtbl f ehdr ehdrSize).getD ([], 0)

/-- Where the section headers are read for their names. -/
def namePos (f : ElfFile) (ehdr : Ehdr) : Nat := f.lseek (loadedTable f ehdr).2 ehdr.eShoff

/-- The name of the header is the one in the table. -/
def Named (name strtbl raw : List Byte) : Prop := name ++ [0] <+: strtbl.drop ((shName raw).getD 0)

/-- The table ends within the name. -/
def RunsOut (name strtbl raw : List Byte) : Prop :=
  strtbl.drop ((shName raw).getD 0) <+: name ++ [0] ∧ strtbl.drop ((shName raw).getD 0) ≠ name ++ [0]

/-- The contents of a section with the header are loaded, from `pos` if `lseek` fails. -/
def Loads (f : ElfFile) (destSize : Nat) (raw : List Byte) (pos : Nat) : Prop :=
  ∃ size offset, shSize raw = some size ∧ shOffset raw = some offset ∧ 0 < size ∧ size ≤ destSize ∧
    (f.read (f.lseek pos offset) size).length = size

/-- Every offset that matters can be sought. -/
def Seeks (f : ElfFile) (ehdr : Ehdr) (raw : List Byte) : Prop :=
  ehdr.eShoff ≤ f.maxBytes ∧
    (∀ table offset, (wholeHeaders f ehdr.eShentsize ehdr.eShnum (headerPos f ehdr))[ehdr.eShstrndx]? = some table →
      shOffset table = some offset → offset ≤ f.maxBytes) ∧
    ∀ offset, shOffset raw = some offset → offset ≤ f.maxBytes

/-- **What a file must be like**: its section headers fit into the buffer; the header of the name table has its offset and
size; and each header up to the first with the name has one that the loaded table does not end in, and if the contents
are then loaded, all offsets can be sought. -/
structure ReadsSafely (f : ElfFile) (ehdr : Ehdr) (destSize : Nat) (name : List Byte) : Prop where
  fits  : ehdr.eShentsize ≤ shdrSize ∨ ehdr.eShnum = 0 ∨ f.bytes.length ≤ headerPos f ehdr + shdrSize
  table : ehdr.eShstrndx < (wholeHeaders f ehdr.eShentsize ehdr.eShnum (headerPos f ehdr)).length → 40 ≤ ehdr.eShentsize
  names : ∀ i raw, (wholeHeaders f ehdr.eShentsize ehdr.eShnum (namePos f ehdr))[i]? = some raw →
    (∀ j < i, ∀ g, (wholeHeaders f ehdr.eShentsize ehdr.eShnum (namePos f ehdr))[j]? = some g →
      ¬ Named name (loadedTable f ehdr).1 g) →
    ¬ RunsOut name (loadedTable f ehdr).1 raw ∧
      (Named name (loadedTable f ehdr).1 raw →
        Loads f destSize raw (namePos f ehdr + (i + 1) * ehdr.eShentsize) → Seeks f ehdr raw)

/-! ## Comparing names -/

theorem strcmpEq_spec : ∀ {name : List Byte}, (0 : Byte) ∉ name → ∀ t : List Byte,
    (strcmpEq name t = none ↔ t <+: name ++ [0] ∧ t ≠ name ++ [0]) ∧ (strcmpEq name t = some true ↔ name ++ [0] <+: t)
  | _, _, []           => by simp [strcmpEq]
  | [], _, c :: t      => by
    simp only [strcmpEq, List.nil_append, List.cons_prefix_cons, List.prefix_nil]
    refine ⟨iff_of_false (by simp) ?_, by simp [eq_comm]⟩
    rintro ⟨⟨rfl, rfl⟩, h⟩
    exact h rfl
  | x :: xs, h0, c :: t => by
    rw [strcmpEq, List.cons_append, List.cons_prefix_cons, List.cons_prefix_cons]
    have ih := strcmpEq_spec (fun h => h0 (List.mem_cons_of_mem _ h) : (0 : Byte) ∉ xs) t
    by_cases hx : x = c
    · subst hx
      rw [if_pos rfl, ih.1, ih.2]
      simp
    · rw [if_neg hx]
      refine ⟨iff_of_false (by simp) ?_, by simp [hx]⟩
      rintro ⟨⟨rfl, -⟩, -⟩
      exact hx rfl

/-! ## Walking over the headers -/

section Walk

variable {f : ElfFile} {es : Nat}

theorem read_eq {count : Nat} (hc : count ≤ readMax) (pos : Nat) : f.read pos count = (f.bytes.drop pos).take count := by
  rw [ElfFile.read, Nat.min_eq_left hc]

theorem length_read {count : Nat} (hc : count ≤ readMax) (pos : Nat) :
    (f.read pos count).length = min count (f.bytes.length - pos) := by
  rw [read_eq hc, List.length_take, List.length_drop]

theorem wholeHeaders_getElem? : ∀ (k pos i : Nat) (raw : List Byte), (wholeHeaders f es k pos)[i]? = some raw ↔
    i < k ∧ es ≤ f.bytes.length - (pos + i * es) ∧ raw = (f.bytes.drop (pos + i * es)).take es
  | 0, pos, i, raw     => by simp [wholeHeaders]
  | k + 1, pos, i, raw => by
    rw [wholeHeaders]
    split
    · rename_i hle
      cases i with
      | zero => simp [hle, eq_comm]
      | succ i =>
        have h : pos + es + i * es = pos + (i + 1) * es := by rw [Nat.succ_mul]; omega
        rw [List.getElem?_cons_succ, wholeHeaders_getElem? k (pos + es) i raw, h]
        simp
    · rename_i hgt
      refine iff_of_false (by simp) ?_
      rintro ⟨-, hle, -⟩
      omega

theorem length_whole {k pos i : Nat} {raw : List Byte} (h : (wholeHeaders f es k pos)[i]? = some raw) :
    raw.length = es := by
  obtain ⟨-, hle, rfl⟩ := (wholeHeaders_getElem? k pos i raw).1 h
  rw [List.length_take, List.length_drop, Nat.min_eq_left hle]

theorem findShdr_succ (hes : es ≤ shdrSize) (test : Nat → List Byte → Option Bool) (i k pos : Nat) :
    findShdr f es test i (k + 1) pos =
      if es ≤ f.bytes.length - pos then
        (test i ((f.bytes.drop pos).take es)).bind (fun found =>
          if found then some (some ((f.bytes.drop pos).take es), pos + es)
          else findShdr f es test (i + 1) k (pos + es))
      else some (none, pos + (f.bytes.length - pos)) := by
  have hmax : es ≤ readMax := hes.trans (by decide)
  have hlen := length_read (f := f) hmax pos
  rw [findShdr, if_neg (by omega)]
  by_cases hle : es ≤ f.bytes.length - pos
  · rw [if_pos hle, if_neg (by omega), read_eq hmax]
  · rw [if_neg hle, if_pos (by omega), hlen, Nat.min_eq_right (by omega)]

/-- The loop passes over the headers that the test rejects. -/
theorem findShdr_rejects (hes : es ≤ shdrSize) (test : Nat → List Byte → Option Bool) : ∀ (k i pos : Nat),
    (∀ j raw, (wholeHeaders f es k pos)[j]? = some raw → test (i + j) raw = some false) →
      ∃ pos', findShdr f es test i k pos = some (none, pos')
  | 0, _, pos, _     => ⟨pos, rfl⟩
  | k + 1, i, pos, h => by
    rw [wholeHeaders] at h
    rw [findShdr_succ hes]
    by_cases hle : es ≤ f.bytes.length - pos
    · rw [if_pos hle] at h ⊢
      have h0 := h 0 _ rfl
      rw [Nat.add_zero] at h0
      rw [h0, Option.bind_some, if_neg (by decide)]
      refine findShdr_rejects hes test k (i + 1) (pos + es) (fun j raw hj => ?_)
      rw [show i + 1 + j = i + (j + 1) by omega]
      exact h (j + 1) raw hj
    · rw [if_neg hle]
      exact ⟨_, rfl⟩

theorem findShdr_ends (hes : es ≤ shdrSize) (test : Nat → List Byte → Option Bool) {raw : List Byte} :
    ∀ (k i pos j : Nat), (wholeHeaders f es k pos)[j]? = some raw → test (i + j) raw ≠ some false →
      (∀ j' < j, ∀ g, (wholeHeaders f es k pos)[j']? = some g → test (i + j') g = some false) →
        findShdr f es test i k pos = (test (i + j) raw).map (fun _ => (some raw, pos + (j + 1) * es))
  | 0, _, _, _, h, _, _               => by simp [wholeHeaders] at h
  | k + 1, i, pos, j, hj, hne, hbefore => by
    rw [wholeHeaders] at hj hbefore
    rw [findShdr_succ hes]
    by_cases hle : es ≤ f.bytes.length - pos
    swap
    · rw [if_neg hle] at hj
      cases hj
    rw [if_pos hle] at hj hbefore ⊢
    cases j with
    | zero =>
      rw [Nat.add_zero] at hne ⊢
      obtain rfl : (f.bytes.drop pos).take es = raw := by simpa using hj
      rw [Nat.zero_add, Nat.one_mul]
      cases ht : test i ((f.bytes.drop pos).take es) with
      | none => rfl
      | some found =>
        cases found with
        | false => exact absurd ht hne
        | true => rfl
    | succ j =>
      have h0 := hbefore 0 (Nat.succ_pos j) _ rfl
      rw [Nat.add_zero] at h0
      rw [h0, Option.bind_some, if_neg (by decide)]
      have hidx : ∀ j', i + 1 + j' = i + (j' + 1) := fun j' => by omega
      rw [findShdr_ends hes test k (i + 1) (pos + es) j (by simpa using hj) (by rw [hidx]; exact hne)
        (fun j' hj' g hg => by rw [hidx]; exact hbefore (j' + 1) (Nat.succ_lt_succ hj') g hg), hidx,
        show pos + es + (j + 1) * es = pos + (j + 1 + 1) * es by rw [Nat.succ_mul (j + 1)]; omega]

/-- A header that does not fit is either cut off by the end of the file or written past its buffer. -/
theorem findShdr_large (hes : shdrSize < es) (hmax : es ≤ readMax) (test : Nat → List Byte → Option Bool)
    (i k pos : Nat) :
    findShdr f es test i (k + 1) pos =
      if f.bytes.length ≤ pos + shdrSize then some (none, pos + (f.bytes.length - pos)) else none := by
  have hlen := length_read (f := f) hmax pos
  rw [findShdr]
  by_cases hle : f.bytes.length ≤ pos + shdrSize
  · rw [if_pos hle, if_neg (by omega), if_pos (by omega), hlen, Nat.min_eq_right (by omega)]
  · rw [if_neg hle, if_pos (by omega)]

end Walk

theorem field_of_le {raw : List Byte} {off w : Nat} (h : off + w ≤ raw.length) : ∃ n, field raw off w = some n :=
  ⟨_, if_pos h⟩

theorem field_none {raw : List Byte} {off w : Nat} (h : raw.length < off + w) : field raw off w = none :=
  if_neg (by omega)

section Table

variable {f : ElfFile} {ehdr : Ehdr}

/-- The names are read from the header with the index that the file gives. -/
theorem elfGetShdr_eq (hes : ehdr.eShentsize ≤ shdrSize) : ∃ pos,
    elfGetShdr f ehdr ehdr.eShstrndx ehdrSize =
      some ((wholeHeaders f ehdr.eShentsize ehdr.eShnum (headerPos f ehdr))[ehdr.eShstrndx]?, pos) ∧
        (ehdr.eShstrndx < (wholeHeaders f ehdr.eShentsize ehdr.eShnum (headerPos f ehdr)).length →
          pos = headerPos f ehdr + (ehdr.eShstrndx + 1) * ehdr.eShentsize) := by
  unfold elfGetShdr
  rw [show f.lseek ehdrSize ehdr.eShoff = headerPos f ehdr from rfl]
  cases hraw : (wholeHeaders f ehdr.eShentsize ehdr.eShnum (headerPos f ehdr))[ehdr.eShstrndx]? with
  | none =>
    obtain ⟨pos, h⟩ := findShdr_rejects hes (fun i _ => some (decide (ehdr.eShstrndx = i))) ehdr.eShnum 0
      (headerPos f ehdr) (fun j raw hj => by
        have : ehdr.eShstrndx ≠ 0 + j := fun e => by
          rw [e, Nat.zero_add, hj] at hraw
          cases hraw
        rw [decide_eq_false this])
    exact ⟨pos, h, fun hlt => absurd (List.getElem?_eq_none_iff.1 hraw) (by omega)⟩
  | some raw =>
    refine ⟨_, ?_, fun _ => rfl⟩
    rw [findShdr_ends hes _ ehdr.eShnum 0 (headerPos f ehdr) ehdr.eShstrndx hraw (by simp) (fun j hj g _ => by
      have : ehdr.eShstrndx ≠ 0 + j := by omega
      rw [decide_eq_false this])]
    simp

/-- What is loaded of a table: all that the file has of it, or nothing. -/
structure TableFrom (f : ElfFile) (ehdr : Ehdr) (strtbl raw : List Byte) : Prop where
  header : (wholeHeaders f ehdr.eShentsize ehdr.eShnum (headerPos f ehdr))[ehdr.eShstrndx]? = some raw
  whole  : 40 ≤ ehdr.eShentsize
  read   : ∃ size offset, shSize raw = some size ∧ shOffset raw = some offset ∧ size ≤ strtblSizeMax ∧
    strtbl = f.read (f.lseek (headerPos f ehdr + (ehdr.eShstrndx + 1) * ehdr.eShentsize) offset) size

/-- **Loading the names**, when headers fit. -/
theorem elfLoadStrtbl_small (hes : ehdr.eShentsize ≤ shdrSize) :
    (elfLoadStrtbl f ehdr ehdrSize = none ↔
      ehdr.eShstrndx < (wholeHeaders f ehdr.eShentsize ehdr.eShnum (headerPos f ehdr)).length ∧ ehdr.eShentsize < 40) ∧
      ∀ strtbl pos, elfLoadStrtbl f ehdr ehdrSize = some (strtbl, pos) →
        strtbl = [] ∨ ∃ raw, TableFrom f ehdr strtbl raw := by
  obtain ⟨pos, hget, hpos⟩ := elfGetShdr_eq (f := f) hes
  unfold elfLoadStrtbl
  rw [hget]
  cases hraw : (wholeHeaders f ehdr.eShentsize ehdr.eShnum (headerPos f ehdr))[ehdr.eShstrndx]? with
  | none =>
    have hge := List.getElem?_eq_none_iff.1 hraw
    refine ⟨iff_of_false (by simp) (by omega), fun strtbl pos h => Or.inl ?_⟩
    simp only [Option.bind_some, Option.some.injEq, Prod.mk.injEq] at h
    exact h.1.symm
  | some raw =>
    have hlt : ehdr.eShstrndx < (wholeHeaders f ehdr.eShentsize ehdr.eShnum (headerPos f ehdr)).length :=
      (List.getElem?_eq_some_iff.1 hraw).1
    have hlen := length_whole hraw
    by_cases h40 : ehdr.eShentsize < 40
    · have hnone : shSize raw = none := field_none (by omega)
      simp only [Option.bind_some, hnone, Option.bind_none]
      exact ⟨iff_of_true trivial ⟨hlt, h40⟩, fun strtbl pos h => (by cases h)⟩
    · obtain ⟨size, hsize⟩ : ∃ n, shSize raw = some n := field_of_le (by omega)
      obtain ⟨offset, hoffset⟩ : ∃ n, shOffset raw = some n := field_of_le (by omega)
      simp only [Option.bind_some, hsize, hoffset, Option.map_some]
      split
      · refine ⟨iff_of_false (by simp) (by omega), fun strtbl pos h => Or.inl ?_⟩
        simp only [Option.some.injEq, Prod.mk.injEq] at h
        exact h.1.symm
      · rename_i hle
        refine ⟨iff_of_false (by simp) (by omega), fun strtbl pos' h => Or.inr ⟨raw, hraw, by omega, size, offset, hsize,
          hoffset, by omega, ?_⟩⟩
        simp only [Option.some.injEq, Prod.mk.injEq] at h
        rw [← hpos hlt]
        exact h.1.symm

theorem elfLoadStrtbl_large (hes : shdrSize < ehdr.eShentsize) (hmax : ehdr.eShentsize ≤ readMax) :
    if ehdr.eShnum = 0 ∨ f.bytes.length ≤ headerPos f ehdr + shdrSize then
      (loadedTable f ehdr).1 = [] ∧ elfLoadStrtbl f ehdr ehdrSize = some (loadedTable f ehdr) ∧
        (ehdr.eShnum = 0 ∨ f.bytes.length ≤ namePos f ehdr + shdrSize)
    else elfLoadStrtbl f ehdr ehdrSize = none := by
  have hget : elfGetShdr f ehdr ehdr.eShstrndx ehdrSize = if ehdr.eShnum = 0 then some (none, headerPos f ehdr)
      else if f.bytes.length ≤ headerPos f ehdr + shdrSize then
        some (none, headerPos f ehdr + (f.bytes.length - headerPos f ehdr)) else none := by
    unfold elfGetShdr
    cases ehdr.eShnum with
    | zero => rfl
    | succ k => exact findShdr_large hes hmax _ 0 k _
  unfold namePos loadedTable elfLoadStrtbl
  rw [hget]
  by_cases hnum : ehdr.eShnum = 0
  · rw [if_pos (Or.inl hnum), if_pos hnum]
    exact ⟨rfl, rfl, Or.inl hnum⟩
  rw [if_neg hnum]
  by_cases hle : f.bytes.length ≤ headerPos f ehdr + shdrSize
  · rw [if_pos (Or.inr hle), if_pos hle]
    refine ⟨rfl, rfl, Or.inr ?_⟩
    simp only [Option.bind_some, Option.getD_some]
    by_cases hs : ehdr.eShoff ≤ f.maxBytes
    · rw [ElfFile.lseek, if_pos hs]
      rwa [headerPos, ElfFile.lseek, if_pos hs] at hle
    · rw [ElfFile.lseek, if_neg hs]
      omega
  · rw [if_neg (not_or.2 ⟨hnum, hle⟩), if_neg hle]
    rfl

/-- The test of a header that was read against the loaded names. -/
def nameTest (name strtbl raw : List Byte) : Option Bool := (shName raw).bind (fun n => strcmpEq name (strtbl.drop n))

theorem nameTest_spec {name strtbl raw : List Byte} (h0 : (0 : Byte) ∉ name) (h : strtbl = [] ∨ 4 ≤ raw.length) :
    (nameTest name strtbl raw = none ↔ RunsOut name strtbl raw) ∧
      (nameTest name strtbl raw = some true ↔ Named name strtbl raw) := by
  unfold nameTest RunsOut Named
  cases hn : shName raw with
  | some n => exact strcmpEq_spec h0 (strtbl.drop n)
  | none =>
    have hnil : strtbl = [] := h.resolve_right (fun h4 => by
      obtain ⟨n, h'⟩ : ∃ n, shName raw = some n := field_of_le (by omega)
      rw [hn] at h'
      cases h')
    rw [hnil]
    simp

theorem first_or_all {P : List Byte → Prop} : ∀ hs : List (List Byte),
    (∀ (i : Nat) (raw : List Byte), hs[i]? = some raw → P raw) ∨
      ∃ (i : Nat) (raw : List Byte), hs[i]? = some raw ∧ ¬ P raw ∧ ∀ j < i, ∀ g, hs[j]? = some g → P g
  | []      => Or.inl (by simp)
  | h :: hs => by
    by_cases hp : P h
    · rcases first_or_all (P := P) hs with hall | ⟨i, raw, hi, hn, hb⟩
      · refine Or.inl (fun i raw hi => ?_)
        cases i with
        | zero => rwa [← Option.some.inj hi]
        | succ i => exact hall i raw hi
      · refine Or.inr ⟨i + 1, raw, hi, hn, fun j hj g hg => ?_⟩
        cases j with
        | zero => rwa [← Option.some.inj hg]
        | succ j => exact hb j (Nat.lt_of_succ_lt_succ hj) g hg
    · exact Or.inr ⟨0, h, rfl, hp, fun j hj => absurd hj (Nat.not_lt_zero j)⟩

/-- What is returned for the header that was found. -/
theorem elfLoadSection_eq (destSize pos : Nat) {size offset : Nat} {raw : List Byte} (hs : shSize raw = some size)
    (ho : shOffset raw = some offset) :
    ∃ len dest, elfLoadSection f destSize raw pos = some (len, dest) ∧ (len ≠ 0 ↔ Loads f destSize raw pos) ∧
      (len ≠ 0 → len = size ∧ dest = f.read (f.lseek pos offset) size) := by
  have hloads : Loads f destSize raw pos ↔
      0 < size ∧ size ≤ destSize ∧ (f.read (f.lseek pos offset) size).length = size := by
    unfold Loads
    rw [hs, ho]
    constructor
    · rintro ⟨_, _, ⟨rfl⟩, ⟨rfl⟩, h⟩
      exact h
    · exact fun h => ⟨size, offset, rfl, rfl, h⟩
  rw [hloads]
  unfold elfLoadSection
  rw [hs, ho]
  simp only [Option.bind_some, Option.map_some]
  by_cases hd : destSize < size
  · rw [if_pos hd]
    exact ⟨0, [], rfl, iff_of_false (by simp) (by omega), fun h => absurd rfl h⟩
  · rw [if_neg hd]
    refine ⟨_, _, rfl, ?_, ?_⟩
    · by_cases hl : (f.read (f.lseek pos offset) size).length = size
      · rw [if_neg (not_not.2 hl)]
        omega
      · rw [if_pos hl]
        exact iff_of_false (by simp) (fun h => hl h.2.2)
    · intro hne
      by_cases hl : (f.read (f.lseek pos offset) size).length = size
      · exact ⟨if_neg (not_not.2 hl), rfl⟩
      · rw [if_pos hl] at hne
        exact absurd rfl hne

/-- The headers that are read are those of the file when their offset can be sought. -/
theorem shdrAt_eq (hpos : 0 < ehdr.eShentsize) (i : Nat) :
    shdrAt f ehdr i = (wholeHeaders f ehdr.eShentsize ehdr.eShnum ehdr.eShoff)[i]? := by
  have hsucc : ehdr.eShoff + (i + 1) * ehdr.eShentsize = ehdr.eShoff + i * ehdr.eShentsize + ehdr.eShentsize := by
    rw [Nat.succ_mul, Nat.add_assoc]
  unfold shdrAt
  cases hw : (wholeHeaders f ehdr.eShentsize ehdr.eShnum ehdr.eShoff)[i]? with
  | some raw =>
    obtain ⟨hlt, hle, rfl⟩ := (wholeHeaders_getElem? _ _ i raw).1 hw
    rw [if_pos ⟨hlt, by omega⟩]
  | none =>
    refine if_neg (fun h => ?_)
    have := (wholeHeaders_getElem? _ _ i _).2 ⟨h.1, (by omega : ehdr.eShentsize ≤ f.bytes.length -
      (ehdr.eShoff + i * ehdr.eShentsize)), rfl⟩
    rw [hw] at this
    cases this

/-- The loaded names are those of the file when the offset of the table can be sought as well. -/
theorem TableFrom.stringTable_eq {strtbl raw : List Byte} (h : TableFrom f ehdr strtbl raw)
    (hoff : ehdr.eShoff ≤ f.maxBytes) : ∃ size offset, shOffset raw = some offset ∧
      stringTable f ehdr = (f.bytes.drop offset).take size ∧ (offset ≤ f.maxBytes → strtbl = stringTable f ehdr) := by
  obtain ⟨size, offset, hs, ho, hle, rfl⟩ := h.read
  have hhdr : headerPos f ehdr = ehdr.eShoff := by rw [headerPos, ElfFile.lseek, if_pos hoff]
  have hraw : shdrAt f ehdr ehdr.eShstrndx = some raw := by
    rw [shdrAt_eq (by have := h.whole; omega), ← hhdr]
    exact h.header
  have htable : stringTable f ehdr = (f.bytes.drop offset).take size := by
    unfold stringTable
    rw [hraw, Option.bind_some, ho, Option.bind_some, hs, Option.map_some, Option.getD_some]
  refine ⟨size, offset, ho, htable, fun hseek => ?_⟩
  rw [htable, ElfFile.lseek, if_pos hseek, read_eq (hle.trans (by decide))]

variable {name : List Byte}

/-- With the names of the file, a header found by its name is one of the file. -/
theorem namedAt_iff (h40 : 40 ≤ ehdr.eShentsize) (i : Nat) : NamedAt f ehdr name i ↔
    ∃ raw, (wholeHeaders f ehdr.eShentsize ehdr.eShnum ehdr.eShoff)[i]? = some raw ∧
      Named name (stringTable f ehdr) raw := by
  unfold NamedAt Named
  rw [shdrAt_eq (by omega)]
  constructor
  · rintro ⟨raw, n, hraw, hn, hp⟩
    exact ⟨raw, hraw, by rw [hn]; exact hp⟩
  · rintro ⟨raw, hraw, hp⟩
    obtain ⟨n, hn⟩ : ∃ n, shName raw = some n := field_of_le (by rw [length_whole hraw]; omega)
    rw [hn] at hp
    exact ⟨raw, n, hraw, hn, hp⟩

/-- Where the table is found again, the header at which the loop ended is the first with the name. -/
theorem namedAt_first {strtbl table raw : List Byte} {i pos : Nat} (ht : TableFrom f ehdr strtbl table)
    (hpos : pos = f.lseek pos ehdr.eShoff)
    (hraw : (wholeHeaders f ehdr.eShentsize ehdr.eShnum pos)[i]? = some raw) (hnamed : Named name strtbl raw)
    (hbefore : ∀ j < i, ∀ g, (wholeHeaders f ehdr.eShentsize ehdr.eShnum pos)[j]? = some g → ¬ Named name strtbl g)
    (htable : stringTable f ehdr = strtbl) (hoff : ehdr.eShoff ≤ f.maxBytes) :
    NamedAt f ehdr name i ∧ ∀ j < i, ¬ NamedAt f ehdr name j := by
  have h40 := ht.whole
  rw [ElfFile.lseek, if_pos hoff] at hpos
  subst hpos
  refine ⟨(namedAt_iff h40 i).2 ⟨raw, hraw, by rw [htable]; exact hnamed⟩, fun j hj hn => ?_⟩
  obtain ⟨g, hg, hng⟩ := (namedAt_iff h40 j).1 hn
  rw [htable] at hng
  exact hbefore j hj g hg hng

/-- **The section that was loaded is the right one exactly when all offsets can be sought.** -/
theorem firstSection_iff {strtbl table raw : List Byte} {i pos size offset : Nat} (ht : TableFrom f ehdr strtbl table)
    (hpos : pos = f.lseek pos ehdr.eShoff)
    (hraw : (wholeHeaders f ehdr.eShentsize ehdr.eShnum pos)[i]? = some raw) (hnamed : Named name strtbl raw)
    (hbefore : ∀ j < i, ∀ g, (wholeHeaders f ehdr.eShentsize ehdr.eShnum pos)[j]? = some g → ¬ Named name strtbl g)
    (hs : shSize raw = some size) (ho : shOffset raw = some offset) (h0 : 0 < size)
    (hlen : (f.read (f.lseek (pos + (i + 1) * ehdr.eShentsize) offset) size).length = size) :
    (∃ data, FirstSection f ehdr name data ∧ size = data.length ∧
      f.read (f.lseek (pos + (i + 1) * ehdr.eShentsize) offset) size = data) ↔ Seeks f ehdr raw := by
  have h40 := ht.whole
  have hname : stringTable f ehdr = strtbl → ehdr.eShoff ≤ f.maxBytes → NamedAt f ehdr name i ∧
      ∀ j < i, ¬ NamedAt f ehdr name j := fun htable hoff => namedAt_first ht hpos hraw hnamed hbefore htable hoff
  constructor
  · rintro ⟨data, ⟨i', raw', hn, hmin, hraw', hc⟩, -, -⟩
    have hfits := f.fits
    have hoff : ehdr.eShoff ≤ f.maxBytes := by
      unfold shdrAt at hraw'
      split at hraw'
      · omega
      · cases hraw'
    obtain ⟨size₀, offset₀, ho₀, hst, heq⟩ := ht.stringTable_eq hoff
    have hoff₀ : offset₀ ≤ f.maxBytes := by
      by_contra hgt
      obtain ⟨_, n, -, -, hp⟩ := hn
      have hnil : f.bytes.drop offset₀ = [] := List.drop_eq_nil_of_le (by omega)
      rw [hst, hnil, List.take_nil, List.drop_nil] at hp
      simpa using hp.length_le
    obtain ⟨hni, hmini⟩ := hname (heq hoff₀).symm hoff
    have hii : i' = i := by
      rcases Nat.lt_trichotomy i' i with hlt | heq' | hgt
      · exact absurd hn (hmini i' hlt)
      · exact heq'
      · exact absurd hni (hmin i hgt)
    subst hii
    rw [shdrAt_eq (by omega)] at hraw'
    rw [ElfFile.lseek, if_pos hoff] at hpos
    subst hpos
    obtain rfl : raw' = raw := Option.some.inj (hraw'.symm.trans hraw)
    refine ⟨hoff, fun table' offset' ht' hto' => ?_, fun offset' ho' => ?_⟩
    · obtain rfl : table' = table := Option.some.inj (ht'.symm.trans ht.header)
      obtain rfl : offset' = offset₀ := Option.some.inj (hto'.symm.trans ho₀)
      exact hoff₀
    · obtain rfl : offset' = offset := Option.some.inj (ho'.symm.trans ho)
      unfold contents at hc
      rw [ho, Option.bind_some, hs, Option.bind_some] at hc
      split at hc
      · omega
      · cases hc
  · rintro ⟨hoff, hoff₀, hoff₁⟩
    obtain ⟨size₀, offset₀, ho₀, -, heq⟩ := ht.stringTable_eq hoff
    obtain ⟨hni, hmini⟩ := hname (heq (hoff₀ table offset₀ ht.header ho₀)).symm hoff
    have hseek : f.lseek (pos + (i + 1) * ehdr.eShentsize) offset = offset := by
      rw [ElfFile.lseek, if_pos (hoff₁ offset ho)]
    rw [hseek] at hlen ⊢
    have hin : size ≤ readMax ∧ offset + size ≤ f.bytes.length := by
      rw [ElfFile.read, List.length_take, List.length_drop] at hlen
      omega
    rw [ElfFile.lseek, if_pos hoff] at hpos
    subst hpos
    refine ⟨(f.bytes.drop offset).take size, ⟨i, raw, hni, hmini, ?_, ?_⟩, ?_, read_eq hin.1 offset⟩
    · rw [shdrAt_eq (by omega)]
      exact hraw
    · unfold contents
      rw [ho, Option.bind_some, hs, Option.bind_some, if_pos hin.2]
    · rw [← read_eq hin.1 offset]
      exact hlen.symm

end Table

/-! ## Which files are read safely -/

theorem lseek_lseek (f : ElfFile) (pos off : Nat) : f.lseek pos off = f.lseek (f.lseek pos off) off := by
  unfold ElfFile.lseek
  split <;> rfl

theorem eShentsize_le {f : ElfFile} {ehdr : Ehdr} (h : elfParseEhdr f = some ehdr) : ehdr.eShentsize ≤ readMax := by
  unfold elfParseEhdr at h
  simp only at h
  split at h
  · cases h
  split at h
  · cases h
  · rename_i hlen _
    obtain rfl := Option.some.inj h
    have hlt := Bytes.ofLE_lt (((f.read (f.lseek 0 0) ehdrSize).drop 58).take 2)
    have hl2 : (((f.read (f.lseek 0 0) ehdrSize).drop 58).take 2).length ≤ 2 := List.length_take_le _ _
    have hpow := Nat.pow_le_pow_right (by decide : 0 < 256) hl2
    have : readMax = 2147479552 := rfl
    simp only
    omega

section Reads

variable {f : ElfFile} {ehdr : Ehdr} {destSize : Nat} {name : List Byte}

/-- The rest of `Get_Elf_Section` once the names are loaded. -/
theorem getElfSection_eq (hp : elfParseEhdr f = some ehdr)
    (hl : elfLoadStrtbl f ehdr ehdrSize = some (loadedTable f ehdr)) :
    getElfSection destSize name (some f) =
      (findShdr f ehdr.eShentsize (fun _ => nameTest name (loadedTable f ehdr).1) 0 ehdr.eShnum (namePos f ehdr)).bind
        (fun
          | (none, _)       => some (-EINVAL, [])
          | (some raw, pos) =>
            (elfLoadSection f destSize raw pos).map (fun (len, dest) =>
              if len = 0 then (-EINVAL, dest) else (len, dest))) := by
  unfold getElfSection
  simp only [hp]
  rw [hl, Option.bind_some]
  rfl

theorem readsExactly_of_neg (ret : Int) (dest : List Byte) (h : getElfSection destSize name (some f) = some (ret, dest))
    (hneg : ret < 0) : ReadsExactly f destSize name := ⟨ret, dest, h, fun h0 => absurd h0 (by omega)⟩

theorem not_readsExactly (h : getElfSection destSize name (some f) = none) : ¬ ReadsExactly f destSize name := by
  rintro ⟨ret, dest, h', -⟩
  rw [h] at h'
  cases h'

theorem readsExactly_large (hp : elfParseEhdr f = some ehdr) (hes : shdrSize < ehdr.eShentsize) :
    ReadsExactly f destSize name ↔ ReadsSafely f ehdr destSize name := by
  have hload := elfLoadStrtbl_large (f := f) hes (eShentsize_le hp)
  by_cases hfit : ehdr.eShnum = 0 ∨ f.bytes.length ≤ headerPos f ehdr + shdrSize
  · rw [if_pos hfit] at hload
    obtain ⟨-, hl, hfit'⟩ := hload
    have hempty : wholeHeaders f ehdr.eShentsize ehdr.eShnum (namePos f ehdr) = [] := by
      rcases hfit' with hz | hle
      · rw [hz]
        rfl
      · cases ehdr.eShnum with
        | zero => rfl
        | succ k => exact if_neg (by omega)
    obtain ⟨pos, hfind⟩ : ∃ pos, findShdr f ehdr.eShentsize (fun _ => nameTest name (loadedTable f ehdr).1) 0 ehdr.eShnum
        (namePos f ehdr) = some (none, pos) := by
      cases hk : ehdr.eShnum with
      | zero => exact ⟨_, rfl⟩
      | succ k =>
        rw [findShdr_large hes (eShentsize_le hp), if_pos (hfit'.resolve_left (by omega))]
        exact ⟨_, rfl⟩
    refine iff_of_true (readsExactly_of_neg (-EINVAL) [] ?_ (by decide)) ⟨Or.inr hfit, fun _ => ?_, ?_⟩
    · rw [getElfSection_eq hp hl, hfind]
      rfl
    · have : shdrSize = 64 := rfl
      omega
    · rw [hempty]
      intro i raw hi
      simp at hi
  · rw [if_neg hfit] at hload
    refine iff_of_false (not_readsExactly ?_) (fun h => ?_)
    · unfold getElfSection
      simp only [hp]
      rw [hload]
      rfl
    · exact h.fits.elim (fun hle => absurd hle (by omega)) hfit

/-- A header with the name was found: the result is right unless a wrong place was loaded. -/
theorem readsExactly_found {table raw : List Byte} {i : Nat} (hp : elfParseEhdr f = some ehdr)
    (hl : elfLoadStrtbl f ehdr ehdrSize = some (loadedTable f ehdr)) (ht : TableFrom f ehdr (loadedTable f ehdr).1 table)
    (hi : (wholeHeaders f ehdr.eShentsize ehdr.eShnum (namePos f ehdr))[i]? = some raw)
    (hyes : Named name (loadedTable f ehdr).1 raw)
    (hbefore : ∀ j < i, ∀ g, (wholeHeaders f ehdr.eShentsize ehdr.eShnum (namePos f ehdr))[j]? = some g →
      ¬ Named name (loadedTable f ehdr).1 g)
    (hfind : findShdr f ehdr.eShentsize (fun _ => nameTest name (loadedTable f ehdr).1) 0 ehdr.eShnum (namePos f ehdr) =
      some (some raw, namePos f ehdr + (i + 1) * ehdr.eShentsize)) :
    ReadsExactly f destSize name ↔
      (Loads f destSize raw (namePos f ehdr + (i + 1) * ehdr.eShentsize) → Seeks f ehdr raw) := by
  have h40 := ht.whole
  have hlen := length_whole hi
  obtain ⟨size, hsize⟩ : ∃ n, shSize raw = some n := field_of_le (by omega)
  obtain ⟨offset, hoffset⟩ : ∃ n, shOffset raw = some n := field_of_le (by omega)
  obtain ⟨len, dest, hload, hloads, hval⟩ := elfLoadSection_eq (f := f) destSize
    (namePos f ehdr + (i + 1) * ehdr.eShentsize) hsize hoffset
  have hrun : getElfSection destSize name (some f) = some (if len = 0 then (-EINVAL, dest) else ((len : Int), dest)) := by
    rw [getElfSection_eq hp hl, hfind]
    simp only [Option.bind_some, hload, Option.map_some]
  by_cases hz : len = 0
  · rw [if_pos hz] at hrun
    exact iff_of_true (readsExactly_of_neg _ _ hrun (by decide)) (fun h => absurd (hloads.2 h) (not_not.2 hz))
  rw [if_neg hz] at hrun
  obtain ⟨rfl, rfl⟩ := hval hz
  have hl' := hloads.1 hz
  obtain ⟨_, _, h₁, h₂, hpos, -, hread⟩ := hloads.1 hz
  obtain rfl := Option.some.inj (hsize.symm.trans h₁)
  obtain rfl := Option.some.inj (hoffset.symm.trans h₂)
  have hiff := firstSection_iff ht (lseek_lseek f (loadedTable f ehdr).2 ehdr.eShoff) hi hyes hbefore hsize hoffset hpos
    hread
  constructor
  · rintro ⟨ret, dest, h, hpost⟩ -
    obtain ⟨rfl, rfl⟩ := Prod.mk.inj (Option.some.inj (hrun.symm.trans h))
    obtain ⟨ehdr', data, hp', hfirst, hret, hdest⟩ := hpost (Int.natCast_nonneg _)
    obtain rfl := Option.some.inj (hp.symm.trans hp')
    exact hiff.1 ⟨data, hfirst, by exact_mod_cast hret, hdest⟩
  · intro hs
    obtain ⟨data, hfirst, hd, hdest⟩ := hiff.2 (hs hl')
    exact ⟨_, _, hrun, fun _ => ⟨ehdr, data, hp, hfirst, by exact_mod_cast hd, hdest⟩⟩

/-- **What the test of a header says**, against the table that is loaded. -/
theorem nameTest_loaded (h0 : (0 : Byte) ∉ name)
    (htable : (loadedTable f ehdr).1 = [] ∨ ∃ table, TableFrom f ehdr (loadedTable f ehdr).1 table)
    {i : Nat} {raw : List Byte}
    (hi : (wholeHeaders f ehdr.eShentsize ehdr.eShnum (namePos f ehdr))[i]? = some raw) :
    (nameTest name (loadedTable f ehdr).1 raw = none ↔ RunsOut name (loadedTable f ehdr).1 raw) ∧
      (nameTest name (loadedTable f ehdr).1 raw = some true ↔ Named name (loadedTable f ehdr).1 raw) ∧
      (nameTest name (loadedTable f ehdr).1 raw = some false →
        ¬ RunsOut name (loadedTable f ehdr).1 raw ∧ ¬ Named name (loadedTable f ehdr).1 raw) := by
  have hspec : (nameTest name (loadedTable f ehdr).1 raw = none ↔ RunsOut name (loadedTable f ehdr).1 raw) ∧
      (nameTest name (loadedTable f ehdr).1 raw = some true ↔ Named name (loadedTable f ehdr).1 raw) := by
    refine nameTest_spec h0 (htable.imp_right ?_)
    rintro ⟨table, ht⟩
    have := ht.whole
    rw [length_whole hi]
    omega
  refine ⟨hspec.1, hspec.2, ?_⟩
  intro hf
  rw [← hspec.1, ← hspec.2, hf]
  simp

/-- **Where the first header with the name is**, the condition is about that one alone. -/
theorem readsSafely_named {i : Nat} {raw : List Byte} (hes : ehdr.eShentsize ≤ shdrSize)
    (hwhole : ehdr.eShstrndx < (wholeHeaders f ehdr.eShentsize ehdr.eShnum (headerPos f ehdr)).length →
      40 ≤ ehdr.eShentsize)
    (hi : (wholeHeaders f ehdr.eShentsize ehdr.eShnum (namePos f ehdr))[i]? = some raw)
    (hyes : Named name (loadedTable f ehdr).1 raw) (hends : ¬ RunsOut name (loadedTable f ehdr).1 raw)
    (hbefore : ∀ j < i, ∀ g, (wholeHeaders f ehdr.eShentsize ehdr.eShnum (namePos f ehdr))[j]? = some g →
      ¬ RunsOut name (loadedTable f ehdr).1 g ∧ ¬ Named name (loadedTable f ehdr).1 g) :
    ReadsSafely f ehdr destSize name ↔
      (Loads f destSize raw (namePos f ehdr + (i + 1) * ehdr.eShentsize) → Seeks f ehdr raw) := by
  constructor
  · exact fun h => (h.names i raw hi (fun j hj g hg => (hbefore j hj g hg).2)).2 hyes
  · refine fun h => ⟨Or.inl hes, hwhole, fun j g hg hb => ?_⟩
    rcases Nat.lt_trichotomy j i with hlt | rfl | hgt
    · exact (hbefore j hlt g hg).imp_right (fun hn h => absurd h hn)
    · obtain rfl : g = raw := Option.some.inj (hg.symm.trans hi)
      exact ⟨hends, fun _ => h⟩
    · exact absurd hyes (hb i hgt raw hi)

theorem readsExactly_small (h0 : (0 : Byte) ∉ name) (hp : elfParseEhdr f = some ehdr)
    (hes : ehdr.eShentsize ≤ shdrSize) :
    ReadsExactly f destSize name ↔ ReadsSafely f ehdr destSize name := by
  obtain ⟨hnone, hsome⟩ := elfLoadStrtbl_small (f := f) hes
  cases hl : elfLoadStrtbl f ehdr ehdrSize with
  | none =>
    obtain ⟨hlt, h40⟩ := hnone.1 hl
    refine iff_of_false (not_readsExactly ?_) (fun h => absurd (h.table hlt) (by omega))
    unfold getElfSection
    simp only [hp]
    rw [hl]
    rfl
  | some r =>
    have hr : loadedTable f ehdr = r := by rw [loadedTable, hl]; rfl
    rw [← hr] at hl
    have htable := hsome (loadedTable f ehdr).1 (loadedTable f ehdr).2 hl
    have hwhole : ehdr.eShstrndx < (wholeHeaders f ehdr.eShentsize ehdr.eShnum (headerPos f ehdr)).length →
        40 ≤ ehdr.eShentsize := by
      intro hlt
      by_contra h40
      rw [hnone.2 ⟨hlt, by omega⟩] at hl
      cases hl
    rcases first_or_all (P := fun raw => nameTest name (loadedTable f ehdr).1 raw = some false)
      (wholeHeaders f ehdr.eShentsize ehdr.eShnum (namePos f ehdr)) with hall | ⟨i, raw, hi, hne, hbefore⟩
    · -- no header has the name
      obtain ⟨pos, hfind⟩ := findShdr_rejects hes (fun _ => nameTest name (loadedTable f ehdr).1) ehdr.eShnum 0
        (namePos f ehdr) hall
      refine iff_of_true (readsExactly_of_neg (-EINVAL) [] ?_ (by decide)) ⟨Or.inl hes, hwhole, ?_⟩
      · rw [getElfSection_eq hp hl, hfind]
        rfl
      · intro i raw hi _
        exact ((nameTest_loaded h0 htable hi).2.2 (hall i raw hi)).imp_right (fun hn h => absurd h hn)
    have hfind := findShdr_ends hes (fun _ => nameTest name (loadedTable f ehdr).1) ehdr.eShnum 0
      (namePos f ehdr) i hi hne hbefore
    obtain ⟨hruns, hnamed, -⟩ := nameTest_loaded h0 htable hi
    have hdiffers : ∀ j < i, ∀ g, (wholeHeaders f ehdr.eShentsize ehdr.eShnum (namePos f ehdr))[j]? = some g →
        ¬ RunsOut name (loadedTable f ehdr).1 g ∧ ¬ Named name (loadedTable f ehdr).1 g := fun j hj g hg =>
      (nameTest_loaded h0 htable hg).2.2 (hbefore j hj g hg)
    cases htag : nameTest name (loadedTable f ehdr).1 raw with
    | none =>
      -- the table ends within the name
      have hout := hruns.1 htag
      refine iff_of_false (not_readsExactly ?_)
        (fun h => (h.names i raw hi (fun j hj g hg => (hdiffers j hj g hg).2)).1 hout)
      rw [getElfSection_eq hp hl, hfind, htag]
      rfl
    | some found =>
      obtain rfl : found = true := by
        cases found with
        | false => exact absurd htag hne
        | true => rfl
      have hyes := hnamed.1 htag
      have hends : ¬ RunsOut name (loadedTable f ehdr).1 raw := by
        intro hr
        rw [hruns.2 hr] at htag
        cases htag
      obtain ⟨table, ht⟩ : ∃ table, TableFrom f ehdr (loadedTable f ehdr).1 table := htable.resolve_left (fun hnil => by
        rw [Named, hnil, List.drop_nil] at hyes
        simpa using hyes.length_le)
      rw [readsSafely_named hes hwhole hi hyes hends hdiffers]
      refine readsExactly_found hp hl ht hi hyes (fun j hj g hg => (hdiffers j hj g hg).2) ?_
      rw [hfind, htag]
      rfl

/-- **Which files are read safely and exactly.** -/
theorem readsExactly_iff (f : ElfFile) (destSize : Nat) (name : List Byte) (h0 : (0 : Byte) ∉ name) :
    ReadsExactly f destSize name ↔ ∀ ehdr, elfParseEhdr f = some ehdr → ReadsSafely f ehdr destSize name := by
  cases hp : elfParseEhdr f with
  | none =>
    refine iff_of_true (readsExactly_of_neg (-EINVAL) [] ?_ (by decide)) (fun ehdr h => (by cases h))
    unfold getElfSection
    simp only [hp]
  | some ehdr =>
    have hiff : ReadsExactly f destSize name ↔ ReadsSafely f ehdr destSize name := by
      by_cases hes : ehdr.eShentsize ≤ shdrSize
      · exact readsExactly_small h0 hp hes
      · exact readsExactly_large hp (Nat.lt_of_not_le hes)
    rw [hiff]
    constructor
    · intro h ehdr' he
      rwa [← Option.some.inj he]
    · exact fun h => h ehdr rfl

end Reads

/-- An ELF header with section headers of the usual size. -/
def demoEhdr (shoff shnum shstrndx : Nat) : List Byte :=
  [0x7f, 0x45, 0x4c, 0x46] ++ List.replicate 36 0 ++ toLE 8 shoff ++ List.replicate 10 0 ++ toLE 2 64 ++ toLE 2 shnum ++
    toLE 2 shstrndx

def demoShdr (name offset size : Nat) : List Byte :=
  toLE 4 name ++ List.replicate 20 0 ++ toLE 8 offset ++ toLE 8 size ++ List.replicate 24 0

def ulpName : List Byte := [46, 117, 108, 112]

def demoFile (bytes : List Byte) : ElfFile := ⟨bytes, bytes.length, Nat.le_refl _⟩

/-- A file with its names, a section `.ulp` of three bytes and the headers of both. -/
def demoUlp : ElfFile :=
  demoFile (demoEhdr 73 2 0 ++ (0 :: ulpName ++ [0]) ++ [1, 2, 3] ++ demoShdr 0 64 6 ++ demoShdr 1 70 3)

theorem readsExactly_demo : ReadsExactly demoUlp 16 ulpName := by
  refine (readsExactly_iff demoUlp 16 ulpName (by decide)).2 (fun ehdr he => ?_)
  have hparse : elfParseEhdr demoUlp = some ⟨73, 64, 2, 0⟩ := by decide +kernel
  obtain rfl := Option.some.inj (hparse.symm.trans he)
  have hs : wholeHeaders demoUlp 64 2 73 = [demoShdr 0 64 6, demoShdr 1 70 3] := by decide +kernel
  have ht : loadedTable demoUlp ⟨73, 64, 2, 0⟩ = (0 :: ulpName ++ [0], 70) := by decide +kernel
  have hn : namePos demoUlp ⟨73, 64, 2, 0⟩ = 73 := by decide +kernel
  have hp : headerPos demoUlp ⟨73, 64, 2, 0⟩ = 73 := by decide +kernel
  refine ⟨Or.inl (by decide), fun _ => by decide, ?_⟩
  rw [hn, hs, ht]
  intro i raw hi _
  match i with
  | 0 =>
    obtain rfl : demoShdr 0 64 6 = raw := by simpa using hi
    have hdiff : ¬ Named ulpName (0 :: ulpName ++ [0]) (demoShdr 0 64 6) := by
      unfold Named
      decide
    refine ⟨?_, fun h => absurd h hdiff⟩
    unfold RunsOut
    decide
  | 1 =>
    obtain rfl : demoShdr 1 70 3 = raw := by simpa using hi
    have hend : ¬ RunsOut ulpName (0 :: ulpName ++ [0]) (demoShdr 1 70 3) := by
      unfold RunsOut
      decide
    refine ⟨hend, fun _ _ => ⟨by decide +kernel, fun table offset ht ho => ?_, fun offset ho => ?_⟩⟩
    · rw [hp, hs] at ht
      obtain rfl : demoShdr 0 64 6 = table := by simpa using ht
      obtain rfl : (64 : Nat) = offset := Option.some.inj ((by decide : some 64 = shOffset (demoShdr 0 64 6)).trans ho)
      decide +kernel
    · obtain rfl : (70 : Nat) = offset := Option.some.inj ((by decide : some 70 = shOffset (demoShdr 1 70 3)).trans ho)
      decide +kernel
  | i + 2 => simp at hi

/-- A file with one section header, whose table of names would be the section with index 5. -/
def demoNoTable : ElfFile := demoFile (demoEhdr 64 1 5 ++ demoShdr 0 64 1)

theorem names_not_loaded : ¬ ∀ (f : ElfFile) (destSize : Nat) (name : List Byte), (0 : Byte) ∉ name →
    ReadsExactly f destSize name := by
  intro h
  have hnone : getElfSection 16 ulpName (some demoNoTable) = none := by decide +kernel
  exact not_readsExactly hnone (h demoNoTable 16 ulpName (by decide))

end MiniElf
end Libpulp
