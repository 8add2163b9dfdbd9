import Libpulp.Maps
import Libpulp.Tokens
/-!
# EhdrAddr — the ELF header of the main program (tools/introspection.c: `get_ehdr_addr`)

The main program is looked for in `/proc/<pid>/maps` under the name in `/proc/<pid>/comm`.  That name is the first fifteen
bytes of the file's, while what stands in a line of the listing is cut at its first space: the header is found if and only
if both come to the same name and no line before comes to it (`ehdrAddr_iff`).
-/
namespace Libpulp
namespace EhdrAddr

open Bytes (Byte Addr)
open Tokens (strtok)

/-! ## The tool -/

/-- A call of `strtok` on what the calls before have left: the token, `none` for NULL, and what is left. -/
def nextToken (sep : Byte) (str : List Byte) : Option (List Byte) × List Byte :=
  match strtok sep str with
  | none                  => (none, [])
  | some (_, token, rest) => (some token, rest)

/-- `str_addr1` and `str_path` of a line. -/
def lineFields (line : List Byte) : Option (List Byte) × Option (List Byte) :=
  let (strAddr1, rest) := nextToken 45 line
  let (_, rest) := nextToken 32 rest  -- str_addr2
  let (_, rest) := nextToken 32 rest  -- str_perm
  let (_, rest) := nextToken 32 rest  -- str_offset
  let (_, rest) := nextToken 32 rest  -- str_dev
  let (_, rest) := nextToken 32 rest  -- str_inode
  (strAddr1, (nextToken 32 rest).1)

/-- The base name without its newline; on an empty one `bin_len - 1` wraps around and `none` is the access there. -/
def binName (strPath : List Byte) : Option (List Byte) :=
  let name := getBasename strPath
  if name = [] then none else some (if name.getLast? = some 10 then name.dropLast else name)

/-- The loop over the lines; `none` for an access that is not allowed, `some none` when no line matches. -/
def ehdrLoop (filename : List Byte) : List (List Byte) → Option (Option Addr)
  | []            => some none
  | line :: lines =>
    let (strAddr1, strPath) := lineFields line
    (strPath.bind binName).bind (fun name =>
      if name = filename then strAddr1.map (fun str => some (BitVec.ofNat 64 (strtoulHex (str ++ [0])).1))
      else ehdrLoop filename lines)

/-- `get_ehdr_addr` on the lines of `/proc/<pid>/maps`; `some none` is its last `return 0UL`. -/
def getEhdrAddr (lAddr : Addr) (filename : List Byte) (lines : List (List Byte)) : Option (Option Addr) :=
  if lAddr ≠ 0 then some (some lAddr) else ehdrLoop filename lines

/-- `fgets`, from a text that fits. -/
def fgets (text : List Byte) : List Byte := text.takeWhile (· != 10) ++ (if (10 : Byte) ∈ text then [10] else [])

/-- `get_target_binary_name` on what `/proc/<pid>/comm` holds. -/
def getTargetBinaryName (comm : List Byte) : List Byte := (getBasename (fgets comm)).takeWhile (· != 10)

/-! ## The kernel -/

/-- `/proc/<pid>/comm` of a process that was started from a file of this name and has not renamed itself. -/
def comm (name : List Byte) : List Byte := name.take 15 ++ [10]

/-- A field of a line. -/
abbrev Word := { w : List Byte // w ≠ [] ∧ (0 : Byte) ∉ w ∧ (10 : Byte) ∉ w ∧ (32 : Byte) ∉ w }

/-- What a mapping is of: a file, with its path, or something else, with the text that stands for it. -/
inductive Backing where
  | file (path : CString) (deleted : Bool)
  | other (text : { t : List Byte // (0 : Byte) ∉ t ∧ (10 : Byte) ∉ t })

structure Mapping where
  start   : Addr
  finish  : Addr
  perms   : Word
  offset  : Word
  dev     : Word
  inode   : Word
  padding : Nat
  backing : Backing

/-- A newline in a path is printed as `\012`. -/
def escape (c : Byte) : List Byte := if c = 10 then [92, 48, 49, 50] else [c]

/-- ` (deleted)`. -/
def deletedMark : List Byte := [32, 40, 100, 101, 108, 101, 116, 101, 100, 41]

def Backing.text : Backing → List Byte
  | file path deleted => path.1.flatMap escape ++ if deleted then deletedMark else []
  | other text        => text.1

/-- A line of the listing. -/
def Mapping.line (v : Mapping) : List Byte :=
  hexLong v.start ++ 45 :: (hexLong v.finish ++ 32 :: (v.perms.1 ++ 32 :: (v.offset.1 ++ 32 :: (v.dev.1 ++ 32 ::
    (v.inode.1 ++ 32 :: (List.replicate v.padding 32 ++ v.backing.text ++ [10]))))))

/-- The mappings of a process: no two of them start at the same address. -/
structure Listing where
  vmas   : List Mapping
  starts : (vmas.map Mapping.start).Nodup

/-! ## Names -/

/-- The text of a line from its first character that is not a space on. -/
def unpadded (text : List Byte) : List Byte := text.dropWhile (· == 32)

/-- **The name a text comes to**: the base name of its first word; `none` when that is empty and the text goes on. -/
def key (text : List Byte) : Option (List Byte) :=
  let name := getBasename ((unpadded text).takeWhile (· != 32))
  if name = [] ∧ (32 : Byte) ∈ unpadded text then none else some name

/-- The name the tool looks for. -/
def commName (path : CString) : List Byte := getTargetBinaryName (comm (getBasename path.1))

def Mapping.isOf (path : CString) (v : Mapping) : Bool :=
  match v.backing with
  | .file p _ => p = path
  | .other _  => false

/-- **The main program's header is found**: nothing is accessed that is not there, and the address is where the first
mapping of the file starts. -/
structure EhdrFound (path : CString) (l : Listing) : Prop where
  defined : getEhdrAddr 0 (commName path) (l.vmas.map Mapping.line) ≠ none
  first   : ∀ v, l.vmas.find? (Mapping.isOf path) = some v →
    getEhdrAddr 0 (commName path) (l.vmas.map Mapping.line) = some (some v.start)

/-- **The name leads to the file**: every line up to the one that decides has a name, that of the file is the name looked
for, and another line of that name decides only if the file is not mapped behind it. -/
def LeadsTo (path : CString) : List Mapping → Prop
  | []      => True
  | v :: vs =>
    match key v.backing.text with
    | none      => False
    | some name =>
      if v.isOf path = true then name = commName path
      else if name = commName path then ∀ u ∈ vs, u.isOf path = false
      else LeadsTo path vs

/-! ## The fields of a line -/

theorem nextToken_append {sep : Byte} {token : List Byte} (h : sep ∉ token) (hne : token ≠ []) (rest : List Byte) :
    nextToken sep (token ++ sep :: rest) = (some token, rest) := by
  unfold nextToken
  rw [Tokens.strtok_append h hne]

theorem getBasename_append {s : List Byte} {c : Byte} (hc : c ≠ 47) : getBasename (s ++ [c]) = getBasename s ++ [c] := by
  unfold getBasename
  rw [List.reverse_append, List.reverse_singleton, List.singleton_append,
    List.takeWhile_cons_of_pos (by simpa using hc), List.reverse_cons]

theorem getBasename_subset (s : List Byte) : ∀ c ∈ getBasename s, c ∈ s := by
  intro c hc
  unfold getBasename at hc
  exact List.mem_reverse.1 ((List.takeWhile_sublist _).subset (List.mem_reverse.1 hc))

theorem dropWhile_padding (text : List Byte) : ∀ n,
    (List.replicate n (32 : Byte) ++ text ++ [10]).dropWhile (· == 32) = unpadded text ++ [10]
  | 0     => by
    rw [List.replicate_zero, List.nil_append, List.dropWhile_append, unpadded]
    split
    · rename_i h
      rw [List.isEmpty_iff.1 h]
      rfl
    · rfl
  | n + 1 => by
    rw [List.replicate_succ, List.cons_append, List.cons_append, List.dropWhile_cons_of_pos (by decide),
      dropWhile_padding text n]

theorem unpadded_subset (text : List Byte) : ∀ c ∈ unpadded text, c ∈ text := fun _ hc =>
  (List.dropWhile_sublist _).subset hc

theorem binName_token {text : List Byte} (h10 : (10 : Byte) ∉ text) (n : Nat) :
    (nextToken 32 (List.replicate n 32 ++ text ++ [10])).1.bind binName = key text := by
  have hne : unpadded text ++ [10] ≠ [] := by simp
  have htoken : (nextToken 32 (List.replicate n 32 ++ text ++ [10])).1 =
      some ((unpadded text ++ [10]).takeWhile (· != 32)) := by
    unfold nextToken strtok
    rw [dropWhile_padding, if_neg hne]
  have h10u : (10 : Byte) ∉ unpadded text := fun h => h10 (unpadded_subset text 10 h)
  rw [htoken, Option.bind_some]
  unfold binName key
  by_cases hsp : (32 : Byte) ∈ unpadded text
  · -- the token ends at a space, and has no newline
    have htake : (unpadded text ++ [10]).takeWhile (· != 32) = (unpadded text).takeWhile (· != 32) := by
      rw [List.takeWhile_append, if_neg]
      intro hlen
      have hall := List.takeWhile_eq_self_iff.1 ((List.takeWhile_sublist _).eq_of_length hlen) 32 hsp
      simp at hall
    have hlast : (getBasename ((unpadded text).takeWhile (· != 32))).getLast? ≠ some 10 := by
      intro hl
      have hmem := getBasename_subset _ _ (List.mem_of_getLast? hl)
      exact h10u ((List.takeWhile_sublist _).subset hmem)
    simp only [htake, hsp, and_true, if_neg hlast]
  · have hall : ∀ x ∈ unpadded text, (x != 32) = true := by
      intro x hx
      have : x ≠ 32 := fun h0 => hsp (h0 ▸ hx)
      simpa using this
    have htake : (unpadded text ++ [10]).takeWhile (· != 32) = unpadded text ++ [10] := by
      rw [List.takeWhile_append_of_pos hall]
      rfl
    have hself : (unpadded text).takeWhile (· != 32) = unpadded text := List.takeWhile_eq_self_iff.2 hall
    simp only [htake, hself, getBasename_append (by decide : (10 : Byte) ≠ 47), hsp, and_false, if_false]
    simp

theorem not_mem_hexLong {c : Byte} (hc : ∀ d < 16, hexDigit d ≠ c) (a : Addr) : c ∉ hexLong a := by
  intro h
  obtain ⟨w, -, -, he⟩ := hexLong_eq a
  obtain ⟨d, hd, rfl⟩ := hexFixed_digits _ _ _ (he ▸ h)
  exact hc d hd rfl

theorem hexLong_ne_nil (a : Addr) : hexLong a ≠ [] := by
  obtain ⟨w, hw, -, he⟩ := hexLong_eq a
  intro h0
  have hlen := length_hexFixed w a.toNat
  rw [← he, h0, List.length_nil] at hlen
  omega

theorem newline_not_mem_text (b : Backing) : (10 : Byte) ∉ b.text := by
  cases b with
  | file path deleted =>
    intro h
    rcases List.mem_append.1 h with h | h
    · obtain ⟨c, -, hc⟩ := List.mem_flatMap.1 h
      unfold escape at hc
      split at hc
      · exact absurd hc (by decide)
      · rename_i hne
        exact hne (List.mem_singleton.1 hc).symm
    · revert h
      cases deleted <;> decide
  | other text => exact text.2.2

/-- **What the tool sees of a line.** -/
theorem lineFields_line (v : Mapping) : (lineFields v.line).1 = some (hexLong v.start) ∧
    (lineFields v.line).2.bind binName = key v.backing.text := by
  have h45 : (45 : Byte) ∉ hexLong v.start := not_mem_hexLong (by decide) v.start
  have h32 : (32 : Byte) ∉ hexLong v.finish := not_mem_hexLong (by decide) v.finish
  have hword : ∀ (w : Word) (rest : List Byte), nextToken 32 (w.1 ++ 32 :: rest) = (some w.1, rest) := fun w =>
    nextToken_append w.2.2.2.2 w.2.1
  unfold lineFields Mapping.line
  rw [nextToken_append h45 (hexLong_ne_nil _)]
  simp only [nextToken_append h32 (hexLong_ne_nil _), hword]
  exact ⟨trivial, binName_token (newline_not_mem_text _) v.padding⟩

/-! ## The loop over the listing -/

/-- **A line decides or is passed over.** -/
theorem ehdrLoop_line (filename : List Byte) (v : Mapping) (lines : List (List Byte)) :
    ehdrLoop filename (v.line :: lines) = (key v.backing.text).bind (fun name =>
      if name = filename then some (some v.start) else ehdrLoop filename lines) := by
  obtain ⟨haddr, hname⟩ := lineFields_line v
  have hvalue := strtoulHex_hexLong v.start [] (c := 0) (by decide)
  rw [ehdrLoop]
  simp only [hname, haddr, Option.map_some, hvalue, BitVec.ofNat_toNat, BitVec.setWidth_eq]

/-- An address that is returned is where a mapping starts. -/
theorem ehdrLoop_start (filename : List Byte) (a : Addr) : ∀ vs : List Mapping,
    ehdrLoop filename (vs.map Mapping.line) = some (some a) → a ∈ vs.map Mapping.start
  | [], h      => by cases h
  | v :: vs, h => by
    rw [List.map_cons, ehdrLoop_line] at h
    obtain ⟨name, -, h⟩ := Option.bind_eq_some_iff.1 h
    split at h
    · obtain rfl : v.start = a := by simpa using h
      exact List.mem_cons_self
    · exact List.mem_cons_of_mem _ (ehdrLoop_start filename a vs h)

/-- **The loop and the names.** -/
theorem ehdrLoop_leadsTo (path : CString) : ∀ vs : List Mapping, (vs.map Mapping.start).Nodup →
    ((ehdrLoop (commName path) (vs.map Mapping.line) ≠ none ∧ ∀ u, vs.find? (Mapping.isOf path) = some u →
      ehdrLoop (commName path) (vs.map Mapping.line) = some (some u.start)) ↔ LeadsTo path vs)
  | [], _        => by
    refine ⟨fun _ => trivial, fun _ => ⟨by simp [ehdrLoop], ?_⟩⟩
    intro u hu
    cases hu
  | v :: vs, hnd => by
    obtain ⟨hnew, hnd⟩ := List.nodup_cons.1 hnd
    have ih := ehdrLoop_leadsTo path vs hnd
    rw [List.map_cons, ehdrLoop_line, LeadsTo]
    cases hkey : key v.backing.text with
    | none => simp
    | some name =>
      simp only [Option.bind_some]
      by_cases hv : v.isOf path = true
      · rw [List.find?_cons_of_pos hv, if_pos hv]
        by_cases hname : name = commName path
        · simp [hname]
        · rw [if_neg hname]
          constructor
          · -- the address of a later line is not that of this one
            rintro ⟨-, h⟩
            exact absurd (ehdrLoop_start _ _ vs (h v rfl)) hnew
          · exact fun h => absurd h hname
      · rw [List.find?_cons_of_neg hv, if_neg hv]
        by_cases hname : name = commName path
        · rw [if_pos hname, if_pos hname]
          constructor
          · rintro ⟨-, h⟩
            have hnone : vs.find? (Mapping.isOf path) = none := by
              by_contra hne
              obtain ⟨u, hu⟩ := Option.ne_none_iff_exists'.1 hne
              obtain he : v.start = u.start := by simpa using h u hu
              exact hnew (he ▸ List.mem_map_of_mem (List.mem_of_find?_eq_some hu))
            intro u hu
            simpa using List.find?_eq_none.1 hnone u hu
          · intro h
            refine ⟨by simp, ?_⟩
            intro u hu
            have hno := h u (List.mem_of_find?_eq_some hu)
            rw [List.find?_some hu] at hno
            cases hno
        · rw [if_neg hname, if_neg hname]
          exact ih

/-- **The header of the main program is found if and only if the name of its process leads to its file.** -/
theorem ehdrAddr_iff (path : CString) (l : Listing) : EhdrFound path l ↔ LeadsTo path l.vmas := by
  have hloop : getEhdrAddr 0 (commName path) (l.vmas.map Mapping.line) =
      ehdrLoop (commName path) (l.vmas.map Mapping.line) := if_neg (by simp)
  rw [← ehdrLoop_leadsTo path l.vmas l.starts, ← hloop]
  exact ⟨fun h => ⟨h.defined, h.first⟩, fun h => ⟨h.1, h.2⟩⟩

/-! ## A name that does not lead there -/

/-- `/b/aaaaaaaaaaaaaaaa`. -/
def longPath : CString := ⟨47 :: 98 :: 47 :: List.replicate 16 97, by decide⟩

def wordZero : Word := ⟨[48], by decide⟩

def longNamed : Mapping where
  start   := 0x400000
  finish  := 0x401000
  perms   := ⟨[114, 45, 120, 112], by decide⟩
  offset  := wordZero
  dev     := wordZero
  inode   := wordZero
  padding := 8
  backing := .file longPath false

/-- **A file name of sixteen characters is not found.** -/
theorem long_name_not_found : ¬ ∀ (path : CString) (l : Listing), EhdrFound path l := by
  intro h
  have hfound := (h longPath ⟨[longNamed], by simp⟩).first longNamed rfl
  have hkey : key longNamed.backing.text = some (List.replicate 16 97) := by decide
  have hname : List.replicate 16 97 ≠ commName longPath := by decide
  rw [getEhdrAddr, if_neg (by simp), List.map_singleton, ehdrLoop_line, hkey, Option.bind_some, if_neg hname] at hfound
  cases hfound

end EhdrAddr
end Libpulp
