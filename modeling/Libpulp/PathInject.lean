import Libpulp.Packer
import Libpulp.InsnQueue
/-!
# PathInject — the container path in the metadata (tools/introspection.c, lib/gdb_interface.c)

The path of a livepatch container goes between the first 33 bytes of a section and the rest.  The tool writes the result
into a new buffer, the library moves the rest of its metadata buffer up and writes into the gap.  Copies are modelled with
their bounds, a result of `none` is an access outside: both subtract 33 from the length of a section without looking at
it, and the tool computes the size of its buffer in 32 bits (`injects_iff`).
-/
namespace Libpulp

open Bytes (Byte toLE length_toLE)

/-! ## Copies -/

/-- The `n` bytes of a buffer from `pos` on. -/
def slice (b : List Byte) (pos n : Nat) : Option (List Byte) :=
  if pos + n ≤ b.length then some ((b.drop pos).take n) else none

/-- `memcpy(b + pos, src)`, or `memmove` once the source is read. -/
def copyTo (b : List Byte) (pos : Nat) (src : List Byte) : Option (List Byte) :=
  if pos + src.length ≤ b.length then some (b.take pos ++ (src ++ b.drop (pos + src.length))) else none

theorem slice_eq {b : List Byte} {pos n : Nat} (h : pos + n ≤ b.length) : slice b pos n = some ((b.drop pos).take n) :=
  if_pos h

theorem copyTo_append {done t src : List Byte} {pos : Nat} (hpos : done.length = pos) (h : src.length ≤ t.length) :
    copyTo (done ++ t) pos src = some (done ++ (src ++ t.drop src.length)) := by
  subst hpos
  rw [copyTo, if_pos (by rw [List.length_append]; omega), List.take_left, List.drop_append,
    List.drop_eq_nil_of_le (Nat.le_add_right _ _), List.nil_append, Nat.add_sub_cancel_left]

/-! ## The two injectors -/

/-- `uint32_t path_size = strlen(path) + 1`. -/
def pathSize (path : List Byte) : Nat := (path.length + 1) % 2 ^ 32

/-- `extract_ulp_from_so_to_mem` once the section `d` and the path are there, byte by byte.  `junk` is what the new buffer
holds, if `malloc` gives one.  `none` inside for a rejection. -/
def extractUlpCopying (junk : Option (Nat → Byte)) (d path : List Byte) : Option (Option (List Byte)) :=
  if pathMax ≤ pathSize path then some none
  else
    let metaSize := (d.length + pathSize path + 4) % 2 ^ 32
    if ulpMetadataBufLen ≤ metaSize then some none
    else do
      let finalMeta ← junk.map (fun j => (List.range metaSize).map j)
      let finalMeta ← copyTo finalMeta 0 (← slice d 0 33)
      let finalMeta ← copyTo finalMeta 33 (toLE 4 (pathSize path))
      let finalMeta ← copyTo finalMeta 37 (← slice (path ++ [0]) 0 (pathSize path))
      let finalMeta ← copyTo finalMeta (37 + pathSize path) (← slice d 33 (sizeT ((d.length : Int) - 33)))
      some (some finalMeta)

/-- `inject_lp_path` on the metadata buffer: what it returns and the buffer. -/
def injectLpPath (buffer path : List Byte) (metadataSize : Nat) : Option (UlpError × List Byte) :=
  let pathObjectSize := (4 + pathSize path) % 2 ^ 32
  if ulpMetadataBufLen < metadataSize + pathObjectSize then some (ENOMEM, buffer)
  else do
    let buffer ← copyTo buffer (33 + pathObjectSize) (← slice buffer 33 (sizeT ((metadataSize : Int) - 33)))
    let buffer ← copyTo buffer 33 (toLE 4 (pathSize path))
    let buffer ← copyTo buffer 37 (← slice (path ++ [0]) 0 (pathSize path))
    some (0, buffer)

/-- The metadata buffer that `gdb_ulp_apply` and `gdb_ulp_revert` hand over: zeroed, then the section loaded. -/
def gdbBuffer (d : List Byte) : List Byte := d ++ List.replicate (ulpMetadataBufLen - d.length) 0

/-- What these make of a section: one that does not fit is refused by `Get_Elf_Section`. -/
def gdbInject (d path : List Byte) : Option (Option (List Byte)) :=
  if ulpMetadataBufLen < d.length then some none
  else
    (injectLpPath (gdbBuffer d) path d.length).map (fun (ret, buffer) =>
      if ret ≠ 0 then none else some (buffer.take (d.length + (4 + pathSize path) % 2 ^ 32)))

/-! ## What they promise -/

/-- An injector rejects, or produces the section with the path after its first 33 bytes. -/
def RejectsOrSplices (r : Option (Option (List Byte))) (d path : List Byte) : Prop :=
  r = some none ∨ r = some (some (spliceContainerPath d path))

/-- **What the two injectors promise**: both stay in bounds and do the same. -/
structure Injects (junk : Option (Nat → Byte)) (d path : List Byte) : Prop where
  tool    : RejectsOrSplices (extractUlpCopying junk d path) d path
  library : RejectsOrSplices (gdbInject d path) d path
  agree   : ∀ out out', extractUlpCopying junk d path = some (some out) → gdbInject d path = some (some out') → out = out'

/-- The tool rejects the path or the size of the result, as it computes them. -/
def ToolRejects (d path : List Byte) : Prop :=
  pathMax ≤ pathSize path ∨ ulpMetadataBufLen ≤ (d.length + pathSize path + 4) % 2 ^ 32

/-- The library rejects the size of the result, as it computes it. -/
def LibraryRejects (d path : List Byte) : Prop := ulpMetadataBufLen < d.length + (4 + pathSize path) % 2 ^ 32

/-! ## The tool -/

theorem length_splice {d path : List Byte} (h : 33 ≤ d.length) :
    (spliceContainerPath d path).length = d.length + path.length + 5 := by
  unfold spliceContainerPath
  simp only [List.length_append, List.length_take, List.length_drop, length_toLE, List.length_singleton]
  omega

theorem sizeT_sub {n : Nat} (h : 33 ≤ n) (hlt : n < 2 ^ 64) : sizeT ((n : Int) - 33) = n - 33 := by
  unfold sizeT
  omega

theorem length_copyTo {b src b' : List Byte} {pos : Nat} (h : copyTo b pos src = some b') : b'.length = b.length := by
  unfold copyTo at h
  split at h
  · rename_i hle
    rw [← Option.some.inj h, List.length_append, List.length_append, List.length_take, List.length_drop]
    omega
  · cases h

/-- With no wrap in the size of the path, all of it is copied. -/
theorem pathBytes_eq {path : List Byte} (h : path.length + 1 < 2 ^ 32) :
    pathSize path = path.length + 1 ∧ (path ++ [0]).take (pathSize path) = path ++ [0] := by
  have hps : pathSize path = path.length + 1 := Nat.mod_eq_of_lt h
  refine ⟨hps, ?_⟩
  rw [hps]
  apply List.take_of_length_le
  rw [List.length_append, List.length_singleton]

/-- The copies of the tool into a buffer of the right size. -/
theorem copies_splice {b d path : List Byte} (h33 : 33 ≤ d.length) (hpath : path.length + 1 < 2 ^ 32)
    (hb : b.length = d.length + path.length + 5) :
    ((copyTo b 0 (d.take 33)).bind fun b => (copyTo b 33 (toLE 4 (pathSize path))).bind fun b =>
      (copyTo b 37 ((path ++ [0]).take (pathSize path))).bind fun b =>
        (copyTo b (37 + pathSize path) (d.drop 33)).bind fun b => some (some b)) =
      some (some (spliceContainerPath d path)) := by
  obtain ⟨hps, hp⟩ := pathBytes_eq hpath
  have hd33 : (d.take 33).length = 33 := by rw [List.length_take]; omega
  have hpl : (path ++ [0]).length = path.length + 1 := by rw [List.length_append, List.length_singleton]
  have hdrop : (d.drop 33).length = d.length - 33 := List.length_drop
  rw [hp, hps]
  have h₁ : copyTo b 0 (d.take 33) = some (d.take 33 ++ b.drop 33) := by
    have h := @copyTo_append [] b (d.take 33) 0 rfl (by omega)
    rwa [List.nil_append, List.nil_append, hd33] at h
  have h₂ : copyTo (d.take 33 ++ b.drop 33) 33 (toLE 4 (path.length + 1)) =
      some (d.take 33 ++ toLE 4 (path.length + 1) ++ b.drop 37) := by
    rw [copyTo_append hd33 (by rw [length_toLE, List.length_drop]; omega), length_toLE, List.drop_drop, List.append_assoc]
  have h₃ : copyTo (d.take 33 ++ toLE 4 (path.length + 1) ++ b.drop 37) 37 (path ++ [0]) =
      some (d.take 33 ++ toLE 4 (path.length + 1) ++ (path ++ [0]) ++ b.drop (37 + (path.length + 1))) := by
    rw [copyTo_append (by rw [List.length_append, hd33, length_toLE]) (by rw [hpl, List.length_drop]; omega), hpl,
      List.drop_drop, List.append_assoc (d.take 33 ++ toLE 4 (path.length + 1))]
  have h₄ : copyTo (d.take 33 ++ toLE 4 (path.length + 1) ++ (path ++ [0]) ++ b.drop (37 + (path.length + 1)))
      (37 + (path.length + 1)) (d.drop 33) =
      some (d.take 33 ++ toLE 4 (path.length + 1) ++ (path ++ [0]) ++ d.drop 33) := by
    have hnil : b.drop (37 + (path.length + 1) + (d.drop 33).length) = [] := List.drop_eq_nil_of_le (by omega)
    rw [copyTo_append (by rw [List.length_append, List.length_append, hd33, length_toLE, hpl])
      (by rw [hdrop, List.length_drop]; omega), List.drop_drop, hnil, List.append_nil]
  rw [h₁, Option.bind_some, h₂, Option.bind_some, h₃, Option.bind_some, h₄, Option.bind_some, spliceContainerPath,
    List.append_assoc, List.append_assoc]

theorem extractUlpCopying_bind {junk : Option (Nat → Byte)} {d path : List Byte} (hrej : ¬ ToolRejects d path) :
    extractUlpCopying junk d path =
      (junk.map (fun j => (List.range ((d.length + pathSize path + 4) % 2 ^ 32)).map j)).bind fun b =>
        (slice d 0 33).bind fun s => (copyTo b 0 s).bind fun b => (copyTo b 33 (toLE 4 (pathSize path))).bind fun b =>
          (slice (path ++ [0]) 0 (pathSize path)).bind fun s => (copyTo b 37 s).bind fun b =>
            (slice d 33 (sizeT ((d.length : Int) - 33))).bind fun s =>
              (copyTo b (37 + pathSize path) s).bind fun b => some (some b) := by
  unfold ToolRejects at hrej
  rw [not_or] at hrej
  unfold extractUlpCopying
  rw [if_neg hrej.1]
  exact if_neg hrej.2

theorem extractUlpCopying_rejects {junk : Option (Nat → Byte)} {d path : List Byte} (h : ToolRejects d path) :
    extractUlpCopying junk d path = some none := by
  unfold extractUlpCopying
  rcases h with h | h
  · rw [if_pos h]
  · split
    · rfl
    · exact if_pos h

/-- What comes out of the tool has the size it computed, and came from a section with all of its first 33 bytes. -/
theorem extractUlpCopying_out {junk : Option (Nat → Byte)} {d path : List Byte} {r : Option (List Byte)}
    (hrej : ¬ ToolRejects d path) (h : extractUlpCopying junk d path = some r) :
    junk.isSome ∧ 33 ≤ d.length ∧ ∃ out, r = some out ∧ out.length = (d.length + pathSize path + 4) % 2 ^ 32 := by
  rw [extractUlpCopying_bind hrej] at h
  obtain ⟨b, hb, h⟩ := Option.bind_eq_some_iff.1 h
  obtain ⟨s, hs, h⟩ := Option.bind_eq_some_iff.1 h
  obtain ⟨b₁, hb₁, h⟩ := Option.bind_eq_some_iff.1 h
  obtain ⟨b₂, hb₂, h⟩ := Option.bind_eq_some_iff.1 h
  obtain ⟨_, _, h⟩ := Option.bind_eq_some_iff.1 h
  obtain ⟨b₃, hb₃, h⟩ := Option.bind_eq_some_iff.1 h
  obtain ⟨_, _, h⟩ := Option.bind_eq_some_iff.1 h
  obtain ⟨b₄, hb₄, hr⟩ := Option.bind_eq_some_iff.1 h
  obtain ⟨j, rfl, rfl⟩ := Option.map_eq_some_iff.1 hb
  refine ⟨rfl, ?_, b₄, (Option.some.inj hr).symm, ?_⟩
  · unfold slice at hs
    split at hs
    · omega
    · cases hs
  · rw [length_copyTo hb₄, length_copyTo hb₃, length_copyTo hb₂, length_copyTo hb₁, List.length_map, List.length_range]

/-- **The tool.**  It keeps its promise when it rejects, or has a buffer, a section of 33 bytes and no wrap. -/
theorem extractUlpCopying_iff (junk : Option (Nat → Byte)) (d path : List Byte) :
    RejectsOrSplices (extractUlpCopying junk d path) d path ↔
      ToolRejects d path ∨ junk.isSome ∧ 33 ≤ d.length ∧ d.length + path.length + 5 < 2 ^ 32 := by
  by_cases hrej : ToolRejects d path
  · exact ⟨fun _ => .inl hrej, fun _ => .inl (extractUlpCopying_rejects hrej)⟩
  · constructor
    · intro h
      refine .inr ?_
      rcases h with h | h
      · obtain ⟨_, _, out, hout, _⟩ := extractUlpCopying_out hrej h
        cases hout
      · obtain ⟨hjunk, h33, out, hout, hlen⟩ := extractUlpCopying_out hrej h
        rw [← Option.some.inj hout, length_splice h33] at hlen
        exact ⟨hjunk, h33, by omega⟩
    · rintro (h | ⟨hjunk, h33, hfit⟩)
      · exact absurd h hrej
      · obtain ⟨j, rfl⟩ := Option.isSome_iff_exists.1 hjunk
        refine .inr ?_
        have hpath : path.length + 1 < 2 ^ 32 := by omega
        have hps := (pathBytes_eq hpath).1
        have htake : (d.drop 33).take (d.length - 33) = d.drop 33 := List.take_of_length_le (by rw [List.length_drop])
        rw [extractUlpCopying_bind hrej, slice_eq (by omega : 0 + 33 ≤ d.length),
          slice_eq (by rw [hps, List.length_append, List.length_singleton]; omega), sizeT_sub h33 (by omega),
          slice_eq (by omega : 33 + (d.length - 33) ≤ d.length), htake, Nat.mod_eq_of_lt (by omega)]
        apply copies_splice h33 hpath
        rw [List.length_map, List.length_range]
        omega

/-! ## The library -/

theorem length_gdbBuffer {d : List Byte} (h : d.length ≤ ulpMetadataBufLen) :
    (gdbBuffer d).length = ulpMetadataBufLen := by
  rw [gdbBuffer, List.length_append, List.length_replicate]
  omega

/-- What the library does when it does not reject. -/
theorem gdbInject_bind {d path : List Byte} (hrej : ¬ LibraryRejects d path) :
    gdbInject d path = ((slice (gdbBuffer d) 33 (sizeT ((d.length : Int) - 33))).bind fun s =>
      (copyTo (gdbBuffer d) (33 + (4 + pathSize path) % 2 ^ 32) s).bind fun b =>
        (copyTo b 33 (toLE 4 (pathSize path))).bind fun b => (slice (path ++ [0]) 0 (pathSize path)).bind fun s =>
          (copyTo b 37 s).bind fun b => some (some (b.take (d.length + (4 + pathSize path) % 2 ^ 32)))) := by
  unfold LibraryRejects at hrej
  unfold gdbInject injectLpPath
  rw [if_neg (by omega)]
  simp only [if_neg hrej, Option.bind_eq_bind, Option.map_bind, Function.comp_def, Option.map_some, ne_eq,
    not_true_eq_false, if_false]

theorem gdbInject_rejects {d path : List Byte} (h : LibraryRejects d path) : gdbInject d path = some none := by
  unfold LibraryRejects at h
  unfold gdbInject injectLpPath
  split
  · rfl
  · simp only [if_pos h, Option.map_some]
    rfl

/-- What comes out of the library is no longer than the size it computed, and came from a section of 33 bytes. -/
theorem gdbInject_out {d path : List Byte} {r : Option (List Byte)} (hrej : ¬ LibraryRejects d path)
    (h : gdbInject d path = some r) :
    33 ≤ d.length ∧ ∃ out, r = some out ∧ out.length ≤ d.length + (4 + pathSize path) % 2 ^ 32 := by
  rw [gdbInject_bind hrej] at h
  obtain ⟨s, hs, h⟩ := Option.bind_eq_some_iff.1 h
  obtain ⟨b₁, hb₁, h⟩ := Option.bind_eq_some_iff.1 h
  obtain ⟨b₂, hb₂, h⟩ := Option.bind_eq_some_iff.1 h
  obtain ⟨_, _, h⟩ := Option.bind_eq_some_iff.1 h
  obtain ⟨b₃, hb₃, h⟩ := Option.bind_eq_some_iff.1 h
  refine ⟨?_, _, (Option.some.inj h).symm, by rw [List.length_take]; exact Nat.min_le_left _ _⟩
  unfold LibraryRejects at hrej
  unfold slice at hs
  split at hs
  · rename_i hle
    rw [length_gdbBuffer (by omega)] at hle
    unfold sizeT at hle
    unfold ulpMetadataBufLen at hle
    omega
  · cases hs

/-- The copies of the library: what is behind the first 33 bytes is moved up, then the path goes in. -/
theorem moves_splice {d path : List Byte} (h33 : 33 ≤ d.length) (hpath : path.length + 1 < 2 ^ 32)
    (hfit : d.length + path.length + 5 ≤ ulpMetadataBufLen) :
    ((copyTo (gdbBuffer d) (33 + (4 + pathSize path)) (d.drop 33)).bind fun b =>
      (copyTo b 33 (toLE 4 (pathSize path))).bind fun b =>
        (copyTo b 37 ((path ++ [0]).take (pathSize path))).bind fun b =>
          some (some (b.take (d.length + (4 + pathSize path))))) =
      some (some (spliceContainerPath d path)) := by
  obtain ⟨hps, hp⟩ := pathBytes_eq hpath
  have hd33 : (d.take 33).length = 33 := by rw [List.length_take]; omega
  have hpl : (path ++ [0]).length = path.length + 1 := by rw [List.length_append, List.length_singleton]
  have hdrop : (d.drop 33).length = d.length - 33 := List.length_drop
  have hlen := length_gdbBuffer (by omega : d.length ≤ ulpMetadataBufLen)
  rw [hp, hps]
  -- the gap that the move leaves behind the first 33 bytes, and what is behind the moved bytes
  obtain ⟨gap, rest, hgap, hsplit⟩ : ∃ gap rest, gap.length = path.length + 5 ∧
      copyTo (gdbBuffer d) (33 + (4 + (path.length + 1))) (d.drop 33) =
        some (d.take 33 ++ (gap ++ (d.drop 33 ++ rest))) := by
    refine ⟨((gdbBuffer d).drop 33).take (path.length + 5),
      (gdbBuffer d).drop (33 + (4 + (path.length + 1)) + (d.drop 33).length),
      by rw [List.length_take, List.length_drop]; omega, ?_⟩
    have htake : (gdbBuffer d).take 33 = d.take 33 := List.take_append_of_le_length h33
    rw [copyTo, if_pos (by omega), ← List.append_assoc (d.take 33), ← htake, ← List.take_add]
    congr 4
    omega
  have h₂ : copyTo (d.take 33 ++ (gap ++ (d.drop 33 ++ rest))) 33 (toLE 4 (path.length + 1)) =
      some (d.take 33 ++ toLE 4 (path.length + 1) ++ (gap.drop 4 ++ (d.drop 33 ++ rest))) := by
    rw [copyTo_append hd33 (by rw [length_toLE, List.length_append]; omega), length_toLE,
      List.drop_append_of_le_length (by omega), List.append_assoc]
  have h₃ : copyTo (d.take 33 ++ toLE 4 (path.length + 1) ++ (gap.drop 4 ++ (d.drop 33 ++ rest))) 37 (path ++ [0]) =
      some (d.take 33 ++ toLE 4 (path.length + 1) ++ (path ++ [0] ++ (d.drop 33 ++ rest))) := by
    rw [copyTo_append (by rw [List.length_append, hd33, length_toLE])
      (by rw [hpl, List.length_append, List.length_drop]; omega), hpl]
    have hnil : gap.drop (4 + (path.length + 1)) = [] := List.drop_eq_nil_of_le (by omega)
    rw [List.drop_append_of_le_length (by rw [List.length_drop]; omega), List.drop_drop, hnil, List.nil_append]
  rw [hsplit, Option.bind_some, h₂, Option.bind_some, h₃, Option.bind_some]
  congr 2
  have hwhole : d.take 33 ++ toLE 4 (path.length + 1) ++ (path ++ [0] ++ (d.drop 33 ++ rest)) =
      spliceContainerPath d path ++ rest := by
    simp only [spliceContainerPath, List.append_assoc]
  rw [hwhole]
  apply List.take_left'
  rw [length_splice h33]
  omega

/-- **The library.**  It keeps its promise when it rejects, or has a section of 33 bytes and no wrap in the path. -/
theorem gdbInject_iff (d path : List Byte) :
    RejectsOrSplices (gdbInject d path) d path ↔
      LibraryRejects d path ∨ 33 ≤ d.length ∧ path.length + 5 < 2 ^ 32 := by
  by_cases hrej : LibraryRejects d path
  · exact ⟨fun _ => .inl hrej, fun _ => .inl (gdbInject_rejects hrej)⟩
  · have hfit : d.length + (4 + pathSize path) % 2 ^ 32 ≤ ulpMetadataBufLen := Nat.le_of_not_lt hrej
    constructor
    · intro h
      refine .inr ?_
      rcases h with h | h
      · obtain ⟨_, out, hout, _⟩ := gdbInject_out hrej h
        cases hout
      · obtain ⟨h33, out, hout, hlen⟩ := gdbInject_out hrej h
        rw [← Option.some.inj hout, length_splice h33] at hlen
        exact ⟨h33, by omega⟩
    · rintro (h | ⟨h33, hpath⟩)
      · exact absurd h hrej
      · refine .inr ?_
        have hps := (pathBytes_eq (by omega : path.length + 1 < 2 ^ 32)).1
        have hobj : (4 + pathSize path) % 2 ^ 32 = 4 + pathSize path := Nat.mod_eq_of_lt (by omega)
        have hlen := length_gdbBuffer (by omega : d.length ≤ ulpMetadataBufLen)
        have hright : ((gdbBuffer d).drop 33).take (d.length - 33) = d.drop 33 := by
          rw [gdbBuffer, List.drop_append_of_le_length h33]
          exact List.take_left' List.length_drop
        rw [gdbInject_bind hrej, sizeT_sub h33 (by unfold ulpMetadataBufLen at hfit; omega), slice_eq (by omega), hright,
          Option.bind_some, slice_eq (by rw [hps, List.length_append, List.length_singleton]; omega), hobj]
        exact moves_splice h33 (by omega) (by omega)

/-! ## Both -/

/-- On a section of 33 bytes and sizes of 32 bits, the copies of the tool give what the metadata it hands on is. -/
theorem extractUlpCopying_eq {j : Nat → Byte} {d path : List Byte} (h33 : 33 ≤ d.length)
    (hfit : d.length + path.length + 5 < 2 ^ 32) :
    extractUlpCopying (some j) d path = some (extractUlpFromSoToMem d path) := by
  have hps := (pathBytes_eq (by omega : path.length + 1 < 2 ^ 32)).1
  unfold extractUlpFromSoToMem
  rw [← hps]
  by_cases hrej : ToolRejects d path
  · rw [extractUlpCopying_rejects hrej]
    rcases hrej with h | h
    · rw [if_pos h]
    · rw [if_pos h, ite_self]
  · rcases (extractUlpCopying_iff (some j) d path).2 (.inr ⟨rfl, h33, hfit⟩) with h | h
    · obtain ⟨_, _, out, hout, _⟩ := extractUlpCopying_out hrej h
      cases hout
    · unfold ToolRejects at hrej
      rw [not_or] at hrej
      rw [h, if_neg hrej.1, if_neg hrej.2]

/-- **The path injectors.**  Both reject or splice, in bounds, and agree, exactly when each of them rejects or finds a
section of at least 33 bytes with sizes that do not wrap, the tool also a buffer. -/
theorem injects_iff (junk : Option (Nat → Byte)) (d path : List Byte) :
    Injects junk d path ↔
      (ToolRejects d path ∨ junk.isSome ∧ 33 ≤ d.length ∧ d.length + path.length + 5 < 2 ^ 32) ∧
        (LibraryRejects d path ∨ 33 ≤ d.length ∧ path.length + 5 < 2 ^ 32) := by
  constructor
  · intro h
    exact ⟨(extractUlpCopying_iff junk d path).1 h.tool, (gdbInject_iff d path).1 h.library⟩
  · rintro ⟨htool, hlibrary⟩
    have ht := (extractUlpCopying_iff junk d path).2 htool
    have hl := (gdbInject_iff d path).2 hlibrary
    refine ⟨ht, hl, ?_⟩
    intro out out' hout hout'
    rcases ht with h | h
    · exact absurd (h.symm.trans hout) (by simp)
    · rcases hl with h' | h'
      · exact absurd (h'.symm.trans hout') (by simp)
      · have hsplice := Option.some.inj (Option.some.inj (h.symm.trans hout))
        exact hsplice.symm.trans (Option.some.inj (Option.some.inj (h'.symm.trans hout')))

theorem toolRejects_short : ¬ ToolRejects [1] [47] := by
  unfold ToolRejects
  decide

theorem libraryRejects_short : ¬ LibraryRejects [1] [47] := by
  unfold LibraryRejects
  decide

/-- A section of one byte: the tool reads 33 bytes of it, the library moves 2⁶⁴ − 32. -/
theorem short_section_out_of_bounds :
    extractUlpCopying (some fun _ => 0) [1] [47] = none ∧ gdbInject [1] [47] = none ∧
      ¬ Injects (some fun _ => 0) [1] [47] := by
  have htool : extractUlpCopying (some fun _ => 0) [1] [47] = none := by
    rcases h : extractUlpCopying (some fun _ => 0) [1] [47] with _ | r
    · rfl
    · exact absurd (extractUlpCopying_out toolRejects_short h).2.1 (by decide)
  have hlibrary : gdbInject [1] [47] = none := by
    rcases h : gdbInject [1] [47] with _ | r
    · rfl
    · exact absurd (gdbInject_out libraryRejects_short h).1 (by decide)
  refine ⟨htool, hlibrary, ?_⟩
  intro h
  rcases h.tool with hr | hr
  · cases htool.symm.trans hr
  · cases htool.symm.trans hr

end Libpulp
