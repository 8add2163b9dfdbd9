import Libpulp.Fuel
import Libpulp.SymbolLoader
/-!
# Notes — the build id as the tool finds it (tools/introspection.c: `parse_dynobj_elf_headers`)

The tool walks the `PT_NOTE` segments of a loaded object on its own, beside `compare_build_ids` of the library.  It takes
the first note of type `NT_GNU_BUILD_ID` whoever owns it, where the library rounds a size up to four bytes it adds the
remainder, and it goes by the size of the segment in memory, not in the file.  So it may look for a header where no note
starts (`InStep` says when it does not), or find another note than the library.
-/
namespace Libpulp
namespace Notes

open Bytes (Byte Addr Mem ofLE toLE)
open Fuel (Steady Returns)

def ENOLINKMAP : UlpError := 260
def ENOPHDR : UlpError := 261

def PT_DYNAMIC : Nat := 2
def sizeofPhdr : Nat := 56
def buildidLen : Nat := 20

/-- A program header as the tool reads it; `dynamic` are the entries of a `PT_DYNAMIC` segment up to `DT_NULL`. -/
structure ToolPhdr extends Phdr where
  pMemsz  : BitVec 64
  dynamic : List ElfDyn

/-- A loaded object: its link map, and the ELF header and program headers found in memory. -/
structure Dynobj where
  hasLinkMap : Bool
  lAddr      : Addr
  ePhentsize : Nat
  phdrs      : List ToolPhdr

/-- The variables of the loop over the program headers. -/
structure Headers where
  dynsymAddr   : Addr
  dynstrAddr   : Addr
  hashAddr     : Addr
  buildidAddr  : Addr
  buildidLen   : Nat
  ptDynamicRan : Bool
  ptNoteRan    : Bool

def Headers.start : Headers := ⟨0, 0, 0, 0, 0, false, false⟩

/-- What the tool fills in; the build id stays as it is when it is not found or not of the expected length. -/
structure Parsed where
  buildId    : Option (List Byte)
  dynstrAddr : Addr
  dynsymAddr : Addr
  numSymbols : Int

/-! ## The loop -/

/-- One entry of the dynamic section. -/
def dynEntry (h : Headers) : ElfDyn → Headers
  | .symtab ptr => { h with dynsymAddr := ptr }
  | .strtab ptr => { h with dynstrAddr := ptr }
  | .syment _   => h
  | .hash ptr   => { h with hashAddr := ptr }
  | .other      => h

/-- The loop over the dynamic section. -/
def readDyn : List ElfDyn → Headers → Headers
  | [], h      => h
  | d :: ds, h =>
    let h := dynEntry h d
    if h.dynsymAddr ≠ 0 ∧ h.dynstrAddr ≠ 0 ∧ h.hashAddr ≠ 0 then { h with ptDynamicRan := true } else readDyn ds h

/-- "Align with the 4 bytes boundary", on a 32-bit word. -/
def addRemainder (len : Nat) : Nat := (len + len % 4) % 2 ^ 32

/-- The loop over the notes of a segment that ends at `noteAddrEnd`; `none` when the fuel runs out. -/
def noteLoop (readMemory : Addr → Nat → Option (List Byte)) (noteAddrEnd : Addr) :
    Nat → Addr → Headers → Option (Except UlpError Headers)
  | 0, _, _               => none
  | fuel + 1, noteAddr, h =>
    if h.ptNoteRan then some (.ok h)
    else
      match readMemory noteAddr 12 with
      | none      => some (.error ETARGETHOOK)
      | some note =>
        let nameLen := addRemainder (ofLE (note.take 4))
        let h := { h with buildidLen := addRemainder (ofLE ((note.drop 4).take 4)) }
        if ofLE (note.drop 8) = NT_GNU_BUILD_ID then
          some (.ok { h with buildidAddr := noteAddr + 12 + BitVec.ofNat 64 nameLen, ptNoteRan := true })
        else
          let next := noteAddr + BitVec.ofNat 64 ((h.buildidLen + nameLen + 12) % 2 ^ 32)
          if next < noteAddrEnd then noteLoop readMemory noteAddrEnd fuel next h else some (.ok h)

/-- One program header. -/
def readPhdr (readMemory : Addr → Nat → Option (List Byte)) (lAddr : Addr) (fuel : Nat) (phdr : ToolPhdr) (h : Headers) :
    Option (Except UlpError Headers) :=
  if phdr.pType = PT_DYNAMIC ∧ h.ptDynamicRan = false then some (.ok (readDyn phdr.dynamic h))
  else if phdr.pType = PT_NOTE then
    -- the size is kept in an `unsigned`
    let noteAddrEnd := lAddr + phdr.pVaddr + BitVec.ofNat 64 (phdr.pMemsz.toNat % 2 ^ 32)
    noteLoop readMemory noteAddrEnd fuel (lAddr + phdr.pVaddr) h
  else some (.ok h)

/-- The loop over the program headers. -/
def phdrLoop (readMemory : Addr → Nat → Option (List Byte)) (lAddr : Addr) (fuel : Nat) :
    List ToolPhdr → Headers → Option (Except UlpError Headers)
  | [], h            => some (.ok h)
  | phdr :: phdrs, h =>
    (readPhdr readMemory lAddr fuel phdr h).bind (fun
      | .error e => some (.error e)
      | .ok h    => if h.ptDynamicRan ∧ h.ptNoteRan then some (.ok h) else phdrLoop readMemory lAddr fuel phdrs h)

/-- What follows the loop over the program headers. -/
def finishHeaders (readMemory : Addr → Nat → Option (List Byte)) (h : Headers) : Except UlpError Parsed :=
  let buildId := if h.buildidAddr ≠ 0 ∧ h.buildidLen = buildidLen then readMemory h.buildidAddr h.buildidLen else none
  if h.hashAddr = 0 then .ok ⟨buildId, h.dynstrAddr, h.dynsymAddr, 0⟩
  else
    match readMemory (h.hashAddr + 4) 4 with
    | none       => .error ETARGETHOOK
    | some chain => .ok ⟨buildId, h.dynstrAddr, h.dynsymAddr, int32 (ofLE chain)⟩

/-- `parse_dynobj_elf_headers`, for an object whose ELF header and program headers can be read. -/
def parseDynobjElfHeaders (readMemory : Addr → Nat → Option (List Byte)) (obj : Dynobj) (fuel : Nat) :
    Option (Except UlpError Parsed) :=
  if !obj.hasLinkMap then some (.error ENOLINKMAP)
  else if obj.ePhentsize ≠ sizeofPhdr then some (.error ENOPHDR)
  else (phdrLoop readMemory obj.lAddr fuel obj.phdrs .start).map (fun r => r.bind (finishHeaders readMemory))

/-- The address and the length the tool takes for the build id. -/
def Headers.selected (h : Headers) : Option (Addr × Nat) :=
  if h.buildidAddr = 0 then none else some (h.buildidAddr, h.buildidLen)

/-- The descriptor at which the library stops on the same object. -/
def libraryStop (mem : Mem) (obj : Dynobj) : Option (Addr × Nat) :=
  obj.phdrs.findSome? (fun phdr =>
    if phdr.pType = PT_NOTE then stopNotes mem phdr.pFilesz.toNat (obj.lAddr + phdr.pVaddr) phdr.pFilesz.toInt else none)

/-! ## The notes of an object -/

section Spec

variable (readMemory : Addr → Nat → Option (List Byte)) (mem : Mem) (notes : ToolPhdr → List Note)

/-- The notes of all `PT_NOTE` segments in the order of the program headers, each with its address. -/
def placedNotes (lAddr : Addr) (phdrs : List ToolPhdr) : List (Addr × Note) :=
  phdrs.flatMap (fun phdr => if phdr.pType = PT_NOTE then placed (lAddr + phdr.pVaddr) (notes phdr) else [])

/-- A `PT_NOTE` segment is the encoding of its notes, lies in the half of the address space that processes have, and can be
read. -/
structure SegmentWf (lAddr : Addr) (phdr : ToolPhdr) : Prop where
  holds    : HoldsNotes mem (lAddr + phdr.pVaddr) phdr.pFilesz (notes phdr)
  inside   : (lAddr + phdr.pVaddr).toNat + phdr.pFilesz.toNat < 2 ^ 63
  readable : ∀ i n, i + n ≤ phdr.pFilesz.toNat → readMemory (lAddr + phdr.pVaddr + BitVec.ofNat 64 i) n =
    some (mem.read (lAddr + phdr.pVaddr + BitVec.ofNat 64 i) n)

/-- How far the tool goes on from a note. -/
def toolStride (n : Note) : Nat := (addRemainder n.desc.length + addRemainder n.name.length + 12) % 2 ^ 32

/-- The note at which the tool stops in a segment at `a` with `m` bytes of memory: it looks at the first, and at another
one if it starts within these bytes. -/
def reached : Nat → Addr → List Note → Option (Addr × Note)
  | _, _, []      => none
  | m, a, n :: ns =>
    if n.type = NT_GNU_BUILD_ID then some (a, n)
    else if toolStride n < m then reached (m - n.bytes.length) (a + BitVec.ofNat 64 n.bytes.length) ns
    else none

/-- The tool looks for headers only where notes start. -/
def StaysOnNotes : Nat → List Note → Prop
  | _, []      => False
  | m, n :: ns => n.type = NT_GNU_BUILD_ID ∨
    (toolStride n < m → toolStride n = n.bytes.length ∧ StaysOnNotes (m - n.bytes.length) ns)

/-- The tool keeps the size of a segment in an `unsigned`. -/
def ToolPhdr.secSize (phdr : ToolPhdr) : Nat := phdr.pMemsz.toNat % 2 ^ 32

def reachedIn (lAddr : Addr) (phdr : ToolPhdr) : Option (Addr × Note) :=
  if phdr.pType = PT_NOTE then reached phdr.secSize (lAddr + phdr.pVaddr) (notes phdr) else none

/-- The note at which the tool stops. -/
def toolNote (lAddr : Addr) (phdrs : List ToolPhdr) : Option (Addr × Note) := phdrs.findSome? (reachedIn notes lAddr)

/-- **The tool keeps in step with the notes** up to the segment in which it stops. -/
def InStep (lAddr : Addr) : List ToolPhdr → Prop
  | []            => True
  | phdr :: phdrs => (phdr.pType = PT_NOTE → StaysOnNotes phdr.secSize (notes phdr)) ∧
      ((reachedIn notes lAddr phdr).isSome = true ∨ InStep lAddr phdrs)

end Spec

/-- What the tool takes for the descriptor of a note. -/
def toolDesc (x : Addr × Note) : Addr × Nat :=
  (x.1 + 12 + BitVec.ofNat 64 (addRemainder x.2.name.length), addRemainder x.2.desc.length)

/-! ## One segment -/

/-- The tool stops at a note it reaches. -/
theorem reached_mem : ∀ {ns : List Note} {m : Nat} {a : Addr} {x : Addr × Note}, reached m a ns = some x → x ∈ placed a ns
  | [], _, _, _, hx      => by cases hx
  | n :: ns, m, a, x, hx => by
    rw [reached] at hx
    split at hx
    · exact List.mem_cons.2 (Or.inl (Option.some.inj hx).symm)
    split at hx
    · exact List.mem_cons_of_mem _ (reached_mem hx)
    · cases hx

/-- What the walk through a segment with the note `x`, if it reaches one, leaves in the variables. -/
structure After (x : Option (Addr × Note)) (h h' : Headers) : Prop where
  dynamic : h'.ptDynamicRan = h.ptDynamicRan
  found   : ∀ y, x = some y → h'.buildidAddr = (toolDesc y).1 ∧ h'.buildidLen = (toolDesc y).2 ∧ h'.ptNoteRan = true
  absent  : x = none → h'.buildidAddr = h.buildidAddr ∧ h'.ptNoteRan = h.ptNoteRan

theorem header_words (mem : Mem) (a : Addr) :
    ofLE ((mem.read a 12).take 4) = readWord mem a ∧ ofLE (((mem.read a 12).drop 4).take 4) = readWord mem (a + 4) ∧
      ofLE ((mem.read a 12).drop 8) = readWord mem (a + 8) := by
  have h₁ : mem.read a 12 = mem.read a 4 ++ mem.read (a + 4) 8 := Mem.read_add mem 8 4 a
  have h₂ : mem.read (a + 4) 8 = mem.read (a + 4) 4 ++ mem.read (a + 4 + 4) 4 := Mem.read_add mem 4 4 (a + 4)
  have h₃ : a + 4 + 4 = a + 8 := by rw [BitVec.add_assoc]; rfl
  rw [h₃] at h₂
  have hlen : (mem.read a 4).length = 4 := Mem.length_read mem 4 a
  have hlen' : (mem.read (a + 4) 4).length = 4 := Mem.length_read mem 4 (a + 4)
  refine ⟨?_, ?_, ?_⟩
  · rw [h₁, List.take_left' hlen, readWord]
  · rw [h₁, List.drop_left' hlen, h₂, List.take_left' hlen', readWord]
  · rw [h₁, h₂, ← List.append_assoc, List.drop_left' (by rw [List.length_append, hlen, hlen']), readWord]

/-- **In step with the notes, the loop over a segment comes to the note that `reached` says.** -/
theorem noteLoop_reached {readMemory : Addr → Nat → Option (List Byte)} {mem : Mem} {noteAddrEnd : Addr} :
    ∀ (ns : List Note) (fuel size m : Nat) (a : Addr) (h : Headers),
      mem.read a size = ns.flatMap Note.bytes → h.ptNoteRan = false → StaysOnNotes m ns →
      noteAddrEnd.toNat = a.toNat + m → a.toNat + size < 2 ^ 63 →
      (∀ i k, i + k ≤ size → readMemory (a + BitVec.ofNat 64 i) k = some (mem.read (a + BitVec.ofNat 64 i) k)) →
      ns.length ≤ fuel → ∃ h', noteLoop readMemory noteAddrEnd fuel a h = some (.ok h') ∧ After (reached m a ns) h h'
  | [], _, _, _, _, _, _, _, hstay, _, _, _, _                => hstay.elim
  | n :: ns, 0, _, _, _, _, _, _, _, _, _, _, hf              => absurd hf (Nat.not_succ_le_zero _)
  | n :: ns, fuel + 1, size, m, a, h, hmem, hran, hstay, hend, hsize, hread, hf => by
    rw [List.flatMap_cons] at hmem
    have hlen := congrArg List.length hmem
    rw [Mem.length_read, List.length_append] at hlen
    have hbytes := n.length_bytes
    obtain ⟨h₁, h₂, h₃, -, hrest⟩ := read_note hmem
    obtain ⟨w₁, w₂, w₃⟩ := header_words mem a
    have hheader : readMemory a 12 = some (mem.read a 12) := by
      have h0 := hread 0 12 (by omega)
      rwa [BitVec.add_zero] at h0
    rw [noteLoop, if_neg (by simp [hran]), hheader, reached]
    simp only [w₁, w₂, w₃, h₁, h₂, h₃]
    by_cases ht : n.type = NT_GNU_BUILD_ID
    · rw [if_pos ht, if_pos ht]
      exact ⟨_, rfl, rfl, fun y hy => (by cases hy; exact ⟨rfl, rfl, rfl⟩), fun hnone => (by cases hnone)⟩
    rw [if_neg ht, if_neg ht]
    change ∃ h', (if a + BitVec.ofNat 64 (toolStride n) < noteAddrEnd then
      noteLoop readMemory noteAddrEnd fuel (a + BitVec.ofNat 64 (toolStride n)) _ else _) = _ ∧ _
    have hstride : toolStride n < 2 ^ 32 := Nat.mod_lt _ (by decide)
    have hlt : a + BitVec.ofNat 64 (toolStride n) < noteAddrEnd ↔ toolStride n < m := by
      rw [BitVec.lt_def, hend, BitVec.toNat_add, BitVec.toNat_ofNat]
      omega
    by_cases hmore : toolStride n < m
    swap
    · rw [if_neg (fun h' => hmore (hlt.1 h')), if_neg hmore]
      exact ⟨_, rfl, rfl, fun y hy => (by cases hy), fun _ => ⟨rfl, rfl⟩⟩
    obtain ⟨heq, hstay'⟩ := hstay.resolve_left ht hmore
    rw [if_pos (hlt.2 hmore), if_pos hmore, heq]
    have hnext : (a + BitVec.ofNat 64 n.bytes.length).toNat = a.toNat + n.bytes.length := by
      rw [BitVec.toNat_add, BitVec.toNat_ofNat]
      omega
    obtain ⟨h', hloop, hafter⟩ := @noteLoop_reached readMemory mem noteAddrEnd ns fuel (size - n.bytes.length)
      (m - n.bytes.length) _ { h with buildidLen := addRemainder n.desc.length } hrest hran hstay' (by rw [hnext]; omega) (by rw [hnext]; omega)
      (fun i k hik => by
        have hr := hread (n.bytes.length + i) k (by omega)
        rwa [BitVec.ofNat_add, ← BitVec.add_assoc] at hr) (Nat.le_of_succ_le_succ hf)
    exact ⟨h', hloop, hafter.dynamic, hafter.found, hafter.absent⟩

/-! ## The object -/

theorem readDyn_buildid : ∀ (ds : List ElfDyn) (h : Headers),
    (readDyn ds h).buildidAddr = h.buildidAddr ∧ (readDyn ds h).buildidLen = h.buildidLen ∧
      (readDyn ds h).ptNoteRan = h.ptNoteRan
  | [], h      => ⟨rfl, rfl, rfl⟩
  | d :: ds, h => by
    have hentry : (dynEntry h d).buildidAddr = h.buildidAddr ∧ (dynEntry h d).buildidLen = h.buildidLen ∧
        (dynEntry h d).ptNoteRan = h.ptNoteRan := by
      cases d <;> exact ⟨rfl, rfl, rfl⟩
    rw [readDyn]
    split
    · exact hentry
    · obtain ⟨h₁, h₂, h₃⟩ := readDyn_buildid ds (dynEntry h d)
      exact ⟨h₁.trans hentry.1, h₂.trans hentry.2.1, h₃.trans hentry.2.2⟩

section Loop

variable {readMemory : Addr → Nat → Option (List Byte)} {mem : Mem} {notes : ToolPhdr → List Note} {lAddr : Addr}

/-- Once the build id is found, the remaining headers leave it. -/
theorem phdrLoop_found {fuel : Nat} : ∀ (phdrs : List ToolPhdr) (h : Headers), h.ptNoteRan = true →
    ∃ h', phdrLoop readMemory lAddr (fuel + 1) phdrs h = some (.ok h') ∧ h'.buildidAddr = h.buildidAddr ∧
      h'.buildidLen = h.buildidLen
  | [], h, _               => ⟨h, rfl, rfl, rfl⟩
  | phdr :: phdrs, h, hran => by
    obtain ⟨h₁, hphdr, ha, hl, hr⟩ : ∃ h₁, readPhdr readMemory lAddr (fuel + 1) phdr h = some (.ok h₁) ∧
        h₁.buildidAddr = h.buildidAddr ∧ h₁.buildidLen = h.buildidLen ∧ h₁.ptNoteRan = true := by
      unfold readPhdr
      by_cases hd : phdr.pType = PT_DYNAMIC ∧ h.ptDynamicRan = false
      · obtain ⟨ha, hl, hr⟩ := readDyn_buildid phdr.dynamic h
        exact ⟨_, if_pos hd, ha, hl, hr.trans hran⟩
      · by_cases hn : phdr.pType = PT_NOTE
        · refine ⟨h, ?_, rfl, rfl, hran⟩
          rw [if_neg hd, if_pos hn, noteLoop, if_pos hran]
        · exact ⟨h, by rw [if_neg hd, if_neg hn], rfl, rfl, hran⟩
    rw [phdrLoop, hphdr, Option.bind_some]
    simp only
    by_cases hboth : h₁.ptDynamicRan = true ∧ h₁.ptNoteRan = true
    · exact ⟨h₁, if_pos hboth, ha, hl⟩
    · obtain ⟨h', hloop, ha', hl'⟩ := phdrLoop_found phdrs h₁ hr
      exact ⟨h', by rw [if_neg hboth, hloop], ha'.trans ha, hl'.trans hl⟩

/-- A header the tool keeps in step with. -/
theorem readPhdr_reached {fuel : Nat} {phdr : ToolPhdr} {h : Headers}
    (hwf : phdr.pType = PT_NOTE → SegmentWf readMemory mem notes lAddr phdr) (hran : h.ptNoteRan = false)
    (hstay : phdr.pType = PT_NOTE → StaysOnNotes phdr.secSize (notes phdr)) (hf : (notes phdr).length ≤ fuel) :
    ∃ h', readPhdr readMemory lAddr fuel phdr h = some (.ok h') ∧
      (∀ y, reachedIn notes lAddr phdr = some y →
        h'.buildidAddr = (toolDesc y).1 ∧ h'.buildidLen = (toolDesc y).2 ∧ h'.ptNoteRan = true) ∧
      (reachedIn notes lAddr phdr = none → h'.buildidAddr = h.buildidAddr ∧ h'.ptNoteRan = false) := by
  unfold readPhdr reachedIn
  by_cases hn : phdr.pType = PT_NOTE
  · have hd : ¬ (phdr.pType = PT_DYNAMIC ∧ h.ptDynamicRan = false) := by
      rw [hn]
      exact fun hd => absurd hd.1 (by decide)
    obtain ⟨⟨hmem, -⟩, hin, hread⟩ := hwf hn
    have hend : (lAddr + phdr.pVaddr + BitVec.ofNat 64 (phdr.pMemsz.toNat % 2 ^ 32)).toNat =
        (lAddr + phdr.pVaddr).toNat + phdr.secSize := by
      rw [BitVec.toNat_add, BitVec.toNat_ofNat, ToolPhdr.secSize]
      omega
    obtain ⟨h', hloop, hafter⟩ := noteLoop_reached (notes phdr) fuel _ phdr.secSize _ h hmem hran (hstay hn) hend hin hread hf
    rw [if_neg hd, if_pos hn, if_pos hn]
    exact ⟨h', hloop, hafter.found, fun hnone => ⟨(hafter.absent hnone).1, (hafter.absent hnone).2.trans hran⟩⟩
  · rw [if_neg hn, if_neg hn]
    split
    · obtain ⟨ha, -, hr⟩ := readDyn_buildid phdr.dynamic h
      exact ⟨_, rfl, fun y hy => (by cases hy), fun _ => ⟨ha, hr.trans hran⟩⟩
    · exact ⟨h, rfl, fun y hy => (by cases hy), fun _ => ⟨rfl, hran⟩⟩

/-- **In step with the notes, the tool selects the note it comes to.** -/
theorem phdrLoop_selected {fuel : Nat} : ∀ (phdrs : List ToolPhdr) (h : Headers),
    (∀ phdr ∈ phdrs, phdr.pType = PT_NOTE → SegmentWf readMemory mem notes lAddr phdr) → InStep notes lAddr phdrs →
    h.ptNoteRan = false → h.buildidAddr = 0 → (∀ phdr ∈ phdrs, (notes phdr).length ≤ fuel) →
    ∃ h', phdrLoop readMemory lAddr (fuel + 1) phdrs h = some (.ok h') ∧
      match toolNote notes lAddr phdrs with
      | none   => h'.buildidAddr = 0
      | some x => h'.buildidAddr = (toolDesc x).1 ∧ h'.buildidLen = (toolDesc x).2
  | [], h, _, _, _, h0, _                        => ⟨h, rfl, h0⟩
  | phdr :: phdrs, h, hwf, hstep, hran, h0, hf => by
    obtain ⟨h₁, hphdr, hfound, habsent⟩ := readPhdr_reached (hwf phdr List.mem_cons_self) hran hstep.1
      (Nat.le_succ_of_le (hf phdr List.mem_cons_self))
    rw [toolNote, List.findSome?_cons, phdrLoop, hphdr, Option.bind_some]
    simp only
    cases hx : reachedIn notes lAddr phdr with
    | some x =>
      obtain ⟨ha, hl, hr⟩ := hfound x hx
      simp only
      by_cases hboth : h₁.ptDynamicRan = true ∧ h₁.ptNoteRan = true
      · exact ⟨h₁, if_pos hboth, ha, hl⟩
      · obtain ⟨h', hloop, ha', hl'⟩ := @phdrLoop_found readMemory lAddr fuel phdrs h₁ hr
        exact ⟨h', by rw [if_neg hboth, hloop], ha'.trans ha, hl'.trans hl⟩
    | none =>
      obtain ⟨ha, hr⟩ := habsent hx
      have hnot : ¬ (h₁.ptDynamicRan = true ∧ h₁.ptNoteRan = true) := by
        rw [hr]
        exact fun hboth => absurd hboth.2 (by decide)
      have hstep' : InStep notes lAddr phdrs := hstep.2.resolve_left (by rw [hx]; decide)
      simp only
      rw [if_neg hnot]
      exact phdrLoop_selected phdrs h₁ (fun p hp => hwf p (List.mem_cons_of_mem _ hp)) hstep' hr (ha.trans h0)
        (fun p hp => hf p (List.mem_cons_of_mem _ hp))

end Loop

theorem noteLoop_steady {readMemory : Addr → Nat → Option (List Byte)} {noteAddrEnd : Addr} :
    ∀ (n m : Nat) (a : Addr) (h : Headers) (r : Except UlpError Headers), n ≤ m →
      noteLoop readMemory noteAddrEnd n a h = some r → noteLoop readMemory noteAddrEnd m a h = some r
  | 0, _, _, _, _, _, hr             => by cases hr
  | n + 1, m, a, h, r, hle, hr => by
    obtain ⟨m, rfl⟩ : ∃ k, m = k + 1 := ⟨m - 1, by omega⟩
    rw [noteLoop] at hr ⊢
    by_cases hran : h.ptNoteRan = true
    · rw [if_pos hran] at hr ⊢
      exact hr
    rw [if_neg hran] at hr ⊢
    cases hnote : readMemory a 12 with
    | none =>
      rw [hnote] at hr
      exact hr
    | some note =>
      rw [hnote] at hr
      simp only at hr ⊢
      by_cases ht : ofLE (note.drop 8) = NT_GNU_BUILD_ID
      · rw [if_pos ht] at hr ⊢
        exact hr
      rw [if_neg ht] at hr ⊢
      split
      · rename_i hlt
        rw [if_pos hlt] at hr
        exact noteLoop_steady n m _ _ _ (by omega) hr
      · rename_i hlt
        rw [if_neg hlt] at hr
        exact hr

theorem phdrLoop_steady {readMemory : Addr → Nat → Option (List Byte)} {lAddr : Addr} :
    ∀ (phdrs : List ToolPhdr) (h : Headers), Steady (fun fuel => phdrLoop readMemory lAddr fuel phdrs h)
  | [], _            => Steady.const _
  | phdr :: phdrs, h => by
    simp only [phdrLoop]
    apply Steady.bind
    · unfold readPhdr
      by_cases hd : phdr.pType = PT_DYNAMIC ∧ h.ptDynamicRan = false
      · simp only [if_pos hd]
        exact Steady.const _
      by_cases hn : phdr.pType = PT_NOTE
      · simp only [if_neg hd, if_pos hn]
        exact fun n m r hle hr => noteLoop_steady n m _ _ _ hle hr
      · simp only [if_neg hd, if_neg hn]
        exact Steady.const _
    · rintro (e | h')
      · exact Steady.const _
      · by_cases hboth : h'.ptDynamicRan = true ∧ h'.ptNoteRan = true
        · simp only [if_pos hboth]
          exact Steady.const _
        · simp only [if_neg hboth]
          exact phdrLoop_steady phdrs h'

/-! ## The same build id -/

def gnuName : List Byte := [71, 78, 85, 0]

/-- A note of type `NT_GNU_BUILD_ID` owned by GNU. -/
def isGnu (x : Addr × Note) : Bool := x.2.type == NT_GNU_BUILD_ID && x.2.name == gnuName

def isLibrary (x : Addr × Note) : Bool := x.2.isBuildId

/-- Where a note has its descriptor. -/
def descOf (x : Addr × Note) : Addr × Nat := (x.1 + 12 + BitVec.ofNat 64 (align4 x.2.name.length), x.2.desc.length)

/-- **The tool comes back with the descriptor of the first build-id note owned by GNU, if there is one, and the library
stops there too.** -/
def SameBuildId (readMemory : Addr → Nat → Option (List Byte)) (mem : Mem) (notes : ToolPhdr → List Note) (obj : Dynobj) :
    Prop :=
  (∃ fuel h, phdrLoop readMemory obj.lAddr fuel obj.phdrs .start = some (.ok h) ∧
    h.selected = ((placedNotes notes obj.lAddr obj.phdrs).find? isGnu).map descOf) ∧
  libraryStop mem obj = ((placedNotes notes obj.lAddr obj.phdrs).find? isGnu).map descOf

/-- The note the tool comes to is the first one owned by GNU and the first one the library takes, and has a whole number
of words; if it comes to none, there is none of either kind. -/
structure SameNote (notes : ToolPhdr → List Note) (obj : Dynobj) : Prop where
  gnu     : (placedNotes notes obj.lAddr obj.phdrs).find? isGnu = toolNote notes obj.lAddr obj.phdrs
  library : (placedNotes notes obj.lAddr obj.phdrs).find? isLibrary = toolNote notes obj.lAddr obj.phdrs
  words   : ∀ x, toolNote notes obj.lAddr obj.phdrs = some x → x.2.desc.length % 4 = 0

/-- The notes of the segments do not overlap. -/
def Apart (notes : ToolPhdr → List Note) (obj : Dynobj) : Prop :=
  ∀ x ∈ placedNotes notes obj.lAddr obj.phdrs, ∀ y ∈ placedNotes notes obj.lAddr obj.phdrs,
    x = y ∨ x.1.toNat + x.2.bytes.length ≤ y.1.toNat ∨ y.1.toNat + y.2.bytes.length ≤ x.1.toNat

section Object

variable {readMemory : Addr → Nat → Option (List Byte)} {mem : Mem} {notes : ToolPhdr → List Note} {obj : Dynobj}

/-- The library stops at the first note it takes for a build id. -/
theorem libraryStop_eq (hwf : ∀ phdr ∈ obj.phdrs, phdr.pType = PT_NOTE → SegmentWf readMemory mem notes obj.lAddr phdr) :
    libraryStop mem obj =
      ((placedNotes notes obj.lAddr obj.phdrs).find? isLibrary).map (fun x => (x.1 + 16, x.2.desc.length)) := by
  unfold libraryStop placedNotes
  generalize obj.phdrs = phdrs at hwf
  induction phdrs with
  | nil => rfl
  | cons phdr phdrs ih =>
    rw [List.findSome?_cons, List.flatMap_cons, List.find?_append]
    have ih' := ih (fun p hp => hwf p (List.mem_cons_of_mem _ hp))
    by_cases hn : phdr.pType = PT_NOTE
    · obtain ⟨⟨hmem, hlt⟩, -, -⟩ := hwf phdr List.mem_cons_self hn
      have hsize : phdr.pFilesz.toInt = (phdr.pFilesz.toNat : Int) := BitVec.toInt_eq_toNat_of_lt (by omega)
      have hstop := stopNotes_eq mem _ _ _ _ hmem (Nat.le_refl _)
      rw [if_pos hn, if_pos hn, hsize, hstop]
      change _ = Option.map _ (((placed (obj.lAddr + phdr.pVaddr) (notes phdr)).find? (·.2.isBuildId)).or _)
      cases (placed (obj.lAddr + phdr.pVaddr) (notes phdr)).find? (·.2.isBuildId) with
      | none => exact ih'
      | some x => rfl
    · rw [if_neg hn, if_neg hn]
      exact ih'

theorem placed_bounds : ∀ {ns : List Note} {a : Addr} {x : Addr × Note}, a.toNat + (ns.flatMap Note.bytes).length < 2 ^ 63 →
    x ∈ placed a ns → x.1.toNat + x.2.bytes.length < 2 ^ 63
  | [], _, _, _, hx           => by cases hx
  | n :: ns, a, x, hlt, hx => by
    rw [List.flatMap_cons, List.length_append] at hlt
    rcases List.mem_cons.1 hx with rfl | hx
    · simp only
      omega
    · refine placed_bounds ?_ hx
      rw [BitVec.toNat_add, BitVec.toNat_ofNat]
      omega

theorem placedNotes_bounds
    (hwf : ∀ phdr ∈ obj.phdrs, phdr.pType = PT_NOTE → SegmentWf readMemory mem notes obj.lAddr phdr) {x : Addr × Note}
    (hx : x ∈ placedNotes notes obj.lAddr obj.phdrs) : x.1.toNat + x.2.bytes.length < 2 ^ 63 := by
  obtain ⟨phdr, hmem, hx⟩ := List.mem_flatMap.1 hx
  by_cases hn : phdr.pType = PT_NOTE
  · obtain ⟨⟨hread, -⟩, hin, -⟩ := hwf phdr hmem hn
    have hlen := congrArg List.length hread
    rw [Mem.length_read] at hlen
    rw [if_pos hn] at hx
    exact placed_bounds (by rw [← hlen]; exact hin) hx
  · rw [if_neg hn] at hx
    cases hx

theorem toolDesc_toNat {x : Addr × Note} (hx : x.1.toNat + x.2.bytes.length < 2 ^ 63) :
    (toolDesc x).1.toNat = x.1.toNat + 12 + (x.2.name.length + x.2.name.length % 4) := by
  have h₁ := x.2.length_bytes
  have h₂ := x.2.name_lt
  have h₃ : x.2.name.length ≤ align4 x.2.name.length := by
    unfold align4
    omega
  have h12 : (12 : Addr).toNat = 12 := rfl
  simp only [toolDesc, addRemainder, BitVec.toNat_add, BitVec.toNat_ofNat, h12]
  omega

theorem toolNote_mem {x : Addr × Note} (hx : toolNote notes obj.lAddr obj.phdrs = some x) :
    x ∈ placedNotes notes obj.lAddr obj.phdrs := by
  obtain ⟨phdr, hmem, hphdr⟩ := List.exists_of_findSome?_eq_some hx
  unfold reachedIn at hphdr
  split at hphdr
  · rename_i hn
    exact List.mem_flatMap.2 ⟨phdr, hmem, by rw [if_pos hn]; exact reached_mem hphdr⟩
  · cases hphdr

/-- **What the tool selects while it is in step.** -/
theorem tool_selects
    (hwf : ∀ phdr ∈ obj.phdrs, phdr.pType = PT_NOTE → SegmentWf readMemory mem notes obj.lAddr phdr)
    (hstep : InStep notes obj.lAddr obj.phdrs) :
    ∃ fuel h, phdrLoop readMemory obj.lAddr fuel obj.phdrs .start = some (.ok h) ∧
      h.selected = (toolNote notes obj.lAddr obj.phdrs).map toolDesc := by
  have hfuel : ∀ phdr ∈ obj.phdrs, (notes phdr).length ≤ (obj.phdrs.map notes).flatten.length :=
    fun phdr hp => (List.sublist_flatten_of_mem (List.mem_map_of_mem hp)).length_le
  obtain ⟨h, hloop, hsel⟩ := phdrLoop_selected obj.phdrs .start hwf hstep rfl rfl hfuel
  refine ⟨_, h, hloop, ?_⟩
  unfold Headers.selected
  cases hx : toolNote notes obj.lAddr obj.phdrs with
  | none =>
    rw [hx] at hsel
    rw [if_pos hsel]
    rfl
  | some x =>
    rw [hx] at hsel
    obtain ⟨ha, hl⟩ := hsel
    have hnat := toolDesc_toNat (placedNotes_bounds hwf (toolNote_mem hx))
    have hne : h.buildidAddr ≠ 0 := by
      rw [ha]
      intro h0
      rw [h0] at hnat
      simp at hnat
      omega
    rw [if_neg hne, ha, hl]
    rfl

/-- **The bytes the tool keeps** are those of the descriptor selected, if there are twenty. -/
theorem parseDynobjElfHeaders_buildId {fuel : Nat} {p : Parsed}
    (hp : parseDynobjElfHeaders readMemory obj fuel = some (.ok p)) :
    ∃ h, phdrLoop readMemory obj.lAddr fuel obj.phdrs .start = some (.ok h) ∧
      p.buildId = h.selected.bind (fun x => if x.2 = buildidLen then readMemory x.1 x.2 else none) := by
  unfold parseDynobjElfHeaders at hp
  split at hp
  · cases hp
  split at hp
  · cases hp
  obtain ⟨r, hloop, hr⟩ := Option.map_eq_some_iff.1 hp
  cases r with
  | error e => cases hr
  | ok h =>
    refine ⟨h, hloop, ?_⟩
    have hbuild : p.buildId =
        if h.buildidAddr ≠ 0 ∧ h.buildidLen = buildidLen then readMemory h.buildidAddr h.buildidLen else none := by
      change finishHeaders readMemory h = .ok p at hr
      unfold finishHeaders at hr
      simp only at hr
      split at hr
      · cases hr
        rfl
      · split at hr
        · cases hr
        · cases hr
          rfl
    rw [hbuild, Headers.selected]
    by_cases h0 : h.buildidAddr = 0
    · rw [if_pos h0, if_neg (fun h' => h'.1 h0)]
      rfl
    · rw [if_neg h0, Option.bind_some]
      by_cases hl : h.buildidLen = buildidLen
      · rw [if_pos ⟨h0, hl⟩, if_pos hl]
      · rw [if_neg (fun h' => hl h'.2), if_neg hl]

/-- On a note owned by GNU that has a whole number of words, everyone has the same descriptor in mind. -/
theorem desc_of_gnu {x : Addr × Note} (hname : x.2.name = gnuName) (h4 : x.2.desc.length % 4 = 0) :
    toolDesc x = descOf x ∧ (x.1 + 16, x.2.desc.length) = descOf x := by
  have hlen : x.2.name.length = 4 := by rw [hname]; rfl
  have hdesc : addRemainder x.2.desc.length = x.2.desc.length := by
    have := x.2.desc_lt
    unfold addRemainder
    omega
  refine ⟨?_, ?_⟩
  · rw [toolDesc, descOf, hlen, hdesc]
    rfl
  · rw [descOf, hlen, BitVec.add_assoc]
    rfl

theorem same_of_note
    (hwf : ∀ phdr ∈ obj.phdrs, phdr.pType = PT_NOTE → SegmentWf readMemory mem notes obj.lAddr phdr)
    (hstep : InStep notes obj.lAddr obj.phdrs) (hnote : SameNote notes obj) : SameBuildId readMemory mem notes obj := by
  obtain ⟨fuel, h, hloop, hsel⟩ := tool_selects hwf hstep
  rw [SameBuildId, libraryStop_eq hwf, hnote.library, hnote.gnu]
  cases hx : toolNote notes obj.lAddr obj.phdrs with
  | none =>
    rw [hx] at hsel
    exact ⟨⟨fuel, h, hloop, hsel⟩, rfl⟩
  | some x =>
    have hgnu := List.find?_some (hnote.gnu.trans hx)
    simp only [isGnu, Bool.and_eq_true, beq_iff_eq] at hgnu
    obtain ⟨htool, hstop⟩ := desc_of_gnu hgnu.2 (hnote.words x hx)
    rw [hx, Option.map_some, htool] at hsel
    exact ⟨⟨fuel, h, hloop, hsel⟩, congrArg some hstop⟩

/-- Notes with the same descriptor are the same note. -/
theorem eq_of_desc (hwf : ∀ phdr ∈ obj.phdrs, phdr.pType = PT_NOTE → SegmentWf readMemory mem notes obj.lAddr phdr)
    (hapart : Apart notes obj) {x y : Addr × Note} (hx : x ∈ placedNotes notes obj.lAddr obj.phdrs)
    (hy : y ∈ placedNotes notes obj.lAddr obj.phdrs) (hname : y.2.name.length = 4)
    (h : (toolDesc x).1 = y.1 + 16 ∨ x.1 + 16 = y.1 + 16 ∧ x.2.name.length = 4) : x = y := by
  have hbx := placedNotes_bounds hwf hx
  have hby := placedNotes_bounds hwf hy
  have hlx := x.2.length_bytes
  have hly := y.2.length_bytes
  have hdx := toolDesc_toNat hbx
  have hax : x.2.name.length + x.2.name.length % 4 ≤ align4 x.2.name.length + 2 := by
    have := x.2.name_lt
    unfold align4
    omega
  have hay : align4 y.2.name.length = 4 := by rw [hname]; rfl
  have h16 : ∀ z : Addr, z.toNat + 16 < 2 ^ 64 → (z + 16).toNat = z.toNat + 16 := by
    intro z hz
    have : (16 : Addr).toNat = 16 := rfl
    rw [BitVec.toNat_add, this]
    omega
  have hyn := h16 y.1 (by omega)
  -- the descriptor of `y` starts in `x`, or at most two bytes behind it
  have hin : x.1.toNat + 12 ≤ y.1.toNat + 16 ∧ y.1.toNat + 16 ≤ x.1.toNat + x.2.bytes.length + 2 := by
    rcases h with h | ⟨h, hxname⟩
    · rw [h, hyn] at hdx
      omega
    · have hax' : align4 x.2.name.length = 4 := by rw [hxname]; rfl
      have hxn := h16 x.1 (by omega)
      rw [h, hyn] at hxn
      omega
  rcases hapart x hx y hy with rfl | hle | hle
  · rfl
  · omega
  · omega

theorem note_of_same
    (hwf : ∀ phdr ∈ obj.phdrs, phdr.pType = PT_NOTE → SegmentWf readMemory mem notes obj.lAddr phdr)
    (hstep : InStep notes obj.lAddr obj.phdrs) (hapart : Apart notes obj) (hsame : SameBuildId readMemory mem notes obj) :
    SameNote notes obj := by
  obtain ⟨⟨fuel, h, hloop, hsel⟩, hstop⟩ := hsame
  obtain ⟨fuel', h', hloop', hsel'⟩ := tool_selects hwf hstep
  have hsteady := @phdrLoop_steady readMemory obj.lAddr obj.phdrs .start
  obtain rfl : h = h' := by
    have := Returns.unique hsteady ⟨fuel, hloop⟩ ⟨fuel', hloop'⟩
    simpa using this
  rw [hsel'] at hsel
  rw [libraryStop_eq hwf, ← hsel] at hstop
  cases hx : toolNote notes obj.lAddr obj.phdrs with
  | none =>
    rw [hx] at hsel hstop
    have hgnu := Option.map_eq_none_iff.1 hsel.symm
    have hlib := Option.map_eq_none_iff.1 hstop
    exact ⟨hgnu.trans hx.symm, hlib.trans hx.symm, fun x hx' => by rw [hx] at hx'; cases hx'⟩
  | some x =>
    rw [hx, Option.map_some] at hsel hstop
    obtain ⟨y, hy, hdesc⟩ := Option.map_eq_some_iff.1 hsel.symm
    obtain ⟨z, hz, hdesc'⟩ := Option.map_eq_some_iff.1 hstop
    have hgnu := List.find?_some hy
    have hlib := List.find?_some hz
    simp only [isGnu, Bool.and_eq_true, beq_iff_eq] at hgnu
    simp only [isLibrary, Note.isBuildId, Bool.and_eq_true, decide_eq_true_eq] at hlib
    have hlen : y.2.name.length = 4 := by rw [hgnu.2]; rfl
    have hy16 : (descOf y).1 = y.1 + 16 := by
      rw [descOf, hlen, BitVec.add_assoc]
      rfl
    have hymem := List.mem_of_find?_eq_some hy
    obtain rfl : x = y := eq_of_desc hwf hapart (toolNote_mem hx) hymem hlen (Or.inl (by rw [← hdesc, hy16]))
    obtain rfl : z = x := eq_of_desc hwf hapart (List.mem_of_find?_eq_some hz) hymem hlen
      (Or.inr ⟨(Prod.mk.inj hdesc').1.trans ((congrArg Prod.fst hdesc).symm.trans hy16), hlib.1.2⟩)
    refine ⟨hy.trans hx.symm, hz.trans hx.symm, fun x' hx' => ?_⟩
    obtain rfl := Option.some.inj (hx.symm.trans hx')
    have hl : z.2.desc.length = addRemainder z.2.desc.length := (Prod.mk.inj hdesc).2
    have := z.2.desc_lt
    unfold addRemainder at hl
    omega

/-- **The tool and the library find the same build id when the tool keeps in step with the notes and the note it comes to
is the first of GNU's and of the library's; and, in step with notes that do not overlap, only then.**  What the tool then
keeps are the bytes of that note. -/
theorem same_build_id
    (hwf : ∀ phdr ∈ obj.phdrs, phdr.pType = PT_NOTE → SegmentWf readMemory mem notes obj.lAddr phdr) :
    (InStep notes obj.lAddr obj.phdrs ∧ SameNote notes obj → SameBuildId readMemory mem notes obj) ∧
      (Apart notes obj → SameBuildId readMemory mem notes obj →
        ¬ InStep notes obj.lAddr obj.phdrs ∨ SameNote notes obj) ∧
      (SameBuildId readMemory mem notes obj → ∀ fuel p, parseDynobjElfHeaders readMemory obj fuel = some (.ok p) →
        p.buildId = (((placedNotes notes obj.lAddr obj.phdrs).find? isGnu).map descOf).bind
          (fun x => if x.2 = buildidLen then readMemory x.1 x.2 else none)) := by
  refine ⟨fun h => same_of_note hwf h.1 h.2, fun hapart hsame => ?_, fun hsame fuel p hp => ?_⟩
  · by_cases hstep : InStep notes obj.lAddr obj.phdrs
    · exact Or.inr (note_of_same hwf hstep hapart hsame)
    · exact Or.inl hstep
  · obtain ⟨⟨fuel', h', hloop', hsel'⟩, -⟩ := hsame
    obtain ⟨h, hloop, hbuild⟩ := parseDynobjElfHeaders_buildId hp
    have hsteady := @phdrLoop_steady readMemory obj.lAddr obj.phdrs .start
    obtain rfl : h = h' := by
      have := Returns.unique hsteady ⟨fuel, hloop⟩ ⟨fuel', hloop'⟩
      simpa using this
    rw [hbuild, hsel']

end Object

/-! ## One segment loaded at 4112 -/

/-- `extra` is what the segment has in memory behind its notes. -/
def onePhdr (ns : List Note) (extra : Nat) : ToolPhdr :=
  { pType := PT_NOTE, pVaddr := 16, pFilesz := BitVec.ofNat 64 (ns.flatMap Note.bytes).length
    pMemsz := BitVec.ofNat 64 ((ns.flatMap Note.bytes).length + extra), dynamic := [] }

def oneObject (ns : List Note) (extra : Nat) : Dynobj :=
  { hasLinkMap := true, lAddr := 4096, ePhentsize := 56, phdrs := [onePhdr ns extra] }

def oneMem (ns : List Note) : Mem := Mem.write (fun _ => 0) 4112 (ns.flatMap Note.bytes)

def oneRead (ns : List Note) (a : Addr) (n : Nat) : Option (List Byte) := some ((oneMem ns).read a n)

theorem oneObject_wf {ns : List Note} (h : (ns.flatMap Note.bytes).length < 2 ^ 32) (extra : Nat) :
    ∀ phdr ∈ (oneObject ns extra).phdrs, phdr.pType = PT_NOTE →
      SegmentWf (oneRead ns) (oneMem ns) (fun _ => ns) (oneObject ns extra).lAddr phdr := by
  intro phdr hphdr _
  obtain rfl := List.mem_singleton.1 hphdr
  have hsize : (onePhdr ns extra).pFilesz.toNat = (ns.flatMap Note.bytes).length := by
    simp only [onePhdr, BitVec.toNat_ofNat]
    omega
  have haddr : (oneObject ns extra).lAddr + (onePhdr ns extra).pVaddr = 4112 := by rfl
  refine ⟨⟨?_, ?_⟩, ?_, fun _ _ _ => rfl⟩
  · rw [hsize, haddr]
    exact Mem.read_write_self _ _ _ (by omega)
  · rw [hsize]
    omega
  · have hnat : (4112 : Addr).toNat = 4112 := rfl
    rw [hsize, haddr, hnat]
    omega

/-- The version note of GNU, of type 1. -/
def abiNote : Note :=
  { type := 1, name := gnuName, namePad := [], desc := List.replicate 16 0, descPad := [],
    type_lt := by decide, name_lt := by decide, desc_lt := by decide, namePad_len := by decide,
    descPad_len := by decide }

/-- **The build id behind another note is found by both**, in a segment that has four more bytes in memory, and is what
the tool keeps. -/
theorem same_build_id_behind : SameBuildId (oneRead [abiNote, soleNote]) (oneMem [abiNote, soleNote])
      (fun _ => [abiNote, soleNote]) (oneObject [abiNote, soleNote] 4) ∧
    (parseDynobjElfHeaders (oneRead [abiNote, soleNote]) (oneObject [abiNote, soleNote] 4) 3).map (·.map (·.buildId)) =
      some (.ok (some soleNote.desc)) := by
  have hnote : toolNote (fun _ => [abiNote, soleNote]) (oneObject [abiNote, soleNote] 4).lAddr
      (oneObject [abiNote, soleNote] 4).phdrs = some (4144, soleNote) := by rfl
  have hstep : InStep (fun _ => [abiNote, soleNote]) (oneObject [abiNote, soleNote] 4).lAddr
      (oneObject [abiNote, soleNote] 4).phdrs := by
    refine ⟨fun _ => Or.inr (fun _ => ⟨by decide, Or.inl rfl⟩), Or.inl ?_⟩
    exact (by decide : (some (4144, soleNote) : Option (Addr × Note)).isSome = true)
  have hsame : SameNote (fun _ => [abiNote, soleNote]) (oneObject [abiNote, soleNote] 4) :=
    ⟨by rw [hnote]; rfl, by rw [hnote]; rfl, fun x hx => by
      rw [hnote] at hx
      obtain rfl := Option.some.inj hx
      decide⟩
  refine ⟨(same_build_id (oneObject_wf (by decide) 4)).1 ⟨hstep, hsame⟩, ?_⟩
  decide +kernel

/-- A probe description: type 3 as well, owned by `stapsdt`. -/
def probeNote : Note :=
  { type := 3, name := [115, 116, 97, 112, 115, 100, 116, 0], namePad := [], desc := List.replicate 4 9, descPad := [],
    type_lt := soleNote.type_lt, name_lt := by decide, desc_lt := by decide, namePad_len := by decide,
    descPad_len := by decide }

/-- **A note of another owner is taken for the build id.** -/
theorem foreign_note_selected : ¬ ∀ (readMemory : Addr → Nat → Option (List Byte)) (mem : Mem)
    (notes : ToolPhdr → List Note) (obj : Dynobj),
    (∀ phdr ∈ obj.phdrs, phdr.pType = PT_NOTE → SegmentWf readMemory mem notes obj.lAddr phdr) →
      SameBuildId readMemory mem notes obj := by
  intro hall
  have hwf := @oneObject_wf [probeNote, soleNote] (by decide) 0
  have hstep : InStep (fun _ => [probeNote, soleNote]) (oneObject [probeNote, soleNote] 0).lAddr
      (oneObject [probeNote, soleNote] 0).phdrs := ⟨fun _ => Or.inl rfl, Or.inr trivial⟩
  have hapart : Apart (fun _ => [probeNote, soleNote]) (oneObject [probeNote, soleNote] 0) := by
    have hplaced : placedNotes (fun _ => [probeNote, soleNote]) (oneObject [probeNote, soleNote] 0).lAddr
        (oneObject [probeNote, soleNote] 0).phdrs = [(4112, probeNote), (4136, soleNote)] := by rfl
    intro x hx y hy
    rw [hplaced] at hx hy
    simp only [List.mem_cons, List.not_mem_nil, or_false] at hx hy
    rcases hx with rfl | rfl <;> rcases hy with rfl | rfl
    · exact Or.inl rfl
    · exact Or.inr (Or.inl (by decide))
    · exact Or.inr (Or.inr (by decide))
    · exact Or.inl rfl
  have hnote : toolNote (fun _ => [probeNote, soleNote]) (oneObject [probeNote, soleNote] 0).lAddr
      (oneObject [probeNote, soleNote] 0).phdrs = some (4112, probeNote) := by rfl
  have hgnu := (note_of_same hwf hstep hapart (hall _ _ _ _ hwf)).gnu.trans hnote
  have hname := List.find?_some hgnu
  exact absurd hname (by decide)

end Notes
end Libpulp
