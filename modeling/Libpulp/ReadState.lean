import Libpulp.Fuel
import Libpulp.Transfer
/-!
# ReadState — the applied patches as the tool reads them (tools/introspection.c, tools/ptrace.c)

`ulp_read_state` follows libpulp's list of applied patches in the memory of the process.  The addresses it follows, and
the two names of each patch, are whatever that memory holds.  A name is first an address of the process and becomes a
string of the tool once it is read; when it cannot be read the address stays.
-/
namespace Libpulp
namespace ReadState

open Bytes (Byte Addr Mem Buf ofLE addrOfLE)
open Fuel (Steady Returns)

/-- What the tool meets: the stopped process, what `process_vm_readv` answers to a request for so many bytes, what fresh
memory of the tool holds, whether `calloc` has memory for the patch at each position, and what `attach` returns.
`malloc` and `realloc` of `read_string` never fail here, and a list of any length can be followed on the stack. -/
structure Target where
  mem            : Mem
  processVmReadv : Addr → Nat → Except Int Nat
  fresh          : Buf
  calloc         : Nat → Bool
  attach         : Int

structure DynobjLibpulp where
  state          : Addr
  libpulpVersion : BitVec 64

/-- A string pointer of the list that the tool has read. -/
inductive Name where
  | null
  | remote (addr : Addr)
  | allocated (string : List Byte)
deriving DecidableEq

def Name.owned : Name → Bool
  | null        => true
  | remote _    => false
  | allocated _ => true

/-- `struct ulp_applied_patch` on the tool's side, without the lists of units and dependencies, which it drops. -/
structure AppliedPatch where
  patchId       : List Byte
  libName       : Name
  containerName : Name
  timestamp     : Nat
deriving DecidableEq

/-! ## Reading -/

def Target.readMemory (t : Target) (len : Nat) (addr : Addr) (buf : Buf) (fuel : Nat) : Option (Int × Buf) :=
  (Transfer.readMemory len addr (fun _ => t.processVmReadv addr len) fuel ⟨buf, t.mem, []⟩).map (fun r => (r.1, r.2.buf))

def Target.readLong (t : Target) (addr : Addr) (fuel : Nat) : Option (Int × Buf) :=
  (Transfer.readLong addr (fun _ => t.processVmReadv addr Transfer.sizeofLong) fuel ⟨t.fresh, t.mem, []⟩).map
    (fun r => (r.1, r.2.buf))

def hasbytezero (l : BitVec 64) : Bool := (l - 0x0101010101010101#64) &&& ~~~l &&& 0x8080808080808080#64 != 0#64

/-- The loop of `read_string`: `none` inside when a word cannot be read. -/
def readStringFrom (t : Target) : Nat → Addr → List Byte → Option (Option (List Byte))
  | 0, _, _                => none
  | fuel + 1, addr, string =>
    (t.readLong addr fuel).bind (fun (ret, buf) =>
      if ret ≠ 0 then some none
      else if hasbytezero (addrOfLE (buf.read 0 8)) then some (some (string ++ buf.read 0 8))
      else readStringFrom t fuel (addr + 8) (string ++ buf.read 0 8))

def readString (t : Target) (addr : Addr) (fuel : Nat) : Option (Option (List Byte)) := readStringFrom t fuel addr []

/-- What becomes of a name; the result of `read_string` is not looked at. -/
def readName (t : Target) (addr : Addr) (fuel : Nat) : Option Name :=
  if addr = 0 then some .null
  else (readString t addr fuel).map (fun r => r.elim (.remote addr) .allocated)

/-- `ULP_VERSION_TRIPLET`. -/
def ulpVersionTriplet (a b c : BitVec 64) : BitVec 64 := c + (b <<< 16) + (a <<< 32)

/-- `a_patch_size`: before 0.3.1 there was no timestamp. -/
def aPatchSize (version : BitVec 64) : Nat := if version < ulpVersionTriplet 0 3 1 then 72 else 80

def pointerAt (buf : Buf) (offset : Nat) : Addr := addrOfLE (buf.read offset 8)

/-- `read_ulp_applied_patch` for the patch at position `i` of the list. -/
def readUlpAppliedPatch (t : Target) (version : BitVec 64) : Nat → Nat → Addr → Option (List AppliedPatch)
  | 0, _, _           => none
  | fuel + 1, i, addr =>
    if addr = 0 then some []
    else if !t.calloc i then some []
    else
      (t.readMemory (aPatchSize version) addr (fun _ => 0) fuel).bind (fun (ret, aState) =>
        if ret ≠ 0 then some []
        else
          (readName t (pointerAt aState 32) fuel).bind (fun libName =>
            (readName t (pointerAt aState 40) fuel).bind (fun containerName =>
              (readUlpAppliedPatch t version fuel (i + 1) (pointerAt aState 56)).map (fun next =>
                ⟨aState.read 0 32, libName, containerName, ofLE (aState.read 72 8)⟩ :: next))))

/-- The pointers `release_ulp_applied_patch` passes to `free`, besides the records themselves. -/
def releaseUlpAppliedPatch : List AppliedPatch → List Name
  | []      => []
  | p :: ps => releaseUlpAppliedPatch ps ++ [p.libName, p.containerName].filter (· != .null)

def sizeofUlpPatchingState : Nat := 16

/-- `ulp_read_state`. -/
def ulpReadState (t : Target) (dynobjLibpulp : Option DynobjLibpulp) (fuel : Nat) : Option (List AppliedPatch) :=
  match dynobjLibpulp with
  | none     => some []
  | some lib =>
    if lib.state = 0 then some []
    else if t.attach ≠ 0 then some []
    else
      (t.readMemory sizeofUlpPatchingState lib.state t.fresh fuel).bind (fun (ret, state) =>
        if ret ≠ 0 then some [] else readUlpAppliedPatch t lib.libpulpVersion fuel 0 (pointerAt state 8))

/-! ## What comes back -/

section Steady

variable (t : Target)

theorem readMemory_steady (len : Nat) (addr : Addr) (buf : Buf) : Steady (t.readMemory len addr buf) :=
  Steady.map (f := fun fuel => Transfer.readMemory len addr (fun _ => t.processVmReadv addr len) fuel ⟨buf, t.mem, []⟩)
    (fun _ _ _ hle h => Transfer.transferLoop_mono hle h) (fun r => (r.1, r.2.buf))

theorem readLong_steady (addr : Addr) : Steady (t.readLong addr) :=
  readMemory_steady t Transfer.sizeofLong addr t.fresh

theorem readStringFrom_steady : ∀ (n m : Nat) (addr : Addr) (string : List Byte) (r : Option (List Byte)), n ≤ m →
    readStringFrom t n addr string = some r → readStringFrom t m addr string = some r
  | 0, _, _, _, _, _, h                  => by cases h
  | n + 1, m, addr, string, r, hle, h => by
    obtain ⟨m, rfl⟩ : ∃ k, m = k + 1 := ⟨m - 1, by omega⟩
    rw [readStringFrom] at h ⊢
    obtain ⟨⟨ret, buf⟩, hread, h⟩ := Option.bind_eq_some_iff.1 h
    refine Option.bind_eq_some_iff.2 ⟨(ret, buf), readLong_steady t addr n m _ (by omega) hread, ?_⟩
    by_cases hret : ret ≠ 0
    · simp only [if_pos hret] at h ⊢
      exact h
    · by_cases hz : hasbytezero (addrOfLE (buf.read 0 8)) = true
      · simp only [if_neg hret, if_pos hz] at h ⊢
        exact h
      · simp only [if_neg hret, if_neg hz] at h ⊢
        exact readStringFrom_steady n m _ _ _ (by omega) h

theorem readName_steady (addr : Addr) : Steady (readName t addr) := by
  unfold readName
  by_cases h0 : addr = 0
  · simp only [if_pos h0]
    exact Steady.const _
  · simp only [if_neg h0]
    exact Steady.map (fun n m r hle h => readStringFrom_steady t n m addr [] r hle h) _

/-- **What one record comes to**: the list ends there, or the record is followed by the rest of the list. -/
theorem readUlpAppliedPatch_iff (version : BitVec 64) (n i : Nat) (addr : Addr) (l : List AppliedPatch) :
    readUlpAppliedPatch t version (n + 1) i addr = some l ↔
      (addr = 0 ∨ t.calloc i = false) ∧ l = [] ∨ addr ≠ 0 ∧ t.calloc i = true ∧ ∃ ret aState,
        t.readMemory (aPatchSize version) addr (fun _ => 0) n = some (ret, aState) ∧
        (ret ≠ 0 ∧ l = [] ∨ ret = 0 ∧ ∃ libName containerName next, readName t (pointerAt aState 32) n = some libName ∧
          readName t (pointerAt aState 40) n = some containerName ∧
          readUlpAppliedPatch t version n (i + 1) (pointerAt aState 56) = some next ∧
          l = ⟨aState.read 0 32, libName, containerName, ofLE (aState.read 72 8)⟩ :: next) := by
  rw [readUlpAppliedPatch]
  by_cases h0 : addr = 0
  · rw [if_pos h0, Option.some.injEq, eq_comm]
    simp [h0]
  by_cases hc : t.calloc i = true
  swap
  · rw [if_neg h0, if_pos (by simp [hc]), Option.some.injEq, eq_comm]
    simp [hc]
  simp only [hc, Bool.not_true, Bool.false_eq_true, if_false, h0, false_or, false_and, ne_eq, not_false_eq_true,
    true_and, Bool.true_eq_false, Option.bind_eq_some_iff, Prod.exists]
  refine exists_congr (fun ret => exists_congr (fun aState => and_congr_right (fun _ => ?_)))
  by_cases hret : ret = 0
  · simp only [hret, not_true_eq_false, if_false, false_and, false_or, true_and, Option.bind_eq_some_iff,
      Option.map_eq_some_iff]
    constructor
    · rintro ⟨lib, hlib, con, hcon, next, hnext, rfl⟩
      exact ⟨lib, con, next, hlib, hcon, hnext, rfl⟩
    · rintro ⟨lib, con, next, hlib, hcon, hnext, rfl⟩
      exact ⟨lib, hlib, con, hcon, next, hnext, rfl⟩
  · rw [if_pos hret, Option.some.injEq, eq_comm]
    simp [hret]

theorem readUlpAppliedPatch_steady (version : BitVec 64) : ∀ (n m i : Nat) (addr : Addr) (l : List AppliedPatch), n ≤ m →
    readUlpAppliedPatch t version n i addr = some l → readUlpAppliedPatch t version m i addr = some l
  | 0, _, _, _, _, _, h             => by cases h
  | n + 1, m, i, addr, l, hle, h => by
    obtain ⟨m, rfl⟩ : ∃ k, m = k + 1 := ⟨m - 1, by omega⟩
    have hnm : n ≤ m := by omega
    rw [readUlpAppliedPatch_iff] at h ⊢
    refine h.imp_right (fun ⟨h0, hc, ret, aState, hread, h⟩ => ⟨h0, hc, ret, aState, ?_, h.imp_right ?_⟩)
    · exact readMemory_steady t _ _ _ n m _ hnm hread
    · rintro ⟨hret, lib, con, next, hlib, hcon, hnext, rfl⟩
      exact ⟨hret, lib, con, next, readName_steady t _ n m _ hnm hlib, readName_steady t _ n m _ hnm hcon,
        readUlpAppliedPatch_steady version n m _ _ _ hnm hnext, rfl⟩

theorem ulpReadState_steady (lib : Option DynobjLibpulp) : Steady (ulpReadState t lib) := by
  cases lib with
  | none => exact Steady.const _
  | some lib =>
    unfold ulpReadState
    by_cases h0 : lib.state = 0
    · simp only [if_pos h0]
      exact Steady.const _
    by_cases ha : t.attach ≠ 0
    · simp only [if_neg h0, if_pos ha]
      exact Steady.const _
    simp only [if_neg h0, if_neg ha]
    apply Steady.bind (readMemory_steady t _ _ _)
    rintro ⟨ret, state⟩
    by_cases hret : ret ≠ 0
    · simp only [if_pos hret]
      exact Steady.const _
    · simp only [if_neg hret]
      exact fun n m l hle h => readUlpAppliedPatch_steady t _ n m _ _ _ hle h

end Steady

/-- A name that is null, or a string that can be read to its end. -/
def NameReadable (t : Target) (addr : Addr) : Prop := addr = 0 ∨ ∃ string, Returns (readString t addr) (some string)

/-- **The list ends**: at a null pointer, a record that cannot be read or one there is no memory for, and every record
before has readable names. -/
inductive Ends (t : Target) (version : BitVec 64) : Nat → Addr → Prop where
  | null (i : Nat) : Ends t version i 0
  | noMemory {i : Nat} {addr : Addr} (h : t.calloc i = false) : Ends t version i addr
  | unreadable {i : Nat} {addr : Addr} {ret : Int} {aState : Buf}
      (h : Returns (t.readMemory (aPatchSize version) addr (fun _ => 0)) (ret, aState)) (hret : ret ≠ 0) :
      Ends t version i addr
  | next {i : Nat} {addr : Addr} {aState : Buf}
      (h : Returns (t.readMemory (aPatchSize version) addr (fun _ => 0)) (0, aState))
      (lib : NameReadable t (pointerAt aState 32)) (container : NameReadable t (pointerAt aState 40))
      (rest : Ends t version (i + 1) (pointerAt aState 56)) : Ends t version i addr

/-- Every name is null or belongs to the tool. -/
def Owned (l : List AppliedPatch) : Prop := ∀ p ∈ l, p.libName.owned = true ∧ p.containerName.owned = true

theorem returns_readName_of_readable {t : Target} {addr : Addr} (h : NameReadable t addr) :
    ∃ name, Returns (readName t addr) name ∧ name.owned = true := by
  rcases h with rfl | ⟨string, n, hn⟩
  · exact ⟨.null, ⟨0, rfl⟩, rfl⟩
  · by_cases h0 : addr = 0
    · exact ⟨.null, ⟨0, if_pos h0⟩, rfl⟩
    · refine ⟨.allocated string, ⟨n, ?_⟩, rfl⟩
      rw [readName, if_neg h0, hn]
      rfl

theorem readable_of_readName {t : Target} {addr : Addr} {n : Nat} {name : Name} (h : readName t addr n = some name)
    (hown : name.owned = true) : NameReadable t addr := by
  by_cases h0 : addr = 0
  · exact Or.inl h0
  · rw [readName, if_neg h0] at h
    obtain ⟨r, hr, rfl⟩ := Option.map_eq_some_iff.1 h
    cases r with
    | none => cases hown
    | some string => exact Or.inr ⟨string, n, hr⟩

/-- A list that ends is read, and all its names are the tool's. -/
theorem returns_of_ends {t : Target} {version : BitVec 64} {i : Nat} {addr : Addr} (h : Ends t version i addr) :
    ∃ n l, readUlpAppliedPatch t version n i addr = some l ∧ Owned l := by
  have hnil : Owned [] := fun p hp => absurd hp List.not_mem_nil
  induction h with
  | null i => exact ⟨1, [], (readUlpAppliedPatch_iff ..).2 (Or.inl ⟨Or.inl rfl, rfl⟩), hnil⟩
  | noMemory hc => exact ⟨1, [], (readUlpAppliedPatch_iff ..).2 (Or.inl ⟨Or.inr hc, rfl⟩), hnil⟩
  | @unreadable i addr ret aState hread hret =>
    obtain ⟨n, hn⟩ := hread
    refine ⟨n + 1, [], (readUlpAppliedPatch_iff ..).2 ?_, hnil⟩
    by_cases hend : addr = 0 ∨ t.calloc i = false
    · exact Or.inl ⟨hend, rfl⟩
    · rw [not_or, Bool.not_eq_false] at hend
      exact Or.inr ⟨hend.1, hend.2, ret, aState, hn, Or.inl ⟨hret, rfl⟩⟩
  | @next i addr aState hread hlib hcon _ ih =>
    by_cases hend : addr = 0 ∨ t.calloc i = false
    · exact ⟨1, [], (readUlpAppliedPatch_iff ..).2 (Or.inl ⟨hend, rfl⟩), hnil⟩
    rw [not_or, Bool.not_eq_false] at hend
    obtain ⟨n, hn⟩ := hread
    obtain ⟨lib, ⟨n₁, hn₁⟩, hown₁⟩ := returns_readName_of_readable hlib
    obtain ⟨con, ⟨n₂, hn₂⟩, hown₂⟩ := returns_readName_of_readable hcon
    obtain ⟨n₃, next, hn₃, hown₃⟩ := ih
    -- enough fuel for the record, for both names and for the rest
    let m := n + n₁ + n₂ + n₃
    refine ⟨m + 1, ⟨aState.read 0 32, lib, con, ofLE (aState.read 72 8)⟩ :: next, ?_, ?_⟩
    · refine (readUlpAppliedPatch_iff ..).2 (Or.inr ⟨hend.1, hend.2, 0, aState, ?_, Or.inr ⟨rfl, lib, con, next, ?_⟩⟩)
      · exact readMemory_steady t _ _ _ n m _ (by omega) hn
      · exact ⟨readName_steady t _ n₁ m _ (by omega) hn₁, readName_steady t _ n₂ m _ (by omega) hn₂,
          readUlpAppliedPatch_steady t version n₃ m _ _ _ (by omega) hn₃, rfl⟩
    · intro p hp
      rcases List.mem_cons.1 hp with rfl | hmem
      · exact ⟨hown₁, hown₂⟩
      · exact hown₃ p hmem

theorem ends_of_read {t : Target} {version : BitVec 64} : ∀ {n i : Nat} {addr : Addr} {l : List AppliedPatch},
    readUlpAppliedPatch t version n i addr = some l → Owned l → Ends t version i addr
  | 0, _, _, _, h, _           => by cases h
  | n + 1, i, addr, l, h, hown => by
    rcases (readUlpAppliedPatch_iff ..).1 h with ⟨rfl | hc, -⟩ | ⟨-, -, ret, aState, hread, hrest⟩
    · exact .null i
    · exact .noMemory hc
    · rcases hrest with ⟨hret, -⟩ | ⟨rfl, lib, con, next, hlib, hcon, hnext, rfl⟩
      · exact .unreadable ⟨n, hread⟩ hret
      · obtain ⟨hown₁, hown₂⟩ := hown _ List.mem_cons_self
        exact .next ⟨n, hread⟩ (readable_of_readName hlib hown₁) (readable_of_readName hcon hown₂)
          (ends_of_read hnext (fun p hp => hown p (List.mem_cons_of_mem _ hp)))

theorem release_allocated : ∀ {l : List AppliedPatch}, Owned l →
    ∀ ptr ∈ releaseUlpAppliedPatch l, ∃ string, ptr = .allocated string
  | [], _, ptr, hptr        => absurd hptr List.not_mem_nil
  | p :: l, hown, ptr, hptr => by
    rw [releaseUlpAppliedPatch, List.mem_append, List.mem_filter] at hptr
    rcases hptr with hrest | ⟨hp, hne⟩
    · exact release_allocated (fun q hq => hown q (List.mem_cons_of_mem _ hq)) ptr hrest
    · have hptr : ptr.owned = true := by
        obtain ⟨h₁, h₂⟩ := hown p List.mem_cons_self
        rcases List.mem_cons.1 hp with rfl | hp
        · exact h₁
        · rw [List.mem_singleton.1 hp]
          exact h₂
      cases ptr with
      | null => simp at hne
      | remote addr => cases hptr
      | allocated string => exact ⟨string, rfl⟩

/-- **`ulp_read_state` comes back with a list all of whose names are null or strings of the tool, so that releasing the
list frees only what the tool has allocated.** -/
def Survives (t : Target) (lib : Option DynobjLibpulp) : Prop :=
  ∃ fuel l, ulpReadState t lib fuel = some l ∧ Owned l ∧
    ∀ ptr ∈ releaseUlpAppliedPatch l, ∃ string, ptr = .allocated string

/-- The tool does not get to libpulp's state, cannot read it, or reads it and the list in it ends. -/
def ListReadable (t : Target) : Option DynobjLibpulp → Prop
  | none     => True
  | some lib => lib.state = 0 ∨ t.attach ≠ 0 ∨
      ∃ ret state, Returns (t.readMemory sizeofUlpPatchingState lib.state t.fresh) (ret, state) ∧
        (ret = 0 → Ends t lib.libpulpVersion 0 (pointerAt state 8))

theorem ulpReadState_iff {t : Target} {lib : DynobjLibpulp} (h0 : lib.state ≠ 0) (ha : t.attach = 0) (n : Nat)
    (l : List AppliedPatch) :
    ulpReadState t (some lib) n = some l ↔
      ∃ ret state, t.readMemory sizeofUlpPatchingState lib.state t.fresh n = some (ret, state) ∧
        (ret ≠ 0 ∧ l = [] ∨ ret = 0 ∧
          readUlpAppliedPatch t lib.libpulpVersion n 0 (pointerAt state 8) = some l) := by
  unfold ulpReadState
  simp only [if_neg h0, ha, ne_eq, not_true_eq_false, if_false, Option.bind_eq_some_iff, Prod.exists]
  refine exists_congr (fun ret => exists_congr (fun state => and_congr_right (fun _ => ?_)))
  by_cases hret : ret = 0
  · simp [hret]
  · rw [if_pos hret, Option.some.injEq, eq_comm]
    simp [hret]

/-- **The tool survives the states of the process whose list it can read to its end, and no others.** -/
theorem ulpReadState_survives_iff (t : Target) (lib : Option DynobjLibpulp) : Survives t lib ↔ ListReadable t lib := by
  have hsurvives : ∀ {n : Nat} {l : List AppliedPatch}, ulpReadState t lib n = some l → Owned l → Survives t lib :=
    fun h hown => ⟨_, _, h, hown, release_allocated hown⟩
  have hnil : Owned [] := fun p hp => absurd hp List.not_mem_nil
  cases lib with
  | none => exact ⟨fun _ => trivial, fun _ => hsurvives (rfl : ulpReadState t none 0 = some []) hnil⟩
  | some lib =>
    by_cases h0 : lib.state = 0
    · exact ⟨fun _ => Or.inl h0, fun _ => hsurvives (if_pos h0 : ulpReadState t (some lib) 0 = some []) hnil⟩
    by_cases ha : t.attach = 0
    swap
    · have hread : ulpReadState t (some lib) 0 = some [] := by
        simp only [ulpReadState]
        rw [if_neg h0, if_pos ha]
      exact ⟨fun _ => Or.inr (Or.inl ha), fun _ => hsurvives hread hnil⟩
    constructor
    · rintro ⟨n, l, hread, hown, -⟩
      obtain ⟨ret, state, hstate, hrest⟩ := (ulpReadState_iff h0 ha n l).1 hread
      refine Or.inr (Or.inr ⟨ret, state, ⟨n, hstate⟩, fun hret => ?_⟩)
      rcases hrest with ⟨hne, -⟩ | ⟨-, hlist⟩
      · exact absurd hret hne
      · exact ends_of_read hlist hown
    · intro h
      obtain ⟨ret, state, ⟨n, hstate⟩, hends⟩ := (h.resolve_left h0).resolve_left (not_not.2 ha)
      by_cases hret : ret = 0
      · obtain ⟨m, l, hlist, hown⟩ := returns_of_ends (hends hret)
        refine hsurvives ((ulpReadState_iff h0 ha (n + m) l).2 ⟨ret, state, ?_, Or.inr ⟨hret, ?_⟩⟩) hown
        · exact readMemory_steady t _ _ _ n (n + m) _ (Nat.le_add_right n m) hstate
        · exact readUlpAppliedPatch_steady t _ m (n + m) _ _ _ (Nat.le_add_left m n) hlist
      · exact hsurvives ((ulpReadState_iff h0 ha n []).2 ⟨ret, state, hstate, Or.inl ⟨hret, rfl⟩⟩) hnil

/-- A process whose only patch names a library at an address that cannot be read. -/
def demoTarget : Target :=
  { mem := Mem.write (Mem.write (fun _ => 0) 0x1008 (Bytes.toLE 8 0x2000)) 0x2020 (Bytes.toLE 8 0x3000)
    processVmReadv := fun addr n => if addr = 0x3000 then .error 14 else .ok n
    fresh := fun _ => 0, calloc := fun _ => true, attach := 0 }

/-- The list then holds an address of the process. -/
theorem unreadable_name_not_owned : ¬ ∀ (t : Target) (lib : Option DynobjLibpulp), Survives t lib := by
  intro hall
  obtain ⟨n, l, hread, hown, -⟩ := hall demoTarget (some ⟨0x1000, ulpVersionTriplet 0 3 1⟩)
  have hdemo : ulpReadState demoTarget (some ⟨0x1000, ulpVersionTriplet 0 3 1⟩) 3 =
      some [⟨List.replicate 32 0, .remote 0x3000, .null, 0⟩] := by decide +kernel
  have hl := Returns.unique (ulpReadState_steady demoTarget _) ⟨n, hread⟩ ⟨3, hdemo⟩
  rw [hl] at hown
  exact absurd (hown _ List.mem_cons_self).1 (by decide)

end ReadState
end Libpulp
