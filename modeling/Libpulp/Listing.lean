import Libpulp.Chain
import Libpulp.ReadString
import Libpulp.Reverse
/-!
# Listing — what `ulp patches` shows (tools/patches.c, tools/introspection.c)

libpulp's list of applied patches lies in the memory of the process as linked records with pointers to their names
(`PatchAt`).  The tool follows the links and reads the names word by word; what it prints under a library are the patches
of the list for that library, in the order of the list (`listing_exact`).  The bug labels it prints beside them are in
`CommentLabels`.
-/
namespace Libpulp
namespace Listing

open Bytes (Byte Addr Mem Buf cstr toLE ofLE addrOfLE)
open Fuel (Returns Settles)
open ReadState (Name DynobjLibpulp readMemory_steady readName_steady readUlpAppliedPatch readUlpAppliedPatch_iff
  readUlpAppliedPatch_steady aPatchSize pointerAt ulpReadState ulpReadState_iff ulpVersionTriplet)
open ReadString (WordReadable)
open Relation (ReflTransGen)

/-- What `strcmp` sees of a name; `none` if it is not a string of the tool. -/
def chars : Name → Option (List Byte)
  | .null             => none
  | .remote _         => none
  | .allocated string => some (cstr string)

/-- `print_lib_patches`: the container and the time of each line. -/
def printLibPatches (libname : List Byte) : List ReadState.AppliedPatch → Option (List (List Byte × Nat))
  | []      => some []
  | p :: ps => do
    let lib ← chars p.libName
    if getBasename libname = lib then
      let container ← chars p.containerName
      let lines ← printLibPatches libname ps
      return (getBasename container, p.timestamp) :: lines
    else printLibPatches libname ps

def hasLivepatchLoaded (libname : Option (List Byte)) : List ReadState.AppliedPatch → Option Bool
  | []      => some false
  | p :: ps =>
    match libname with
    | none         => some false
    | some libname => (chars p.libName).bind (fun lib =>
        if getBasename libname = lib then some true else hasLivepatchLoaded (some libname) ps)

/-! ## The list in memory -/

/-- At `a` lies the string `s`, in words that can be read. -/
structure StringAt (t : ReadState.Target) (a : Addr) (s : List Byte) : Prop where
  there : a ≠ 0
  noNul : (0 : Byte) ∉ s
  bytes : t.mem.read a (s.length + 1) = s ++ [0]
  words : ∀ j ≤ s.length / 8, WordReadable t (a + BitVec.ofNat 64 (8 * j))

/-- The time of a patch in its record, where there is one. -/
def timeOf (version : BitVec 64) (p : AppliedPatch) : Nat :=
  if version < ulpVersionTriplet 0 3 1 then 0 else (BitVec.ofInt 64 p.timestamp).toNat

/-- At `a` lies libpulp's record of the patch, linked to the one at `next`. -/
structure PatchAt (t : ReadState.Target) (version : BitVec 64) (a : Addr) (p : AppliedPatch) (next : Addr) : Prop where
  readable      : t.processVmReadv a (aPatchSize version) = .ok (aPatchSize version)
  patchId       : t.mem.read a 32 = p.patchId.toList
  libName       : StringAt t (addrOfLE (t.mem.read (a + 32) 8)) p.libName
  containerName : StringAt t (addrOfLE (t.mem.read (a + 40) 8)) p.containerName
  next          : addrOfLE (t.mem.read (a + 56) 8) = next
  timestamp     : ¬ version < ulpVersionTriplet 0 3 1 →
    t.mem.read (a + 72) 8 = toLE 8 (BitVec.ofInt 64 p.timestamp).toNat

/-- What libpulp's state points to: the tool can read it and finds the list there. -/
structure ListAt (t : ReadState.Target) (lib : DynobjLibpulp) (patches : List AppliedPatch) : Prop where
  state    : lib.state ≠ 0
  attach   : t.attach = 0
  calloc   : ∀ i, t.calloc i = true
  readable : t.processVmReadv lib.state ReadState.sizeofUlpPatchingState = .ok ReadState.sizeofUlpPatchingState
  list     : Chain.Linked 0 (PatchAt t lib.libpulpVersion) (addrOfLE (t.mem.read (lib.state + 8) 8)) patches

/-- The tool's copy of a patch says what libpulp's record says. -/
structure Copies (version : BitVec 64) (p : AppliedPatch) (c : ReadState.AppliedPatch) : Prop where
  patchId       : c.patchId = p.patchId.toList
  libName       : ∃ string, c.libName = .allocated string ∧ cstr string = p.libName
  containerName : ∃ string, c.containerName = .allocated string ∧ cstr string = p.containerName
  timestamp     : c.timestamp = timeOf version p

/-! ## Reading -/

variable {t : ReadState.Target}

theorem readMemory_whole {a : Addr} {n : Nat} (h : t.processVmReadv a n = .ok n) (hn : n < 2 ^ 64) (buf : Buf)
    (fuel : Nat) : t.readMemory n a buf (fuel + 1) = some (0, buf.write 0 (t.mem.read a n)) := by
  unfold ReadState.Target.readMemory Transfer.readMemory Transfer.transferLoop
  simp only [h]
  rw [Nat.zero_add, if_pos (Nat.mod_eq_of_lt hn)]
  rfl

/-- A field of a structure that was read. -/
theorem read_field (buf : Buf) (m : Mem) (a : Addr) {o n size : Nat} (h : o + n ≤ size) :
    (buf.write 0 (m.read a size)).read o n = m.read (a + BitVec.ofNat 64 o) n := by
  have hself := Buf.read_write_self buf 0 (m.read a size)
  rw [Mem.length_read] at hself
  obtain ⟨k, rfl⟩ : ∃ k, size = o + (n + k) := ⟨size - o - n, by omega⟩
  generalize buf.write 0 (m.read a (o + (n + k))) = b at hself ⊢
  rw [Buf.read_add, Buf.read_add, Mem.read_add, Mem.read_add, Nat.zero_add] at hself
  have h₁ := (List.append_inj hself (by simp)).2
  exact (List.append_inj h₁ (by simp)).1

/-- What lies behind the structure is as it was. -/
theorem read_behind (buf : Buf) (m : Mem) (a : Addr) {o n size : Nat} (h : size ≤ o) :
    (buf.write 0 (m.read a size)).read o n = buf.read o n :=
  Buf.read_congr (fun i _ => Buf.write_after (by rw [Mem.length_read]; omega))

theorem StringAt.readString {a : Addr} {s : List Byte} (h : StringAt t a s) :
    ∃ string, Settles (ReadState.readString t a) (some string) ∧ cstr string = s := by
  have hsplit : t.mem.read a s.length = s ∧ t.mem (a + BitVec.ofNat 64 s.length) = 0 := by
    have hb := h.bytes
    rw [Mem.read_add] at hb
    obtain ⟨h₁, h₂⟩ := List.append_inj hb (by simp)
    exact ⟨h₁, by simpa [Mem.read] using h₂⟩
  have hfirst : ∀ i < s.length, t.mem (a + BitVec.ofNat 64 i) ≠ 0 := by
    intro i hi h0
    apply h.noNul
    rw [← hsplit.1, ReadString.mem_read_iff]
    exact ⟨i, hi, h0⟩
  obtain ⟨words, hread, hw⟩ := ReadString.readString_words hsplit.2 hfirst h.words _ (Nat.le_refl _)
  refine ⟨words, ⟨s.length / 8 + 2, fun m hm => ?_⟩, hw.trans hsplit.1⟩
  exact ReadState.readStringFrom_steady t _ m a [] (some words) hm hread

theorem StringAt.readName {a : Addr} {s : List Byte} (h : StringAt t a s) :
    ∃ string, Returns (ReadState.readName t a) (.allocated string) ∧ cstr string = s := by
  obtain ⟨string, hread, hs⟩ := h.readString
  obtain ⟨n, hn⟩ := hread.returns
  refine ⟨string, ⟨n, ?_⟩, hs⟩
  rw [ReadState.readName, if_neg h.there, hn]
  rfl

theorem aPatchSize_cases (version : BitVec 64) : aPatchSize version = 72 ∧ version < ulpVersionTriplet 0 3 1 ∨
    aPatchSize version = 80 ∧ ¬ version < ulpVersionTriplet 0 3 1 := by
  unfold aPatchSize
  split
  · exact Or.inl ⟨rfl, ‹_›⟩
  · exact Or.inr ⟨rfl, ‹_›⟩

/-- **One record is read**, and the rest of the list after it. -/
theorem PatchAt.read {version : BitVec 64} {a next : Addr} {p : AppliedPatch} {i : Nat} {l : List ReadState.AppliedPatch}
    (h : PatchAt t version a p next) (ha : a ≠ 0) (hc : t.calloc i = true)
    (hl : Returns (fun n => readUlpAppliedPatch t version n (i + 1) next) l) :
    ∃ c, Copies version p c ∧ Returns (fun n => readUlpAppliedPatch t version n i a) (c :: l) := by
  obtain ⟨lib, ⟨n₁, hlib⟩, hlibname⟩ := h.libName.readName
  obtain ⟨con, ⟨n₂, hcon⟩, hconname⟩ := h.containerName.readName
  obtain ⟨n₃, hrest⟩ := hl
  have hsize : 64 ≤ aPatchSize version ∧ aPatchSize version < 2 ^ 64 := by
    rcases aPatchSize_cases version with ⟨e, -⟩ | ⟨e, -⟩ <;> rw [e] <;> decide
  have hread := readMemory_whole h.readable hsize.2 (fun _ => 0)
  have hfield : ∀ o n, o + n ≤ aPatchSize version →
      (Buf.write (fun _ => 0) 0 (t.mem.read a (aPatchSize version))).read o n = t.mem.read (a + BitVec.ofNat 64 o) n :=
    fun o n ho => read_field _ _ _ ho
  generalize hst : Buf.write (fun _ => 0) 0 (t.mem.read a (aPatchSize version)) = aState at hread hfield
  have hp₁ : pointerAt aState 32 = addrOfLE (t.mem.read (a + 32) 8) := congrArg addrOfLE (hfield 32 8 (by omega))
  have hp₂ : pointerAt aState 40 = addrOfLE (t.mem.read (a + 40) 8) := congrArg addrOfLE (hfield 40 8 (by omega))
  have hp₃ : pointerAt aState 56 = next := (congrArg addrOfLE (hfield 56 8 (by omega))).trans h.next
  refine ⟨⟨aState.read 0 32, .allocated lib, .allocated con, ofLE (aState.read 72 8)⟩, ⟨?_, ⟨lib, rfl, hlibname⟩,
    ⟨con, rfl, hconname⟩, ?_⟩, n₁ + n₂ + n₃ + 1 + 1, ?_⟩
  · have h0 := hfield 0 32 (by omega)
    rw [show a + BitVec.ofNat 64 0 = a from BitVec.add_zero a] at h0
    exact h0.trans h.patchId
  · unfold timeOf
    rcases aPatchSize_cases version with ⟨e, hv⟩ | ⟨e, hv⟩
    · rw [if_pos hv]
      change ofLE (aState.read 72 8) = 0
      rw [← hst, e, read_behind _ _ _ (Nat.le_refl 72)]
      decide
    · rw [if_neg hv]
      have htime : aState.read 72 8 = toLE 8 (BitVec.ofInt 64 p.timestamp).toNat :=
        (hfield 72 8 (by omega)).trans (h.timestamp hv)
      exact (congrArg ofLE htime).trans (Bytes.ofLE_toLE_of_lt (BitVec.isLt _))
  · refine (readUlpAppliedPatch_iff ..).2 (Or.inr ⟨ha, hc, 0, aState, hread _, Or.inr ⟨rfl, .allocated lib,
      .allocated con, l, ?_, ?_, ?_, rfl⟩⟩)
    · rw [hp₁]
      exact readName_steady t _ n₁ _ _ (by omega) hlib
    · rw [hp₂]
      exact readName_steady t _ n₂ _ _ (by omega) hcon
    · rw [hp₃]
      exact readUlpAppliedPatch_steady t version n₃ _ _ _ _ (by omega) hrest

/-- **The tool's list is libpulp's.** -/
theorem ListAt.read {lib : DynobjLibpulp} {patches : List AppliedPatch} (h : ListAt t lib patches) :
    ∃ l, Returns (ulpReadState t (some lib)) l ∧ List.Forall₂ (Copies lib.libpulpVersion) patches l := by
  obtain ⟨l, ⟨n, hn⟩, hall⟩ := Chain.Linked.returns
    (fun i a n => readUlpAppliedPatch t lib.libpulpVersion n i a) (fun i => ⟨1, rfl⟩)
    (fun i a p next l ha hp hl => hp.read ha (h.calloc i) hl) h.list 0
  refine ⟨l, ⟨n + 1, (ulpReadState_iff h.state h.attach _ l).2 ⟨0, _, readMemory_whole h.readable (by decide) _ n,
    Or.inr ⟨rfl, ?_⟩⟩⟩, hall⟩
  have hhead := congrArg addrOfLE
    (read_field t.fresh t.mem lib.state (by decide : 8 + 8 ≤ ReadState.sizeofUlpPatchingState))
  rw [show pointerAt (t.fresh.write 0 (t.mem.read lib.state ReadState.sizeofUlpPatchingState)) 8 = _ from hhead]
  exact readUlpAppliedPatch_steady t _ n _ _ _ _ (Nat.le_succ n) hn

/-! ## Printing -/

/-- The lines for a library: the patches of the list for it, in order. -/
def linesOf (version : BitVec 64) (libname : List Byte) (patches : List AppliedPatch) : List (List Byte × Nat) :=
  (patches.filter (fun p => getBasename libname = p.libName)).map
    (fun p => (getBasename p.containerName, timeOf version p))

theorem printLibPatches_copies {version : BitVec 64} (libname : List Byte) {patches : List AppliedPatch}
    {l : List ReadState.AppliedPatch} (h : List.Forall₂ (Copies version) patches l) :
    printLibPatches libname l = some (linesOf version libname patches) := by
  induction h with
  | nil => rfl
  | @cons p c ps cs hc _ ih =>
    obtain ⟨lib, hlib, hlibname⟩ := hc.libName
    obtain ⟨con, hcon, hconname⟩ := hc.containerName
    rw [printLibPatches, hlib, hcon, ih]
    simp only [chars, hlibname, hconname, Option.bind_eq_bind, Option.bind_some]
    by_cases he : getBasename libname = p.libName
    · simp [linesOf, he, hc.timestamp]
    · simp [linesOf, he]

theorem hasLivepatchLoaded_copies {version : BitVec 64} (libname : List Byte) {patches : List AppliedPatch}
    {l : List ReadState.AppliedPatch} (h : List.Forall₂ (Copies version) patches l) :
    hasLivepatchLoaded (some libname) l = some (patches.any (fun p => getBasename libname = p.libName)) := by
  induction h with
  | nil => rfl
  | @cons p c ps cs hc _ ih =>
    obtain ⟨lib, hlib, hlibname⟩ := hc.libName
    rw [hasLivepatchLoaded, hlib]
    simp only [chars, hlibname, Option.bind_some, List.any_cons, ih]
    by_cases he : getBasename libname = p.libName
    · simp [he]
    · simp [he]

theorem Copies.owned {version : BitVec 64} {patches : List AppliedPatch} {l : List ReadState.AppliedPatch}
    (h : List.Forall₂ (Copies version) patches l) : ReadState.Owned l := by
  induction h with
  | nil => exact fun p hp => by cases hp
  | cons hc _ ih =>
    intro c hm
    obtain ⟨lib, hlib, -⟩ := hc.libName
    obtain ⟨con, hcon, -⟩ := hc.containerName
    rcases List.mem_cons.1 hm with rfl | hm
    · rw [hlib, hcon]
      exact ⟨rfl, rfl⟩
    · exact ih c hm

theorem unit_of_redirectOf {patches : List AppliedPatch} {f g : Addr} (h : redirectOf patches f = some g) :
    ∃ p ∈ patches, ∃ u ∈ p.units, u.patchedAddr = f ∧ u.targetAddr = g := by
  obtain ⟨p, hp, hv⟩ := List.exists_of_findSome?_eq_some h
  obtain ⟨u, hu, rfl⟩ := Option.map_eq_some_iff.1 hv
  exact ⟨p, hp, u, List.mem_reverse.1 (List.mem_of_find?_eq_some hu), by simpa using List.find?_some hu, rfl⟩

/-- **What `ulp patches` shows is what is applied.**  In every state of a run whose list of patches the tool finds in the
memory of the process, `ulp_read_state` comes back with a list that is all the tool's own; the lines printed under a
library are the applied patches for it, newest first, with their containers and times; and where the entry of a function
leads to a new function, a patch that replaces the one by the other is among the lines of its library. -/
theorem listing_exact {F : Set Addr} {s₀ s : State} (hF : RegionsDisjoint F s₀.mem) (h₀ : s₀.Start)
    (hrun : ReflTransGen (Round F (ReferencesAvoid F)) s₀ s) {lib : DynobjLibpulp} (h : ListAt t lib s.patches) :
    ∃ l, Returns (ulpReadState t (some lib)) l ∧ ReadState.Owned l ∧
      (∀ libname, printLibPatches libname l = some (linesOf lib.libpulpVersion libname s.patches) ∧
        hasLivepatchLoaded (some libname) l = some (s.patches.any (fun p => getBasename libname = p.libName))) ∧
      ∀ f ∈ F, nopEntry s₀.mem f = true → ∀ g, redirectTarget s.mem f = some g →
        ∃ p ∈ s.patches, (∃ u ∈ p.units, u.patchedAddr = f ∧ u.targetAddr = g) ∧
          ∀ libname, getBasename libname = p.libName → ∃ lines, printLibPatches libname l = some lines ∧
            (getBasename p.containerName, timeOf lib.libpulpVersion p) ∈ lines := by
  obtain ⟨l, hread, hall⟩ := h.read
  refine ⟨l, hread, Copies.owned hall, fun libname => ⟨printLibPatches_copies libname hall,
    hasLivepatchLoaded_copies libname hall⟩, fun f hf hn g hg => ?_⟩
  have hshows := (serves_of_run hF h₀ hrun).shows f hf hn
  have hvalue := hshows.unique (show Shows s.mem f (some g) from hg)
  rw [layers_value] at hvalue
  obtain ⟨p, hp, hunit⟩ := unit_of_redirectOf hvalue
  refine ⟨p, hp, hunit, fun libname hlib => ⟨_, printLibPatches_copies libname hall, ?_⟩⟩
  exact List.mem_map.2 ⟨p, List.mem_filter.2 ⟨hp, by simpa using hlib⟩, rfl⟩

/-- The record of the patch of `demoPatched`. -/
def demoRecord : AppliedPatch :=
  { patchId := Vector.replicate 32 1, libName := [108], containerName := [47]
    units := [⟨0x5000, 0x9000, demoMem.read 0x5000 14⟩], deps := [], timestamp := 0 }

theorem demo_recorded : ∃ b, Round {0x5000} (ReferencesAvoid {0x5000}) demoStart (demoPatched demoRecord b) := by
  obtain ⟨p, t, b, -, happ, he, hfun, htool⟩ := demo_patched
  have hload := demo_loads (demoLoading_ready []) (by decide) rfl (fun d hd => by cases hd) (fun q hq => by cases hq)
  obtain ⟨p', hreach, hok⟩ := reaches_of_zero rfl ⟨rfl, queueHolds_empty _⟩ hload rfl happ returnInt_zero
  have hcall := hreach.call rfl
  rw [exitOnError, if_neg (not_not.2 hok)] at hcall
  have ht : t.patches = [p'] := (congrArg State.patches (Prod.mk.inj (Option.some.inj (happ.symm.trans hcall))).2).trans
    (ulpApplyAllUnits_patches demoEnv _ _).1
  have hrec : ulpStateUpdate demoEnv (demoLoaded 1 [108] [demoUnit] [] [])
      ((demoLoading []).loading (demoLoaded 1 [108] [demoUnit] [] [])) =
        some ((demoLoading []).recorded (demoLoaded 1 [108] [demoUnit] [] []) demoRecord) := rfl
  have hlists := congrArg State.patches (Option.some.inj (hreach.recorded.symm.trans hrec))
  obtain rfl : p' = demoRecord := (List.cons.inj hlists).1
  obtain rfl : p = demoRecord := (List.cons.inj ((insnqInterpretFromProcess_patches htool).trans ht)).1
  exact ⟨b, .call _ demoLoading_fits .applyPatch demoEnv ENONE happ he hfun (demo_loading_ok (fun r hr => by cases hr)) htool⟩

/-- A process whose memory holds that record, and the function as it is patched. -/
def demoHolding : ReadState.Target :=
  { mem := ((((((Mem.write (fun _ => 0) 0x1008 (toLE 8 0x2000)).write 0x2000 (List.replicate 32 1)).write 0x2020
      (toLE 8 0x3000)).write 0x2028 (toLE 8 0x3100)).write 0x3000 [108]).write 0x3100 [47]).write (0x5000 - 14)
        (patchedPrologue false 0x9000)
    processVmReadv := fun _ n => .ok n, fresh := fun _ => 7, calloc := fun _ => true, attach := 0 }

theorem demo_listAt (b : Buf) : ListAt demoHolding ⟨0x1000, ulpVersionTriplet 0 3 1⟩ (demoPatched demoRecord b).patches := by
  have hstring : ∀ a c, a ≠ 0 → c ≠ 0 → demoHolding.mem.read a 2 = [c, 0] → StringAt demoHolding a [c] :=
    fun a c ha hc hread => ⟨ha, by simpa using hc.symm, hread, fun _ _ => rfl⟩
  refine ⟨by decide, rfl, fun _ => rfl, rfl, ?_⟩
  rw [show addrOfLE (demoHolding.mem.read (0x1000 + 8) 8) = 0x2000 by decide +kernel]
  exact .cons (by decide) ⟨rfl, by decide +kernel, hstring _ _ (by decide +kernel) (by decide) (by decide +kernel),
    hstring _ _ (by decide +kernel) (by decide) (by decide +kernel), by decide +kernel, fun _ => by decide +kernel⟩ .nil

/-- The patch is listed, and its function leads where it says. -/
theorem listing_exact_one : ∃ (l : List ReadState.AppliedPatch) (p : AppliedPatch) (lines : List (List Byte × Nat)),
    Returns (ulpReadState demoHolding (some ⟨0x1000, ulpVersionTriplet 0 3 1⟩)) l ∧
    printLibPatches [47, 108] l = some [([], 0)] ∧ hasLivepatchLoaded (some [47, 108]) l = some true ∧
    (∃ u ∈ p.units, u.patchedAddr = 0x5000 ∧ u.targetAddr = 0x9000) ∧
    printLibPatches [108] l = some lines ∧ (getBasename p.containerName, 0) ∈ lines := by
  obtain ⟨b, hround⟩ := demo_recorded
  obtain ⟨l, hread, -, hlines, hentries⟩ := listing_exact (demo_disjoint _) demoStart_start (.single hround) (demo_listAt b)
  obtain ⟨p, hp, hunit, hlisted⟩ := hentries 0x5000 rfl (by decide) 0x9000
    (by decide +kernel : redirectTarget (demoMem.write (0x5000 - 14) (patchedPrologue false 0x9000)) 0x5000 = some 0x9000)
  obtain rfl : p = demoRecord := List.mem_singleton.1 hp
  obtain ⟨lines, hprint, hmem⟩ := hlisted [108] (by decide)
  exact ⟨l, demoRecord, lines, hread, (hlines _).1.trans (by rfl), (hlines _).2.trans (by rfl), hunit, hprint, hmem⟩

end Listing
end Libpulp
