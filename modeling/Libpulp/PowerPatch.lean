import Libpulp.Power
import Libpulp.Prologue
/-!
# PowerPatch — sequences of patching and unpatching on powerpc64le (lib/arch/powerpc64le/patch.c)

`ulp_patch_addr` reads the entry of a function to find out where its NOP is, and later recognises the branch it has put
there itself.  `Placed` is what keeps this search on one place: the word there is the NOP or the branch, and nothing at
the entry can be taken for either when that place is eight bytes further on.  The prologue that is written lies before the
entry and the branch within its own word, so no call disturbs it.
-/
namespace Libpulp
namespace Power

open Bytes (Byte Addr Mem toLE ofLE)

/-- Where the I-form branch `word` at `cia` leads, if it is relative and leaves the link register alone. -/
def branchTarget (cia : Addr) (word : BitVec 32) : Option Addr :=
  if word >>> 26 = 18 ∧ word &&& 3 = 0 then some (cia + (word.setWidth 26).signExtend 64) else none

/-- The instruction at an address. -/
def insnAt (mem : Mem) (a : Addr) : BitVec 32 := BitVec.ofNat 32 (ofLE (mem.read a 4))

/-- The start of the thirteen NOPs before the entry. -/
def areaOf (f : Addr) : Addr := f - BitVec.ofNat 64 (insnSize * preNopsLen)

/-- The function can be patched: a NOP at its entry, or a NOP eight bytes further on and at the entry neither a NOP nor
a branch to the thirteen before it. -/
def Patchable (mem : Mem) (f : Addr) : Prop :=
  mem.read f 4 = gNop ∨
    mem.read f 4 ≠ gNop ∧ branchTarget f (insnAt mem f) ≠ some (areaOf f) ∧ mem.read (f + 8) 4 = gNop

/-- The arguments of a call of `ulp_patch_addr` for a function. -/
structure PatchCall where
  newFaddr : Addr
  enable   : Bool

/-- The queued writes are carried out; `none` when that fails. -/
def executeQueued (s : State) : Option State :=
  match insnqInterpretFromProcess s with
  | some (ret, s') => if ret = ENONE then some s' else none
  | none           => none

/-- Calls of `ulp_patch_addr` for `f`, each followed by the execution of what it queued: what they return and the state
reached. -/
def patchCalls (trampolineRoutine f : Addr) : List PatchCall → State → Option (List UlpError × State)
  | [], s      => some ([], s)
  | c :: cs, s =>
    let r := ulpPatchAddr trampolineRoutine f c.newFaddr c.enable s
    (executeQueued r.2).bind (fun s' =>
      (patchCalls trampolineRoutine f cs s').map (fun (rets, s'') => (r.1 :: rets, s'')))

/-- What the entry of `f` is after a call: redirected to the new function, or as it was compiled. -/
def Redirects (trampolineRoutine f : Addr) (offset : Nat) (mem : Mem) (c : PatchCall) : Prop :=
  if c.enable then
    branchTarget (f + BitVec.ofNat 64 offset) (insnAt mem (f + BitVec.ofNat 64 offset)) = some (areaOf f) ∧
      mem.read (areaOf f) (insnSize * preNopsLen) = prolog trampolineRoutine c.newFaddr
  else mem.read (f + BitVec.ofNat 64 offset) 4 = gNop

/-! ## The branch -/

theorem ofLE_branch (offset : Nat) :
    BitVec.ofNat 32 (ofLE (branch offset)) = generateBranchToPrologue (withOffset offset) := by
  unfold branch
  rw [Bytes.ofLE_toLE_of_lt (by have := (generateBranchToPrologue (withOffset offset)).isLt; omega), BitVec.ofNat_toNat,
    BitVec.setWidth_eq]

/-- **The branch that is written at either offset leads to the start of the prologue.** -/
theorem branchTarget_branch {offset : Nat} (ho : offset ∈ validOffsets) (f : Addr) :
    branchTarget (f + BitVec.ofNat 64 offset) (BitVec.ofNat 32 (ofLE (branch offset))) = some (areaOf f) := by
  rw [ofLE_branch]
  simp only [validOffsets, List.mem_cons, List.not_mem_nil, or_false] at ho
  rcases ho with rfl | rfl
  · have hw : generateBranchToPrologue (withOffset 0) = 0x4BFFFFCC#32 := by decide
    have hd : ((0x4BFFFFCC#32).setWidth 26).signExtend 64 = 0xFFFFFFFFFFFFFFCC#64 := by decide
    rw [hw, branchTarget, if_pos (by decide), hd, areaOf, insnSize, preNopsLen]
    apply congrArg some
    bv_omega
  · have hw : generateBranchToPrologue (withOffset 8) = 0x4BFFFFC4#32 := by decide
    have hd : ((0x4BFFFFC4#32).setWidth 26).signExtend 64 = 0xFFFFFFFFFFFFFFC4#64 := by decide
    rw [hw, branchTarget, if_pos (by decide), hd, areaOf, insnSize, preNopsLen]
    apply congrArg some
    bv_omega

theorem length_branch (offset : Nat) : (branch offset).length = 4 := Bytes.length_toLE 4 _

/-! ## The search -/

/-- The search finds `offset` and will go on finding it as long as the NOP and the branch are the only words written
there. -/
structure Placed (mem : Mem) (f : Addr) (offset : Nat) : Prop where
  valid : offset ∈ validOffsets
  here  : mem.read (f + BitVec.ofNat 64 offset) 4 = gNop ∨ mem.read (f + BitVec.ofNat 64 offset) 4 = branch offset
  entry : offset ≠ 0 → mem.read f 4 ≠ gNop ∧ mem.read f 4 ≠ branch 0

theorem Placed.offset_eq {mem : Mem} {f : Addr} {offset : Nat} (h : Placed mem f offset) : offset = 0 ∨ offset = 8 := by
  simpa [validOffsets] using h.valid

theorem Placed.getBranchOffset {mem : Mem} {f : Addr} {offset : Nat} (h : Placed mem f offset) :
    getBranchOffset mem f = some offset := by
  have h0 : f + BitVec.ofNat 64 0 = f := BitVec.add_zero f
  have hh := h.here
  rcases h.offset_eq with rfl | rfl
  · unfold Power.getBranchOffset validOffsets
    rw [List.find?_cons_of_pos]
    simpa only [Bool.or_eq_true, beq_iff_eq] using hh
  · obtain ⟨hn, hb⟩ := h.entry (by decide)
    unfold Power.getBranchOffset validOffsets
    rw [List.find?_cons_of_neg, List.find?_cons_of_pos]
    · simpa only [Bool.or_eq_true, beq_iff_eq] using hh
    · simpa only [h0, Bool.or_eq_true, beq_iff_eq, not_or] using ⟨hn, hb⟩

/-- **A function that can be patched has its place.** -/
theorem Patchable.placed {mem : Mem} {f : Addr} (h : Patchable mem f) : ∃ offset, Placed mem f offset := by
  have h0 : f + BitVec.ofNat 64 0 = f := BitVec.add_zero f
  rcases h with hn | ⟨hn, hb, h8⟩
  · exact ⟨0, by decide, Or.inl (by rwa [h0]), fun h => absurd rfl h⟩
  · refine ⟨8, by decide, Or.inl h8, fun _ => ⟨hn, fun hw => hb ?_⟩⟩
    have := branchTarget_branch (by decide : 0 ∈ validOffsets) f
    rw [h0] at this
    rw [insnAt, hw, this]

/-! ## What is written -/

theorem area_disj {f : Addr} {offset : Nat} (ho : offset = 0 ∨ offset = 8) :
    Mem.Disj (f + BitVec.ofNat 64 offset) 4 (areaOf f) (insnSize * preNopsLen) := by
  intro x hx
  unfold areaOf insnSize preNopsLen
  rcases ho with rfl | rfl <;> bv_omega

/-- Writing the prologue leaves both candidate words alone. -/
theorem Placed.area {mem : Mem} {f : Addr} {offset : Nat} (h : Placed mem f offset) {bs : List Byte}
    (hl : bs.length = insnSize * preNopsLen) : Placed (mem.write (areaOf f) bs) f offset := by
  have hread : ∀ {o : Nat}, o = 0 ∨ o = 8 →
      (mem.write (areaOf f) bs).read (f + BitVec.ofNat 64 o) 4 = mem.read (f + BitVec.ofNat 64 o) 4 := fun ho =>
    Mem.read_write_disj (by rw [hl]; exact area_disj ho) (by decide)
  have h0 := hread (Or.inl rfl)
  rw [BitVec.add_zero] at h0
  refine ⟨h.valid, ?_, ?_⟩
  · rw [hread h.offset_eq]
    exact h.here
  · rw [h0]
    exact h.entry

/-- Writing the NOP or the branch at the place keeps it. -/
theorem Placed.word {mem : Mem} {f : Addr} {offset : Nat} (h : Placed mem f offset) {bs : List Byte}
    (hb : bs = gNop ∨ bs = branch offset) : Placed (mem.write (f + BitVec.ofNat 64 offset) bs) f offset := by
  have hl : bs.length = 4 := by
    rcases hb with rfl | rfl
    · rfl
    · exact length_branch offset
  have hself := Mem.read_write_self mem (f + BitVec.ofNat 64 offset) bs (by omega)
  rw [hl] at hself
  refine ⟨h.valid, by rw [hself]; exact hb, fun hne => ?_⟩
  obtain rfl := h.offset_eq.resolve_left hne
  have hd : Mem.Disj f 4 (f + BitVec.ofNat 64 8) bs.length := fun x hx => by
    rw [hl]
    bv_omega
  rw [Mem.read_write_disj hd (by decide)]
  exact h.entry hne

/-- The writes a call queues once the place is found. -/
def patchWrites (t f : Addr) (offset : Nat) (c : PatchCall) : List Insn :=
  if c.enable then [.write (areaOf f) (prolog t c.newFaddr), .write (f + BitVec.ofNat 64 offset) (branch offset)]
  else [.write (f + BitVec.ofNat 64 offset) gNop]

theorem insnsSize_patchWrites_le (t f : Addr) (offset : Nat) (c : PatchCall) :
    insnsSize (patchWrites t f offset c) ≤ insnBufferMax := by
  have hl := length_prolog t c.newFaddr
  have hb := length_branch offset
  have hmax : insnBufferMax = 2097152 := rfl
  unfold patchWrites
  split
  · simp only [insnsSize_cons, insnsSize_nil, Insn.size, hl, hb, insnSize, preNopsLen]
    omega
  · simp only [insnsSize_cons, insnsSize_nil, Insn.size, gNop, List.length_cons, List.length_nil]
    omega

/-- **A call finds the place, returns 0 and queues its writes.** -/
theorem ulpPatchAddr_queues {t f : Addr} {offset : Nat} {s : State} (h : Placed s.mem f offset) (c : PatchCall) :
    (ulpPatchAddr t f c.newFaddr c.enable s).1 = ENONE ∧
      Wrote (patchWrites t f offset c) s (ulpPatchAddr t f c.newFaddr c.enable s).2 := by
  unfold ulpPatchAddr patchWrites
  by_cases he : c.enable = true
  · rw [if_pos he, if_pos he, ulpPatchAddrTrampoline, layout_mem, h.getBranchOffset]
    have hp := length_prolog t c.newFaddr
    have hlayout : Wrote [.write (areaOf f) (prolog t c.newFaddr)] s (ulpPatchPrologueLayout t f c.newFaddr s) :=
      memwrite_wrote _ _ s (by rw [hp]; decide)
    exact ⟨rfl, hlayout.trans (memwrite_wrote _ _ _ (by rw [length_branch]; decide))⟩
  · rw [if_neg he, if_neg he, ulpSkipPrologue, h.getBranchOffset]
    exact ⟨rfl, memwrite_wrote _ _ s (by decide)⟩

theorem executeQueued_of {s : State} {is : List Insn} (h : Queued s is) :
    executeQueued s =
      some { s with mem := is.foldl Insn.applyTo s.mem, queue := { s.queue with size := 0, numInsns := 0 } } := by
  unfold executeQueued
  rw [insnqInterpretFromProcess_holds h.holds]
  exact if_pos rfl

/-- **What the writes of a call make of the entry.** -/
theorem patchWrites_redirects {t f : Addr} {offset : Nat} {mem : Mem} (h : Placed mem f offset) (c : PatchCall) :
    Placed ((patchWrites t f offset c).foldl Insn.applyTo mem) f offset ∧
      Redirects t f offset ((patchWrites t f offset c).foldl Insn.applyTo mem) c := by
  unfold patchWrites Redirects
  by_cases he : c.enable = true
  · simp only [if_pos he, List.foldl_cons, List.foldl_nil, Insn.applyTo]
    have hp := length_prolog t c.newFaddr
    have hself := Mem.read_write_self (mem.write (areaOf f) (prolog t c.newFaddr)) (f + BitVec.ofNat 64 offset)
      (branch offset) (by rw [length_branch]; decide)
    have harea := Mem.read_write_self mem (areaOf f) (prolog t c.newFaddr) (by rw [hp]; decide)
    have hd : Mem.Disj (areaOf f) (insnSize * preNopsLen) (f + BitVec.ofNat 64 offset) (branch offset).length := by
      rw [length_branch]
      exact (area_disj h.offset_eq).symm
    rw [length_branch] at hself
    rw [hp] at harea
    refine ⟨(h.area hp).word (Or.inr rfl), ?_, ?_⟩
    · rw [insnAt, hself]
      exact branchTarget_branch h.valid f
    · rw [Mem.read_write_disj hd (by decide), harea]
  · simp only [if_neg he, List.foldl_cons, List.foldl_nil, Insn.applyTo]
    exact ⟨h.word (Or.inl rfl), Mem.read_write_self mem (f + BitVec.ofNat 64 offset) gNop (by decide)⟩

/-! ## Sequences of calls -/

/-- **One call and the execution of its writes** from an empty queue: the place stays, the entry is as asked for and the
queue is empty again. -/
theorem patchCall_step {t f : Addr} {offset : Nat} {s : State} (hq : Queued s []) (h : Placed s.mem f offset)
    (c : PatchCall) :
    ∃ s', executeQueued (ulpPatchAddr t f c.newFaddr c.enable s).2 = some s' ∧ Queued s' [] ∧ Placed s'.mem f offset ∧
      Redirects t f offset s'.mem c := by
  obtain ⟨-, hw⟩ := ulpPatchAddr_queues (t := t) h c
  have hnone := hw.fits [] hq (insnsSize_patchWrites_le t f offset c)
  have hqd := hw.queued [] hq hnone
  rw [List.nil_append] at hqd
  refine ⟨_, executeQueued_of hqd, ⟨hnone, ?_⟩, ?_⟩
  · have := queueHolds_empty (ulpPatchAddr t f c.newFaddr c.enable s).2.queue.buffer
    rwa [← hqd.holds.version] at this
  · rw [hw.mem]
    exact patchWrites_redirects h c

/-- The calls all return 0, and what the last one asked for is what the entry shows. -/
theorem patchCalls_placed {t f : Addr} {offset : Nat} : ∀ (cs : List PatchCall) {s : State}, Queued s [] →
    Placed s.mem f offset → ∃ s', patchCalls t f cs s = some (cs.map (fun _ => ENONE), s') ∧ Placed s'.mem f offset ∧
      ∀ c, cs.getLast? = some c → Redirects t f offset s'.mem c
  | [], s, _, h       => ⟨s, rfl, h, fun c hc => (by cases hc)⟩
  | c :: cs, s, hq, h => by
    obtain ⟨s₁, he, hq₁, h₁, hr₁⟩ := patchCall_step (t := t) hq h c
    obtain ⟨s₂, hrun, h₂, hr₂⟩ := patchCalls_placed (t := t) cs hq₁ h₁
    refine ⟨s₂, ?_, h₂, fun d hd => ?_⟩
    · rw [patchCalls]
      simp only [he, Option.bind_some, hrun, (ulpPatchAddr_queues (t := t) h c).1]
      rfl
    · cases cs with
      | nil =>
        obtain rfl : s₁ = s₂ := (Prod.mk.inj (Option.some.inj hrun)).2
        obtain rfl : c = d := by simpa using hd
        exact hr₁
      | cons c' cs => exact hr₂ d (by rwa [List.getLast?_cons_cons] at hd)

/-- **Any sequence of patching and unpatching works on one place**: every call returns 0, the search finds the same
offset before the first and after each of them, and the entry is what the last call asked for. -/
theorem patchCalls_redirect (t f : Addr) (s : State) (hq : Queued s []) (hf : Patchable s.mem f) :
    ∃ offset, getBranchOffset s.mem f = some offset ∧ ∀ cs : List PatchCall, ∃ s',
      patchCalls t f cs s = some (cs.map (fun _ => ENONE), s') ∧ getBranchOffset s'.mem f = some offset ∧
        ∀ c, cs.getLast? = some c → Redirects t f offset s'.mem c := by
  obtain ⟨offset, h⟩ := hf.placed
  refine ⟨offset, h.getBranchOffset, fun cs => ?_⟩
  obtain ⟨s', hrun, h', hr⟩ := patchCalls_placed (t := t) cs hq h
  exact ⟨s', hrun, h'.getBranchOffset, hr⟩

/-- A process with one function at 0x2000 that has a global entry point, its NOP after the two instructions of it. -/
def globalEntry : State :=
  { patches := [], roots := [], rootIndexCounter := 0, globalUniverse := 0, metadataBuffer := [], metadataRef := none
    errorState := ENONE, queue := ⟨insnqCurrVersion, 0, 0, fun _ => 0⟩
    mem := Mem.write (fun _ => 0) 0x2000 (toLE 4 0x3c4c0002 ++ toLE 4 0x38427f00 ++ gNop) }

theorem patchCalls_redirect_global : ∃ offset, getBranchOffset globalEntry.mem 0x2000 = some offset ∧
    ∀ cs : List PatchCall, ∃ s', patchCalls 0x7000 0x2000 cs globalEntry = some (cs.map (fun _ => ENONE), s') ∧
      getBranchOffset s'.mem 0x2000 = some offset ∧
        ∀ c, cs.getLast? = some c → Redirects 0x7000 0x2000 offset s'.mem c :=
  patchCalls_redirect 0x7000 0x2000 globalEntry ⟨rfl, queueHolds_empty _⟩
    (Or.inr ⟨by decide, by decide, by decide⟩)

end Power
end Libpulp
