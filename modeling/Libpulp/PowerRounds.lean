import Libpulp.PowerPatch
import Libpulp.Prologue
/-!
# PowerRounds — many functions in one round on powerpc64le (lib/arch/powerpc64le/patch.c)

A round of the tool queues the writes of many calls of `ulp_patch_addr` and carries them out at its end.  So a call looks
for its NOP in the memory as it was before the round, whatever has been queued for the function since: `Placed` holds of
both, and the writes for one function lie in its own region.
-/
namespace Libpulp
namespace Power

open Bytes (Byte Addr Mem)

/-- The region of a function starts with the area before its entry and goes up to the end of the third word. -/
def regionLen : Nat := 64

/-- The regions of distinct functions of `F` are disjoint. -/
def Apart (F : Set Addr) : Prop := ∀ f ∈ F, ∀ g ∈ F, f ≠ g → Mem.Disj (areaOf f) regionLen (areaOf g) regionLen

/-- The calls of a round: what they return and the state with their writes queued. -/
def patchBatch (trampolineRoutine : Addr) : List (Addr × PatchCall) → State → List UlpError × State
  | [], s      => ([], s)
  | p :: ps, s =>
    let r := ulpPatchAddr trampolineRoutine p.1 p.2.newFaddr p.2.enable s
    let rs := patchBatch trampolineRoutine ps r.2
    (r.1 :: rs.1, rs.2)

/-- **A run**: rounds that come through, and writes of the process outside the regions.  It is labelled with the calls
and with what they return. -/
inductive PatchRun (trampolineRoutine : Addr) (F : Set Addr) :
    List (Addr × PatchCall) → List UlpError → State → State → Prop
  | nil (s : State) : PatchRun trampolineRoutine F [] [] s s
  | round {ps qs : List (Addr × PatchCall)} {rets rets' : List UlpError} {s t u s' : State}
      (functions : ∀ p ∈ ps, p.1 ∈ F)
      (calls : patchBatch trampolineRoutine ps s = (rets, t)) (noError : t.errorState = ENONE)
      (tool : executeQueued t = some u) (rest : PatchRun trampolineRoutine F qs rets' u s') :
      PatchRun trampolineRoutine F (ps ++ qs) (rets ++ rets') s s'
  | outside {qs : List (Addr × PatchCall)} {rets' : List UlpError} {s s' : State} (mem : Mem)
      (h : ∀ f ∈ F, AgreeOn s.mem mem (areaOf f) regionLen)
      (rest : PatchRun trampolineRoutine F qs rets' { s with mem } s') : PatchRun trampolineRoutine F qs rets' s s'

/-- The last call for `f`, or what was before. -/
def lastCall (ps : List (Addr × PatchCall)) (f : Addr) (o : Option PatchCall) : Option PatchCall :=
  ps.foldl (fun o p => if p.1 = f then some p.2 else o) o

theorem lastCall_append (ps qs : List (Addr × PatchCall)) (f : Addr) (o : Option PatchCall) :
    lastCall (ps ++ qs) f o = lastCall qs f (lastCall ps f o) := List.foldl_append

/-! ## Regions -/

theorem word_sub (f : Addr) {o : Nat} (ho : o = 0 ∨ o = 8) : Mem.Sub (f + BitVec.ofNat 64 o) 4 (areaOf f) regionLen := by
  intro x hx
  unfold areaOf insnSize preNopsLen regionLen
  rcases ho with rfl | rfl <;> bv_omega

theorem area_sub (f : Addr) : Mem.Sub (areaOf f) (insnSize * preNopsLen) (areaOf f) regionLen := by
  intro x hx
  unfold insnSize preNopsLen at hx
  unfold regionLen
  omega

theorem read_word {m m' : Mem} {f : Addr} (h : AgreeOn m m' (areaOf f) regionLen) {o : Nat} (ho : o = 0 ∨ o = 8) :
    m'.read (f + BitVec.ofNat 64 o) 4 = m.read (f + BitVec.ofNat 64 o) 4 := h.read (word_sub f ho) (by decide)

theorem Placed.congr {m m' : Mem} {f : Addr} {offset : Nat} (hp : Placed m f offset)
    (h : AgreeOn m m' (areaOf f) regionLen) : Placed m' f offset := by
  have h0 := read_word h (Or.inl rfl)
  rw [BitVec.add_zero] at h0
  refine ⟨hp.valid, ?_, ?_⟩
  · rw [read_word h hp.offset_eq]
    exact hp.here
  · rw [h0]
    exact hp.entry

theorem Redirects.congr {t f : Addr} {offset : Nat} {m m' : Mem} {c : PatchCall} (ho : offset = 0 ∨ offset = 8)
    (hr : Redirects t f offset m c) (h : AgreeOn m m' (areaOf f) regionLen) : Redirects t f offset m' c := by
  have harea : m'.read (areaOf f) (insnSize * preNopsLen) = m.read (areaOf f) (insnSize * preNopsLen) :=
    h.read (area_sub f) (by decide)
  unfold Redirects insnAt at *
  rw [read_word h ho, harea]
  exact hr

/-- The writes of a call lie in the region of its function. -/
theorem patchWrites_agree {t f g : Addr} {offset : Nat} (hd : Mem.Disj (areaOf f) regionLen (areaOf g) regionLen)
    (ho : offset = 0 ∨ offset = 8) (c : PatchCall) (m : Mem) :
    AgreeOn m ((patchWrites t g offset c).foldl Insn.applyTo m) (areaOf f) regionLen := by
  have hnop : gNop.length = 4 := rfl
  have hbranch := length_branch offset
  unfold patchWrites
  by_cases he : c.enable = true
  · rw [if_pos he]
    simp only [List.foldl_cons, List.foldl_nil, Insn.applyTo]
    exact (agreeOn_write (hd.sub (by rw [length_prolog]; exact area_sub g))).trans
      (agreeOn_write (hd.sub (by rw [hbranch]; exact word_sub g ho)))
  · rw [if_neg he]
    simp only [List.foldl_cons, List.foldl_nil, Insn.applyTo]
    exact agreeOn_write (hd.sub (by rw [hnop]; exact word_sub g ho))

/-! ## A round -/

variable {t : Addr} {F : Set Addr} {offset : Addr → Nat}

/-- The writes that a round queues. -/
def batchWrites (t : Addr) (offset : Addr → Nat) (ps : List (Addr × PatchCall)) : List Insn :=
  ps.flatMap (fun p => patchWrites t p.1 (offset p.1) p.2)

/-- **The calls of a round all return 0 and queue their writes.** -/
theorem patchBatch_queues : ∀ (ps : List (Addr × PatchCall)) {s : State},
    (∀ p ∈ ps, Placed s.mem p.1 (offset p.1)) → (∀ r ∈ (patchBatch t ps s).1, r = ENONE) ∧
      Wrote (batchWrites t offset ps) s (patchBatch t ps s).2
  | [], s, _      => ⟨fun r hr => (by cases hr), .refl s⟩
  | p :: ps, s, h => by
    obtain ⟨hret, hw⟩ := ulpPatchAddr_queues (t := t) (h p List.mem_cons_self) p.2
    obtain ⟨hrets, hws⟩ := patchBatch_queues ps (s := (ulpPatchAddr t p.1 p.2.newFaddr p.2.enable s).2)
      (fun q hq => by rw [hw.mem]; exact h q (List.mem_cons_of_mem _ hq))
    exact ⟨List.forall_mem_cons.2 ⟨hret, hrets⟩, hw.trans hws⟩

/-- What the entry of `f` is after the last call for it; without one its region is that of `m₀`. -/
def Entry (t : Addr) (m₀ : Mem) (offset : Addr → Nat) (m : Mem) (f : Addr) : Option PatchCall → Prop
  | some c => Redirects t f (offset f) m c
  | none   => AgreeOn m₀ m (areaOf f) regionLen

theorem Entry.congr {m₀ m m' : Mem} {f : Addr} {o : Option PatchCall} (ho : offset f = 0 ∨ offset f = 8)
    (he : Entry t m₀ offset m f o) (h : AgreeOn m m' (areaOf f) regionLen) : Entry t m₀ offset m' f o := by
  cases o with
  | none => exact AgreeOn.trans he h
  | some c => exact Redirects.congr ho he h

/-- **The writes of a round, carried out**, leave every function in its place, with the entry its last call asked for. -/
theorem batchWrites_entries (m₀ : Mem) (hF : Apart F) : ∀ (ps : List (Addr × PatchCall)) (m : Mem), (∀ p ∈ ps, p.1 ∈ F) →
    (∀ f ∈ F, Placed m f (offset f)) →
    (∀ f ∈ F, Placed ((batchWrites t offset ps).foldl Insn.applyTo m) f (offset f)) ∧
      ∀ f ∈ F, ∀ o, Entry t m₀ offset m f o →
        Entry t m₀ offset ((batchWrites t offset ps).foldl Insn.applyTo m) f (lastCall ps f o)
  | [], _, _, hm       => ⟨hm, fun _ _ _ h => h⟩
  | p :: ps, m, hps, hm => by
    have hp := hps p List.mem_cons_self
    obtain ⟨hplaced, hredirects⟩ := patchWrites_redirects (t := t) (hm p.1 hp) p.2
    have hother : ∀ f ∈ F, f ≠ p.1 →
        AgreeOn m ((patchWrites t p.1 (offset p.1) p.2).foldl Insn.applyTo m) (areaOf f) regionLen :=
      fun f hf hne => patchWrites_agree (hF f hf p.1 hp hne) (hm p.1 hp).offset_eq p.2 m
    have hm' : ∀ f ∈ F, Placed ((patchWrites t p.1 (offset p.1) p.2).foldl Insn.applyTo m) f (offset f) := by
      intro f hf
      by_cases hfp : f = p.1
      · subst hfp
        exact hplaced
      · exact (hm f hf).congr (hother f hf hfp)
    obtain ⟨h₁, h₂⟩ := batchWrites_entries m₀ hF ps _ (fun q hq => hps q (List.mem_cons_of_mem _ hq)) hm'
    rw [batchWrites, List.flatMap_cons, List.foldl_append]
    refine ⟨h₁, fun f hf o ho => ?_⟩
    have hstep : Entry t m₀ offset ((patchWrites t p.1 (offset p.1) p.2).foldl Insn.applyTo m) f
        (if p.1 = f then some p.2 else o) := by
      by_cases hfp : f = p.1
      · subst hfp
        rw [if_pos rfl]
        exact hredirects
      · rw [if_neg (fun e => hfp e.symm)]
        exact ho.congr (hm f hf).offset_eq (hother f hf hfp)
    exact h₂ f hf _ hstep

/-- Once the queue is carried out it is empty. -/
theorem executeQueued_queued {s u : State} {is : List Insn} (h : Queued s is) (he : executeQueued s = some u) :
    u.mem = is.foldl Insn.applyTo s.mem ∧ Queued u [] := by
  rw [executeQueued_of h] at he
  obtain rfl := Option.some.inj he
  have hq := queueHolds_empty s.queue.buffer
  rw [← h.holds.version] at hq
  exact ⟨rfl, h.noError, hq⟩

/-- A round whose writes fit into the queue comes through. -/
theorem patchBatch_executes {ps : List (Addr × PatchCall)} {s : State} (hq : Queued s [])
    (hp : ∀ p ∈ ps, Placed s.mem p.1 (offset p.1)) (hfit : insnsSize (batchWrites t offset ps) ≤ insnBufferMax) :
    (patchBatch t ps s).2.errorState = ENONE ∧ ∃ u, executeQueued (patchBatch t ps s).2 = some u := by
  obtain ⟨-, hw⟩ := patchBatch_queues (t := t) ps hp
  have hnone := hw.fits [] hq hfit
  exact ⟨hnone, _, executeQueued_of (hw.queued [] hq hnone)⟩

/-! ## A run -/

theorem patchRun_entries (m₀ : Mem) (hF : Apart F) {ps : List (Addr × PatchCall)} {rets : List UlpError} {s s' : State}
    (h : PatchRun t F ps rets s s') : Queued s [] → (∀ f ∈ F, Placed s.mem f (offset f)) →
    (∀ r ∈ rets, r = ENONE) ∧ (∀ f ∈ F, Placed s'.mem f (offset f)) ∧
      ∀ f ∈ F, ∀ o, Entry t m₀ offset s.mem f o → Entry t m₀ offset s'.mem f (lastCall ps f o) := by
  induction h with
  | nil s => exact fun _ hm => ⟨fun r hr => (by cases hr), hm, fun _ _ _ h => h⟩
  | @round ps qs rets rets' s v u s' functions calls noError tool rest ih =>
    intro hq hm
    obtain ⟨hrets, hw⟩ := patchBatch_queues (t := t) ps (fun p hp => hm p.1 (functions p hp))
    rw [calls] at hrets hw
    obtain ⟨hmem, hu⟩ := executeQueued_queued (hw.queued [] hq noError) tool
    rw [List.nil_append, hw.mem] at hmem
    obtain ⟨h₁, h₂⟩ := batchWrites_entries (t := t) m₀ hF ps s.mem functions hm
    rw [← hmem] at h₁ h₂
    obtain ⟨hrets', h₁', h₂'⟩ := ih hu h₁
    refine ⟨fun r hr => (List.mem_append.1 hr).elim (hrets r) (hrets' r), h₁', fun f hf o ho => ?_⟩
    rw [lastCall_append]
    exact h₂' f hf _ (h₂ f hf o ho)
  | @outside qs rets' s s' mem h rest ih =>
    intro hq hm
    obtain ⟨hrets, h₁, h₂⟩ := ih ⟨hq.noError, hq.holds⟩ (fun f hf => (hm f hf).congr (h f hf))
    exact ⟨hrets, h₁, fun f hf o ho => h₂ f hf o (ho.congr (hm f hf).offset_eq (h f hf))⟩

/-- **Rounds for many functions on powerpc64le.**  In every run from an empty queue, with any calls in a round, for
functions that can be patched and whose regions are disjoint: every call returns 0 and so would any other at the end; the
search finds for each function the offset that it found at the start; the entry is what the last call for the function
asked for, and without one the region of the function is as it was. -/
theorem rounds_redirect (hF : Apart F) {ps : List (Addr × PatchCall)} {rets : List UlpError} {s₀ s : State}
    (hrun : PatchRun t F ps rets s₀ s) (hq : Queued s₀ []) (hpatch : ∀ f ∈ F, Patchable s₀.mem f) :
    (∀ r ∈ rets, r = ENONE) ∧ ∀ f ∈ F, ∃ offset, getBranchOffset s₀.mem f = some offset ∧
      getBranchOffset s.mem f = some offset ∧ (∀ newFaddr enable, (ulpPatchAddr t f newFaddr enable s).1 = ENONE) ∧
      (∀ c, lastCall ps f none = some c → Redirects t f offset s.mem c) ∧
      (lastCall ps f none = none → AgreeOn s₀.mem s.mem (areaOf f) regionLen) := by
  have hplaced : ∀ f ∈ F, Placed s₀.mem f ((getBranchOffset s₀.mem f).getD 0) := by
    intro f hf
    obtain ⟨offset, h⟩ := (hpatch f hf).placed
    rw [h.getBranchOffset, Option.getD_some]
    exact h
  obtain ⟨hrets, h₁, h₂⟩ := patchRun_entries s₀.mem hF hrun hq hplaced
  refine ⟨hrets, fun f hf => ?_⟩
  have hentry := h₂ f hf none (AgreeOn.refl s₀.mem _ _)
  obtain ⟨offset, h⟩ := (hpatch f hf).placed
  have hoff : (getBranchOffset s₀.mem f).getD 0 = offset := by rw [h.getBranchOffset, Option.getD_some]
  have hp := h₁ f hf
  rw [hoff] at hp
  refine ⟨offset, h.getBranchOffset, hp.getBranchOffset,
    fun newFaddr enable => (ulpPatchAddr_queues hp ⟨newFaddr, enable⟩).1, fun c hc => ?_, fun hn => ?_⟩
  · rw [hc] at hentry
    exact hoff ▸ hentry
  · rwa [hn] at hentry

/-- The function of `globalEntry`, replaced, put back and replaced by another one in one round. -/
def demoCalls : List (Addr × PatchCall) := [(0x2000, ⟨0x9000, true⟩), (0x2000, ⟨0, false⟩), (0x2000, ⟨0xA000, true⟩)]

theorem rounds_redirect_one : ∃ rets s offset, PatchRun 0x7000 {0x2000} demoCalls rets globalEntry s ∧
    (∀ r ∈ rets, r = ENONE) ∧ getBranchOffset s.mem 0x2000 = some offset ∧
      Redirects 0x7000 0x2000 offset s.mem ⟨0xA000, true⟩ := by
  have hpatch : ∀ f ∈ ({0x2000} : Set Addr), Patchable globalEntry.mem f := fun f hf => by
    obtain rfl := Set.mem_singleton_iff.1 hf
    exact Or.inr ⟨by decide, by decide, by decide⟩
  have hq : Queued globalEntry [] := ⟨rfl, queueHolds_empty _⟩
  obtain ⟨offset, hplaced⟩ := (hpatch 0x2000 rfl).placed
  have hin : ∀ p ∈ demoCalls, p.1 = 0x2000 := by decide
  have hall : ∀ p ∈ demoCalls, Placed globalEntry.mem p.1 offset := fun p hp => by rwa [hin p hp]
  have hfit : insnsSize (batchWrites 0x7000 (fun _ => offset) demoCalls) ≤ insnBufferMax := by
    rcases hplaced.offset_eq with rfl | rfl <;> decide
  obtain ⟨hnone, u, hu⟩ := @patchBatch_executes 0x7000 (fun _ => offset) _ _ hq hall hfit
  have hrun : PatchRun 0x7000 {0x2000} (demoCalls ++ []) ((patchBatch 0x7000 demoCalls globalEntry).1 ++ []) globalEntry
      u :=
    .round (fun p hp => hin p hp) rfl hnone hu (.nil u)
  rw [List.append_nil] at hrun
  obtain ⟨hrets, hentries⟩ := rounds_redirect (fun f hf g hg hne => absurd (hf.trans hg.symm) hne) hrun hq hpatch
  obtain ⟨offset', -, hoff, -, hlast, -⟩ := hentries 0x2000 rfl
  exact ⟨_, u, offset', hrun, hrets, hoff, hlast _ rfl⟩

end Power
end Libpulp
