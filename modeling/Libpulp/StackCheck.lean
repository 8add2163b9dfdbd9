import Libpulp.Maps
import Libpulp.SymbolLoader
/-!
# StackCheck — no thread inside the library (tools/introspection.c: `coarse_library_range_check`)

Built with the stack check, the tool patches a library only if no frame of a stopped thread is in it.  It takes the
library for everything between the lowest and the highest address of the lines of `/proc/<pid>/maps` that name it, so
it may refuse too much but lets no frame in a mapping of the library through (`stack_check_exact`).  What libunwind
answers is a parameter.
-/
namespace Libpulp
namespace StackCheck

open Bytes (Byte Addr)

/-! ## The tool -/

/-- `*range_start` and `*range_end`. -/
structure Range where
  start  : Nat
  finish : Nat
deriving DecidableEq

def Range.contains (r : Range) (pc : Addr) : Bool := r.start < pc.toNat && pc.toNat < r.finish

/-- `library_range_detect` on a line. -/
def rangeLine (library : List Byte) (r : Range) (line : List Byte) : Range :=
  if strstr line library then
    let addr1 := strtoulHex line
    let addr2 := strtoulHex addr1.2.tail
    ⟨if addr1.1 < r.start then addr1.1 else r.start, if r.finish < addr2.1 then addr2.1 else r.finish⟩
  else r

/-- `library_range_detect`: the lines, or why they cannot be read. -/
def libraryRangeDetect (library : List Byte) (maps : Except Int (List (List Byte))) : Except Int Range :=
  maps.map (fun lines => lines.foldl (rangeLine library) ⟨2 ^ 64 - 1, 0⟩)

/-- What libunwind answers from a frame on: the register cannot be read, there is no frame behind this one, the step to
it fails, or leads to it. -/
inductive Frames where
  | unread
  | outermost (pc : Addr)
  | broken (pc : Addr)
  | frame (pc : Addr) (caller : Frames)

/-- A stopped thread: whether libunwind can be initialized for it, and its frames. -/
structure Thread where
  initialized : Bool
  frames      : Frames

/-- The loop over the frames: whether one is found, `none` on an error. -/
def walk (r : Range) : Frames → Option Bool
  | .unread          => none
  | .outermost pc    => some (r.contains pc)
  | .broken pc       => if r.contains pc then some true else none
  | .frame pc caller => if r.contains pc then some true else walk r caller

/-- The loop over the threads. -/
def checkThreads (r : Range) : List Thread → Int
  | []      => 0
  | t :: ts =>
    if !t.initialized then -1
    else
      match walk r t.frames with
      | none       => -1
      | some true  => 1
      | some false => checkThreads r ts

def coarseLibraryRangeCheck (library : List Byte) (maps : Except Int (List (List Byte))) (threads : List Thread) : Int :=
  match libraryRangeDetect library maps with
  | .error _ => -1
  | .ok r    => checkThreads r threads

/-! ## What it decides -/

/-- The program counters of the frames, the innermost first. -/
def Frames.pcs : Frames → List Addr
  | .unread          => []
  | .outermost pc    => [pc]
  | .broken pc       => [pc]
  | .frame pc caller => pc :: caller.pcs

/-- The stack is unwound to its outermost frame. -/
def Frames.Whole : Frames → Prop
  | .unread         => False
  | .outermost _    => True
  | .broken _       => False
  | .frame _ caller => caller.Whole

/-- The thread is seen to be outside the range. -/
structure Thread.Outside (r : Range) (t : Thread) : Prop where
  initialized : t.initialized = true
  whole       : t.frames.Whole
  outside     : ∀ pc ∈ t.frames.pcs, r.contains pc = false

/-- A frame of the thread is found in the range, whatever comes behind it. -/
structure Thread.Inside (r : Range) (t : Thread) : Prop where
  initialized : t.initialized = true
  inside      : ∃ pc ∈ t.frames.pcs, r.contains pc = true

theorem walk_false {r : Range} : ∀ {f : Frames}, walk r f = some false ↔ f.Whole ∧ ∀ pc ∈ f.pcs, r.contains pc = false
  | .unread          => by simp [walk, Frames.Whole]
  | .outermost pc    => by simp [walk, Frames.Whole, Frames.pcs]
  | .broken pc       => by
    rw [walk]
    split <;> simp [Frames.Whole]
  | .frame pc caller => by
    rw [walk]
    split
    · rename_i h
      simp [Frames.pcs, h]
    · rename_i h
      rw [walk_false, Frames.Whole, Frames.pcs, List.forall_mem_cons]
      simp [h]

theorem walk_true {r : Range} : ∀ {f : Frames}, walk r f = some true ↔ ∃ pc ∈ f.pcs, r.contains pc = true
  | .unread          => by simp [walk, Frames.pcs]
  | .outermost pc    => by simp [walk, Frames.pcs]
  | .broken pc       => by
    rw [walk]
    split <;> simp_all [Frames.pcs]
  | .frame pc caller => by
    rw [walk]
    split
    · rename_i h
      simp [Frames.pcs, h]
    · rename_i h
      rw [walk_true]
      simp [Frames.pcs, h]

theorem checkThreads_outside {r : Range} {t : Thread} (h : t.Outside r) (ts : List Thread) :
    checkThreads r (t :: ts) = checkThreads r ts := by
  rw [checkThreads, h.initialized, walk_false.2 ⟨h.whole, h.outside⟩]
  rfl

theorem checkThreads_inside {r : Range} {t : Thread} (h : t.Inside r) (ts : List Thread) :
    checkThreads r (t :: ts) = 1 := by
  rw [checkThreads, h.initialized, walk_true.2 h.inside]
  rfl

theorem checkThreads_error {r : Range} {t : Thread} (ho : ¬ t.Outside r) (hi : ¬ t.Inside r) (ts : List Thread) :
    checkThreads r (t :: ts) = -1 := by
  rw [checkThreads]
  cases hinit : t.initialized with
  | false => rfl
  | true =>
    cases hw : walk r t.frames with
    | none => rfl
    | some found =>
      cases found with
      | true => exact absurd ⟨hinit, walk_true.1 hw⟩ hi
      | false => exact absurd ⟨hinit, (walk_false.1 hw).1, (walk_false.1 hw).2⟩ ho

theorem Thread.Outside.not_inside {r : Range} {t : Thread} (h : t.Outside r) : ¬ t.Inside r := by
  intro hi
  obtain ⟨pc, hpc, hc⟩ := hi.inside
  exact Bool.false_ne_true ((h.outside pc hpc).symm.trans hc)

/-- **What the loop over the threads returns.** -/
theorem checkThreads_spec (r : Range) : ∀ threads : List Thread,
    (checkThreads r threads = 0 ↔ ∀ t ∈ threads, t.Outside r) ∧
    (checkThreads r threads = 1 ↔ ∃ before t after, threads = before ++ t :: after ∧ (∀ u ∈ before, u.Outside r) ∧
      t.Inside r)
  | []      => by
    refine ⟨⟨fun _ t ht => (by cases ht), fun _ => rfl⟩, fun h => (by cases h), fun h => ?_⟩
    obtain ⟨before, t, after, h, -⟩ := h
    cases before <;> cases h
  | t :: ts => by
    obtain ⟨ih₀, ih₁⟩ := checkThreads_spec r ts
    -- the first thread decides, or the others do
    have hfirst : (∃ before u after, t :: ts = before ++ u :: after ∧ (∀ v ∈ before, v.Outside r) ∧ u.Inside r) ↔
        t.Inside r ∨ t.Outside r ∧ ∃ before u after, ts = before ++ u :: after ∧ (∀ v ∈ before, v.Outside r) ∧
          u.Inside r := by
      constructor
      · rintro ⟨before, u, after, h, ho, hi⟩
        cases before with
        | nil =>
          cases h
          exact Or.inl hi
        | cons b before =>
          cases h
          obtain ⟨hb, ho⟩ := List.forall_mem_cons.1 ho
          exact Or.inr ⟨hb, before, u, after, rfl, ho, hi⟩
      · rintro (hi | ⟨ht, before, u, after, rfl, ho, hi⟩)
        · exact ⟨[], t, ts, rfl, fun _ h => (by cases h), hi⟩
        · exact ⟨t :: before, u, after, rfl, List.forall_mem_cons.2 ⟨ht, ho⟩, hi⟩
    rw [hfirst, List.forall_mem_cons]
    by_cases ho : t.Outside r
    · rw [checkThreads_outside ho, ih₀, ih₁]
      simp only [ho, ho.not_inside, true_and, false_or, and_self]
    · by_cases hi : t.Inside r
      · rw [checkThreads_inside hi]
        simp [ho, hi]
      · rw [checkThreads_error ho hi]
        simp [ho, hi]

/-- The line of the mapping names the library. -/
def Names (library : List Byte) (v : Vma) : Prop := strstr (mapsLine v ++ [10]) library = true

theorem rangeLine_mapsLine {library : List Byte} {v : Vma} (r : Range) (h : Names library v) :
    rangeLine library r (mapsLine v ++ [10]) = ⟨min v.start.toNat r.start, max r.finish v.finish.toNat⟩ := by
  obtain ⟨h₁, h₂⟩ := strtoulHex_mapsLine v [10]
  unfold Names at h
  rw [rangeLine, if_pos h]
  simp only [h₂]
  rw [h₁]
  simp only [Range.mk.injEq]
  constructor
  · split <;> omega
  · split <;> omega

/-- **The range is the hull of the mappings that name the library**: none of them sticks out, and it is no larger. -/
structure Hull (library : List Byte) (vmas : List Vma) (r₀ r : Range) : Prop where
  within : ∀ v ∈ vmas, Names library v → r.start ≤ v.start.toNat ∧ v.finish.toNat ≤ r.finish
  start  : r.start = r₀.start ∨ ∃ v ∈ vmas, Names library v ∧ r.start = v.start.toNat
  finish : r.finish = r₀.finish ∨ ∃ v ∈ vmas, Names library v ∧ r.finish = v.finish.toNat
  grows  : r.start ≤ r₀.start ∧ r₀.finish ≤ r.finish

theorem hull_of_lines (library : List Byte) : ∀ (vmas : List Vma) (r : Range),
    Hull library vmas r ((vmas.map (fun v => mapsLine v ++ [10])).foldl (rangeLine library) r)
  | [], r        => ⟨fun v hv => (by cases hv), Or.inl rfl, Or.inl rfl, Nat.le_refl _, Nat.le_refl _⟩
  | v :: vmas, r => by
    have ih := hull_of_lines library vmas (rangeLine library r (mapsLine v ++ [10]))
    rw [List.map_cons, List.foldl_cons]
    generalize (vmas.map (fun v => mapsLine v ++ [10])).foldl (rangeLine library)
      (rangeLine library r (mapsLine v ++ [10])) = r' at ih ⊢
    have hmem : ∀ {p : Vma → Prop}, (∃ w ∈ vmas, p w) → ∃ w ∈ v :: vmas, p w := by
      rintro p ⟨w, hw, h⟩
      exact ⟨w, List.mem_cons_of_mem v hw, h⟩
    by_cases hv : Names library v
    · obtain ⟨hw, hs, hf, hg⟩ := ih
      rw [rangeLine_mapsLine r hv] at hs hf hg
      simp only at hs hf hg
      refine ⟨List.forall_mem_cons.2 ⟨fun _ => ⟨by omega, by omega⟩, hw⟩, ?_, ?_, by omega, by omega⟩
      · rcases hs with hs | hs
        · rcases Nat.le_total v.start.toNat r.start with h | h
          · exact Or.inr ⟨v, List.mem_cons_self, hv, by omega⟩
          · exact Or.inl (by omega)
        · exact Or.inr (hmem hs)
      · rcases hf with hf | hf
        · rcases Nat.le_total v.finish.toNat r.finish with h | h
          · exact Or.inl (by omega)
          · exact Or.inr ⟨v, List.mem_cons_self, hv, by omega⟩
        · exact Or.inr (hmem hf)
    · have hsame : rangeLine library r (mapsLine v ++ [10]) = r := if_neg hv
      rw [hsame] at ih
      exact ⟨List.forall_mem_cons.2 ⟨fun h => absurd h hv, ih.within⟩, ih.start.imp_right hmem,
        ih.finish.imp_right hmem, ih.grows⟩

/-- **The stack check lets no frame in the library through.**  On the lines the kernel prints it takes the library for
the hull of the mappings whose lines name it.  It returns 0 if and only if every thread is unwound to its outermost frame
and no frame is inside this range; then none is in a mapping that names the library, but at its very first byte.  It
returns 1 if and only if a frame inside is found before anything fails. -/
theorem stack_check_exact (library : List Byte) (vmas : List Vma) (threads : List Thread) :
    ∃ r, Hull library vmas ⟨2 ^ 64 - 1, 0⟩ r ∧
      (coarseLibraryRangeCheck library (.ok (vmas.map (fun v => mapsLine v ++ [10]))) threads = 0 ↔
        ∀ t ∈ threads, t.Outside r) ∧
      (coarseLibraryRangeCheck library (.ok (vmas.map (fun v => mapsLine v ++ [10]))) threads = 1 ↔
        ∃ before t after, threads = before ++ t :: after ∧ (∀ u ∈ before, u.Outside r) ∧ t.Inside r) ∧
      (coarseLibraryRangeCheck library (.ok (vmas.map (fun v => mapsLine v ++ [10]))) threads = 0 →
        ∀ t ∈ threads, t.frames.Whole ∧ ∀ pc ∈ t.frames.pcs, ∀ v ∈ vmas, Names library v → v.contains pc = true →
          pc = v.start ∧ pc.toNat = r.start) := by
  have hhull := hull_of_lines library vmas ⟨2 ^ 64 - 1, 0⟩
  refine ⟨_, hhull, (checkThreads_spec _ threads).1, (checkThreads_spec _ threads).2, fun h t ht => ?_⟩
  have hout := (checkThreads_spec _ threads).1.1 h t ht
  refine ⟨hout.whole, fun pc hpc v hv hname hc => ?_⟩
  have hrange := hout.outside pc hpc
  obtain ⟨h₁, h₂⟩ := hhull.within v hv hname
  simp only [Range.contains, Bool.and_eq_false_iff, decide_eq_false_iff_not] at hrange
  simp only [Vma.contains, Bool.and_eq_true, decide_eq_true_eq, BitVec.le_def, BitVec.lt_def] at hc
  have heq : pc.toNat = v.start.toNat := by omega
  exact ⟨BitVec.eq_of_toNat_eq heq, by omega⟩

end StackCheck
end Libpulp
