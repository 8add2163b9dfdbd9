import Libpulp.SideStack
/-!
# SideStackRun — the side stack over whole runs

The invariant of a thread whose handlers keep out.  What an activation that is interrupted relies on is stated with the
activations below it only (`FrameOk`), and what all of them need of `real_size` in one number (`need`), so that nothing
an interrupting call does has to be carried through them again.
-/
namespace Libpulp
namespace SideStack

open Bytes (Byte Addr toLE length_toLE addrOfLE)
open Relation (ReflTransGen)

/-! ## Memory -/

namespace Machine

variable {m : Machine} {a b : Nat} {v : Addr}

theorem ld_congr {m' : Machine} (h : ∀ i < 8, m'.mem (b + i) = m.mem (a + i)) : m'.ld b = m.ld a := by
  unfold ld
  congr 1
  apply List.map_congr_left
  intro i hi
  exact h i (List.mem_range.1 hi)

@[simp] theorem stackPtr_std : (m.std a v).stackPtr = m.stackPtr := rfl

theorem ld_std_same : (m.std a v).ld a = v := by
  have hbytes : (List.range 8).map (fun i => (m.std a v).mem (a + i)) = toLE 8 v.toNat := by
    conv_rhs => rw [← Bytes.map_range_getD (toLE 8 v.toNat), length_toLE]
    apply List.map_congr_left
    intro i hi
    rw [List.mem_range] at hi
    unfold std
    simp only
    rw [if_pos (by omega), Nat.add_sub_cancel_left]
  unfold ld
  rw [hbytes, Bytes.addrOfLE_toLE]

theorem mem_std_of_outside {x : Nat} (h : x < a ∨ a + 8 ≤ x) : (m.std a v).mem x = m.mem x := by
  unfold std
  simp only
  rw [if_neg (by omega)]

theorem ld_std_disjoint (h : b + 8 ≤ a ∨ a + 8 ≤ b) : (m.std a v).ld b = m.ld b := by
  apply ld_congr
  intro i hi
  exact mem_std_of_outside (by omega)

end Machine

/-! ## The invariant -/

/-- The `real_size` that an activation counts on, with `d` slots taken below it. -/
def Phase.req (d : Nat) : Phase → Nat
  | .loadUsed r6 | .compare r6 _ => r6
  | .helperAdd o | .helperStoreAdd o _ => o
  | .helperReturn | .pushLoadUsed | .pushStoreUsed _ | .pushLoadPtr _ | .pushToc _ | .pushLr _ | .running | .popLoadUsed |
    .popStoreUsed _ => 16 * d + 16
  | _ => 0

def need : List Frame → Nat
  | []      => 0
  | f :: fs => max (f.phase.req (depth fs)) (need fs)

/-- No activation holds the pointer to the buffer. -/
def NoPtr (fs : List Frame) : Prop := ∀ f ∈ fs, f.phase.holdsPtr = false

/-- What an activation that is not exposed has in its registers, above `fs`. -/
def FrameOk (page ptr : Nat) (f : Frame) (fs : List Frame) : Prop :=
  match f.phase with
  | .loadReal | .helperReturn | .pushLoadUsed | .running | .popLoadUsed => True
  | .loadUsed r6           => r6 % 16 = 0 ∧ r6 ≤ userTop
  | .compare r6 r5         => r6 % 16 = 0 ∧ r6 ≤ userTop ∧ r5 = 16 * depth fs
  | .helperStart           => NoPtr fs
  | .helperAdd o           => NoPtr fs ∧ need fs ≤ o
  | .helperStoreAdd o size => NoPtr fs ∧ need fs ≤ o ∧ o + page ≤ size ∧ size % 16 = 0 ∧ size ≤ userTop + page
  | .pushStoreUsed r6      => r6 = 16 * depth fs
  | .pushLoadPtr r6        => r6 = 16 * depth fs + 16
  | .pushToc r5            => r5 = ptr + (16 * depth fs + 16)
  | .pushLr r5             => r5 = ptr + (16 * depth fs + 16)
  | .popStoreUsed r6       => r6 = 16 * depth fs + 16
  | .popped r2 r8          => r2 = f.toc ∧ r8 = f.lr
  | _                      => False

/-- The activations that are interrupted. -/
def FramesOk (page ptr : Nat) : List Frame → Prop
  | []      => True
  | f :: fs => FrameOk page ptr f fs ∧ FramesOk page ptr fs

/-- The words and the buffer, when nothing is exposed. -/
structure Rest (m : Machine) (fs : List Frame) : Prop where
  used    : m.usedSize = 16 * depth fs
  room    : need fs ≤ m.realSize
  aligned : m.realSize % 16 = 0
  fits    : m.stackPtr + m.realSize ≤ userTop
  null    : m.stackPtr = 0 → m.realSize = 0
  mapped  : ∀ j < m.realSize, m.mapped (m.stackPtr + j) = true
  entries : Entries m m.stackPtr fs

/-- The words and the buffer while it is being replaced, with `o` for its old size. -/
structure Grow (m : Machine) (o : Nat) (fs : List Frame) : Prop where
  used    : m.usedSize = 16 * depth fs
  noPtr   : NoPtr fs
  need    : need fs ≤ o
  fits    : m.stackPtr + o ≤ userTop
  null    : m.stackPtr = 0 → depth fs = 0
  mapped  : ∀ j < o, m.mapped (m.stackPtr + j) = true
  entries : Entries m m.stackPtr fs

/-- The new buffer. -/
structure NewBuffer (m : Machine) (new : Nat) : Prop where
  nonnull : new ≠ 0
  fits    : new + m.realSize ≤ userTop
  mapped  : ∀ j < m.realSize, m.mapped (new + j) = true

/-- The new size. -/
def Grown (page o size : Nat) : Prop := 2 * (o + page) ≤ size ∧ size % 16 = 0

/-- The slot that an activation has given up still has its pair. -/
structure Slot (m : Machine) (f : Frame) (fs : List Frame) : Prop where
  room : 16 * depth fs + 16 ≤ m.realSize
  toc  : m.ld (m.stackPtr + 16 * depth fs) = f.toc
  lr   : m.ld (m.stackPtr + 16 * depth fs + 8) = f.lr

/-- The activation that runs, above `fs`. -/
def TopOk (page : Nat) (m : Machine) (f : Frame) (fs : List Frame) : Prop :=
  match f.phase with
  | .helperDouble o           => Grow m o fs ∧ o + page ≤ m.realSize ∧ m.realSize % 16 = 0 ∧ m.realSize ≤ userTop + page
  | .helperStoreDouble o size => Grow m o fs ∧ o + page ≤ m.realSize ∧ Grown page o size
  | .helperOld o              => Grow m o fs ∧ Grown page o m.realSize
  | .helperMmap o old         => Grow m o fs ∧ Grown page o m.realSize ∧ old = m.stackPtr
  | .helperCopy o old new k   => Grow m o fs ∧ Grown page o m.realSize ∧ old = m.stackPtr ∧ NewBuffer m new ∧
      (∀ i < o, ∀ j < m.realSize, old + i ≠ new + j) ∧ (∀ j < k, m.mem (new + j) = m.mem (old + j)) ∧ k ≤ o
  | .helperUnmap o old new    => Grow m o fs ∧ Grown page o m.realSize ∧ old = m.stackPtr ∧ NewBuffer m new ∧
      (∀ i < o, ∀ j < m.realSize, old + i ≠ new + j) ∧ ∀ j < o, m.mem (new + j) = m.mem (old + j)
  | .helperPublish new        => m.usedSize = 16 * depth fs ∧ NoPtr fs ∧ NewBuffer m new ∧ need fs + page ≤ m.realSize ∧
      m.realSize % 16 = 0 ∧ Entries m new fs
  | .popLoadPtr r6            => Rest m fs ∧ Slot m f fs ∧ r6 = 16 * depth fs
  | .popToc r5                => Rest m fs ∧ Slot m f fs ∧ r5 = m.stackPtr + 16 * depth fs
  | .popLr r5 r2              => Rest m fs ∧ Slot m f fs ∧ r5 = m.stackPtr + 16 * depth fs ∧ r2 = f.toc
  | _                         => Rest m (f :: fs) ∧ FrameOk page m.stackPtr f fs

/-- **The invariant of a thread.** -/
def Inv (page : Nat) (s : Thread) : Prop :=
  match s.frames with
  | []      => Rest s.machine []
  | f :: fs => FramesOk page s.machine.stackPtr fs ∧ TopOk page s.machine f fs

/-! ## Slots and entries -/

theorem depth_le_need : ∀ fs : List Frame, 16 * depth fs ≤ need fs
  | []                => Nat.le_refl _
  | ⟨_, _, ph⟩ :: fs  => by
    have ih := depth_le_need fs
    cases ph <;> simp only [depth, need, Phase.req, Phase.owns, if_true, if_false, Bool.false_eq_true] <;> omega

theorem depth_cons {toc lr : Addr} {ph : Phase} (h : ph.owns = true) (fs : List Frame) :
    depth (⟨toc, lr, ph⟩ :: fs) = depth fs + 1 := by simp [depth, h]

theorem Frame.Written.congr {m m' : Machine} {base base' d : Nat} {f : Frame} (h : f.Written m base d)
    (hmem : f.phase.owns = true → ∀ j < 16, m'.mem (base' + 16 * d + j) = m.mem (base + 16 * d + j)) :
    f.Written m' base' d := by
  obtain ⟨toc, lr, ph⟩ := f
  have htoc : ph.owns = true → m'.ld (base' + 16 * d) = m.ld (base + 16 * d) := by
    intro ho
    apply Machine.ld_congr
    intro i hi
    exact hmem ho i (by omega)
  have hlr : ph.owns = true → m'.ld (base' + 16 * d + 8) = m.ld (base + 16 * d + 8) := by
    intro ho
    apply Machine.ld_congr
    intro i hi
    have := hmem ho (8 + i) (by omega)
    rwa [← Nat.add_assoc, ← Nat.add_assoc] at this
  cases ph with
  | pushLr r5 => exact (htoc rfl).trans h
  | running => exact ⟨(htoc rfl).trans h.1, (hlr rfl).trans h.2⟩
  | popLoadUsed => exact ⟨(htoc rfl).trans h.1, (hlr rfl).trans h.2⟩
  | popStoreUsed r6 => exact ⟨(htoc rfl).trans h.1, (hlr rfl).trans h.2⟩
  | _ => trivial

/-- The entries are in the bytes of the slots that are taken. -/
theorem Entries.congr {m m' : Machine} {base base' : Nat} : ∀ {fs : List Frame}, Entries m base fs →
    (∀ j < 16 * depth fs, m'.mem (base' + j) = m.mem (base + j)) → Entries m' base' fs
  | [], _, _                     => trivial
  | ⟨toc, lr, ph⟩ :: fs, h, hmem => by
    have hle : depth fs ≤ depth (⟨toc, lr, ph⟩ :: fs) := Nat.le_add_right _ _
    refine ⟨h.1.congr (fun ho j hj => ?_), h.2.congr (fun j hj => hmem j (by omega))⟩
    have := hmem (16 * depth fs + j) (by rw [depth_cons ho]; omega)
    rwa [← Nat.add_assoc, ← Nat.add_assoc] at this

/-- With no pointer held, the interrupted activations do not care where the buffer is. -/
theorem FramesOk.move {page ptr ptr' : Nat} : ∀ {fs : List Frame}, FramesOk page ptr fs → NoPtr fs → FramesOk page ptr' fs
  | [], _, _                  => trivial
  | ⟨_, _, ph⟩ :: fs, h, hno => by
    refine ⟨?_, h.2.move (fun f hf => hno f (List.mem_cons_of_mem _ hf))⟩
    have hph := hno _ List.mem_cons_self
    have hf := h.1
    cases ph with
    | pushToc r5 => cases hph
    | pushLr r5 => cases hph
    | _ => exact hf

/-! ## Steps of the activation that runs -/

variable {page : Nat} {m : Machine} {toc lr : Addr} {ph : Phase} {fs : List Frame}

theorem Rest.depth_le (h : Rest m fs) : 16 * depth fs ≤ m.realSize := Nat.le_trans (depth_le_need fs) h.room

theorem Rest.req_le {f : Frame} (h : Rest m (f :: fs)) : f.phase.req (depth fs) ≤ m.realSize :=
  Nat.le_trans (Nat.le_max_left _ _) h.room

theorem Rest.need_le {f : Frame} (h : Rest m (f :: fs)) : need fs ≤ m.realSize :=
  Nat.le_trans (Nat.le_max_right _ _) h.room

/-- A step that takes or gives up no slot and leaves the machine alone. -/
theorem Rest.retop {ph' : Phase} (h : Rest m (⟨toc, lr, ph⟩ :: fs)) (ho : ph'.owns = ph.owns)
    (hreq : ph'.req (depth fs) ≤ m.realSize) (hw : Frame.Written m m.stackPtr (depth fs) ⟨toc, lr, ph'⟩) :
    Rest m (⟨toc, lr, ph'⟩ :: fs) := by
  have hdepth : depth (⟨toc, lr, ph'⟩ :: fs) = depth (⟨toc, lr, ph⟩ :: fs) := by simp [depth, ho]
  exact ⟨h.used.trans (by rw [hdepth]), Nat.max_le.2 ⟨hreq, h.need_le⟩, h.aligned, h.fits, h.null, h.mapped, hw,
    h.entries.2⟩

/-- What is below an activation without a slot of its own. -/
theorem Rest.below (h : Rest m (⟨toc, lr, ph⟩ :: fs)) (ho : ph.owns = false) : Rest m fs := by
  have hdepth : depth (⟨toc, lr, ph⟩ :: fs) = depth fs := by simp [depth, ho]
  exact ⟨h.used.trans (by rw [hdepth]), h.need_le, h.aligned, h.fits, h.null, h.mapped, h.entries.2⟩

theorem Rest.above (h : Rest m fs) (ho : ph.owns = false) (hreq : ph.req (depth fs) ≤ m.realSize)
    (hw : Frame.Written m m.stackPtr (depth fs) ⟨toc, lr, ph⟩) : Rest m (⟨toc, lr, ph⟩ :: fs) := by
  have hdepth : depth (⟨toc, lr, ph⟩ :: fs) = depth fs := by simp [depth, ho]
  exact ⟨h.used.trans (by rw [hdepth]), Nat.max_le.2 ⟨hreq, h.room⟩, h.aligned, h.fits, h.null, h.mapped, hw, h.entries⟩

theorem word_of_le {n : Nat} (h : n ≤ 2 ^ 60) : word n = n := Nat.mod_eq_of_lt (by omega)

theorem word_sub {n k : Nat} (hk : k ≤ n) (hpos : 0 < k) (h : n ≤ 2 ^ 60) : word (n + 2 ^ 64 - k) = n - k := by
  unfold word
  omega

theorem signed_of_le {n : Nat} (h : n ≤ userTop) : signed n = n := if_pos (by unfold userTop at h; omega)

/-- The comparison sends an activation to the helper, or there is room for one more slot. -/
theorem compare_ok {r6 r5 : Nat} (h : TopOk page m ⟨toc, lr, .compare r6 r5⟩ fs)
    (hguard : signed r6 ≤ signed r5 → NoPtr fs) :
    TopOk page m ⟨toc, lr, if signed r6 ≤ signed r5 then .helperStart else .pushLoadUsed⟩ fs := by
  obtain ⟨hrest, h16, htop, rfl⟩ := h
  have hreq : r6 ≤ m.realSize := hrest.req_le
  have hd : 16 * depth fs ≤ m.realSize := (hrest.below rfl).depth_le
  have hfits := hrest.fits
  by_cases hle : signed r6 ≤ signed (16 * depth fs)
  · rw [if_pos hle]
    exact ⟨hrest.retop rfl (Nat.zero_le _) trivial, hguard hle⟩
  · rw [if_neg hle]
    rw [signed_of_le htop, signed_of_le (by omega)] at hle
    have hroom : 16 * depth fs + 16 ≤ m.realSize := by omega
    exact ⟨hrest.retop rfl hroom trivial, trivial⟩

/-! ## The helper -/

/-- `page` is a page size. -/
def IsPage (page : Nat) : Prop := page = 4096 ∨ page = 65536

theorem helperAdd_ok {o : Nat} (hp : IsPage page) (h : TopOk page m ⟨toc, lr, .helperAdd o⟩ fs) :
    TopOk page m ⟨toc, lr, .helperStoreAdd o (word (m.realSize + page))⟩ fs := by
  obtain ⟨hrest, hno, hneed⟩ := h
  have ho : o ≤ m.realSize := hrest.req_le
  have hfits := hrest.fits
  have haligned := hrest.aligned
  have hword : word (m.realSize + page) = m.realSize + page := by
    apply word_of_le
    unfold userTop at hfits
    rcases hp with rfl | rfl <;> omega
  rw [hword]
  refine ⟨hrest.retop rfl ho trivial, hno, hneed, by omega, ?_, by omega⟩
  rcases hp with rfl | rfl <;> omega

/-- From here on `real_size` is not the size of the buffer. -/
theorem helperStoreAdd_ok {o size : Nat} (h : TopOk page m ⟨toc, lr, .helperStoreAdd o size⟩ fs) :
    TopOk page { m with realSize := size } ⟨toc, lr, .helperDouble o⟩ fs := by
  obtain ⟨hrest, hno, hneed, hsize, h16, htop⟩ := h
  have ho : o ≤ m.realSize := hrest.req_le
  have hfits := hrest.fits
  have hgrow : Grow { m with realSize := size } o fs := by
    refine ⟨hrest.used, hno, hneed, by simp only; omega, fun hnull => ?_, fun j hj => hrest.mapped j (by omega), ?_⟩
    · have hreal := hrest.null hnull
      have hd := depth_le_need fs
      omega
    · exact hrest.entries.2.congr (fun j _ => rfl)
  exact ⟨hgrow, hsize, h16, htop⟩

theorem helperDouble_ok {o : Nat} (hp : IsPage page) (h : TopOk page m ⟨toc, lr, .helperDouble o⟩ fs) :
    TopOk page m ⟨toc, lr, .helperStoreDouble o (word (m.realSize * 2))⟩ fs := by
  obtain ⟨hgrow, hsize, h16, htop⟩ := h
  have hword : word (m.realSize * 2) = m.realSize * 2 := by
    apply word_of_le
    unfold userTop at htop
    rcases hp with rfl | rfl <;> omega
  rw [hword]
  exact ⟨hgrow, hsize, by omega, by omega⟩

theorem helperStoreDouble_ok {o size : Nat} (h : TopOk page m ⟨toc, lr, .helperStoreDouble o size⟩ fs) :
    TopOk page { m with realSize := size } ⟨toc, lr, .helperOld o⟩ fs := by
  obtain ⟨hgrow, -, hgrown⟩ := h
  exact ⟨⟨hgrow.used, hgrow.noPtr, hgrow.need, hgrow.fits, hgrow.null, hgrow.mapped,
    hgrow.entries.congr (fun j _ => rfl)⟩, hgrown⟩

/-- What the kernel maps is disjoint from the buffer. -/
theorem mmap_ok {o old new : Nat} (h : TopOk page m ⟨toc, lr, .helperMmap o old⟩ fs) (hnull : new ≠ 0)
    (hfits : new + m.realSize ≤ userTop) (hfresh : ∀ j < m.realSize, m.mapped (new + j) = false) :
    TopOk page (m.mmap new m.realSize) ⟨toc, lr, .helperCopy o old new 0⟩ fs := by
  obtain ⟨hgrow, hgrown, rfl⟩ := h
  have hmapped : ∀ x, m.mapped x = true → (m.mmap new m.realSize).mapped x = true := by
    intro x hx
    unfold Machine.mmap
    simp [hx]
  refine ⟨⟨hgrow.used, hgrow.noPtr, hgrow.need, hgrow.fits, hgrow.null, fun j hj => hmapped _ (hgrow.mapped j hj),
    hgrow.entries.congr (fun j _ => rfl)⟩, hgrown, rfl, ⟨hnull, hfits, fun j hj => ?_⟩, fun i hi j hj heq => ?_,
    fun j hj => absurd hj (Nat.not_lt_zero j), Nat.zero_le o⟩
  · have hlt : j < m.realSize := hj
    unfold Machine.mmap
    simp [hlt]
  · have htrue := hgrow.mapped i hi
    rw [heq, hfresh j hj] at htrue
    cases htrue

theorem helperCopy_ok {o old new k : Nat} (h : TopOk page m ⟨toc, lr, .helperCopy o old new k⟩ fs) (hk : k < o) :
    TopOk page (m.stb (new + k) (m.mem (old + k))) ⟨toc, lr, .helperCopy o old new (k + 1)⟩ fs := by
  obtain ⟨hgrow, hgrown, rfl, hnew, hdisj, hcopied, -⟩ := h
  have hsize := hgrown.1
  have hkeep : ∀ i < o, (m.stb (new + k) (m.mem (m.stackPtr + k))).mem (m.stackPtr + i) = m.mem (m.stackPtr + i) := by
    intro i hi
    exact if_neg (hdisj i hi k (by omega))
  have hd := depth_le_need fs
  have hneed := hgrow.need
  refine ⟨⟨hgrow.used, hgrow.noPtr, hgrow.need, hgrow.fits, hgrow.null, hgrow.mapped,
    hgrow.entries.congr (fun j hj => hkeep j (by omega))⟩, hgrown, rfl, ⟨hnew.nonnull, hnew.fits, hnew.mapped⟩, hdisj,
    fun j hj => ?_, hk⟩
  rw [hkeep j (by omega)]
  by_cases hjk : j = k
  · subst hjk
    exact if_pos rfl
  · rw [← hcopied j (by omega)]
    exact if_neg (by omega)

/-- The new buffer has the entries of the old one. -/
theorem publish_ok {m' : Machine} {o new : Nat} (hgrow : Grow m o fs) (hgrown : Grown page o m.realSize)
    (hused : m'.usedSize = m.usedSize) (hreal : m'.realSize = m.realSize) (hnew : NewBuffer m' new)
    (hbytes : ∀ j < 16 * depth fs, m'.mem (new + j) = m.mem (m.stackPtr + j)) :
    TopOk page m' ⟨toc, lr, .helperPublish new⟩ fs := by
  have hsize := hgrown.1
  have hneed := hgrow.need
  exact ⟨hused.trans hgrow.used, hgrow.noPtr, hnew, by rw [hreal]; omega, by rw [hreal]; exact hgrown.2,
    hgrow.entries.congr hbytes⟩

theorem helperUnmap_ok {o old new : Nat} (h : TopOk page m ⟨toc, lr, .helperUnmap o old new⟩ fs) :
    TopOk page (m.munmap old o) ⟨toc, lr, .helperPublish new⟩ fs := by
  obtain ⟨hgrow, hgrown, rfl, hnew, hdisj, hcopied⟩ := h
  have hd := depth_le_need fs
  have hneed := hgrow.need
  refine publish_ok hgrow hgrown rfl rfl ⟨hnew.nonnull, hnew.fits, fun j hj => ?_⟩ (fun j hj => hcopied j (by omega))
  have hout : ¬ (m.stackPtr ≤ new + j ∧ new + j < m.stackPtr + o) := by
    intro hin
    exact hdisj (new + j - m.stackPtr) (by omega) j hj (by omega)
  have htrue := hnew.mapped j hj
  unfold Machine.munmap
  simp only
  rw [htrue, decide_eq_false hout]
  rfl

/-- The buffer is replaced, and nobody holds a pointer to the old one. -/
theorem helperPublish_ok {new : Nat} (hp : IsPage page) (hfs : FramesOk page m.stackPtr fs)
    (h : TopOk page m ⟨toc, lr, .helperPublish new⟩ fs) :
    FramesOk page new fs ∧ TopOk page { m with stackPtr := new } ⟨toc, lr, .helperReturn⟩ fs := by
  obtain ⟨hused, hno, hnew, hroom, haligned, hentries⟩ := h
  have hd := depth_le_need fs
  have hpage : 16 ≤ page := by rcases hp with rfl | rfl <;> omega
  refine ⟨hfs.move hno, ⟨hused, ?_, haligned, hnew.fits, fun h0 => absurd h0 hnew.nonnull, hnew.mapped, trivial,
    hentries.congr (fun j _ => rfl)⟩, trivial⟩
  simp only [need, Phase.req]
  omega

/-! ## Pushing -/

theorem pushStoreUsed_ok {r6 : Nat} (h : TopOk page m ⟨toc, lr, .pushStoreUsed r6⟩ fs) :
    TopOk page { m with usedSize := word (r6 + 16) } ⟨toc, lr, .pushLoadPtr (word (r6 + 16))⟩ fs := by
  obtain ⟨hrest, rfl⟩ := h
  have hroom : 16 * depth fs + 16 ≤ m.realSize := hrest.req_le
  have hfits := hrest.fits
  have hword : word (16 * depth fs + 16) = 16 * depth fs + 16 := by
    apply word_of_le
    unfold userTop at hfits
    omega
  rw [hword]
  refine ⟨⟨?_, Nat.max_le.2 ⟨hroom, hrest.need_le⟩, hrest.aligned, hfits, hrest.null, hrest.mapped, trivial,
    hrest.entries.2.congr (fun j _ => rfl)⟩, rfl⟩
  rw [depth_cons rfl]
  simp only
  omega

theorem pushLoadPtr_ok {r6 : Nat} (h : TopOk page m ⟨toc, lr, .pushLoadPtr r6⟩ fs) :
    TopOk page m ⟨toc, lr, .pushToc (word (m.stackPtr + r6))⟩ fs := by
  obtain ⟨hrest, rfl⟩ := h
  have hroom : 16 * depth fs + 16 ≤ m.realSize := hrest.req_le
  have hfits := hrest.fits
  have hword : word (m.stackPtr + (16 * depth fs + 16)) = m.stackPtr + (16 * depth fs + 16) := by
    apply word_of_le
    unfold userTop at hfits
    omega
  rw [hword]
  exact ⟨hrest.retop rfl hroom trivial, rfl⟩

/-- The addresses of the two stores are those of the slot. -/
theorem slot_addr (hfits : m.stackPtr + m.realSize ≤ userTop) (hroom : 16 * depth fs + 16 ≤ m.realSize) :
    word (m.stackPtr + (16 * depth fs + 16) + 2 ^ 64 - 16) = m.stackPtr + 16 * depth fs ∧
    word (m.stackPtr + (16 * depth fs + 16) + 2 ^ 64 - 8) = m.stackPtr + 16 * depth fs + 8 := by
  unfold userTop at hfits
  rw [word_sub (by omega) (by omega) (by omega), word_sub (by omega) (by omega) (by omega)]
  omega

/-- A store behind the slots of the activations below leaves their entries alone. -/
theorem Entries.std {base a : Nat} {v : Addr} (h : Entries m base fs) (ha : base + 16 * depth fs ≤ a) :
    Entries (m.std a v) base fs := h.congr (fun j hj => Machine.mem_std_of_outside (by omega))

theorem pushToc_ok {r5 : Nat} (h : TopOk page m ⟨toc, lr, .pushToc r5⟩ fs) :
    TopOk page (m.std (word (r5 + 2 ^ 64 - 16)) toc) ⟨toc, lr, .pushLr r5⟩ fs := by
  obtain ⟨hrest, rfl⟩ := h
  have hroom : 16 * depth fs + 16 ≤ m.realSize := hrest.req_le
  have hfits := hrest.fits
  rw [(slot_addr hfits hroom).1]
  exact ⟨⟨hrest.used, Nat.max_le.2 ⟨hroom, hrest.need_le⟩, hrest.aligned, hfits, hrest.null, hrest.mapped,
    Machine.ld_std_same, hrest.entries.2.std (Nat.le_refl _)⟩, rfl⟩

theorem pushLr_ok {r5 : Nat} (h : TopOk page m ⟨toc, lr, .pushLr r5⟩ fs) :
    TopOk page (m.std (word (r5 + 2 ^ 64 - 8)) lr) ⟨toc, lr, .running⟩ fs := by
  obtain ⟨hrest, rfl⟩ := h
  have hroom : 16 * depth fs + 16 ≤ m.realSize := hrest.req_le
  have hfits := hrest.fits
  rw [(slot_addr hfits hroom).2]
  have htoc : (m.std (m.stackPtr + 16 * depth fs + 8) lr).ld (m.stackPtr + 16 * depth fs) = toc := by
    rw [Machine.ld_std_disjoint (Or.inl (Nat.le_refl _))]
    exact hrest.entries.1
  exact ⟨⟨hrest.used, Nat.max_le.2 ⟨hroom, hrest.need_le⟩, hrest.aligned, hfits, hrest.null, hrest.mapped,
    ⟨htoc, Machine.ld_std_same⟩, hrest.entries.2.std (Nat.le_add_right _ _)⟩, trivial⟩

/-! ## Popping -/

/-- The slot is given up, with its pair still in it. -/
theorem popStoreUsed_ok {r6 : Nat} (h : TopOk page m ⟨toc, lr, .popStoreUsed r6⟩ fs) :
    TopOk page { m with usedSize := word (r6 + 2 ^ 64 - 16) } ⟨toc, lr, .popLoadPtr (word (r6 + 2 ^ 64 - 16))⟩ fs := by
  obtain ⟨hrest, rfl⟩ := h
  have hroom : 16 * depth fs + 16 ≤ m.realSize := hrest.req_le
  have hfits := hrest.fits
  have hword : word (16 * depth fs + 16 + 2 ^ 64 - 16) = 16 * depth fs := by
    unfold userTop at hfits
    rw [word_sub (by omega) (by omega) (by omega)]
    omega
  rw [hword]
  exact ⟨⟨rfl, hrest.need_le, hrest.aligned, hfits, hrest.null, hrest.mapped, hrest.entries.2.congr (fun j _ => rfl)⟩,
    ⟨hroom, hrest.entries.1.1, hrest.entries.1.2⟩, rfl⟩

theorem popLoadPtr_ok {r6 : Nat} (h : TopOk page m ⟨toc, lr, .popLoadPtr r6⟩ fs) :
    TopOk page m ⟨toc, lr, .popToc (word (m.stackPtr + r6))⟩ fs := by
  obtain ⟨hrest, hslot, rfl⟩ := h
  refine ⟨hrest, ⟨hslot.room, hslot.toc, hslot.lr⟩, word_of_le ?_⟩
  have hd := hrest.depth_le
  have hfits := hrest.fits
  unfold userTop at hfits
  omega

theorem popToc_ok {r5 : Nat} (h : TopOk page m ⟨toc, lr, .popToc r5⟩ fs) :
    TopOk page m ⟨toc, lr, .popLr r5 (m.ld r5)⟩ fs := by
  obtain ⟨hrest, hslot, rfl⟩ := h
  exact ⟨hrest, ⟨hslot.room, hslot.toc, hslot.lr⟩, rfl, hslot.toc⟩

theorem popLr_ok {r5 : Nat} {r2 : Addr} (h : TopOk page m ⟨toc, lr, .popLr r5 r2⟩ fs) :
    TopOk page m ⟨toc, lr, .popped r2 (m.ld (word (r5 + 8)))⟩ fs := by
  obtain ⟨hrest, hslot, rfl, rfl⟩ := h
  have hroom := hslot.room
  have hfits := hrest.fits
  have hword : word (m.stackPtr + 16 * depth fs + 8) = m.stackPtr + 16 * depth fs + 8 := by
    apply word_of_le
    unfold userTop at hfits
    omega
  rw [hword]
  exact ⟨hrest.above rfl (Nat.zero_le _) trivial, rfl, hslot.lr⟩

/-! ## A step of the thread -/

/-- The turns of `memcpy`, and what comes after them: there is nothing to copy from a buffer that is not there. -/
theorem helperCopy_exec {o old new k : Nat} {ph' : Phase} {m' : Machine} (hfs : FramesOk page m.stackPtr fs)
    (h : TopOk page m ⟨toc, lr, .helperCopy o old new k⟩ fs)
    (hexec : exec page toc lr (.helperCopy o old new k) m = some (ph', m')) :
    FramesOk page m'.stackPtr fs ∧ TopOk page m' ⟨toc, lr, ph'⟩ fs := by
  simp only [exec] at hexec
  split at hexec
  · cases hexec
    obtain ⟨hgrow, hgrown, rfl, hnew, -⟩ := h
    have hnull := hgrow.null ‹_›
    refine ⟨hfs, publish_ok hgrow hgrown rfl rfl hnew (fun j hj => ?_)⟩
    rw [hnull] at hj
    omega
  · split at hexec
    · cases hexec
      exact ⟨hfs, helperCopy_ok h ‹_›⟩
    · cases hexec
      obtain ⟨hgrow, hgrown, hold, hnew, hdisj, hcopied, hk⟩ := h
      exact ⟨hfs, hgrow, hgrown, hold, hnew, hdisj, fun j hj => hcopied j (by omega)⟩

/-- **One instruction keeps the invariant**, if the comparison sends no activation to the helper above a held pointer. -/
theorem exec_ok {ph' : Phase} {m' : Machine} (hp : IsPage page) (hfs : FramesOk page m.stackPtr fs)
    (h : TopOk page m ⟨toc, lr, ph⟩ fs)
    (hguard : ∀ r6 r5, ph = .compare r6 r5 → signed r6 ≤ signed r5 → NoPtr fs)
    (hexec : exec page toc lr ph m = some (ph', m')) :
    FramesOk page m'.stackPtr fs ∧ TopOk page m' ⟨toc, lr, ph'⟩ fs := by
  cases ph with
  | loadReal =>
    cases hexec
    have hfits := h.1.fits
    exact ⟨hfs, h.1.retop rfl (Nat.le_refl _) trivial, h.1.aligned, by omega⟩
  | loadUsed r6 =>
    cases hexec
    have hd : depth (⟨toc, lr, .loadUsed r6⟩ :: fs) = depth fs := rfl
    exact ⟨hfs, h.1.retop rfl h.1.req_le trivial, h.2.1, h.2.2, h.1.used.trans (by rw [hd])⟩
  | compare r6 r5 =>
    cases hexec
    exact ⟨hfs, compare_ok h (hguard r6 r5 rfl)⟩
  | helperStart =>
    cases hexec
    exact ⟨hfs, h.1.retop rfl (Nat.le_refl _) trivial, h.2, h.1.need_le⟩
  | helperAdd o =>
    cases hexec
    exact ⟨hfs, helperAdd_ok hp h⟩
  | helperStoreAdd o size =>
    cases hexec
    exact ⟨hfs, helperStoreAdd_ok h⟩
  | helperDouble o =>
    cases hexec
    exact ⟨hfs, helperDouble_ok hp h⟩
  | helperStoreDouble o size =>
    cases hexec
    exact ⟨hfs, helperStoreDouble_ok h⟩
  | helperOld o =>
    cases hexec
    exact ⟨hfs, h.1, h.2, rfl⟩
  | helperMmap o old => cases hexec
  | helperCopy o old new k => exact helperCopy_exec hfs h hexec
  | helperUnmap o old new =>
    cases hexec
    exact ⟨hfs, helperUnmap_ok h⟩
  | helperPublish new =>
    cases hexec
    exact helperPublish_ok hp hfs h
  | helperReturn =>
    cases hexec
    exact ⟨hfs, h.1.retop rfl h.1.req_le trivial, trivial⟩
  | pushLoadUsed =>
    cases hexec
    have hd : depth (⟨toc, lr, .pushLoadUsed⟩ :: fs) = depth fs := rfl
    exact ⟨hfs, h.1.retop rfl h.1.req_le trivial, h.1.used.trans (by rw [hd])⟩
  | pushStoreUsed r6 =>
    cases hexec
    exact ⟨hfs, pushStoreUsed_ok h⟩
  | pushLoadPtr r6 =>
    cases hexec
    exact ⟨hfs, pushLoadPtr_ok h⟩
  | pushToc r5 =>
    cases hexec
    refine ⟨?_, pushToc_ok h⟩
    rw [Machine.stackPtr_std]
    exact hfs
  | pushLr r5 =>
    cases hexec
    refine ⟨?_, pushLr_ok h⟩
    rw [Machine.stackPtr_std]
    exact hfs
  | running =>
    cases hexec
    exact ⟨hfs, h.1.retop rfl h.1.req_le h.1.entries.1, trivial⟩
  | popLoadUsed =>
    cases hexec
    refine ⟨hfs, h.1.retop rfl h.1.req_le h.1.entries.1, h.1.used.trans ?_⟩
    rw [depth_cons rfl]
    omega
  | popStoreUsed r6 =>
    cases hexec
    exact ⟨hfs, popStoreUsed_ok h⟩
  | popLoadPtr r6 =>
    cases hexec
    exact ⟨hfs, popLoadPtr_ok h⟩
  | popToc r5 =>
    cases hexec
    exact ⟨hfs, popToc_ok h⟩
  | popLr r5 r2 =>
    cases hexec
    exact ⟨hfs, popLr_ok h⟩
  | popped r2 r8 => cases hexec

/-- An activation that is not exposed leaves the words and the buffer at rest. -/
theorem TopOk.calm {f : Frame} (h : TopOk page m f fs) (hexp : f.phase.exposed = false) :
    Rest m (f :: fs) ∧ FrameOk page m.stackPtr f fs := by
  obtain ⟨toc, lr, ph⟩ := f
  cases ph <;> first | exact h | cases hexp

theorem TopOk.of_calm {f : Frame} (h : Rest m (f :: fs)) (hok : FrameOk page m.stackPtr f fs) : TopOk page m f fs := by
  obtain ⟨toc, lr, ph⟩ := f
  cases ph <;> first | exact ⟨h, hok⟩ | exact hok.elim

section Other

variable {mem : Nat → Byte} (hmem : ∀ x, m.mapped x = true → mem x = m.mem x)

include hmem

theorem Rest.other (h : Rest m fs) : Rest { m with mem := mem } fs := by
  have hd := h.depth_le
  exact ⟨h.used, h.room, h.aligned, h.fits, h.null, h.mapped,
    h.entries.congr (fun j hj => hmem _ (h.mapped j (by omega)))⟩

theorem Grow.other {o : Nat} (h : Grow m o fs) : Grow { m with mem := mem } o fs := by
  have hd := depth_le_need fs
  have hneed := h.need
  exact ⟨h.used, h.noPtr, h.need, h.fits, h.null, h.mapped, h.entries.congr (fun j hj => hmem _ (h.mapped j (by omega)))⟩

theorem Slot.other {f : Frame} (h : Slot m f fs) (hrest : Rest m fs) : Slot { m with mem := mem } f fs := by
  have hroom := h.room
  refine ⟨hroom, Eq.trans (Machine.ld_congr (fun i hi => ?_)) h.toc, Eq.trans (Machine.ld_congr (fun i hi => ?_)) h.lr⟩
  · rw [Nat.add_assoc]
    exact hmem _ (hrest.mapped _ (by omega))
  · rw [Nat.add_assoc, Nat.add_assoc]
    exact hmem _ (hrest.mapped _ (by omega))

/-- The bytes that are copied are mapped, on both sides. -/
theorem copied_other {o new k : Nat} (hgrow : Grow m o fs) (hnew : NewBuffer m new) (hk : k ≤ o) (ho : o ≤ m.realSize)
    (h : ∀ j < k, m.mem (new + j) = m.mem (m.stackPtr + j)) : ∀ j < k, mem (new + j) = mem (m.stackPtr + j) := by
  intro j hj
  rw [hmem _ (hnew.mapped j (by omega)), hmem _ (hgrow.mapped j (by omega)), h j hj]

/-- Nothing that an activation relies on is outside the mapped pages. -/
theorem TopOk.other {f : Frame} (h : TopOk page m f fs) : TopOk page { m with mem := mem } f fs := by
  obtain ⟨toc, lr, ph⟩ := f
  cases ph with
  | helperDouble o => exact ⟨h.1.other hmem, h.2⟩
  | helperStoreDouble o size => exact ⟨h.1.other hmem, h.2⟩
  | helperOld o => exact ⟨h.1.other hmem, h.2⟩
  | helperMmap o old => exact ⟨h.1.other hmem, h.2⟩
  | helperCopy o old new k =>
    obtain ⟨hgrow, hgrown, rfl, hnew, hdisj, hcopied, hk⟩ := h
    have hsize := hgrown.1
    exact ⟨hgrow.other hmem, hgrown, rfl, ⟨hnew.nonnull, hnew.fits, hnew.mapped⟩, hdisj,
      copied_other hmem hgrow hnew hk (by omega) hcopied, hk⟩
  | helperUnmap o old new =>
    obtain ⟨hgrow, hgrown, rfl, hnew, hdisj, hcopied⟩ := h
    have hsize := hgrown.1
    exact ⟨hgrow.other hmem, hgrown, rfl, ⟨hnew.nonnull, hnew.fits, hnew.mapped⟩, hdisj,
      copied_other hmem hgrow hnew (Nat.le_refl o) (by omega) hcopied⟩
  | helperPublish new =>
    obtain ⟨hused, hno, hnew, hroom, haligned, hentries⟩ := h
    have hd := depth_le_need fs
    exact ⟨hused, hno, ⟨hnew.nonnull, hnew.fits, hnew.mapped⟩, hroom, haligned,
      hentries.congr (fun j hj => hmem _ (hnew.mapped j (by omega)))⟩
  | popLoadPtr r6 => exact ⟨h.1.other hmem, h.2.1.other hmem h.1, h.2.2⟩
  | popToc r5 => exact ⟨h.1.other hmem, h.2.1.other hmem h.1, h.2.2⟩
  | popLr r5 r2 => exact ⟨h.1.other hmem, h.2.1.other hmem h.1, h.2.2⟩
  | _ => exact ⟨h.1.other hmem, h.2⟩

end Other

/-- **A step that keeps out keeps the invariant.** -/
theorem act_ok {s t : Thread} {a : Action} (hp : IsPage page) (hinv : Inv page s) (hout : KeepsOut s a)
    (hact : act page a s = some t) : Inv page t := by
  obtain ⟨m, frames⟩ := s
  cases a with
  | call toc lr =>
    cases hact
    cases frames with
    | nil => exact ⟨trivial, Rest.above hinv rfl (Nat.zero_le _) trivial, trivial⟩
    | cons f fs =>
      obtain ⟨hrest, hok⟩ := hinv.2.calm (hout f rfl)
      exact ⟨⟨hok, hinv.1⟩, hrest.above rfl (Nat.zero_le _) trivial, trivial⟩
  | instruction =>
    cases frames with
    | nil => cases hact
    | cons f fs =>
      obtain ⟨toc, lr, ph⟩ := f
      obtain ⟨⟨ph', m'⟩, hexec, rfl⟩ := Option.map_eq_some_iff.1 hact
      have hguard : ∀ r6 r5, ph = .compare r6 r5 → signed r6 ≤ signed r5 → NoPtr fs := by
        intro r6 r5 hph hle
        subst hph
        exact hout _ rfl (decide_eq_true hle)
      exact exec_ok hp hinv.1 hinv.2 hguard hexec
  | mmap new =>
    simp only [act] at hact
    split at hact
    · split at hact
      · cases hact
        rename_i hnew
        exact ⟨hinv.1, mmap_ok hinv.2 hnew.1 hnew.2.1 hnew.2.2⟩
      · cases hact
    · cases hact
  | ret =>
    simp only [act] at hact
    split at hact
    · rename_i fs
      cases hact
      have hrest : Rest m fs := hinv.2.1.below rfl
      cases fs with
      | nil => exact hrest
      | cons g gs => exact ⟨hinv.1.2, TopOk.of_calm hrest hinv.1.1⟩
    · cases hact
  | other mem =>
    cases hact
    have hmem : ∀ x, m.mapped x = true → (if m.mapped x then m.mem x else mem x) = m.mem x := by
      intro x hx
      exact if_pos hx
    cases frames with
    | nil => exact Rest.other hmem hinv
    | cons f fs => exact ⟨hinv.1, hinv.2.other hmem⟩

/-! ## Whole runs -/

theorem inv_start : Inv page Thread.start :=
  ⟨rfl, Nat.le_refl _, rfl, by decide, fun _ => rfl, fun j hj => absurd hj (Nat.not_lt_zero j), trivial⟩

theorem inv_run {page : PageSize} {s : Thread} (h : ReflTransGen (SafeStep page) .start s) : Inv page.val s := by
  induction h with
  | refl => exact inv_start
  | tail _ hstep ih =>
    obtain ⟨a, hout, hact⟩ := hstep
    exact act_ok page.property ih hout hact

theorem FramesOk.popped {ptr : Nat} : ∀ {fs : List Frame}, FramesOk page ptr fs →
    ∀ f ∈ fs, ∀ r2 r8, f.phase = .popped r2 r8 → r2 = f.toc ∧ r8 = f.lr
  | [], _, f, hf, _, _, _             => by cases hf
  | ⟨_, _, _⟩ :: fs, h, f, hf, r2, r8, hph => by
    cases hf with
    | head =>
      cases hph
      exact h.1
    | tail _ hmem => exact h.2.popped f hmem r2 r8 hph

/-- The sizes are right wherever the activation is. -/
theorem TopOk.sizes {f : Frame} (h : TopOk page m f fs) : m.usedSize % 16 = 0 ∧ m.usedSize ≤ m.realSize := by
  have hcalm : ∀ gs, Rest m gs → m.usedSize % 16 = 0 ∧ m.usedSize ≤ m.realSize := by
    intro gs hrest
    have hd := hrest.depth_le
    rw [hrest.used]
    omega
  have hgrow : ∀ o, Grow m o fs → o ≤ m.realSize → m.usedSize % 16 = 0 ∧ m.usedSize ≤ m.realSize := by
    intro o hg ho
    have hd := depth_le_need fs
    have hneed := hg.need
    rw [hg.used]
    omega
  obtain ⟨toc, lr, ph⟩ := f
  cases ph with
  | helperDouble o => exact hgrow o h.1 (Nat.le_trans (Nat.le_add_right _ _) h.2.1)
  | helperStoreDouble o size => exact hgrow o h.1 (Nat.le_trans (Nat.le_add_right _ _) h.2.1)
  | helperOld o =>
    have := h.2.1
    exact hgrow o h.1 (by omega)
  | helperMmap o old =>
    have := h.2.1.1
    exact hgrow o h.1 (by omega)
  | helperCopy o old new k =>
    have := h.2.1.1
    exact hgrow o h.1 (by omega)
  | helperUnmap o old new =>
    have := h.2.1.1
    exact hgrow o h.1 (by omega)
  | helperPublish new =>
    obtain ⟨hused, -, -, hroom, -⟩ := h
    have hd := depth_le_need fs
    rw [hused]
    omega
  | popLoadPtr r6 => exact hcalm fs h.1
  | popToc r5 => exact hcalm fs h.1
  | popLr r5 r2 => exact hcalm fs h.1
  | _ => exact hcalm _ h.1

/-- The two stores go into the slot that is taken. -/
theorem Rest.slot_inside {k : Nat} {f : Frame} (h : Rest m (f :: fs)) (hroom : 16 * depth fs + 16 ≤ m.realSize)
    (hk : k + 8 ≤ 16) : Inside m m.stackPtr (m.stackPtr + 16 * depth fs + k) 8 := by
  refine ⟨by omega, by omega, fun i hi => ?_⟩
  rw [Nat.add_assoc, Nat.add_assoc]
  exact h.mapped _ (by omega)

theorem pushToc_inside {r5 : Nat} (h : TopOk page m ⟨toc, lr, .pushToc r5⟩ fs) :
    Inside m m.stackPtr (word (r5 + 2 ^ 64 - 16)) 8 := by
  obtain ⟨hrest, rfl⟩ := h
  have hroom : 16 * depth fs + 16 ≤ m.realSize := hrest.req_le
  rw [(slot_addr hrest.fits hroom).1]
  exact hrest.slot_inside hroom (Nat.le_add_left 8 8)

theorem pushLr_inside {r5 : Nat} (h : TopOk page m ⟨toc, lr, .pushLr r5⟩ fs) :
    Inside m m.stackPtr (word (r5 + 2 ^ 64 - 8)) 8 := by
  obtain ⟨hrest, rfl⟩ := h
  have hroom : 16 * depth fs + 16 ≤ m.realSize := hrest.req_le
  rw [(slot_addr hrest.fits hroom).2]
  exact hrest.slot_inside hroom (Nat.le_refl 16)

theorem helperCopy_inside {o old new k : Nat} (h : TopOk page m ⟨toc, lr, .helperCopy o old new k⟩ fs) (hk : k < o) :
    Inside m new (new + k) 1 := by
  obtain ⟨-, hgrown, -, hnew, -⟩ := h
  have hsize := hgrown.1
  refine ⟨Nat.le_add_right _ _, by omega, fun i hi => ?_⟩
  rw [Nat.add_assoc]
  exact hnew.mapped _ (by omega)

/-- **The invariant gives a correct stack.** -/
theorem Inv.sound {s : Thread} (h : Inv page s) : Sound s := by
  obtain ⟨m, frames⟩ := s
  cases frames with
  | nil =>
    have hused : m.usedSize = 16 * depth [] := Rest.used h
    have hsizes : m.usedSize % 16 = 0 ∧ m.usedSize ≤ m.realSize := by
      rw [hused]
      exact ⟨rfl, Nat.zero_le _⟩
    exact ⟨fun f hf => (by cases hf), hsizes, fun f fs r5 hframes => (by cases hframes),
      fun f fs r5 hframes => (by cases hframes), fun f fs o old new k hframes => (by cases hframes),
      fun f fs new hframes => (by cases hframes)⟩
  | cons f fs =>
    obtain ⟨toc, lr, ph⟩ := f
    obtain ⟨hfs, htop⟩ := h
    refine ⟨?_, htop.sizes, ?_, ?_, ?_, ?_⟩
    · intro g hg r2 r8 hph
      cases hg with
      | head =>
        cases hph
        exact htop.2
      | tail _ hmem => exact hfs.popped g hmem r2 r8 hph
    · intro g gs r5 hframes hph
      cases hframes
      cases hph
      exact pushToc_inside htop
    · intro g gs r5 hframes hph
      cases hframes
      cases hph
      exact pushLr_inside htop
    · intro g gs o old new k hframes hph hnull hk
      cases hframes
      cases hph
      exact helperCopy_inside htop hk
    · intro g gs new hframes hph
      cases hframes
      cases hph
      exact htop.2.2.2.2.2

/-- **Handlers that keep out find a correct stack**, in every run of the thread from its start. -/
theorem sideStack_sound (page : PageSize) (s : Thread) (h : ReflTransGen (SafeStep page) .start s) : Sound s :=
  (inv_run h).sound

/-! ## Two runs -/

/-- The run of a list of actions that pass `ok`. -/
def script (ok : Thread → Action → Bool) (page : Nat) : List Action → Thread → Option Thread
  | [], s      => some s
  | a :: as, s => if ok s a then (act page a s).bind (script ok page as) else none

theorem script_run {ok : Thread → Action → Bool} {R : Thread → Thread → Prop}
    (hR : ∀ s a t, ok s a = true → act page a s = some t → R s t) :
    ∀ {as : List Action} {s t : Thread}, script ok page as s = some t → ReflTransGen R s t
  | [], s, t, h      => by
    cases h
    exact .refl
  | a :: as, s, t, h => by
    unfold script at h
    split at h
    · rename_i hok
      obtain ⟨u, hact, hrest⟩ := Option.bind_eq_some_iff.1 h
      exact .head (hR s a u hok hact) (script_run hR hrest)
    · cases h

theorem act_mmap {new o old : Nat} (hnull : new ≠ 0) (hfits : new + m.realSize ≤ userTop)
    (hfresh : ∀ j < m.realSize, m.mapped (new + j) = false) :
    act page (.mmap new) ⟨m, ⟨toc, lr, .helperMmap o old⟩ :: fs⟩ =
      some ⟨m.mmap new m.realSize, ⟨toc, lr, .helperCopy o old new 0⟩ :: fs⟩ := by
  simp only [act]
  rw [if_pos ⟨hnull, hfits, hfresh⟩]

/-- A call with TOC 1 and LR 2, up to its `mmap`. -/
def firstCall : List Action := .call 1 2 :: List.replicate 9 .instruction

/-- The state there, and the one after it with the buffer at 65536. -/
def beforeMmap : Thread := ⟨⟨8192, 0, 0, fun _ => false, fun _ => 0⟩, [⟨1, 2, .helperMmap 0 0⟩]⟩

def afterMmap : Thread := ⟨beforeMmap.machine.mmap 65536 8192, [⟨1, 2, .helperCopy 0 0 65536 0⟩]⟩

theorem firstCall_mmap : act 4096 (.mmap 65536) beforeMmap = some afterMmap := by
  apply act_mmap (by decide)
  · simp only [userTop]
    omega
  · intro j hj
    rfl

/-- A call of a handler from its start to its return, when there is room for its pair. -/
def handlerCall : List Action := .call 3 4 :: List.replicate 14 .instruction ++ [.ret]

/-- What is left of a run once the first call has its buffer. -/
theorem firstCall_run {ok : Thread → Action → Bool} {R : Thread → Thread → Prop} {as : List Action} {frames : List Frame}
    (hR : ∀ s a t, ok s a = true → act 4096 a s = some t → R s t) (hmmap : ok beforeMmap (.mmap 65536) = true)
    (hfirst : script ok 4096 firstCall .start = some beforeMmap)
    (hrun : (script ok 4096 as afterMmap).map (fun t => t.frames) = some frames) :
    ∃ t, ReflTransGen R .start t ∧ t.frames = frames := by
  obtain ⟨t, hscript, hframes⟩ := Option.map_eq_some_iff.1 hrun
  have htail : ReflTransGen R beforeMmap t := .head (hR _ _ _ hmmap firstCall_mmap) (script_run hR hscript)
  exact ⟨t, (script_run hR hfirst).trans htail, hframes⟩

/-- A handler's call that interrupts the first one behind the store to `used_size` leaves it its pair. -/
theorem sideStack_sound_handler : ∃ t, ReflTransGen (SafeStep ⟨4096, Or.inl rfl⟩) .start t ∧
    t.frames = [⟨1, 2, .popped 1 2⟩] ∧ Sound t := by
  obtain ⟨t, hrun, hframes⟩ := @firstCall_run (fun s a => decide (KeepsOut s a)) (SafeStep ⟨4096, Or.inl rfl⟩)
    (List.replicate 5 .instruction ++ handlerCall ++ List.replicate 9 .instruction) [⟨1, 2, .popped 1 2⟩]
    (fun s a t hok hact => ⟨a, of_decide_eq_true hok, hact⟩) rfl rfl (by decide +kernel)
  exact ⟨t, hrun, hframes, sideStack_sound _ t hrun⟩

/-- **A handler's call between the two halves of a pop takes the slot**: the call with TOC 1 and LR 2 returns with 3 and
4. -/
theorem pop_overwritten : ¬ ∀ (page : PageSize) (s : Thread), ReflTransGen (Step page) .start s → Sound s := by
  intro h
  obtain ⟨t, hrun, hframes⟩ := @firstCall_run (fun _ _ => true) (Step ⟨4096, Or.inl rfl⟩)
    (List.replicate 11 .instruction ++ handlerCall ++ List.replicate 3 .instruction) [⟨1, 2, .popped 3 4⟩]
    (fun s a t _ hact => ⟨a, hact⟩) rfl rfl (by decide +kernel)
  have hsound := (h _ t hrun).popped ⟨1, 2, .popped 3 4⟩ (by rw [hframes]; exact List.mem_cons_self) 3 4 rfl
  exact absurd hsound.1 (by decide)

end SideStack
end Libpulp
