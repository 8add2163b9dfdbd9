import Libpulp.Interpret
import Libpulp.Maps
/-!
# Protect — a WRITE in the process itself keeps page protections (lib/insn_queue.c)

The library's `insn_interpret_write` makes the pages of a WRITE writable, writes, and takes the protections back.  Its
range goes up to the page of the byte after the last one, and it returns from each of its three loops at the first
failure.  Between two `mprotect` calls the table of protections is the old one with some of these pages raised
(`raise`): the first ones while pages are made writable, the last ones while they are taken back.
-/
namespace Libpulp

open Bytes (Byte Addr Mem)

/-- The protection of each page, `none` where nothing is mapped. -/
abbrev PageTable := Addr → Option Nat

/-- The process around a WRITE: its mappings, how `/proc/self/maps` can be read for each page, what the buffer for a line
holds before, which `mprotect` calls succeed, and `errno`.  Pages have `2 ^ pageShift` bytes. -/
structure Patcher where
  pageShift : Nat
  small     : 12 ≤ pageShift
  large     : pageShift < 31
  vmas      : List Vma
  access    : Nat → MapsAccess
  stale     : List Byte
  mprotect  : Nat → Bool
  errno     : Int

namespace Patcher

def pageSize (p : Patcher) : Addr := BitVec.ofNat 64 (2 ^ p.pageShift)

def table (p : Patcher) : PageTable := protOf p.vmas

/-- `memory_protection_get` for the page with index `i`. -/
def get (p : Patcher) (i : Nat) (page : Addr) : Option Nat :=
  memoryProtectionGet (p.access i) p.stale (p.vmas.map mapsLine) page

/-- An address and the page mask. -/
def pageOf (p : Patcher) (a : Addr) : Addr := a - a % p.pageSize

/-- The pages that `insn_interpret_write` goes over. -/
def pages (p : Patcher) (address : Addr) (n : Nat) : List Addr :=
  let page1 := p.pageOf address
  let pagen := p.pageOf (address + BitVec.ofNat 64 n)
  (List.range (1 + ((pagen - page1) / p.pageSize).toNat)).map (fun i => page1 + BitVec.ofNat 64 i * p.pageSize)

end Patcher

/-- The first loop, from index `i` on. -/
def getProtections (get : Nat → Addr → Option Nat) : Nat → List Addr → Option (List Nat)
  | _, []            => some []
  | i, page :: pages => (get i page).bind (fun prot => (getProtections get (i + 1) pages).map (prot :: ·))

/-- The second and the third loop, from the `i`-th `mprotect` call on: the tables after each call, and whether all
succeeded. -/
def mprotectEach (ok : Nat → Bool) : Nat → List (Addr × Nat) → PageTable → List PageTable × Bool
  | _, [], _                   => ([], true)
  | i, (page, prot) :: rest, t =>
    if ok i then
      let t' := Function.update t page (some prot)
      (t' :: (mprotectEach ok (i + 1) rest t').1, (mprotectEach ok (i + 1) rest t').2)
    else ([], false)

/-- The table after a list of changes. -/
def lastTable (t : PageTable) (ts : List PageTable) : PageTable := ts.getLast?.getD t

/-- What a WRITE comes to: the tables after each change, memory, what is returned (`none` for the size of the
instruction), and whether an `mprotect` call failed. -/
structure WriteRun where
  tables         : List PageTable
  mem            : Mem
  ret            : Option Int
  mprotectFailed : Bool

/-- The library's `insn_interpret_write`; `PROT_WRITE` is 2. -/
def insnInterpretWrite (p : Patcher) (address : Addr) (bytes : List Byte) (mem : Mem) : WriteRun :=
  let pages := p.pages address bytes.length
  match getProtections p.get 0 pages with
  | none       => ⟨[], mem, some p.errno, false⟩
  | some prots =>
    let first := mprotectEach p.mprotect 0 (pages.zip (prots.map (· ||| 2))) p.table
    if first.2 then
      let last := mprotectEach p.mprotect pages.length (pages.zip prots) (lastTable p.table first.1)
      ⟨first.1 ++ last.1, mem.write address bytes, if last.2 then none else some p.errno, !last.2⟩
    else ⟨first.1, mem, some p.errno, true⟩

/-! ## What a WRITE promises -/

/-- The page holds a byte that is written. -/
def Target (p : Patcher) (address : Addr) (n : Nat) (page : Addr) : Prop :=
  ∃ i < n, page = p.pageOf (address + BitVec.ofNat 64 i)

/-- **What a WRITE promises about protections**: it succeeds when the pages it writes to are mapped and no `mprotect`
fails, it changes no other page, and at the end all pages are as before. -/
structure KeepsProtections (p : Patcher) (address : Addr) (bytes : List Byte) (mem : Mem) : Prop where
  succeeds : (∀ page, Target p address bytes.length page → p.table page ≠ none) →
    (insnInterpretWrite p address bytes mem).ret = none ∧
        (insnInterpretWrite p address bytes mem).mem = mem.write address bytes ∨
      (insnInterpretWrite p address bytes mem).mprotectFailed = true
  others   : ∀ t ∈ (insnInterpretWrite p address bytes mem).tables, ∀ page, ¬ Target p address bytes.length page →
    t page = p.table page
  restored : lastTable p.table (insnInterpretWrite p address bytes mem).tables = p.table

/-- The page can be written to as it is. -/
def Writable (p : Patcher) (page : Addr) : Prop := ∀ prot, p.table page = some prot → prot ||| 2 = prot

/-- Every page of the range is shown by `/proc/self/maps`. -/
def AllFound (p : Patcher) (address : Addr) (n : Nat) : Prop :=
  ∀ i page, (p.pages address n)[i]? = some page → Found (p.access i) p.vmas page

/-- If the write ends with a page, the page after it is writable or one is refused before it. -/
def EndKept (p : Patcher) (address : Addr) (n : Nat) : Prop :=
  (address.toNat + n) % 2 ^ p.pageShift = 0 →
    Writable p (p.pageOf (address + BitVec.ofNat 64 n)) ∨ ∃ i < (p.pages address n).length, p.mprotect i = false

/-- When an `mprotect` call is the first to fail, the pages made writable and not taken back by then were writable. -/
def FailureKept (p : Patcher) (address : Addr) (n : Nat) : Prop :=
  ∀ j < 2 * (p.pages address n).length, p.mprotect j = false → (∀ i < j, p.mprotect i = true) →
    ∀ i page, (p.pages address n)[i]? = some page →
      (if j < (p.pages address n).length then i < j else j - (p.pages address n).length ≤ i) → Writable p page

/-! ## Pages -/

section Pages

variable (p : Patcher)

theorem pageSize_toNat : p.pageSize.toNat = 2 ^ p.pageShift := by
  have hlt : 2 ^ p.pageShift < 2 ^ 64 := Nat.pow_lt_pow_right (by decide) (by have := p.large; omega)
  rw [Patcher.pageSize, BitVec.toNat_ofNat, Nat.mod_eq_of_lt hlt]

theorem pageOf_eq (a : Addr) : p.pageOf a = a - BitVec.ofNat 64 (a.toNat % 2 ^ p.pageShift) := by
  have hm : a % p.pageSize = BitVec.ofNat 64 (a.toNat % 2 ^ p.pageShift) := by
    apply BitVec.eq_of_toNat_eq
    have hlt : a.toNat % 2 ^ p.pageShift < 2 ^ 64 := Nat.lt_of_le_of_lt (Nat.mod_le _ _) a.isLt
    rw [BitVec.toNat_umod, pageSize_toNat, BitVec.toNat_ofNat, Nat.mod_eq_of_lt hlt]
  rw [Patcher.pageOf, hm]

/-- The page of a byte is counted from the page of the first. -/
theorem pageOf_add (a : Addr) {i : Nat} (hi : i < 2 ^ 32) : p.pageOf (a + BitVec.ofNat 64 i) =
    p.pageOf a + BitVec.ofNat 64 ((a.toNat % 2 ^ p.pageShift + i) / 2 ^ p.pageShift * 2 ^ p.pageShift) := by
  have hdvd : 2 ^ p.pageShift ∣ 2 ^ 64 := Nat.pow_dvd_pow 2 (by have := p.large; omega)
  have hmod : (a + BitVec.ofNat 64 i).toNat % 2 ^ p.pageShift =
      (a.toNat % 2 ^ p.pageShift + i) % 2 ^ p.pageShift := by
    rw [BitVec.toNat_add, Nat.mod_mod_of_dvd _ hdvd, BitVec.toNat_ofNat, Nat.mod_eq_of_lt (by omega : i < 2 ^ 64),
      Nat.mod_add_mod]
  have hdiv := Nat.div_add_mod' (a.toNat % 2 ^ p.pageShift + i) (2 ^ p.pageShift)
  have hr : a.toNat % 2 ^ p.pageShift ≤ a.toNat := Nat.mod_le _ _
  have hlt := a.isLt
  rw [pageOf_eq, pageOf_eq, hmod]
  generalize (a.toNat % 2 ^ p.pageShift + i) / 2 ^ p.pageShift * 2 ^ p.pageShift = q at hdiv ⊢
  generalize (a.toNat % 2 ^ p.pageShift + i) % 2 ^ p.pageShift = m at hdiv ⊢
  generalize a.toNat % 2 ^ p.pageShift = r at hdiv hr ⊢
  bv_omega

/-- The page with index `i` of a WRITE. -/
def pageAt (address : Addr) (i : Nat) : Addr := p.pageOf address + BitVec.ofNat 64 (i * 2 ^ p.pageShift)

/-- The index of the last page of the range. -/
def lastIndex (address : Addr) (n : Nat) : Nat := (address.toNat % 2 ^ p.pageShift + n) / 2 ^ p.pageShift

variable {p}

theorem lastIndex_mul_le (address : Addr) {n : Nat} (hn : n < 2 ^ 32) :
    lastIndex p address n * 2 ^ p.pageShift < 2 ^ 33 := by
  have h₁ : lastIndex p address n * 2 ^ p.pageShift ≤ address.toNat % 2 ^ p.pageShift + n := Nat.div_mul_le_self _ _
  have h₂ : address.toNat % 2 ^ p.pageShift < 2 ^ p.pageShift := Nat.mod_lt _ (Nat.two_pow_pos _)
  have h₃ : 2 ^ p.pageShift < 2 ^ 31 := Nat.pow_lt_pow_right (by decide) p.large
  omega

theorem pages_eq {address : Addr} {n : Nat} (hn : n < 2 ^ 32) :
    p.pages address n = (List.range (1 + lastIndex p address n)).map (pageAt p address) := by
  have hlt := lastIndex_mul_le (p := p) address hn
  have hsub : p.pageOf (address + BitVec.ofNat 64 n) - p.pageOf address =
      BitVec.ofNat 64 (lastIndex p address n * 2 ^ p.pageShift) := by
    rw [pageOf_add p address hn, BitVec.add_comm, BitVec.add_sub_cancel]
    rfl
  have hdiv : ((p.pageOf (address + BitVec.ofNat 64 n) - p.pageOf address) / p.pageSize).toNat =
      lastIndex p address n := by
    rw [hsub, BitVec.toNat_udiv, pageSize_toNat, BitVec.toNat_ofNat, Nat.mod_eq_of_lt (by omega),
      Nat.mul_div_cancel _ (Nat.two_pow_pos _)]
  unfold Patcher.pages
  simp only [hdiv]
  apply List.map_congr_left
  intro i _
  rw [pageAt, Patcher.pageSize, BitVec.ofNat_mul]

theorem length_pages {address : Addr} {n : Nat} (hn : n < 2 ^ 32) :
    (p.pages address n).length = 1 + lastIndex p address n := by
  rw [pages_eq hn, List.length_map, List.length_range]

theorem pages_getElem? {address : Addr} {n : Nat} (hn : n < 2 ^ 32) (i : Nat) (page : Addr) :
    (p.pages address n)[i]? = some page ↔ i ≤ lastIndex p address n ∧ page = pageAt p address i := by
  rw [pages_eq hn, List.getElem?_map]
  by_cases hi : i < 1 + lastIndex p address n
  · rw [List.getElem?_range hi, Option.map_some, Option.some.injEq]
    exact ⟨fun h => ⟨by omega, h.symm⟩, fun h => h.2.symm⟩
  · rw [List.getElem?_eq_none (by rw [List.length_range]; omega), Option.map_none]
    exact ⟨fun h => (by cases h), fun h => absurd h.1 (by omega)⟩

theorem pageAt_inj {address : Addr} {n i j : Nat} (hn : n < 2 ^ 32) (hi : i ≤ lastIndex p address n)
    (hj : j ≤ lastIndex p address n) (h : pageAt p address i = pageAt p address j) : i = j := by
  have hlt := lastIndex_mul_le (p := p) address hn
  have hi' : i * 2 ^ p.pageShift ≤ lastIndex p address n * 2 ^ p.pageShift := Nat.mul_le_mul_right _ hi
  have hj' : j * 2 ^ p.pageShift ≤ lastIndex p address n * 2 ^ p.pageShift := Nat.mul_le_mul_right _ hj
  have heq : i * 2 ^ p.pageShift = j * 2 ^ p.pageShift := by
    unfold pageAt at h
    generalize i * 2 ^ p.pageShift = a at h hi' ⊢
    generalize j * 2 ^ p.pageShift = b at h hj' ⊢
    bv_omega
  exact Nat.eq_of_mul_eq_mul_right (Nat.two_pow_pos _) heq

theorem nodup_pages {address : Addr} {n : Nat} (hn : n < 2 ^ 32) : (p.pages address n).Nodup := by
  rw [pages_eq hn]
  refine List.Nodup.map_on (fun i hi j hj h => ?_) List.nodup_range
  rw [List.mem_range] at hi hj
  exact pageAt_inj hn (by omega) (by omega) h

/-- The pages that hold a byte that is written are those up to the page of the last one. -/
theorem target_iff {address : Addr} {n : Nat} (h1 : 1 ≤ n) (hn : n < 2 ^ 32) (page : Addr) :
    Target p address n page ↔ ∃ i ≤ lastIndex p address (n - 1), page = pageAt p address i := by
  have hpos : 0 < 2 ^ p.pageShift := Nat.two_pow_pos _
  have hr : address.toNat % 2 ^ p.pageShift < 2 ^ p.pageShift := Nat.mod_lt _ hpos
  unfold Target lastIndex pageAt
  constructor
  · rintro ⟨i, hi, rfl⟩
    exact ⟨_, Nat.div_le_div_right (by omega), pageOf_add p address (by omega)⟩
  · rintro ⟨i, hi, rfl⟩
    have hmul : i * 2 ^ p.pageShift ≤ address.toNat % 2 ^ p.pageShift + (n - 1) := (Nat.le_div_iff_mul_le hpos).1 hi
    -- the first byte of the page, or the first byte of all
    refine ⟨i * 2 ^ p.pageShift - address.toNat % 2 ^ p.pageShift, by omega, ?_⟩
    have hidx : (address.toNat % 2 ^ p.pageShift + (i * 2 ^ p.pageShift - address.toNat % 2 ^ p.pageShift)) /
        2 ^ p.pageShift = i := by
      rcases Nat.eq_zero_or_pos i with rfl | hi0
      · rw [Nat.zero_mul, Nat.zero_sub, Nat.add_zero, Nat.div_eq_of_lt hr]
      · have : 2 ^ p.pageShift ≤ i * 2 ^ p.pageShift := Nat.le_mul_of_pos_left _ hi0
        rw [Nat.add_sub_cancel' (by omega), Nat.mul_div_cancel _ hpos]
    rw [pageOf_add p address (by omega), hidx]

/-- One page of the range holds no byte that is written exactly when the write ends with a page. -/
theorem lastIndex_pred {address : Addr} {n : Nat} (h1 : 1 ≤ n) :
    lastIndex p address (n - 1) =
      if (address.toNat + n) % 2 ^ p.pageShift = 0 then lastIndex p address n - 1 else lastIndex p address n := by
  have hpos : 0 < 2 ^ p.pageShift := Nat.two_pow_pos _
  have hmod : (address.toNat + n) % 2 ^ p.pageShift = (address.toNat % 2 ^ p.pageShift + n) % 2 ^ p.pageShift := by
    rw [Nat.mod_add_mod]
  unfold lastIndex
  rw [hmod]
  generalize 2 ^ p.pageShift = s at hpos ⊢
  generalize address.toNat % s = r
  have hsucc : r + n = r + (n - 1) + 1 := by omega
  rw [hsucc, Nat.succ_div]
  split
  · rename_i hd
    rw [if_pos (Nat.dvd_of_mod_eq_zero hd), Nat.add_sub_cancel]
  · rename_i hd
    rw [if_neg (fun h => hd (Nat.mod_eq_zero_of_dvd h)), Nat.add_zero]

theorem pageOf_end {address : Addr} {n : Nat} (hn : n < 2 ^ 32) :
    p.pageOf (address + BitVec.ofNat 64 n) = pageAt p address (lastIndex p address n) := pageOf_add p address hn

end Pages

/-! ## Loops -/

/-- The table with some pages made writable. -/
def raise (pages : List Addr) (t : PageTable) : PageTable :=
  fun page => if page ∈ pages then (t page).map (· ||| 2) else t page

/-- One successful `mprotect` call. -/
def setProt (t : PageTable) (x : Addr × Nat) : PageTable := Function.update t x.1 (some x.2)

/-- **A loop of `mprotect` calls** goes on to the first call that fails. -/
theorem mprotectEach_spec (ok : Nat → Bool) : ∀ (xs : List (Addr × Nat)) (i : Nat) (t : PageTable), ∃ k ≤ xs.length,
    (mprotectEach ok i xs t).1 = (List.range k).map (fun j => (xs.take (j + 1)).foldl setProt t) ∧
      (mprotectEach ok i xs t).2 = decide (k = xs.length) ∧ (∀ j < k, ok (i + j) = true) ∧
        (k < xs.length → ok (i + k) = false)
  | [], _, _      => ⟨0, Nat.le_refl _, rfl, rfl, (fun j hj => by omega), fun h => absurd h (by simp)⟩
  | x :: xs, i, t => by
    rw [mprotectEach]
    by_cases hok : ok i = true
    · rw [if_pos hok]
      obtain ⟨k, hk, h₁, h₂, h₃, h₄⟩ := mprotectEach_spec ok xs (i + 1) (setProt t x)
      refine ⟨k + 1, by simpa using hk, ?_, ?_, fun j hj => ?_, fun h => ?_⟩
      · rw [List.range_succ_eq_map, List.map_cons, List.map_map]
        exact congrArg (setProt t x :: ·) h₁
      · refine h₂.trans ?_
        simp
      · cases j with
        | zero => exact hok
        | succ j =>
          have := h₃ j (by omega)
          rwa [Nat.add_right_comm] at this
      · have := h₄ (by simpa using h)
        rwa [Nat.add_right_comm] at this
    · rw [if_neg hok]
      refine ⟨0, Nat.zero_le _, rfl, by simp, (fun j hj => by omega), fun _ => ?_⟩
      simpa using hok

theorem lastTable_range (t : PageTable) (k : Nat) (f : Nat → PageTable) (h : f 0 = t) :
    lastTable t ((List.range k).map (fun j => f (j + 1))) = f k := by
  cases k with
  | zero => exact h.symm
  | succ k =>
    rw [lastTable, List.range_succ, List.map_append, List.map_cons, List.map_nil, List.getLast?_concat, Option.getD_some]

section Raise

variable {t₀ : PageTable}

/-- Pages that are mapped are made writable one after the other. -/
theorem foldl_raise : ∀ (pages done : List Addr), (∀ page ∈ pages, t₀ page ≠ none) → ∀ k,
    ((pages.map (fun page => (page, (t₀ page).getD 0 ||| 2))).take k).foldl setProt (raise done t₀) =
      raise (done ++ pages.take k) t₀
  | _, done, _, 0               => by simp
  | [], done, _, k + 1          => by simp
  | page :: pages, done, h, k + 1 => by
    obtain ⟨prot, hprot⟩ := Option.ne_none_iff_exists'.1 (h page List.mem_cons_self)
    have hset : setProt (raise done t₀) (page, (t₀ page).getD 0 ||| 2) = raise (done ++ [page]) t₀ := by
      funext x
      unfold setProt raise
      by_cases hx : x = page
      · subst hx
        simp [hprot]
      · simp [hx]
    rw [List.map_cons, List.take_succ_cons, List.foldl_cons, hset,
      foldl_raise pages (done ++ [page]) (fun q hq => h q (List.mem_cons_of_mem _ hq)) k, List.append_assoc,
      List.singleton_append, List.take_succ_cons]

theorem foldl_restore : ∀ (pages : List Addr), pages.Nodup → (∀ page ∈ pages, t₀ page ≠ none) → ∀ k,
    ((pages.map (fun page => (page, (t₀ page).getD 0))).take k).foldl setProt (raise pages t₀) = raise (pages.drop k) t₀
  | _, _, _, 0                  => rfl
  | [], _, _, k + 1             => rfl
  | page :: pages, hnd, h, k + 1 => by
    obtain ⟨prot, hprot⟩ := Option.ne_none_iff_exists'.1 (h page List.mem_cons_self)
    rw [List.nodup_cons] at hnd
    have hset : setProt (raise (page :: pages) t₀) (page, (t₀ page).getD 0) = raise pages t₀ := by
      funext x
      unfold setProt raise
      by_cases hx : x = page
      · subst hx
        simp [hprot, hnd.1]
      · simp [hx]
    rw [List.map_cons, List.take_succ_cons, List.foldl_cons, hset,
      foldl_restore pages hnd.2 (fun q hq => h q (List.mem_cons_of_mem _ hq)) k, List.drop_succ_cons]

theorem raise_eq_iff (pages : List Addr) (page : Addr) :
    raise pages t₀ page = t₀ page ↔ (page ∈ pages → ∀ prot, t₀ page = some prot → prot ||| 2 = prot) := by
  unfold raise
  split
  · rename_i hm
    cases t₀ page with
    | none => simp
    | some prot => simp [hm]
  · rename_i hm
    simp [hm]

theorem raise_eq_self_iff (pages : List Addr) :
    raise pages t₀ = t₀ ↔ ∀ page ∈ pages, ∀ prot, t₀ page = some prot → prot ||| 2 = prot := by
  rw [funext_iff]
  exact forall_congr' (raise_eq_iff pages)

end Raise

/-! ## A whole WRITE -/

theorem getProtections_some {p : Patcher} : ∀ (pages : List Addr) (i : Nat),
    (∀ j page, pages[j]? = some page → Found (p.access (i + j)) p.vmas page) →
      getProtections p.get i pages = some (pages.map (fun page => (p.table page).getD 0)) ∧
        ∀ page ∈ pages, p.table page ≠ none
  | [], _, _            => ⟨rfl, by simp⟩
  | page :: pages, i, h => by
    have hf := h 0 page rfl
    obtain ⟨h₁, h₂⟩ := getProtections_some pages (i + 1) (fun j q hq => by
      have := h (j + 1) q hq
      rwa [← Nat.add_assoc, Nat.add_right_comm] at this)
    have hne := hf.protOf_ne_none
    obtain ⟨prot, hprot⟩ := Option.ne_none_iff_exists'.1 hne
    have hget : p.get i page = some prot := memoryProtectionGet_eq_some.2 ⟨hf, hprot⟩
    refine ⟨?_, List.forall_mem_cons.2 ⟨hne, h₂⟩⟩
    rw [getProtections, hget, Option.bind_some, h₁, List.map_cons, Patcher.table, hprot]
    rfl

theorem getProtections_none {p : Patcher} : ∀ (pages : List Addr) (i : Nat) (prots : List Nat),
    getProtections p.get i pages = some prots → ∀ j page, pages[j]? = some page → Found (p.access (i + j)) p.vmas page
  | [], _, _, _, _, _, hj            => by simp at hj
  | page :: pages, i, prots, h, j, q, hj => by
    obtain ⟨prot, hprot, h⟩ := Option.bind_eq_some_iff.1 h
    obtain ⟨rest, hrest, -⟩ := Option.map_eq_some_iff.1 h
    cases j with
    | zero =>
      obtain rfl : page = q := by simpa using hj
      exact (memoryProtectionGet_eq_some.1 hprot).1
    | succ j =>
      rw [show i + (j + 1) = i + 1 + j by omega]
      exact getProtections_none pages (i + 1) rest hrest j q (by simpa using hj)

theorem mem_take_iff {xs : List Addr} {k : Nat} {x : Addr} : x ∈ xs.take k ↔ ∃ i < k, xs[i]? = some x := by
  rw [List.mem_iff_getElem?]
  apply exists_congr
  intro i
  rw [List.getElem?_take]
  split <;> simp_all

theorem mem_drop_iff {xs : List Addr} {k : Nat} {x : Addr} : x ∈ xs.drop k ↔ ∃ i, k ≤ i ∧ xs[i]? = some x := by
  rw [List.mem_iff_getElem?]
  constructor
  · rintro ⟨i, hi⟩
    rw [List.getElem?_drop] at hi
    exact ⟨k + i, Nat.le_add_right _ _, hi⟩
  · rintro ⟨i, hk, hi⟩
    refine ⟨i - k, ?_⟩
    rwa [List.getElem?_drop, Nat.add_sub_cancel' hk]

section Write

variable {p : Patcher} {address : Addr} {bytes : List Byte} {mem : Mem}

/-- The tables while pages are made writable and while they are taken back. -/
def raisedTables (p : Patcher) (pages : List Addr) (k : Nat) : List PageTable :=
  (List.range k).map (fun j => raise (pages.take (j + 1)) p.table)

def restoredTables (p : Patcher) (pages : List Addr) (k : Nat) : List PageTable :=
  (List.range k).map (fun j => raise (pages.drop (j + 1)) p.table)

theorem lastTable_raised (pages : List Addr) (k : Nat) :
    lastTable p.table (raisedTables p pages k) = raise (pages.take k) p.table :=
  lastTable_range p.table k (fun j => raise (pages.take j) p.table) (by funext x; simp [raise])

theorem lastTable_restored (pages : List Addr) (k : Nat) :
    lastTable (raise pages p.table) (restoredTables p pages k) = raise (pages.drop k) p.table :=
  lastTable_range (raise pages p.table) k (fun j => raise (pages.drop j) p.table) rfl

/-- A page that `/proc/self/maps` does not show ends it at once. -/
theorem insnInterpretWrite_unfound (mem : Mem) (h : ¬ AllFound p address bytes.length) :
    insnInterpretWrite p address bytes mem = ⟨[], mem, some p.errno, false⟩ := by
  unfold insnInterpretWrite
  cases hg : getProtections p.get 0 (p.pages address bytes.length) with
  | none => simp only [hg]
  | some prots =>
    refine absurd (fun i page hi => ?_) h
    have := getProtections_none _ 0 prots hg i page hi
    rwa [Nat.zero_add] at this

/-- **What a WRITE does when all pages are found**: it stops at the first `mprotect` call that fails. -/
theorem insnInterpretWrite_found (mem : Mem) (hn : bytes.length < 2 ^ 32) (h : AllFound p address bytes.length) :
    let pages := p.pages address bytes.length
    (∃ k < pages.length, p.mprotect k = false ∧ (∀ j < k, p.mprotect j = true) ∧
      insnInterpretWrite p address bytes mem = ⟨raisedTables p pages k, mem, some p.errno, true⟩) ∨
    (∀ j < pages.length, p.mprotect j = true) ∧ ∃ l ≤ pages.length,
      (l < pages.length → p.mprotect (pages.length + l) = false) ∧ (∀ j < l, p.mprotect (pages.length + j) = true) ∧
      insnInterpretWrite p address bytes mem =
        ⟨raisedTables p pages pages.length ++ restoredTables p pages l, mem.write address bytes,
          if l = pages.length then none else some p.errno, !decide (l = pages.length)⟩ := by
  intro pages
  obtain ⟨hget, hmapped⟩ := getProtections_some (p := p) pages 0 (fun j page hj => by
    rw [Nat.zero_add]
    exact h j page hj)
  have hzip : pages.zip ((pages.map (fun page => (p.table page).getD 0)).map (· ||| 2)) =
      pages.map (fun page => (page, (p.table page).getD 0 ||| 2)) := by
    rw [List.map_map, List.map_prod_left_eq_zip]
    rfl
  have hzip' : pages.zip (pages.map (fun page => (p.table page).getD 0)) =
      pages.map (fun page => (page, (p.table page).getD 0)) := List.map_prod_left_eq_zip.symm
  have hnil : raise [] p.table = p.table := by
    funext x
    simp [raise]
  have hraised : ∀ k, (List.range k).map (fun j => ((pages.map (fun page => (page, (p.table page).getD 0 ||| 2))).take
      (j + 1)).foldl setProt p.table) = raisedTables p pages k := by
    intro k
    apply List.map_congr_left
    intro j _
    have := foldl_raise pages [] hmapped (j + 1)
    rwa [hnil, List.nil_append] at this
  obtain ⟨k, hk, h₁, h₂, h₃, h₄⟩ := mprotectEach_spec p.mprotect
    (pages.map (fun page => (page, (p.table page).getD 0 ||| 2))) 0 p.table
  rw [hraised] at h₁
  rw [List.length_map] at hk h₂ h₄
  simp only [Nat.zero_add] at h₃ h₄
  unfold insnInterpretWrite
  simp only
  rw [hget]
  simp only
  rw [hzip, hzip', h₁, h₂]
  rcases Nat.lt_or_eq_of_le hk with hlt | rfl
  · rw [if_neg (by simp; omega)]
    exact Or.inl ⟨k, hlt, h₄ hlt, h₃, rfl⟩
  · rw [if_pos (by simp), lastTable_raised, List.take_length]
    obtain ⟨l, hl, h₅, h₆, h₇, h₈⟩ := mprotectEach_spec p.mprotect
      (pages.map (fun page => (page, (p.table page).getD 0))) pages.length (raise pages p.table)
    have hrestored : (List.range l).map (fun j => ((pages.map (fun page => (page, (p.table page).getD 0))).take
        (j + 1)).foldl setProt (raise pages p.table)) = restoredTables p pages l := by
      apply List.map_congr_left
      intro j _
      exact foldl_restore pages (nodup_pages hn) hmapped (j + 1)
    rw [List.length_map] at hl h₆ h₈
    rw [hrestored] at h₅
    refine Or.inr ⟨h₃, l, hl, h₈, h₇, ?_⟩
    rw [h₅, h₆]
    simp

/-- **Which failures leave the protections as they were.** -/
theorem restored_iff (hn : bytes.length < 2 ^ 32) (h : AllFound p address bytes.length) :
    lastTable p.table (insnInterpretWrite p address bytes mem).tables = p.table ↔ FailureKept p address bytes.length := by
  rcases insnInterpretWrite_found mem hn h with
    ⟨k, hk, hfail, hbefore, hrun⟩ | ⟨hall, l, hl, hfail, hbefore, hrun⟩
  · rw [hrun, lastTable_raised, raise_eq_self_iff]
    unfold FailureKept
    constructor
    · intro hw j hj hfalse hok i page hi hlt
      -- the first failure is the one found
      have hjk : j = k := by
        rcases Nat.lt_trichotomy j k with hlt | heq | hgt
        · exact absurd (hbefore j hlt) (by rw [hfalse]; decide)
        · exact heq
        · exact absurd (hok k hgt) (by rw [hfail]; decide)
      rw [hjk, if_pos hk] at hlt
      exact hw page (mem_take_iff.2 ⟨i, hlt, hi⟩)
    · intro hw page hpage
      obtain ⟨i, hik, hi⟩ := mem_take_iff.1 hpage
      exact hw k (by omega) hfail hbefore i page hi (by rw [if_pos hk]; exact hik)
  · have hlast : lastTable p.table (raisedTables p (p.pages address bytes.length) (p.pages address bytes.length).length ++
        restoredTables p (p.pages address bytes.length) l) = raise ((p.pages address bytes.length).drop l) p.table := by
      rw [lastTable, List.getLast?_append, Option.getD_or, ← lastTable, ← lastTable, lastTable_raised, List.take_length,
        lastTable_restored]
    rw [hrun, hlast, raise_eq_self_iff]
    unfold FailureKept
    constructor
    · intro hw j hj hfalse hok i page hi hge
      have hjn : ¬ j < (p.pages address bytes.length).length := fun hlt =>
        absurd (hall j hlt) (by rw [hfalse]; decide)
      have hjl : j - (p.pages address bytes.length).length = l := by
        obtain ⟨d, rfl⟩ := Nat.exists_eq_add_of_le (Nat.le_of_not_lt hjn)
        rw [Nat.add_sub_cancel_left]
        rcases Nat.lt_trichotomy d l with hlt | heq | hgt
        · exact absurd (hbefore d hlt) (by rw [hfalse]; decide)
        · exact heq
        · exact absurd (hok _ (Nat.add_lt_add_left hgt _)) (by rw [hfail (by omega)]; decide)
      rw [if_neg hjn, hjl] at hge
      exact hw page (mem_drop_iff.2 ⟨i, hge, hi⟩)
    · intro hw page hpage
      obtain ⟨i, hli, hi⟩ := mem_drop_iff.1 hpage
      have hlt : i < (p.pages address bytes.length).length := (List.getElem?_eq_some_iff.1 hi).1
      refine hw ((p.pages address bytes.length).length + l) (by omega) (hfail (by omega)) (fun j hj => ?_) i page hi ?_
      · by_cases hj' : j < (p.pages address bytes.length).length
        · exact hall j hj'
        · obtain ⟨d, rfl⟩ := Nat.exists_eq_add_of_le (Nat.le_of_not_lt hj')
          exact hbefore d (by omega)
      · rw [if_neg (by omega), Nat.add_sub_cancel_left]
        exact hli

/-- A page of the range that holds no byte that is written is the last one, after the end of the write. -/
theorem notTarget_last (h1 : 1 ≤ bytes.length) (hn : bytes.length < 2 ^ 32) {page : Addr}
    (hp : page ∈ p.pages address bytes.length) (ht : ¬ Target p address bytes.length page) :
    (address.toNat + bytes.length) % 2 ^ p.pageShift = 0 ∧
      page = p.pageOf (address + BitVec.ofNat 64 bytes.length) := by
  obtain ⟨i, hi⟩ := List.mem_iff_getElem?.1 hp
  obtain ⟨hle, rfl⟩ := (pages_getElem? hn i page).1 hi
  rw [target_iff h1 hn, not_exists] at ht
  have hgt : ¬ i ≤ lastIndex p address (bytes.length - 1) := fun hle => ht i ⟨hle, rfl⟩
  rw [lastIndex_pred h1] at hgt
  split at hgt
  · rename_i hz
    have : i = lastIndex p address bytes.length := by omega
    rw [pageOf_end hn, this]
    exact ⟨hz, rfl⟩
  · exact absurd hle hgt

/-- The page after a write that ends with a page is one of the range and holds no byte that is written. -/
theorem last_notTarget (h1 : 1 ≤ bytes.length) (hn : bytes.length < 2 ^ 32)
    (hz : (address.toNat + bytes.length) % 2 ^ p.pageShift = 0) :
    p.pageOf (address + BitVec.ofNat 64 bytes.length) ∈ p.pages address bytes.length ∧
      ¬ Target p address bytes.length (p.pageOf (address + BitVec.ofNat 64 bytes.length)) := by
  rw [pageOf_end hn, target_iff h1 hn, lastIndex_pred h1, if_pos hz]
  have hpos : 0 < lastIndex p address bytes.length := by
    apply Nat.pos_of_ne_zero
    intro h0
    have hdiv := Nat.div_add_mod (address.toNat % 2 ^ p.pageShift + bytes.length) (2 ^ p.pageShift)
    rw [Nat.mod_add_mod, hz] at hdiv
    rw [lastIndex] at h0
    rw [h0, Nat.mul_zero] at hdiv
    omega
  refine ⟨List.mem_iff_getElem?.2 ⟨_, (pages_getElem? hn _ _).2 ⟨Nat.le_refl _, rfl⟩⟩, ?_⟩
  rintro ⟨i, hi, he⟩
  have := pageAt_inj hn (Nat.le_refl _) (by omega) he
  omega

/-- **When only pages that hold a byte that is written are changed.** -/
theorem others_iff (h1 : 1 ≤ bytes.length) (hn : bytes.length < 2 ^ 32) (h : AllFound p address bytes.length) :
    (∀ t ∈ (insnInterpretWrite p address bytes mem).tables, ∀ page, ¬ Target p address bytes.length page →
      t page = p.table page) ↔ EndKept p address bytes.length := by
  have hsub : ∀ {pages : List Addr} {page : Addr}, pages ⊆ p.pages address bytes.length →
      ¬ Target p address bytes.length page → (p.pageOf (address + BitVec.ofNat 64 bytes.length) ∈ pages →
        (address.toNat + bytes.length) % 2 ^ p.pageShift = 0 →
          Writable p (p.pageOf (address + BitVec.ofNat 64 bytes.length))) → raise pages p.table page = p.table page := by
    intro pages page hsub ht hw
    rw [raise_eq_iff]
    intro hm
    obtain ⟨hz, rfl⟩ := notTarget_last h1 hn (hsub hm) ht
    exact hw hm hz
  rcases insnInterpretWrite_found mem hn h with ⟨k, hk, hfail, -, hrun⟩ | ⟨hall, l, -, -, -, hrun⟩
  · rw [hrun]
    refine iff_of_true (fun t ht page hpage => ?_) (fun _ => Or.inr ⟨k, hk, hfail⟩)
    obtain ⟨j, hj, rfl⟩ := List.mem_map.1 ht
    rw [List.mem_range] at hj
    refine hsub (List.take_subset _ _) hpage (fun hm hz => ?_)
    -- the last page is not among the first ones
    obtain ⟨i, hi, he⟩ := mem_take_iff.1 hm
    obtain ⟨hle, he⟩ := (pages_getElem? hn i _).1 he
    rw [pageOf_end hn] at he
    have := pageAt_inj hn (Nat.le_refl _) hle he
    rw [length_pages hn] at hk
    omega
  · rw [hrun]
    unfold EndKept
    constructor
    · intro ht hz
      obtain ⟨hm, hnt⟩ := last_notTarget h1 hn hz
      have hpos : 0 < (p.pages address bytes.length).length := List.length_pos_of_mem hm
      have := ht (raise (p.pages address bytes.length) p.table) (List.mem_append_left _ (List.mem_map.2
        ⟨(p.pages address bytes.length).length - 1, List.mem_range.2 (by omega), by
          rw [Nat.sub_add_cancel hpos, List.take_length]⟩)) _ hnt
      exact Or.inl ((raise_eq_iff _ _).1 this hm)
    · intro hend t ht page hpage
      have hw : ∀ hz : (address.toNat + bytes.length) % 2 ^ p.pageShift = 0,
          Writable p (p.pageOf (address + BitVec.ofNat 64 bytes.length)) := fun hz =>
        (hend hz).resolve_right (by
          rintro ⟨i, hi, hfalse⟩
          exact absurd (hall i hi) (by rw [hfalse]; decide))
      rcases List.mem_append.1 ht with ht | ht
      · obtain ⟨j, -, rfl⟩ := List.mem_map.1 ht
        exact hsub (List.take_subset _ _) hpage (fun _ => hw)
      · obtain ⟨j, -, rfl⟩ := List.mem_map.1 ht
        exact hsub (List.drop_subset _ _) hpage (fun _ => hw)

end Write

/-- **When a WRITE keeps page protections**: a page it writes to is not mapped, so that nothing happens; or all pages of
the range are found, no page after the end of the write is made writable, and no failed `mprotect` call leaves one so. -/
theorem keepsProtections_iff (p : Patcher) (address : Addr) (bytes : List Byte) (mem : Mem) (h1 : 1 ≤ bytes.length)
    (hn : bytes.length < 2 ^ 32) :
    KeepsProtections p address bytes mem ↔
      (∃ page, Target p address bytes.length page ∧ p.table page = none) ∨
        AllFound p address bytes.length ∧ EndKept p address bytes.length ∧ FailureKept p address bytes.length := by
  by_cases hf : AllFound p address bytes.length
  · have hmapped : ∀ page, Target p address bytes.length page → p.table page ≠ none := by
      intro page ht
      obtain ⟨i, hi, rfl⟩ := (target_iff h1 hn page).1 ht
      have hle : lastIndex p address (bytes.length - 1) ≤ lastIndex p address bytes.length := by
        rw [lastIndex_pred h1]
        split <;> omega
      exact (hf i _ ((pages_getElem? hn i _).2 ⟨hi.trans hle, rfl⟩)).protOf_ne_none
    constructor
    · exact fun hk => Or.inr ⟨hf, (others_iff h1 hn hf).1 hk.others, (restored_iff hn hf).1 hk.restored⟩
    · rintro (⟨page, ht, hnone⟩ | ⟨-, hend, hfail⟩)
      · exact absurd hnone (hmapped page ht)
      · refine ⟨fun _ => ?_, (others_iff h1 hn hf).2 hend, (restored_iff hn hf).2 hfail⟩
        rcases insnInterpretWrite_found mem hn hf with ⟨k, -, -, -, hrun⟩ | ⟨-, l, -, -, -, hrun⟩
        · rw [hrun]
          exact Or.inr rfl
        · rw [hrun]
          by_cases hl : l = (p.pages address bytes.length).length
          · exact Or.inl ⟨by simp [hl], rfl⟩
          · exact Or.inr (by simp [hl])
  · have hrun := insnInterpretWrite_unfound mem hf
    constructor
    · intro hk
      by_contra hno
      rw [not_or, not_exists] at hno
      have := hk.succeeds (fun page ht hnone => hno.1 page ⟨ht, hnone⟩)
      rw [hrun] at this
      simp at this
    · rintro (⟨page, ht, hnone⟩ | ⟨h, -⟩)
      · refine ⟨fun h => absurd hnone (h page ht), ?_, ?_⟩
        · rw [hrun]
          intro t ht
          cases ht
        · rw [hrun]
          rfl
      · exact absurd h hf

theorem twelve_lt : 12 < 31 := by decide

/-- A process with a page of code at 0x1000 and nothing after it, in which every call succeeds. -/
def onePage : Patcher :=
  { pageShift := 12, small := Nat.le_refl 12, large := twelve_lt, vmas := [⟨0x1000, 0x2000, true, false, true, [112]⟩]
    access := fun _ => ⟨true, none⟩, stale := [], mprotect := fun _ => true, errno := 0 }

theorem onePage_found (i : Nat) : Found (onePage.access i) onePage.vmas 0x1000 := by
  refine ⟨rfl, [], ⟨0x1000, 0x2000, true, false, true, [112]⟩, [], rfl, by decide, by simp, ?_, ?_⟩
  · rw [List.nil_append, List.forall_mem_singleton]
    decide
  · intro k hk
    cases hk

theorem keepsProtections_inside : KeepsProtections onePage 0x1004 [1, 2] (fun _ => 0) := by
  refine (keepsProtections_iff onePage 0x1004 [1, 2] (fun _ => 0) (by decide) (by decide)).2
    (Or.inr ⟨fun i page hi => ?_, fun hz => absurd hz (by decide), fun j _ hfalse => (by cases hfalse)⟩)
  obtain ⟨hle, rfl⟩ := (pages_getElem? (by decide) i page).1 hi
  obtain rfl : i = 0 := Nat.le_zero.1 (hle.trans (by decide))
  exact onePage_found 0

/-- Four bytes at the end of the page. -/
theorem write_at_page_end : ¬ ∀ (p : Patcher) (address : Addr) (bytes : List Byte) (mem : Mem), 1 ≤ bytes.length →
    bytes.length < 2 ^ 32 → KeepsProtections p address bytes mem := by
  intro h
  have hk := h onePage 0x1ffc [1, 2, 3, 4] (fun _ => 0) (by decide) (by decide)
  have hunfound : ¬ AllFound onePage 0x1ffc [(1 : Byte), 2, 3, 4].length := by
    intro hall
    have := hall 1 0x2000 ((pages_getElem? (by decide) 1 0x2000).2 ⟨by decide, by decide⟩)
    exact this.protOf_ne_none (by decide)
  have hmapped : ∀ page, Target onePage 0x1ffc [(1 : Byte), 2, 3, 4].length page → onePage.table page ≠ none := by
    intro page ht
    obtain ⟨i, hi, rfl⟩ := (target_iff (by decide) (by decide) page).1 ht
    obtain rfl : i = 0 := Nat.le_zero.1 (hi.trans (by decide))
    decide
  have := hk.succeeds hmapped
  rw [insnInterpretWrite_unfound _ hunfound] at this
  simp at this

/-! ## As the interpreter sees it -/

theorem getProtections_eq {get : Nat → Addr → Option Nat} {f : Addr → Option Nat} : ∀ (pages : List Addr) (i : Nat),
    (∀ j page, pages[j]? = some page → get (i + j) page = f page) →
      getProtections get i pages =
        if pages.any (fun page => (f page).isNone) then none else some (pages.map (fun page => (f page).getD 0))
  | [], _, _            => rfl
  | page :: pages, i, h => by
    have hhead := h 0 page rfl
    rw [Nat.add_zero] at hhead
    rw [getProtections, hhead, getProtections_eq pages (i + 1) (fun j q hq => by
      rw [show i + 1 + j = i + (j + 1) by omega]
      exact h (j + 1) q hq), List.any_cons, List.map_cons]
    cases f page with
    | none => rfl
    | some prot =>
      simp only [Option.isNone_some, Bool.false_or, Option.bind_some, Option.getD_some]
      split <;> rfl

theorem mprotectEach_all {ok : Nat → Bool} {f : Addr × Nat → Bool} : ∀ (xs : List (Addr × Nat)) (i : Nat) (t : PageTable),
    (∀ j x, xs[j]? = some x → ok (i + j) = f x) → (mprotectEach ok i xs t).2 = xs.all f
  | [], _, _, _      => rfl
  | x :: xs, i, t, h => by
    have hhead := h 0 x rfl
    rw [Nat.add_zero] at hhead
    rw [mprotectEach, List.all_cons, hhead]
    cases f x with
    | false => rfl
    | true =>
      rw [if_pos rfl, Bool.true_and]
      exact mprotectEach_all xs (i + 1) _ (fun j y hy => by
        rw [show i + 1 + j = i + (j + 1) by omega]
        exact h (j + 1) y hy)

/-- **The bytes and the return value are those of `libraryAttempts`** for a process whose `mprotect` answers by the page
and the protection. -/
theorem libraryAttempts_eq (q : Protection) (p : Patcher) (address : Addr) (bytes : List Byte) (mem : Mem)
    (hsize : q.pageSize = p.pageSize) (herrno : q.errno = p.errno)
    (hget : ∀ i page, p.get i page = q.memoryProtectionGet page)
    (hraise : ∀ i page, (p.pages address bytes.length)[i]? = some page →
      p.mprotect i = q.mprotect page ((q.memoryProtectionGet page).getD 0 ||| 2))
    (hrestore : ∀ i page, (p.pages address bytes.length)[i]? = some page →
      p.mprotect ((p.pages address bytes.length).length + i) = q.mprotect page ((q.memoryProtectionGet page).getD 0)) :
    (libraryAttempts q).attempt address bytes mem =
      ((insnInterpretWrite p address bytes mem).mem, (insnInterpretWrite p address bytes mem).ret) := by
  have hpages : q.pages address bytes.length = p.pages address bytes.length := by
    unfold Protection.pages Patcher.pages Patcher.pageOf
    rw [hsize]
  unfold libraryAttempts insnInterpretWrite
  simp only [hpages, herrno]
  rw [getProtections_eq (p.pages address bytes.length) 0 (fun j page _ => hget (0 + j) page)]
  by_cases hnone : (p.pages address bytes.length).any (fun page => (q.memoryProtectionGet page).isNone) = true
  · rw [if_pos hnone, if_pos hnone]
  have hall : ∀ (f : Addr → Nat) (base : Nat) (t : PageTable), (∀ i page, (p.pages address bytes.length)[i]? = some page →
      p.mprotect (base + i) = q.mprotect page (f page)) → (mprotectEach p.mprotect base
        ((p.pages address bytes.length).zip ((p.pages address bytes.length).map f)) t).2 =
          !(p.pages address bytes.length).any (fun page => !q.mprotect page (f page)) := by
    intro f base t hok
    rw [mprotectEach_all (f := fun x => q.mprotect x.1 x.2) _ base t (fun j x hx => ?_), ← List.map_prod_left_eq_zip,
      List.all_map, List.all_eq_not_any_not]
    · rfl
    · rw [← List.map_prod_left_eq_zip, List.getElem?_map] at hx
      obtain ⟨page, hpage, rfl⟩ := Option.map_eq_some_iff.1 hx
      exact hok j page hpage
  rw [if_neg hnone, if_neg hnone]
  simp only [List.map_map, Function.comp_def]
  rw [hall (fun page => (q.memoryProtectionGet page).getD 0 ||| 2) 0 p.table (fun i page hi => by
    rw [Nat.zero_add]
    exact hraise i page hi), hall _ _ _ hrestore]
  cases (p.pages address bytes.length).any (fun page => !q.mprotect page ((q.memoryProtectionGet page).getD 0 ||| 2)) with
  | true => rfl
  | false =>
    cases (p.pages address bytes.length).any (fun page => !q.mprotect page ((q.memoryProtectionGet page).getD 0)) <;> rfl

end Libpulp
