import Libpulp.Trampoline
/-!
# Transparent — when a redirected call leaves no trace in the registers

The code is run block by block.  What it has put on the stack (`Saved`) survives the calls, since they keep the stack
above the header of the frame; everything that it has not put there is as the last call leaves it.
-/
namespace Libpulp
namespace Power

open Bytes (Byte Addr Mem toLE)
open PowerCpu

/-! ## The prologue -/

/-- Two `lis` and `ori` pairs and an insertion give all four parts of an address, whatever `lis` extends. -/
theorem lis_ori_rldimi (t : Addr) :
    (((t.extractLsb' 48 16 ++ 0#16).signExtend 64 ||| (t.extractLsb' 32 16).setWidth 64) <<< 32 |||
      (((t.extractLsb' 16 16 ++ 0#16).signExtend 64 ||| (t.extractLsb' 0 16).setWidth 64).setWidth 32).setWidth 64) =
      t := by
  apply BitVec.eq_of_getLsbD_eq
  intro i hi
  simp only [BitVec.getLsbD_or, BitVec.getLsbD_shiftLeft, BitVec.getLsbD_setWidth, BitVec.getLsbD_signExtend,
    BitVec.getLsbD_append, BitVec.getLsbD_extractLsb', BitVec.getLsbD_zero]
  by_cases h16 : i < 16
  · simp [h16, show i < 32 by omega, show i < 64 by omega]
  · by_cases h32 : i < 32
    · simp [h16, h32, hi, show i - 16 < 16 by omega, show 16 + (i - 16) = i by omega]
    · by_cases h48 : i < 48
      · simp [h16, h32, hi, show i - 32 < 16 by omega, show i - 32 < 32 by omega, show 32 + (i - 32) = i by omega]
        omega
      · simp [h32, hi, show ¬ i - 32 < 16 by omega, show i - 32 < 32 by omega, show 48 + (i - 32 - 16) = i by omega,
          show i - 32 - 16 < 16 by omega]
        omega

theorem run_loadTrampoline (t : Addr) (s : Cpu) : (run (loadTrampoline t) s).gpr 12 = t := by
  have h := lis_ori_rldimi t
  unfold loadTrampoline
  generalize t.extractLsb' 48 16 = a at h ⊢
  generalize t.extractLsb' 32 16 = b at h ⊢
  generalize t.extractLsb' 16 16 = c at h ⊢
  generalize t.extractLsb' 0 16 = d at h ⊢
  simp only [run, exec, Cpu.set_gpr, reduceIte, Fin.reduceEq]
  exact h

namespace Redirection

variable (x : Redirection)

theorem jumped_gpr {r : Reg} (h5 : r ≠ 5) (h12 : r ≠ 12) : x.jumped.gpr r = x.cpu.gpr r := by
  apply run_gpr
  simp [prologueCode, loadTrampoline, Instr.target, Ne.symm h5, Ne.symm h12]

/-- **The prologue goes to `trampoline_routine`**, with the caller's LR in `r5`. -/
theorem jumped_regs : x.jumped.gpr 5 = x.cpu.lr ∧ x.jumped.gpr 12 = x.link.trampolineRoutine ∧
    x.jumped.ctr = x.link.trampolineRoutine ∧ x.jumped.lr = x.area + 40 ∧
    x.jumped.mem = store (store x.cpu.mem (x.cpu.gpr 1 + -8) (x.cpu.gpr 5)) (x.cpu.gpr 1 + -16) (x.cpu.gpr 6) := by
  unfold jumped prologueCode
  rw [run_append, run_append]
  have h12 := run_loadTrampoline x.link.trampolineRoutine (run [.std 5 (-8) 1, .std 6 (-16) 1] x.cpu)
  generalize x.link.trampolineRoutine = t at h12 ⊢
  refine ⟨?_, ?_, ?_, ?_, ?_⟩
  · simp [run, exec, loadTrampoline]
  · simpa [run, exec] using h12
  · simpa [run, exec] using h12
  · simp [run, exec, loadTrampoline]
  · simp [run, exec, loadTrampoline]

/-! ## The stack -/

variable {x}

theorem slot_eq (x : Redirection) (d : Addr) : x.cpu.gpr 1 + d = x.base + (192 + d) := by
  rw [base, add_comm 192 d, sub_add_add_cancel]

theorem above_slot (h : Grounds x) {d a : Addr} (hd : (192 + d).toNat ≤ 192) :
    Above (x.cpu.gpr 1 + d) x.top a ↔ (192 + d).toNat ≤ (a - x.base).toNat ∧ (a - x.base).toNat < x.extent := by
  rw [slot_eq]
  exact above_iff (hd.trans h.room)

theorem in_slot {d a : Addr} (ha : (a - (x.cpu.gpr 1 + d)).toNat < 8) (hd : (192 + d).toNat ≤ 192) :
    (192 + d).toNat ≤ (a - x.base).toNat ∧ (a - x.base).toNat < (192 + d).toNat + 8 := by
  rw [slot_eq] at ha
  exact in_doubleword ha (by omega)

theorem store_above (h : Grounds x) {m : Mem} {c d v a : Addr} (hd : (192 + d).toNat + 8 ≤ (192 + c).toNat)
    (hc : (192 + c).toNat ≤ 192) (ha : Above (x.cpu.gpr 1 + c) x.top a) : store m (x.cpu.gpr 1 + d) v a = m a := by
  apply store_outside
  by_contra hin
  have hslot := in_slot (d := d) (Nat.lt_of_not_le hin) (by omega)
  have habove := (above_slot h hc).1 ha
  omega

/-- What the entry code has saved, and the caller's part of the stack. -/
structure Saved (x : Redirection) (m : Mem) : Prop where
  r5    : load m (x.cpu.gpr 1 + -8) = x.cpu.gpr 5
  r6    : load m (x.cpu.gpr 1 + -16) = x.cpu.gpr 6
  toc   : load m (x.cpu.gpr 1 + -24) = x.cpu.gpr 2
  r3    : load m (x.cpu.gpr 1 + -32) = x.cpu.gpr 3
  lr    : load m (x.cpu.gpr 1 + -48) = x.cpu.lr
  stack : ∀ a, Above (x.cpu.gpr 1 + 0) x.top a → m a = x.cpu.mem a

/-- The saved registers and the caller's part are all that `Saved` is about. -/
theorem Saved.congr {m m' : Mem} (hs : Saved x m) (h : Grounds x)
    (hm : ∀ a, Above (x.cpu.gpr 1 + -48) x.top a → m' a = m a) : Saved x m' := by
  have hslot : ∀ {d : Addr}, 144 ≤ (192 + d).toNat → (192 + d).toNat ≤ 184 →
      load m' (x.cpu.gpr 1 + d) = load m (x.cpu.gpr 1 + d) := by
    intro d hd hd'
    apply load_congr
    intro a ha
    apply hm
    have hin := in_slot ha (by omega)
    have hroom := h.room
    exact (above_slot h (by decide)).2 ⟨hd.trans hin.1, by omega⟩
  constructor
  case stack =>
    intro a ha
    rw [hm a, hs.stack a ha]
    have habove := (above_slot h (by decide)).1 ha
    exact (above_slot h (by decide)).2 ⟨Nat.le_trans (by decide) habove.1, habove.2⟩
  · exact (hslot (by decide) (by decide)).trans hs.r5
  · exact (hslot (by decide) (by decide)).trans hs.r6
  · exact (hslot (by decide) (by decide)).trans hs.toc
  · exact (hslot (by decide) (by decide)).trans hs.r3
  · exact (hslot (by decide) (by decide)).trans hs.lr

/-! ## Up to the first call -/

theorem load_prolog {m : Mem} {area t f : Addr} (h : m.read area (insnSize * preNopsLen) = prolog t f) :
    load m (area + 44) = f := by
  have hlen : ((ulpPrologue t).take ulpPrologueNewFunctionOffset).length = 44 := by
    simp [ulpPrologue, ulpPrologueNewFunctionOffset]
  have hslot := (Mem.read_eq_append h).2
  rw [hlen, show insnSize * preNopsLen - 44 = 8 from rfl] at hslot
  unfold load
  rw [show area + 44 = area + BitVec.ofNat 64 44 from rfl, hslot, Bytes.addrOfLE_toLE]

/-- Code is read as it was before something was stored below the caller's frame. -/
theorem load_code (h : Grounds x) {m : Mem} {d v : Addr} (hd : (192 + d).toNat ≤ 184) :
    load (store m (x.cpu.gpr 1 + d) v) (x.area + 44) = load m (x.area + 44) := by
  apply load_store_disj
  intro a ha
  by_contra hin
  have hslot := in_slot (d := d) (Nat.lt_of_not_le hin) (by omega)
  have hcode := h.code a (Nat.lt_of_lt_of_le (in_doubleword ha (by decide)).2 (by decide))
  have hroom := h.room
  omega

theorem jumped_target (h : Grounds x) : load x.jumped.mem (x.area + 44) = x.target := by
  rw [x.jumped_regs.2.2.2.2, load_code h (by decide), load_code h (by decide), load_prolog h.prologue]

theorem called_mem : x.called.mem =
    store (store (store (store x.jumped.mem (x.cpu.gpr 1 + -24) (x.cpu.gpr 2)) (x.cpu.gpr 1 + -32) (x.cpu.gpr 3))
      (x.cpu.gpr 1 + -40) x.link.trampolineRoutine) (x.cpu.gpr 1 + -48) x.cpu.lr := by
  obtain ⟨h5, h12, -, -, -⟩ := x.jumped_regs
  have h1 := x.jumped_gpr (r := 1) (by decide) (by decide)
  have h2 := x.jumped_gpr (r := 2) (by decide) (by decide)
  have h3 := x.jumped_gpr (r := 3) (by decide) (by decide)
  unfold called entryCode loadUlpStack
  rw [run_append]
  generalize x.jumped = s at h1 h2 h3 h5 h12 ⊢
  simp [run, exec, h1, h2, h3, h5, h12]

theorem called_regs (h : Grounds x) : x.called.gpr 1 = x.cpu.gpr 1 + -88 ∧ x.called.ctr = x.target := by
  obtain ⟨h5, h12, -, hlr, -⟩ := x.jumped_regs
  have h1 := x.jumped_gpr (r := 1) (by decide) (by decide)
  have htarget := jumped_target h
  unfold called entryCode loadUlpStack
  rw [run_append]
  generalize x.jumped = s at h1 h5 h12 hlr htarget ⊢
  have haddr : x.area + 40#64 + 4#64 = x.area + 44 := by rw [BitVec.add_assoc]; rfl
  rw [← haddr] at htarget
  simp [run, exec, h1, hlr, htarget]

/-! ## What survives -/

/-- What is stored below the saved registers leaves them alone. -/
theorem Saved.store {m : Mem} (hs : Saved x m) (h : Grounds x) {d v : Addr} (hd : (192 + d).toNat ≤ 136) :
    Saved x (store m (x.cpu.gpr 1 + d) v) :=
  hs.congr h (fun _ ha => store_above h (by rw [show (192 + -48 : Addr).toNat = 144 from rfl]; omega) (by decide) ha)

theorem Saved.after {s : Cpu} (hs : Saved x s.mem) (h : Grounds x) {d : Addr} (hsp : s.gpr 1 = x.cpu.gpr 1 + d)
    (hd : (192 + (d + 32)).toNat ≤ 144) (c : Call) : Saved x (c.after x.top s).mem := by
  apply hs.congr h
  intro a ha
  have habove := (above_slot h (by decide)).1 ha
  rw [Call.after_mem, if_pos]
  rw [hsp, add_assoc]
  exact (above_slot h (by omega)).2 ⟨hd.trans habove.1, habove.2⟩

theorem called_saved (h : Grounds x) : Saved x x.called.mem := by
  have hmem := x.jumped_regs.2.2.2.2
  constructor
  case stack =>
    intro a ha
    rw [called_mem, hmem]
    iterate 6 rw [store_above h (by decide) (by decide) ha]
  all_goals simp (disch := decide) only [called_mem, hmem, load_store_offset, load_store_self]

/-- What the calls on the way leave in the words of `ulp_stack` is theirs. -/
theorem load_word (h : Grounds x) {s : Cpu} {d o : Addr} (hsp : s.gpr 1 = x.cpu.gpr 1 + d)
    (hd : (192 + (d + 32)).toNat ≤ 192) (ho : o.toNat ≤ 16) (c : Call) :
    load (c.after x.top s).mem (x.ulpStack + o) = load c.mem (x.ulpStack + o) := by
  apply load_after_outside
  intro a ha hin
  rw [hsp, add_assoc] at hin
  have hword := in_doubleword ha (by omega)
  have habove := (above_slot h hd).1 hin
  have hwords := h.words a (by omega)
  omega

/-! ## The sizes -/

theorem compared_gpr {r : Reg} (h5 : r ≠ 5) (h6 : r ≠ 6) :
    x.compared.gpr r = if r = 1 ∨ 13 ≤ r then x.called.gpr r else x.entry.gpr r := by
  rw [compared, run_gpr, Call.after_gpr]
  simp [sizesCode, Instr.target, Ne.symm h5, Ne.symm h6]

theorem compared_same : x.compared.mem = (x.entry.after x.top x.called).mem ∧ x.compared.ctr = x.entry.ctr := by
  unfold compared sizesCode
  simp [run, exec]

theorem compared_full (h : Grounds x) : (x.compared.gpr 6).sle (x.compared.gpr 5) = true ↔ x.Full := by
  have hsp := (called_regs h).1
  have hword : ∀ {o : Addr}, o.toNat ≤ 16 → load (x.entry.after x.top x.called).mem (x.ulpStack + o) =
      load x.entry.mem (x.ulpStack + o) := fun ho => load_word h hsp (by decide) ho x.entry
  have hptr : (x.entry.after x.top x.called).gpr 3 = x.ulpStack := h.entryPtr
  unfold Full compared sizesCode
  rw [← hword (by decide), ← hword (by decide)]
  generalize x.entry.after x.top x.called = s at hptr ⊢
  simp [run, exec, hptr]

/-! ## The growth path -/

/-- Where the growth path keeps the argument registers. -/
def kept : List (Reg × Addr) := [(4, -96), (7, -104), (8, -112), (9, -120), (10, -128)]

/-- They are volatile ones, and the slots are above the frame of `ulp_stack_helper`. -/
theorem kept_facts {p : Reg × Addr} (hp : p ∈ kept) : (3 ≤ p.1 ∧ p.1 ≤ 10) ∧ (p.1 ≠ 5 ∧ p.1 ≠ 6) ∧
    ¬ (p.1 = 1 ∨ 13 ≤ p.1) ∧ 32 ≤ (192 + p.2).toNat ∧ (192 + p.2).toNat ≤ 184 := by
  simp only [kept, List.mem_cons, List.not_mem_nil, or_false] at hp
  rcases hp with rfl | rfl | rfl | rfl | rfl <;> decide

theorem kept_of_mem {r : Reg} (h : r ∈ [(4 : Reg), 7, 8, 9, 10]) : ∃ p ∈ kept, p.1 = r :=
  List.mem_map.1 (h : r ∈ kept.map Prod.fst)

theorem run_expandCode_mem {s : Cpu} (hsp : s.gpr 1 = x.cpu.gpr 1 + -88) : (run expandCode s).mem =
    store (store (store (store (store (store (store (store s.mem (x.cpu.gpr 1 + -96) (s.gpr 4))
      (x.cpu.gpr 1 + -104) (s.gpr 7)) (x.cpu.gpr 1 + -112) (s.gpr 8)) (x.cpu.gpr 1 + -120) (s.gpr 9))
      (x.cpu.gpr 1 + -128) (s.gpr 10)) (x.cpu.gpr 1 + -136) (s.gpr 11)) (x.cpu.gpr 1 + -144) s.ctr)
      (x.cpu.gpr 1 + -152) s.lr := by
  simp [expandCode, run, exec, hsp, BitVec.add_assoc]

theorem run_expandCode_sp {s : Cpu} (hsp : s.gpr 1 = x.cpu.gpr 1 + -88) :
    (run expandCode s).gpr 1 = x.cpu.gpr 1 + -192 := by
  simp [expandCode, run, exec, hsp, BitVec.add_assoc]

theorem run_expandCode_kept {s : Cpu} (hsp : s.gpr 1 = x.cpu.gpr 1 + -88) :
    (∀ p ∈ kept, load (run expandCode s).mem (x.cpu.gpr 1 + p.2) = s.gpr p.1) ∧
    load (run expandCode s).mem (x.cpu.gpr 1 + -144) = s.ctr := by
  rw [run_expandCode_mem hsp]
  constructor
  · intro p hp
    simp only [kept, List.mem_cons, List.not_mem_nil, or_false] at hp
    rcases hp with rfl | rfl | rfl | rfl | rfl <;> simp (disch := decide) only [load_store_offset, load_store_self]
  · simp (disch := decide) only [load_store_offset, load_store_self]

theorem run_expandedCode {s : Cpu} (hsp : s.gpr 1 = x.cpu.gpr 1 + -192) :
    (∀ p ∈ kept, (run expandedCode s).gpr p.1 = load s.mem (x.cpu.gpr 1 + p.2)) ∧
    (run expandedCode s).ctr = load s.mem (x.cpu.gpr 1 + -144) ∧
    (run expandedCode s).gpr 1 = x.cpu.gpr 1 + -88 ∧ (run expandedCode s).gpr 3 = s.gpr 3 ∧
    (run expandedCode s).mem = s.mem := by
  refine ⟨?_, ?_, ?_, ?_, ?_⟩
  · intro p hp
    simp only [kept, List.mem_cons, List.not_mem_nil, or_false] at hp
    rcases hp with rfl | rfl | rfl | rfl | rfl <;> simp [expandedCode, run, exec, hsp, BitVec.add_assoc]
  · simp [expandedCode, run, exec, hsp, BitVec.add_assoc]
  · simp [expandedCode, run, exec, hsp, BitVec.add_assoc]
  · simp [expandedCode, run, exec]
  · simp [expandedCode, run, exec]

/-- A slot above the frame of the callee survives the call. -/
theorem load_slot (h : Grounds x) {s : Cpu} {e d : Addr} (hsp : s.gpr 1 = x.cpu.gpr 1 + e)
    (hd : (192 + (e + 32)).toNat ≤ (192 + d).toNat) (hd' : (192 + d).toNat ≤ 184) (c : Call) :
    load (c.after x.top s).mem (x.cpu.gpr 1 + d) = load s.mem (x.cpu.gpr 1 + d) := by
  apply load_after
  intro a ha
  rw [hsp, add_assoc]
  have hin := in_slot ha (by omega)
  have hroom := h.room
  exact (above_slot h (by omega)).2 ⟨hd.trans hin.1, by omega⟩

theorem volatile_fpr {i : Reg} (hi : i ≤ 13) : ¬ (14 : Reg) ≤ i := not_le.2 (lt_of_le_of_lt hi (by decide))

/-- **What the rest of the entry code starts from**, on either path. -/
structure Ready (x : Redirection) (s : Cpu) : Prop where
  sp    : s.gpr 1 = x.cpu.gpr 1 + -88
  ptr   : s.gpr 3 = x.ulpStack
  ctr   : s.ctr = x.entry.ctr
  args  : ∀ p ∈ kept, s.gpr p.1 = x.entry.gpr p.1
  fargs : ∀ i : Reg, i ≤ 13 → s.fpr i = (if x.Full then x.helper else x.entry).fpr i
  saved : Saved x s.mem

theorem compared_ready (h : Grounds x) (hfull : ¬ x.Full) : Ready x x.compared where
  sp := by rw [compared_gpr (by decide) (by decide), if_pos (by decide), (called_regs h).1]
  ptr := by rw [compared_gpr (by decide) (by decide), if_neg (by decide), h.entryPtr]
  ctr := compared_same.2
  args := by
    intro p hp
    obtain ⟨-, ⟨h5, h6⟩, hvolatile, -, -⟩ := kept_facts hp
    rw [compared_gpr h5 h6, if_neg hvolatile]
  fargs := by
    intro i hi
    rw [if_neg hfull, compared, run_fpr, Call.after_fpr, if_neg (volatile_fpr hi)]
  saved := by
    rw [compared_same.1]
    exact (called_saved h).after h (called_regs h).1 (by decide) x.entry

theorem expanded_ready (h : Grounds x) (hfull : x.Full) :
    Ready x (run expandedCode (x.helper.after x.top (run expandCode x.compared))) := by
  have hsp : x.compared.gpr 1 = x.cpu.gpr 1 + -88 := by
    rw [compared_gpr (by decide) (by decide), if_pos (by decide), (called_regs h).1]
  have hsp' := run_expandCode_sp hsp
  obtain ⟨hkept, hctr⟩ := run_expandCode_kept hsp
  have hslot : ∀ {d : Addr}, 32 ≤ (192 + d).toNat → (192 + d).toNat ≤ 184 →
      load (x.helper.after x.top (run expandCode x.compared)).mem (x.cpu.gpr 1 + d) =
        load (run expandCode x.compared).mem (x.cpu.gpr 1 + d) := by
    intro d hd hd'
    exact load_slot h hsp' (Nat.le_trans (by decide) hd) hd' x.helper
  have hsaved : Saved x (run expandCode x.compared).mem := by
    rw [run_expandCode_mem hsp, compared_same.1]
    iterate 8 apply fun hs => Saved.store hs h (by decide)
    exact (called_saved h).after h (called_regs h).1 (by decide) x.entry
  have hafter := hsaved.after h hsp' (by decide) x.helper
  have hptr : (x.helper.after x.top (run expandCode x.compared)).gpr 3 = x.ulpStack := h.helperPtr
  have hfpr : ∀ i : Reg, i ≤ 13 → (x.helper.after x.top (run expandCode x.compared)).fpr i = x.helper.fpr i := by
    intro i hi
    rw [Call.after_fpr, if_neg (volatile_fpr hi)]
  have hsp'' : (x.helper.after x.top (run expandCode x.compared)).gpr 1 = x.cpu.gpr 1 + -192 := by
    rw [Call.after_gpr, if_pos (by decide), hsp']
  generalize x.helper.after x.top (run expandCode x.compared) = s at hslot hafter hptr hfpr hsp'' ⊢
  obtain ⟨hgpr, hctr', hsp₃, h3, hmem⟩ := run_expandedCode hsp''
  constructor
  case sp => exact hsp₃
  case ptr => rw [h3, hptr]
  case ctr => rw [hctr', hslot (by decide) (by decide), hctr, compared_same.2]
  case args =>
    intro p hp
    obtain ⟨-, ⟨h5, h6⟩, hvolatile, hlow, hhigh⟩ := kept_facts hp
    rw [hgpr p hp, hslot hlow hhigh, hkept p hp, compared_gpr h5 h6, if_neg hvolatile]
  case fargs =>
    intro i hi
    rw [if_pos hfull, run_fpr, hfpr i hi]
  case saved => rwa [hmem]

theorem pushing_ready (h : Grounds x) : Ready x x.pushing := by
  unfold pushing
  by_cases hfull : x.Full
  · rw [if_pos ((compared_full h).2 hfull)]
    exact expanded_ready h hfull
  · rw [if_neg (fun hle => hfull ((compared_full h).1 hle))]
    exact compared_ready h hfull

/-! ## The pair is pushed -/

/-- A store off the stack leaves the stack alone. -/
theorem store_off {p o a v : Addr} {n : Nat} {m : Mem} (hdisj : Mem.Disj p n x.base x.extent) (ho : o.toNat + 8 ≤ n)
    (hn : n ≤ 24) (ha : (a - x.base).toNat < x.extent) : store m (p + o) v a = m a := by
  apply store_outside
  by_contra hin
  have hword := in_doubleword (Nat.lt_of_not_le hin) (by omega)
  have hoff := hdisj a (by omega)
  omega

theorem Saved.off {p o v : Addr} {n : Nat} {m : Mem} (hs : Saved x m) (h : Grounds x)
    (hdisj : Mem.Disj p n x.base x.extent) (ho : o.toNat + 8 ≤ n) (hn : n ≤ 24) :
    Saved x (PowerCpu.store m (p + o) v) :=
  hs.congr h (fun _ ha => store_off hdisj ho hn ((above_slot h (by decide)).1 ha).2)

/-- Memory with the new used size. -/
def grown (x : Redirection) (m : Mem) : Mem :=
  store m (x.ulpStack + ULP_STACK_USED_SIZE) (load m (x.ulpStack + ULP_STACK_USED_SIZE) + 16)

theorem run_pushCode_mem {s : Cpu} (hs : Ready x s) : (run pushCode s).mem =
    store (store (grown x s.mem)
      (load (grown x s.mem) (x.ulpStack + ULP_STACK_PTR) + load s.mem (x.ulpStack + ULP_STACK_USED_SIZE))
      (load (grown x s.mem) (x.cpu.gpr 1 + -24)))
      (load (grown x s.mem) (x.ulpStack + ULP_STACK_PTR) + load s.mem (x.ulpStack + ULP_STACK_USED_SIZE) + 8)
      (load (grown x s.mem) (x.cpu.gpr 1 + -48)) := by
  simp [pushCode, run, exec, hs.sp, hs.ptr, grown, BitVec.add_assoc]

theorem run_pushCode_regs {s : Cpu} (hs : Ready x s) : (run pushCode s).gpr 1 = x.cpu.gpr 1 ∧
    (run pushCode s).ctr = s.ctr ∧ (run pushCode s).gpr 12 = s.ctr ∧
    (run pushCode s).gpr 3 = load (run pushCode s).mem (x.cpu.gpr 1 + -32) ∧
    (run pushCode s).gpr 5 = load (run pushCode s).mem (x.cpu.gpr 1 + -8) ∧
    (run pushCode s).gpr 6 = load (run pushCode s).mem (x.cpu.gpr 1 + -16) := by
  -- the last five instructions come behind the stores
  have hsplit : run pushCode s = run (pushCode.drop 11) (run (pushCode.take 11) s) := by
    rw [← run_append, List.take_append_drop]
  have hsp : (run (pushCode.take 11) s).gpr 1 = x.cpu.gpr 1 := by simp [pushCode, run, exec, hs.sp, BitVec.add_assoc]
  have hctr : (run (pushCode.take 11) s).ctr = s.ctr := by simp [pushCode, run, exec]
  rw [hsplit]
  generalize run (pushCode.take 11) s = t at hsp hctr ⊢
  refine ⟨?_, ?_, ?_, ?_, ?_, ?_⟩ <;> simp [pushCode, run, exec, hsp, hctr]

theorem run_pushCode_kept {s : Cpu} {p : Reg × Addr} (hp : p ∈ kept) : (run pushCode s).gpr p.1 = s.gpr p.1 := by
  apply run_gpr
  simp only [kept, List.mem_cons, List.not_mem_nil, or_false] at hp
  rcases hp with rfl | rfl | rfl | rfl | rfl <;> decide

/-- **The pair is in its slot**, and what was saved is still there. -/
theorem entered_saved (h : Grounds x) (hpush : Mem.Disj x.pushSlot 16 x.base x.extent) :
    Saved x x.entered.mem ∧ load x.entered.mem x.pushSlot = x.cpu.gpr 2 ∧
      load x.entered.mem (x.pushSlot + 8) = x.cpu.lr := by
  have hs := pushing_ready h
  have hgrown : Saved x (grown x x.pushing.mem) := hs.saved.off h h.words (by decide) (by decide)
  have hptr : load (grown x x.pushing.mem) (x.ulpStack + ULP_STACK_PTR) =
      load x.pushing.mem (x.ulpStack + ULP_STACK_PTR) := load_store_offset (by decide)
  have hmem : x.entered.mem =
      store (store (grown x x.pushing.mem) (x.pushSlot + 0) (x.cpu.gpr 2)) (x.pushSlot + 8) x.cpu.lr := by
    rw [entered, run_pushCode_mem hs, hptr, hgrown.toc, hgrown.lr, add_zero]
    rfl
  rw [hmem]
  refine ⟨?_, ?_, ?_⟩
  · exact (hgrown.off h hpush (by decide) (by decide)).off h hpush (by decide) (by decide)
  · have hzero : x.pushSlot = x.pushSlot + 0 := (add_zero _).symm
    exact (congrArg _ hzero).trans ((load_store_offset (by decide)).trans (load_store_self _ _ _))
  · rw [load_store_self]

/-! ## The way out -/

theorem run_returnCode {s : Cpu} (hsp : s.gpr 1 = x.cpu.gpr 1) : (run (returnCode x.link) s).gpr 1 = x.cpu.gpr 1 + -56 ∧
    load (run (returnCode x.link) s).mem (x.cpu.gpr 1 + -8) = s.gpr 3 := by
  have hmem : (run (returnCode x.link) s).mem =
      store (store s.mem (x.cpu.gpr 1 + -8) (s.gpr 3)) (x.cpu.gpr 1 + -16) (s.gpr 12) := by
    simp [returnCode, loadUlpStack, run, exec, hsp]
  refine ⟨?_, ?_⟩
  · simp [returnCode, loadUlpStack, run, exec, hsp]
  · rw [hmem, load_store_offset (by decide), load_store_self]

theorem returned_sp (h : Grounds x) : x.returned.gpr 1 = x.cpu.gpr 1 := by
  rw [returned, Call.regs_gpr, if_pos (by decide)]
  exact (run_pushCode_regs (pushing_ready h)).1

theorem popping_regs (h : Grounds x) : x.popping.gpr 1 = x.cpu.gpr 1 + -56 ∧ x.popping.gpr 3 = x.ulpStack ∧
    load x.popping.mem (x.cpu.gpr 1 + -8) = x.returned.gpr 3 := by
  obtain ⟨hsp, hr3⟩ := run_returnCode (returned_sp h)
  refine ⟨?_, ?_, ?_⟩
  · rw [popping, Call.after_gpr, if_pos (by decide), hsp]
  · exact h.exitPtr
  · rw [popping, load_slot h hsp (by decide) (by decide), hr3]

/-- Memory with the used size that is left. -/
def shrunk (x : Redirection) (m : Mem) : Mem :=
  store m (x.ulpStack + ULP_STACK_USED_SIZE) (load m (x.ulpStack + ULP_STACK_USED_SIZE) + -16)

theorem run_popCode {s : Cpu} (hsp : s.gpr 1 = x.cpu.gpr 1 + -56) (hptr : s.gpr 3 = x.ulpStack) :
    (run popCode s).gpr 1 = x.cpu.gpr 1 ∧ (run popCode s).gpr 3 = load (shrunk x s.mem) (x.cpu.gpr 1 + -8) ∧
    (run popCode s).gpr 2 = load (shrunk x s.mem) (load (shrunk x s.mem) (x.ulpStack + ULP_STACK_PTR) +
      (load s.mem (x.ulpStack + ULP_STACK_USED_SIZE) + -16) + 0) ∧
    (run popCode s).lr = load (shrunk x s.mem) (load (shrunk x s.mem) (x.ulpStack + ULP_STACK_PTR) +
      (load s.mem (x.ulpStack + ULP_STACK_USED_SIZE) + -16) + 8) := by
  refine ⟨?_, ?_, ?_, ?_⟩ <;> simp [popCode, run, exec, hsp, hptr, shrunk, BitVec.add_assoc]

/-- **The caller goes on** with its TOC and its stack pointer, at its return address, and `r3` is the function's. -/
theorem resumed_regs (h : Setting x) : x.resumed.gpr 1 = x.cpu.gpr 1 ∧ x.resumed.gpr 2 = x.cpu.gpr 2 ∧
    x.resumed.lr = x.cpu.lr ∧ x.resumed.gpr 3 = x.returned.gpr 3 := by
  obtain ⟨hsp, hptr, hr3⟩ := popping_regs h.toGrounds
  obtain ⟨h1, h3, h2, hlr⟩ := run_popCode hsp hptr
  obtain ⟨-, htoc, hret⟩ := entered_saved h.toGrounds h.pushStack
  have hword : load (shrunk x x.popping.mem) (x.ulpStack + ULP_STACK_PTR) =
      load x.popping.mem (x.ulpStack + ULP_STACK_PTR) := load_store_offset (by decide)
  have hslot : load x.popping.mem (x.ulpStack + ULP_STACK_PTR) +
      (load x.popping.mem (x.ulpStack + ULP_STACK_USED_SIZE) + -16) = x.popSlot := by
    rw [popSlot, sub_eq_add_neg, add_assoc]
  have hpair : ∀ {o : Addr}, o.toNat ≤ 8 →
      load (shrunk x x.popping.mem) (x.popSlot + o) = load x.popping.mem (x.popSlot + o) :=
    fun ho => load_store_disj (disj_doublewords h.popWords (by omega) (by decide) (by decide) (by decide))
  rw [hword, hslot, hpair (by decide)] at h2 hlr
  rw [add_zero, h.balanced.1, htoc] at h2
  rw [h.balanced.2, hret] at hlr
  refine ⟨h1, h2, hlr, h3.trans ?_⟩
  rw [← hr3]
  apply load_congr
  intro a ha
  have hin := in_slot ha (by decide)
  have hroom := h.room
  have htop : (192 + -8 : Addr).toNat = 184 := rfl
  exact store_off h.words (by decide) (by decide) (by omega)

/-! ## The redirection -/

/-- The argument registers at the new function's entry. -/
theorem entered_args (h : Grounds x) {p : Reg × Addr} (hp : p ∈ kept) : x.entered.gpr p.1 = x.entry.gpr p.1 := by
  rw [entered, run_pushCode_kept hp, (pushing_ready h).args p hp]

theorem entered_fargs (h : Grounds x) {i : Reg} (hi : i ≤ 13) :
    x.entered.fpr i = (if x.Full then x.helper else x.entry).fpr i := by
  rw [entered, run_fpr, (pushing_ready h).fargs i hi]

theorem entered_target (h : Grounds x) : x.entered.ctr = x.entry.ctr ∧ x.entered.gpr 12 = x.entry.ctr := by
  obtain ⟨-, hctr, h12, -⟩ := run_pushCode_regs (pushing_ready h)
  have hentry := (pushing_ready h).ctr
  exact ⟨hctr.trans hentry, h12.trans hentry⟩

/-- What the function returns is what it has left in the volatile registers. -/
theorem returned_same (x : Redirection) : x.returned.gpr 4 = x.function.gpr 4 ∧
    (∀ i : Reg, i ≤ 8 → x.returned.fpr i = x.function.fpr i) ∧
    ∀ i : Reg, i ≤ 9 → x.returned.vr i = x.function.vr i := by
  refine ⟨?_, ?_, ?_⟩
  · rw [returned, Call.regs_gpr, if_neg (by decide)]
  · intro i hi
    rw [returned, Call.regs_fpr, if_neg (not_le.2 (lt_of_le_of_lt hi (by decide)))]
  · intro i hi
    rw [returned, Call.regs_vr, if_neg (not_le.2 (lt_of_le_of_lt hi (by decide)))]

/-- What the caller finds is what the second `__tls_get_addr` has left there. -/
theorem resumed_same (x : Redirection) : x.resumed.gpr 4 = x.exit.gpr 4 ∧
    (∀ i : Reg, i ≤ 8 → x.resumed.fpr i = x.exit.fpr i) ∧ ∀ i : Reg, i ≤ 9 → x.resumed.vr i = x.exit.vr i := by
  refine ⟨?_, ?_, ?_⟩
  · rw [resumed, run_gpr (by decide), popping, Call.after_gpr, if_neg (by decide)]
  · intro i hi
    rw [resumed, run_fpr, popping, Call.after_fpr, if_neg (not_le.2 (lt_of_le_of_lt hi (by decide)))]
  · intro i hi
    rw [resumed, run_vr, popping, Call.after_vr, if_neg (not_le.2 (lt_of_le_of_lt hi (by decide)))]

theorem Transparent.spared (ht : Transparent x) (h : Grounds x) : Spared x := by
  obtain ⟨hfun, hfunf, hfunv⟩ := x.returned_same
  obtain ⟨hexit, hexitf, hexitv⟩ := x.resumed_same
  constructor
  case ctr => exact (entered_target h).1.symm.trans ht.target.1
  case args =>
    intro r hr
    obtain ⟨p, hp, rfl⟩ := kept_of_mem hr
    obtain ⟨⟨hlow, hhigh⟩, -⟩ := kept_facts hp
    exact (entered_args h hp).symm.trans (ht.args p.1 hlow hhigh)
  case fargs => exact fun i hi hi' => (entered_fargs h hi').symm.trans (ht.fargs i hi hi')
  case result => rw [← hexit, ← hfun, ht.results.2]
  case fresult =>
    intro i hi hi'
    rw [← hexitf i hi', ← hfunf i hi', ht.fresult i hi hi']
  case vresult =>
    intro i hi hi'
    rw [← hexitv i hi', ← hfunv i hi', ht.vresult i hi hi']

theorem Spared.transparent (hs : Spared x) (h : Setting x) : Transparent x := by
  have hg := h.toGrounds
  obtain ⟨hsp, -, -, h3, h5, h6⟩ := run_pushCode_regs (pushing_ready hg)
  obtain ⟨hsaved, -, -⟩ := entered_saved hg h.pushStack
  obtain ⟨hr1, hr2, hlr, hr3⟩ := resumed_regs h
  obtain ⟨hfun, hfunf, hfunv⟩ := x.returned_same
  obtain ⟨hexit, hexitf, hexitv⟩ := x.resumed_same
  constructor
  case jump => exact x.jumped_regs.2.2.1
  case target => exact ⟨(entered_target hg).1.trans hs.ctr, (entered_target hg).2.trans hs.ctr⟩
  case args =>
    intro r hr hr'
    have hcases : r = 3 ∨ r = 5 ∨ r = 6 ∨ r ∈ [(4 : Reg), 7, 8, 9, 10] := by
      revert r
      decide
    rcases hcases with rfl | rfl | rfl | hmem
    · exact h3.trans hsaved.r3
    · exact h5.trans hsaved.r5
    · exact h6.trans hsaved.r6
    · obtain ⟨p, hp, rfl⟩ := kept_of_mem hmem
      exact (entered_args hg hp).trans (hs.args p.1 hmem)
  case fargs => exact fun i hi hi' => (entered_fargs hg hi').trans (hs.fargs i hi hi')
  case stack =>
    refine ⟨hsp, ?_⟩
    intro a ha
    exact hsaved.stack a (by rwa [add_zero])
  case resume => exact hlr
  case toc => exact hr2
  case sp => exact hr1
  case results => exact ⟨hr3, by rw [hexit, hfun, hs.result]⟩
  case fresult =>
    intro i hi hi'
    rw [hexitf i hi', hfunf i hi', hs.fresult i hi hi']
  case vresult =>
    intro i hi hi'
    rw [hexitv i hi', hfunv i hi', hs.vresult i hi hi']

/-- **The redirection is transparent if and only if the calls spare what the code does not save.** -/
theorem transparent_iff (x : Redirection) (h : Setting x) : Transparent x ↔ Spared x :=
  ⟨fun ht => ht.spared h.toGrounds, fun hs => hs.transparent h⟩

/-! ## A call of `__tls_get_addr` that uses `r4` -/

theorem pushSlot_fast (h : Grounds x) (hfull : ¬ x.Full) : x.pushSlot =
    load x.entry.mem (x.ulpStack + ULP_STACK_PTR) + load x.entry.mem (x.ulpStack + ULP_STACK_USED_SIZE) := by
  have hword : ∀ {o : Addr}, o.toNat ≤ 16 → load x.pushing.mem (x.ulpStack + o) = load x.entry.mem (x.ulpStack + o) := by
    intro o ho
    rw [pushing, if_neg (fun hle => hfull ((compared_full h).1 hle)), compared_same.1,
      load_word h (called_regs h).1 (by decide) ho]
  rw [pushSlot, hword (by decide), hword (by decide)]

theorem popping_mem (h : Grounds x) {a : Addr} (ha : ∀ b : Addr, (b - a).toNat < 8 → x.extent ≤ (b - x.base).toNat) :
    load x.popping.mem a = load x.exit.mem a := by
  apply load_after_outside
  intro b hb hin
  rw [(run_returnCode (returned_sp h)).1, add_assoc] at hin
  have habove := (above_slot h (by decide)).1 hin
  have hout := ha b hb
  omega

/-- Memory with `ulp_stack` at `0x2000` and its buffer at `0x3000`. -/
def sideStackMem (used : Addr) (m : Mem) : Mem := store (store (store m 0x2000 16) 0x2008 used) 0x2010 0x3000

/-- A call that returns the address of `ulp_stack`. -/
def tlsCall (r4 ctr : Addr) (m : Mem) : Call where
  gpr r := if r = 3 then 0x2000 else if r = 4 then r4 else 0
  fpr _ := 0
  vr _ := 0
  ctr := ctr
  lr := 0
  mem := m

/-- The first call leaves `r4` behind, the stack of the thread ends at `0x10040`. -/
def tlsRedirection (r4 : Addr) : Redirection where
  link := ⟨0x5000, 0, 0, 0, 0⟩
  area := 0x1000
  target := 0x6000
  ulpStack := 0x2000
  top := 0x10040
  cpu := ⟨fun r => if r = 1 then 0x10000 else 0, fun _ => 0, fun _ => 0, 0, 0,
    Mem.write (fun _ => 0) 0x1000 (prolog 0x5000 0x6000)⟩
  entry := tlsCall r4 0x6000 (sideStackMem 0 (fun _ => 0))
  helper := tlsCall 0 0 (fun _ => 0)
  function := tlsCall 0 0 (fun _ => 0)
  exit := tlsCall 0 0 (sideStackMem 16 (fun _ => 0))

theorem tlsRedirection_stack (r4 : Addr) : (tlsRedirection r4).base = 0xff40 ∧ (tlsRedirection r4).extent = 256 := by
  simp [extent, base, tlsRedirection]

theorem tlsRedirection_grounds (r4 : Addr) : Grounds (tlsRedirection r4) := by
  obtain ⟨hbase, hextent⟩ := tlsRedirection_stack r4
  constructor
  case prologue =>
    have h := Mem.read_write_self (fun _ => 0) (0x1000 : Addr) (prolog 0x5000 0x6000) (by rw [length_prolog]; decide)
    rwa [length_prolog] at h
  case room => rw [hextent]; decide
  case code =>
    rw [hbase, hextent]
    exact (disj_of_le (by decide) (by decide) : Mem.Disj 0x1000 (insnSize * preNopsLen) 0xff40 256)
  case words =>
    rw [hbase, hextent]
    exact (disj_of_le (by decide) (by decide) : Mem.Disj 0x2000 24 0xff40 256)
  all_goals rfl

theorem load_sideStackMem (used : Addr) (m : Mem) : load (sideStackMem used m) 0x2000 = 16 ∧
    load (sideStackMem used m) 0x2008 = used ∧ load (sideStackMem used m) 0x2010 = 0x3000 := by
  have hdisj : ∀ {a b v : Addr} {m : Mem}, 8 ≤ (b - a).toNat ∧ 8 + (b - a).toNat ≤ 2 ^ 64 →
      load (store m b v) a = load m a := fun h => load_store_disj (disj_of_le h.1 h.2)
  unfold sideStackMem
  refine ⟨?_, ?_, ?_⟩
  · rw [hdisj (by decide), hdisj (by decide), load_store_self]
  · rw [hdisj (by decide), load_store_self]
  · rw [load_store_self]

theorem tlsRedirection_setting (r4 : Addr) : Setting (tlsRedirection r4) := by
  have hg := tlsRedirection_grounds r4
  obtain ⟨hbase, hextent⟩ := tlsRedirection_stack r4
  obtain ⟨hreal, hused, hbuf⟩ := load_sideStackMem 0 (fun _ => 0)
  obtain ⟨-, hused', hbuf'⟩ := load_sideStackMem 16 (fun _ => 0)
  have hfull : ¬ (tlsRedirection r4).Full := by
    change ¬ (load (sideStackMem 0 (fun _ => 0)) 0x2000).sle (load (sideStackMem 0 (fun _ => 0)) 0x2008) = true
    rw [hreal, hused]
    decide
  have hpush : (tlsRedirection r4).pushSlot = 0x3000 := by
    rw [pushSlot_fast hg hfull]
    change load (sideStackMem 0 (fun _ => 0)) 0x2010 + load (sideStackMem 0 (fun _ => 0)) 0x2008 = 0x3000
    rw [hbuf, hused]
    rfl
  have hoff : ∀ {a : Addr}, 8 ≤ ((0xff40 : Addr) - a).toNat ∧ 256 + ((0xff40 : Addr) - a).toNat ≤ 2 ^ 64 →
      load (tlsRedirection r4).popping.mem a = load (sideStackMem 16 (fun _ => 0)) a := by
    intro a ha
    apply popping_mem hg
    rw [hbase, hextent]
    exact disj_of_le ha.1 ha.2
  have hpop : (tlsRedirection r4).popSlot = 0x3000 := by
    change load (tlsRedirection r4).popping.mem 0x2010 + load (tlsRedirection r4).popping.mem 0x2008 - 16 = 0x3000
    rw [hoff (by decide), hoff (by decide), hbuf', hused']
    rfl
  have hstack : Mem.Disj (tlsRedirection r4).pushSlot 16 (tlsRedirection r4).base (tlsRedirection r4).extent := by
    rw [hpush, hbase, hextent]
    exact disj_of_le (by decide) (by decide)
  obtain ⟨-, htoc, hlr⟩ := entered_saved hg hstack
  refine ⟨hg, hstack, ?_, ?_, ?_⟩
  · rw [hpop]
    exact (disj_of_le (by decide) (by decide) : Mem.Disj 0x2000 24 0x3000 16).symm
  · rw [htoc, hpop, hoff (by decide)]
    exact (by decide : load (sideStackMem 16 (fun _ => 0)) 0x3000 = 0)
  · rw [hlr, hpop, hoff (by decide)]
    exact (by decide : load (sideStackMem 16 (fun _ => 0)) 0x3008 = 0)

/-- With `r4` as the caller left it the redirection is transparent. -/
theorem transparent_kept : Transparent (tlsRedirection 0) :=
  (transparent_iff (tlsRedirection 0) (tlsRedirection_setting 0)).2 {
    ctr := rfl
    args := by decide
    fargs := by
      intro i _ _
      split <;> rfl
    result := rfl
    fresult := fun _ _ _ => rfl
    vresult := fun _ _ _ => rfl }

/-- **A second argument is lost** when `__tls_get_addr` uses `r4`. -/
theorem second_argument_lost : ¬ ∀ x : Redirection, Setting x → Transparent x := by
  intro h
  have hargs := (h (tlsRedirection 1) (tlsRedirection_setting 1)).args 4 (by decide) (by decide)
  have hentry := entered_args (tlsRedirection_grounds 1) (List.mem_cons_self : ((4, -96) : Reg × Addr) ∈ kept)
  rw [hentry] at hargs
  revert hargs
  decide

end Redirection
end Power
end Libpulp
