import Libpulp.Bytes
/-!
# PowerCpu — straight-line powerpc64le code, and calls under the ELFv2 ABI

The registers that the ABI knows, a memory of bytes, and the instructions of code that saves registers, calls and
restores them.  `r0` is no base register here.  What a call leaves is a value of its own (`Call`), and what of it the
caller gets to see is decided by the ABI (`Call.after`): the nonvolatile registers are the caller's, and so is the stack
from its frame's header on.
-/
namespace PowerCpu

open Bytes (Byte Addr Mem toLE length_toLE addrOfLE addrOfLE_toLE)

abbrev Reg := Fin 32

-- an instance by name: literals of registers then carry no proof of their own
instance regs_ne_zero : NeZero 32 := ⟨by decide⟩

structure Cpu where
  gpr : Reg → Addr
  fpr : Reg → BitVec 64
  vr  : Reg → BitVec 128
  ctr : Addr
  lr  : Addr
  mem : Mem

/-- The doubleword at `a`. -/
def load (m : Mem) (a : Addr) : Addr := addrOfLE (m.read a 8)

def store (m : Mem) (a v : Addr) : Mem := m.write a (toLE 8 v.toNat)

inductive Instr where
  | std (rs : Reg) (d : Addr) (ra : Reg)
  | ld (rt : Reg) (d : Addr) (ra : Reg)
  | addi (rt ra : Reg) (si : Addr)
  | addis (rt ra : Reg) (si : Addr)
  | lis (rt : Reg) (si : BitVec 16)
  | ori (ra rs : Reg) (ui : BitVec 16)
  -- `rldimi ra, rs, sh, 0`
  | rldimi (ra rs : Reg) (sh : Nat)
  | add (rt ra rb : Reg)
  | mtctr (rs : Reg)
  | mfctr (rt : Reg)
  | mtlr (rs : Reg)
  | mflr (rt : Reg)
  -- `bl` to the instruction behind it, at `a`
  | bl (a : Addr)

namespace Cpu

variable (s : Cpu)

def set (r : Reg) (v : Addr) : Cpu := { s with gpr := fun x => if x = r then v else s.gpr x }
def setCtr (v : Addr) : Cpu := { s with ctr := v }
def setLr (v : Addr) : Cpu := { s with lr := v }
def setMem (m : Mem) : Cpu := { s with mem := m }

end Cpu

def exec : Instr → Cpu → Cpu
  | .std rs d ra, s     => s.setMem (store s.mem (s.gpr ra + d) (s.gpr rs))
  | .ld rt d ra, s      => s.set rt (load s.mem (s.gpr ra + d))
  | .addi rt ra si, s   => s.set rt (s.gpr ra + si)
  | .addis rt ra si, s  => s.set rt (s.gpr ra + si <<< 16)
  | .lis rt si, s       => s.set rt ((si ++ 0#16).signExtend 64)
  | .ori ra rs ui, s    => s.set ra (s.gpr rs ||| ui.setWidth 64)
  | .rldimi ra rs sh, s => s.set ra (s.gpr rs <<< sh ||| ((s.gpr ra).setWidth sh).setWidth 64)
  | .add rt ra rb, s    => s.set rt (s.gpr ra + s.gpr rb)
  | .mtctr rs, s        => s.setCtr (s.gpr rs)
  | .mfctr rt, s        => s.set rt s.ctr
  | .mtlr rs, s         => s.setLr (s.gpr rs)
  | .mflr rt, s         => s.set rt s.lr
  | .bl a, s            => s.setLr a

def run : List Instr → Cpu → Cpu
  | [], s      => s
  | i :: is, s => run is (exec i s)

/-! ## Calls -/

/-- The values a call leaves behind. -/
structure Call where
  gpr : Reg → Addr
  fpr : Reg → BitVec 64
  vr  : Reg → BitVec 128
  ctr : Addr
  lr  : Addr
  mem : Mem

/-- The registers after a call: `r1`, `r13` to `r31`, `f14` to `f31` and `v20` to `v31` are the caller's. -/
def Call.regs (c : Call) (s : Cpu) : Cpu where
  gpr r := if r = 1 ∨ 13 ≤ r then s.gpr r else c.gpr r
  fpr i := if 14 ≤ i then s.fpr i else c.fpr i
  vr i := if 20 ≤ i then s.vr i else c.vr i
  ctr := c.ctr
  lr := c.lr
  mem := c.mem

/-- The address belongs to the stack from `a` on, which ends at `top`. -/
def Above (a top x : Addr) : Prop := (x - a).toNat < (top - a).toNat

instance (a top x : Addr) : Decidable (Above a top x) := inferInstanceAs (Decidable (_ < _))

/-- After a call of a function without stack parameters: the stack is the caller's, save the 32 bytes of the header of
its frame. -/
def Call.after (c : Call) (top : Addr) (s : Cpu) : Cpu :=
  { c.regs s with mem := fun x => if Above (s.gpr 1 + 32) top x then s.mem x else c.mem x }

/-! ## Registers -/

namespace Cpu

variable (s : Cpu) (r x : Reg) (v : Addr) (m : Mem)

@[simp] theorem set_gpr : (s.set r v).gpr x = if x = r then v else s.gpr x := (rfl)
@[simp] theorem set_fpr : (s.set r v).fpr = s.fpr := (rfl)
@[simp] theorem set_vr : (s.set r v).vr = s.vr := (rfl)
@[simp] theorem set_ctr : (s.set r v).ctr = s.ctr := (rfl)
@[simp] theorem set_lr : (s.set r v).lr = s.lr := (rfl)
@[simp] theorem set_mem : (s.set r v).mem = s.mem := (rfl)
@[simp] theorem setCtr_gpr : (s.setCtr v).gpr = s.gpr := (rfl)
@[simp] theorem setCtr_fpr : (s.setCtr v).fpr = s.fpr := (rfl)
@[simp] theorem setCtr_vr : (s.setCtr v).vr = s.vr := (rfl)
@[simp] theorem setCtr_ctr : (s.setCtr v).ctr = v := (rfl)
@[simp] theorem setCtr_lr : (s.setCtr v).lr = s.lr := (rfl)
@[simp] theorem setCtr_mem : (s.setCtr v).mem = s.mem := (rfl)
@[simp] theorem setLr_gpr : (s.setLr v).gpr = s.gpr := (rfl)
@[simp] theorem setLr_fpr : (s.setLr v).fpr = s.fpr := (rfl)
@[simp] theorem setLr_vr : (s.setLr v).vr = s.vr := (rfl)
@[simp] theorem setLr_ctr : (s.setLr v).ctr = s.ctr := (rfl)
@[simp] theorem setLr_lr : (s.setLr v).lr = v := (rfl)
@[simp] theorem setLr_mem : (s.setLr v).mem = s.mem := (rfl)
@[simp] theorem setMem_gpr : (s.setMem m).gpr = s.gpr := (rfl)
@[simp] theorem setMem_fpr : (s.setMem m).fpr = s.fpr := (rfl)
@[simp] theorem setMem_vr : (s.setMem m).vr = s.vr := (rfl)
@[simp] theorem setMem_ctr : (s.setMem m).ctr = s.ctr := (rfl)
@[simp] theorem setMem_lr : (s.setMem m).lr = s.lr := (rfl)
@[simp] theorem setMem_mem : (s.setMem m).mem = m := (rfl)

end Cpu

namespace Call

variable (c : Call) (s : Cpu) (top : Addr) (r : Reg)

@[simp] theorem regs_gpr : (c.regs s).gpr r = if r = 1 ∨ 13 ≤ r then s.gpr r else c.gpr r := (rfl)
@[simp] theorem regs_fpr : (c.regs s).fpr r = if 14 ≤ r then s.fpr r else c.fpr r := (rfl)
@[simp] theorem regs_vr : (c.regs s).vr r = if 20 ≤ r then s.vr r else c.vr r := (rfl)
@[simp] theorem regs_mem : (c.regs s).mem = c.mem := (rfl)
@[simp] theorem after_gpr : (c.after top s).gpr r = if r = 1 ∨ 13 ≤ r then s.gpr r else c.gpr r := (rfl)
@[simp] theorem after_fpr : (c.after top s).fpr r = if 14 ≤ r then s.fpr r else c.fpr r := (rfl)
@[simp] theorem after_vr : (c.after top s).vr r = if 20 ≤ r then s.vr r else c.vr r := (rfl)
@[simp] theorem after_ctr : (c.after top s).ctr = c.ctr := (rfl)
theorem after_mem (x : Addr) : (c.after top s).mem x = if Above (s.gpr 1 + 32) top x then s.mem x else c.mem x := (rfl)

end Call

theorem run_append : ∀ (is js : List Instr) (s : Cpu), run (is ++ js) s = run js (run is s)
  | [], _, _       => rfl
  | i :: is, js, s => run_append is js (exec i s)

/-- The general register that an instruction writes. -/
def Instr.target : Instr → Option Reg
  | .ld rt _ _ | .addi rt _ _ | .addis rt _ _ | .lis rt _ | .ori rt _ _ | .rldimi rt _ _ | .add rt _ _ | .mfctr rt |
    .mflr rt => some rt
  | _ => none

theorem exec_gpr {i : Instr} {r : Reg} (h : i.target ≠ some r) (s : Cpu) : (exec i s).gpr r = s.gpr r := by
  have hset : ∀ {rt : Reg} {v : Addr}, some rt ≠ some r → (s.set rt v).gpr r = s.gpr r := by
    intro rt v hne
    exact if_neg (fun heq => hne (congrArg some heq.symm))
  cases i with
  | std rs d ra => exact congrFun (s.setMem_gpr _) r
  | mtctr rs => exact congrFun (s.setCtr_gpr _) r
  | mtlr rs => exact congrFun (s.setLr_gpr _) r
  | bl a => exact congrFun (s.setLr_gpr a) r
  | _ => exact hset h

/-- Code leaves a register alone that it does not name as a target. -/
theorem run_gpr {r : Reg} : ∀ {is : List Instr}, (∀ i ∈ is, i.target ≠ some r) → ∀ s : Cpu, (run is s).gpr r = s.gpr r
  | [], _, _      => rfl
  | i :: is, h, s => by
    unfold run
    rw [run_gpr (fun j hj => h j (List.mem_cons_of_mem i hj)), exec_gpr (h i List.mem_cons_self)]

theorem run_fpr : ∀ (is : List Instr) (s : Cpu), (run is s).fpr = s.fpr
  | [], _      => rfl
  | i :: is, s => by
    unfold run
    rw [run_fpr is]
    cases i <;> simp only [exec, Cpu.set_fpr, Cpu.setCtr_fpr, Cpu.setLr_fpr, Cpu.setMem_fpr]

theorem run_vr : ∀ (is : List Instr) (s : Cpu), (run is s).vr = s.vr
  | [], _      => rfl
  | i :: is, s => by
    unfold run
    rw [run_vr is]
    cases i <;> simp only [exec, Cpu.set_vr, Cpu.setCtr_vr, Cpu.setLr_vr, Cpu.setMem_vr]

/-! ## Loads and stores -/

theorem load_store_self (m : Mem) (a v : Addr) : load (store m a v) a = v := by
  have h := Mem.read_write_self m a (toLE 8 v.toNat) (by rw [length_toLE]; decide)
  rw [length_toLE] at h
  unfold load store
  rw [h, addrOfLE_toLE]

theorem load_store_disj {m : Mem} {a b v : Addr} (h : Mem.Disj a 8 b 8) : load (store m b v) a = load m a := by
  unfold load store
  rw [Mem.read_write_disj (by rwa [length_toLE]) (by decide)]

theorem store_outside {m : Mem} {a v x : Addr} (h : 8 ≤ (x - a).toNat) : store m a v x = m x :=
  Mem.write_outside (by rwa [length_toLE])

theorem load_congr {m m' : Mem} {a : Addr} (h : ∀ x : Addr, (x - a).toNat < 8 → m' x = m x) : load m' a = load m a := by
  unfold load
  rw [Mem.read_congr]
  intro i hi
  apply h
  rw [Mem.sub_ofNat_toNat a (by omega)]
  exact hi

theorem above_iff {base e top a : Addr} (he : e.toNat ≤ (top - base).toNat) :
    Above (base + e) top a ↔ e.toNat ≤ (a - base).toNat ∧ (a - base).toNat < (top - base).toNat := by
  unfold Above
  rw [sub_add_eq_sub_sub, sub_add_eq_sub_sub]
  generalize a - base = u
  generalize top - base = t at he ⊢
  rw [BitVec.toNat_sub_of_le (BitVec.le_def.2 he), BitVec.toNat_sub]
  have := u.isLt
  have := t.isLt
  omega

theorem in_doubleword {base e a : Addr} (ha : (a - (base + e)).toNat < 8) (he : e.toNat < 2 ^ 64 - 8) :
    e.toNat ≤ (a - base).toNat ∧ (a - base).toNat < e.toNat + 8 := by
  rw [sub_add_eq_sub_sub, BitVec.toNat_sub] at ha
  have := (a - base).isLt
  omega

/-- Two doublewords at offsets from one base that are far enough apart. -/
theorem offsets_disj {a c d : Addr} (h : 8 ≤ (c - d).toNat ∧ 8 ≤ (d - c).toNat) : Mem.Disj (a + c) 8 (a + d) 8 := by
  intro x hx
  rw [sub_add_eq_sub_sub, BitVec.toNat_sub] at hx ⊢
  rw [BitVec.toNat_sub, BitVec.toNat_sub] at h
  have := (x - a).isLt
  omega

theorem load_store_offset {m : Mem} {a c d v : Addr} (h : 8 ≤ (c - d).toNat ∧ 8 ≤ (d - c).toNat) :
    load (store m (a + d) v) (a + c) = load m (a + c) := load_store_disj (offsets_disj h)

theorem disj_of_le {a b : Addr} {n k : Nat} (h : n ≤ (b - a).toNat) (h' : k + (b - a).toNat ≤ 2 ^ 64) :
    Mem.Disj a n b k := by
  intro y hy
  rw [← sub_sub_sub_cancel_right y b a, BitVec.toNat_sub]
  have := (b - a).isLt
  omega

theorem disj_doublewords {p b o o' : Addr} {n k : Nat} (h : Mem.Disj p n b k) (ho : o.toNat + 8 ≤ n)
    (ho' : o'.toNat + 8 ≤ k) (hn : n < 2 ^ 64) (hk : k < 2 ^ 64) : Mem.Disj (p + o) 8 (b + o') 8 := by
  intro x hx
  by_contra hin
  have hp := in_doubleword hx (by omega)
  have hb := in_doubleword (Nat.lt_of_not_le hin) (by omega)
  have hdisj := h x (by omega)
  omega

/-- A doubleword of the stack above the header survives a call. -/
theorem load_after {c : Call} {top a : Addr} {s : Cpu} (h : ∀ x : Addr, (x - a).toNat < 8 → Above (s.gpr 1 + 32) top x) :
    load (c.after top s).mem a = load s.mem a :=
  load_congr (fun x hx => if_pos (h x hx))

/-- What is not on the stack is as the call leaves it. -/
theorem load_after_outside {c : Call} {top a : Addr} {s : Cpu}
    (h : ∀ x : Addr, (x - a).toNat < 8 → ¬ Above (s.gpr 1 + 32) top x) : load (c.after top s).mem a = load c.mem a :=
  load_congr (fun x hx => if_neg (h x hx))

end PowerCpu
