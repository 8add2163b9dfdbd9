import Libpulp.Bytes
import Mathlib.Logic.Relation
/-!
# Hijack — borrowing the main thread (tools/ptrace.c, tools/introspection.c)

`hijack_threads` stops every thread and saves what `PTRACE_GETREGS` reads; `run_and_redirect` lets the main thread run a
libpulp routine on a copy of the saved context, below its red zone; `restore_threads` writes the saved registers back.
What a routine does to the thread is left open: it may leave any value in any register and may even still be running.
Of memory it changes libpulp's data and what lies below the stack pointer it was given.
-/
namespace Libpulp

open Bytes (Addr Mem)
open Relation (ReflTransGen)

def redZoneLen : Nat := 128
def restartSyscallSize : Nat := 2

/-- `struct user_regs_struct`: the three registers the tool looks at and the 24 other members. -/
structure Registers where
  rax    : Addr
  rip    : Addr
  rsp    : Addr
  others : Vector Addr 24
deriving DecidableEq

/-- The stack pointer `run_and_redirect` hands to a routine: below the red zone, on a 64-byte boundary. -/
def routineStack (regs : Registers) : Addr := (regs.rsp - BitVec.ofNat 64 redZoneLen) &&& 0xFFFFFFFFFFFFFFC0

/-- The registers `run_and_redirect` starts a routine with, past its two NOPs. -/
def redirected (regs : Registers) (routine : Addr) : Registers :=
  { regs with rip := routine + BitVec.ofNat 64 restartSyscallSize, rsp := routineStack regs }

variable {V : Type}

/-- A thread: what `PTRACE_GETREGS` reads of it, and its x87, SSE and AVX registers. -/
structure ThreadState (V : Type) where
  regs : Registers
  vec  : V

/-- `get_regs`. -/
def ThreadState.getRegs (t : ThreadState V) : Registers := t.regs

/-- `set_regs`. -/
def ThreadState.setRegs (t : ThreadState V) (regs : Registers) : ThreadState V := { t with regs }

/-- A hijacked process.  Its main thread is in a ptrace stop unless a routine is still running on it. -/
structure Process (V : Type) where
  main    : ThreadState V
  stopped : Bool
  others  : List (ThreadState V)
  mem     : Mem

/-- The saved contexts of the threads. -/
structure Contexts where
  main   : Registers
  others : List Registers

def hijackThreads (p : Process V) : Contexts := ⟨p.main.getRegs, p.others.map ThreadState.getRegs⟩

/-- `restore_threads`: the registers of a thread that is not stopped cannot be set, which counts as an error. -/
def restoreThreads (c : Contexts) (p : Process V) : Int × Process V :=
  (if p.stopped then 0 else 1,
    { p with main   := if p.stopped then p.main.setRegs c.main else p.main
             others := List.zipWith ThreadState.setRegs p.others c.others })

/-- `run_and_redirect` up to `PTRACE_CONT`. -/
def startRoutine (c : Contexts) (routine : Addr) (p : Process V) : Process V :=
  { p with main := p.main.setRegs (redirected c.main routine), stopped := false }

/-- A routine with the stack pointer `sp`, and libpulp's data `D`, may turn the memory `m` into `m'`. -/
def Confined (D : Set Addr) (sp : Addr) (m m' : Mem) : Prop := ∀ a, ¬ a < sp → a ∉ D → m' a = m a

/-- **Borrowing the main thread**: `run_and_redirect` starts a routine on a copy of the saved context; the thread runs,
and has stopped or not when the tool goes on. -/
inductive Borrows (D : Set Addr) (c : Contexts) : Process V → Process V → Prop
  | starts (p : Process V) (routine : Addr) (stopped : p.stopped = true) : Borrows D c p (startRoutine c routine p)
  | runs (p : Process V) (main : ThreadState V) (stopped : Bool) (mem : Mem) (running : p.stopped = false)
      (confined : Confined D (routineStack c.main) p.mem mem) : Borrows D c p { p with main, stopped, mem }

/-- The red zone of the main thread and the stack above it, up to `top`. -/
def InUse (p : Process V) (top a : Addr) : Prop := p.main.regs.rsp - BitVec.ofNat 64 redZoneLen ≤ a ∧ a < top

theorem routineStack_le (regs : Registers) : routineStack regs ≤ regs.rsp - BitVec.ofNat 64 redZoneLen := by
  rw [BitVec.le_def, routineStack, BitVec.toNat_and]
  exact Nat.and_le_left

/-- What a routine may write does not reach into the red zone. -/
theorem Confined.inUse {D : Set Addr} {p : Process V} {top : Addr} (hD : ∀ a, InUse p top a → a ∉ D)
    {m m' : Mem} (h : Confined D (routineStack p.main.regs) m m') {a : Addr} (ha : InUse p top a) : m' a = m a :=
  h a (BitVec.not_lt.2 (BitVec.le_trans (routineStack_le _) ha.1)) (hD a ha)

/-- One use of the thread leaves the other threads and the stack alone. -/
theorem Borrows.keeps {D : Set Addr} {p q q' : Process V} {top : Addr} (hD : ∀ a, InUse p top a → a ∉ D)
    (h : Borrows D (hijackThreads p) q q') : q'.others = q.others ∧ ∀ a, InUse p top a → q'.mem a = q.mem a := by
  cases h with
  | starts routine stopped => exact ⟨rfl, fun _ _ => rfl⟩
  | runs main stopped mem running confined => exact ⟨rfl, fun a ha => confined.inUse hD ha⟩

theorem borrows_keep {D : Set Addr} {p q : Process V} {top : Addr} (hD : ∀ a, InUse p top a → a ∉ D)
    (h : ReflTransGen (Borrows D (hijackThreads p)) p q) :
    q.others = p.others ∧ ∀ a, InUse p top a → q.mem a = p.mem a := by
  induction h with
  | refl => exact ⟨rfl, fun _ _ => rfl⟩
  | tail _ hb ih =>
    obtain ⟨h₁, h₂⟩ := hb.keeps hD
    exact ⟨h₁.trans ih.1, fun a ha => (h₂ a ha).trans (ih.2 a ha)⟩

theorem zipWith_setRegs : ∀ ts : List (ThreadState V),
    List.zipWith ThreadState.setRegs ts (ts.map ThreadState.getRegs) = ts
  | []      => rfl
  | t :: ts => by
    rw [List.map_cons, List.zipWith_cons_cons, zipWith_setRegs ts]
    rfl

/-- **Restoring gives every thread back what was saved, and nothing else.**  Whatever the routines did, after
`restore_threads` returned 0 the general purpose registers of all threads, the red zone and the stack above it are as
they were; the process as a whole is, exactly if the routines left the x87, SSE and AVX registers of the main thread
alone. -/
theorem hijack_transparent_iff {D : Set Addr} {top : Addr} {p p' p'' : Process V} (hD : ∀ a, InUse p top a → a ∉ D)
    (h : ReflTransGen (Borrows D (hijackThreads p)) p p')
    (hr : restoreThreads (hijackThreads p) p' = (0, p'')) :
    (p''.main.regs = p.main.regs ∧ p''.others = p.others ∧ ∀ a, InUse p top a → p''.mem a = p.mem a) ∧
      ((p''.main = p.main ∧ p''.others = p.others ∧ ∀ a, InUse p top a → p''.mem a = p.mem a) ↔
        p'.main.vec = p.main.vec) := by
  obtain ⟨ho, hm⟩ := borrows_keep hD h
  have hs : p'.stopped = true := by
    by_contra hn
    rw [restoreThreads, if_neg hn] at hr
    exact absurd (Prod.mk.inj hr).1 (by decide)
  rw [restoreThreads, if_pos hs, if_pos hs] at hr
  obtain rfl := (Prod.mk.inj hr).2
  have hothers : List.zipWith ThreadState.setRegs p'.others (hijackThreads p).others = p.others := by
    rw [ho]
    exact zipWith_setRegs p.others
  refine ⟨⟨rfl, hothers, hm⟩, ⟨fun hp => ?_, fun hv => ⟨?_, hothers, hm⟩⟩⟩
  · have := congrArg ThreadState.vec hp.1
    exact this
  · change ThreadState.mk p.main.regs p'.main.vec = p.main
    rw [hv]

/-- A process whose main thread has the value `v` in a vector register. -/
def demoProcess (v : BitVec 128) : Process (BitVec 128) :=
  { main := ⟨⟨0, 0x401000, 0x7fff0000, Vector.replicate 24 0⟩, v⟩, stopped := true, others := [], mem := fun _ => 0 }

/-- A routine runs to its end and leaves `w` in that register. -/
theorem demo_borrows (v w : BitVec 128) : ReflTransGen (Borrows ∅ (hijackThreads (demoProcess v))) (demoProcess v)
    { demoProcess v with main := ⟨redirected (demoProcess v).main.regs 0x500000, w⟩ } :=
  .tail (.single (.starts _ 0x500000 rfl)) (.runs (startRoutine (hijackThreads (demoProcess v)) 0x500000 (demoProcess v))
    ⟨redirected (demoProcess v).main.regs 0x500000, w⟩ true (fun _ => 0) rfl (fun _ _ _ => rfl))

theorem demo_restores (v w : BitVec 128) : restoreThreads (hijackThreads (demoProcess v))
    { demoProcess v with main := ⟨redirected (demoProcess v).main.regs 0x500000, w⟩ } = (0, demoProcess w) := rfl

/-- A routine that leaves the vector registers alone. -/
theorem hijack_transparent_novec : ∃ p' p'', ReflTransGen (Borrows ∅ (hijackThreads (demoProcess 7))) (demoProcess 7) p' ∧
    restoreThreads (hijackThreads (demoProcess 7)) p' = (0, p'') ∧ p'.main.regs ≠ (demoProcess 7).main.regs ∧
    p''.main = (demoProcess 7).main := by
  refine ⟨_, _, demo_borrows 7 7, demo_restores 7 7, by decide, ?_⟩
  exact ((hijack_transparent_iff (fun (_ : Addr) (_ : InUse (demoProcess 7) 0x7fffffff _) h => h) (demo_borrows 7 7)
    (demo_restores 7 7)).2.2 rfl).1

/-- **A routine that uses a vector register changes it for the interrupted program.** -/
theorem hijack_clobbers_vector : ¬ ∀ (D : Set Addr) (top : Addr) (p p' p'' : Process (BitVec 128)),
    (∀ a, InUse p top a → a ∉ D) → ReflTransGen (Borrows D (hijackThreads p)) p p' →
    restoreThreads (hijackThreads p) p' = (0, p'') →
      p''.main = p.main ∧ p''.others = p.others ∧ ∀ a, InUse p top a → p''.mem a = p.mem a := by
  intro hall
  have h := (hall ∅ 0x7fffffff _ _ _ (fun _ _ h => h) (demo_borrows 7 8) (demo_restores 7 8)).1
  exact absurd (congrArg ThreadState.vec h) (by decide)

end Libpulp
