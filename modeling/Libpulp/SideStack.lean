import Libpulp.Bytes
import Mathlib.Logic.Relation
/-!
# SideStack — the stack of a thread's redirected calls (lib/arch/powerpc64le: `trampoline_routine`, `ulp_stack_helper`)

On powerpc64le a redirected call keeps its caller's TOC and LR on a stack of the thread, in a buffer from `mmap`, with
three thread-local words.  A signal handler may interrupt the code between any two instructions and make redirected calls
of its own.  An activation is modelled by its next access to what the thread shares (`Phase`), with the registers it goes
on with; the C helper is taken apart in the same way (its assertions stop nothing: they set the library's error state).
Arithmetic between two accesses belongs to the second one.

Pushing takes the slot before it writes it, popping gives it up before it reads it, and the helper changes `real_size`
long before the buffer.  Handlers that keep out of these places find a correct stack (`sideStack_sound`).
-/
namespace Libpulp
namespace SideStack

open Bytes (Byte Addr toLE length_toLE addrOfLE)
open Relation (ReflTransGen)

/-! ## The words and the memory -/

def word (n : Nat) : Nat := n % 2 ^ 64

/-- How `cmpd` reads a word. -/
def signed (n : Nat) : Int := if n < 2 ^ 63 then n else n - 2 ^ 64

/-- No user address on powerpc64le is above. -/
def userTop : Nat := 2 ^ 52

/-- `sysconf(_SC_PAGESIZE)`. -/
def PageSize := { n : Nat // n = 4096 ∨ n = 65536 }

/-- `ulp_stack`, and of the memory the pages that the helper mapped. -/
structure Machine where
  realSize : Nat
  usedSize : Nat
  stackPtr : Nat
  mapped   : Nat → Bool
  mem      : Nat → Byte

namespace Machine

variable (m : Machine)

def ld (a : Nat) : Addr := addrOfLE ((List.range 8).map (fun i => m.mem (a + i)))

def std (a : Nat) (v : Addr) : Machine :=
  { m with mem := fun x => if a ≤ x ∧ x < a + 8 then (toLE 8 v.toNat).getD (x - a) 0 else m.mem x }

def stb (a : Nat) (b : Byte) : Machine := { m with mem := fun x => if x = a then b else m.mem x }

def mmap (new size : Nat) : Machine := { m with mapped := fun x => decide (new ≤ x ∧ x < new + size) || m.mapped x }

def munmap (old size : Nat) : Machine :=
  { m with mapped := fun x => m.mapped x && !decide (old ≤ x ∧ x < old + size) }

end Machine

/-! ## The code -/

/-- What an activation does next. -/
inductive Phase where
  -- `trampoline_routine`, up to the comparison of the sizes
  | loadReal
  | loadUsed (r6 : Nat)
  | compare (r6 r5 : Nat)
  -- `ulp_stack_helper`
  | helperStart
  | helperAdd (oldSize : Nat)
  | helperStoreAdd (oldSize size : Nat)
  | helperDouble (oldSize : Nat)
  | helperStoreDouble (oldSize size : Nat)
  | helperOld (oldSize : Nat)
  | helperMmap (oldSize old : Nat)
  | helperCopy (oldSize old new done : Nat)
  | helperUnmap (oldSize old new : Nat)
  | helperPublish (new : Nat)
  | helperReturn
  -- from `.Lcontinue_ulp_prologue` on
  | pushLoadUsed
  | pushStoreUsed (r6 : Nat)
  | pushLoadPtr (r6 : Nat)
  | pushToc (r5 : Nat)
  | pushLr (r5 : Nat)
  | running
  -- behind the call of the new function
  | popLoadUsed
  | popStoreUsed (r6 : Nat)
  | popLoadPtr (r6 : Nat)
  | popToc (r5 : Nat)
  | popLr (r5 : Nat) (r2 : Addr)
  | popped (r2 r8 : Addr)
deriving DecidableEq

/-- One instruction of an activation whose caller had `toc` and `lr`; `mmap` is a step of its own. -/
def exec (page : Nat) (toc lr : Addr) : Phase → Machine → Option (Phase × Machine)
  | .loadReal, m                     => some (.loadUsed m.realSize, m)
  | .loadUsed r6, m                  => some (.compare r6 m.usedSize, m)
  | .compare r6 r5, m                => some (if signed r6 ≤ signed r5 then .helperStart else .pushLoadUsed, m)
  | .helperStart, m                  => some (.helperAdd m.realSize, m)
  | .helperAdd o, m                  => some (.helperStoreAdd o (word (m.realSize + page)), m)
  | .helperStoreAdd o size, m        => some (.helperDouble o, { m with realSize := size })
  | .helperDouble o, m               => some (.helperStoreDouble o (word (m.realSize * 2)), m)
  | .helperStoreDouble o size, m     => some (.helperOld o, { m with realSize := size })
  | .helperOld o, m                  => some (.helperMmap o m.stackPtr, m)
  | .helperMmap _ _, _               => none
  | .helperCopy o old new done, m    =>
    if old = 0 then some (.helperPublish new, m)
    else if done < o then some (.helperCopy o old new (done + 1), m.stb (new + done) (m.mem (old + done)))
    else some (.helperUnmap o old new, m)
  | .helperUnmap o old new, m        => some (.helperPublish new, m.munmap old o)
  | .helperPublish new, m            => some (.helperReturn, { m with stackPtr := new })
  | .helperReturn, m                 => some (.pushLoadUsed, m)
  | .pushLoadUsed, m                 => some (.pushStoreUsed m.usedSize, m)
  | .pushStoreUsed r6, m             => some (.pushLoadPtr (word (r6 + 16)), { m with usedSize := word (r6 + 16) })
  | .pushLoadPtr r6, m               => some (.pushToc (word (m.stackPtr + r6)), m)
  | .pushToc r5, m                   => some (.pushLr r5, m.std (word (r5 + 2 ^ 64 - 16)) toc)
  | .pushLr r5, m                    => some (.running, m.std (word (r5 + 2 ^ 64 - 8)) lr)
  | .running, m                      => some (.popLoadUsed, m)
  | .popLoadUsed, m                  => some (.popStoreUsed m.usedSize, m)
  | .popStoreUsed r6, m              =>
    some (.popLoadPtr (word (r6 + 2 ^ 64 - 16)), { m with usedSize := word (r6 + 2 ^ 64 - 16) })
  | .popLoadPtr r6, m                => some (.popToc (word (m.stackPtr + r6)), m)
  | .popToc r5, m                    => some (.popLr r5 (m.ld r5), m)
  | .popLr r5 r2, m                  => some (.popped r2 (m.ld (word (r5 + 8))), m)
  | .popped _ _, _                   => none

/-! ## A thread -/

/-- A redirected call that has not returned: what its caller had in TOC and LR, and where it is. -/
structure Frame where
  toc   : Addr
  lr    : Addr
  phase : Phase
deriving DecidableEq

/-- A thread: its words and its redirected calls, the one that runs first. -/
structure Thread where
  machine : Machine
  frames  : List Frame

def Thread.start : Thread := ⟨⟨0, 0, 0, fun _ => false, fun _ => 0⟩, []⟩

/-- What happens next: a redirected call, made by the function that runs or by a handler that interrupts it; the next
instruction; what the kernel answers to `mmap`; the return of a call that has popped its pair; a change to the rest of the
memory. -/
inductive Action where
  | call (toc lr : Addr)
  | instruction
  | mmap (new : Nat)
  | ret
  | other (mem : Nat → Byte)

def act (page : Nat) : Action → Thread → Option Thread
  | .call toc lr, s   => some ⟨s.machine, ⟨toc, lr, .loadReal⟩ :: s.frames⟩
  | .instruction, s   =>
    match s.frames with
    | []      => none
    | f :: fs => (exec page f.toc f.lr f.phase s.machine).map (fun r => ⟨r.2, ⟨f.toc, f.lr, r.1⟩ :: fs⟩)
  | .mmap new, s      =>
    match s.frames with
    | ⟨toc, lr, .helperMmap o old⟩ :: fs =>
      let size := s.machine.realSize
      if new ≠ 0 ∧ new + size ≤ userTop ∧ ∀ j < size, s.machine.mapped (new + j) = false then
        some ⟨s.machine.mmap new size, ⟨toc, lr, .helperCopy o old new 0⟩ :: fs⟩
      else none
    | _ => none
  | .ret, s           =>
    match s.frames with
    | ⟨_, _, .popped _ _⟩ :: fs => some ⟨s.machine, fs⟩
    | _                         => none
  | .other mem, s     =>
    some ⟨{ s.machine with mem := fun x => if s.machine.mapped x then s.machine.mem x else mem x }, s.frames⟩

/-! ## What is promised -/

/-- The activation has taken a slot. -/
def Phase.owns : Phase → Bool
  | .pushLoadPtr _ | .pushToc _ | .pushLr _ | .running | .popLoadUsed | .popStoreUsed _ => true
  | _ => false

/-- The slots that are taken. -/
def depth : List Frame → Nat
  | []      => 0
  | f :: fs => depth fs + (if f.phase.owns then 1 else 0)

/-- What an activation has written of its slot, the `d`-th of the buffer at `base`, is there. -/
def Frame.Written (m : Machine) (base d : Nat) (f : Frame) : Prop :=
  match f.phase with
  | .pushLr _ => m.ld (base + 16 * d) = f.toc
  | .running | .popLoadUsed | .popStoreUsed _ => m.ld (base + 16 * d) = f.toc ∧ m.ld (base + 16 * d + 8) = f.lr
  | _ => True

/-- What the activations have written is in the buffer, the oldest first. -/
def Entries (m : Machine) (base : Nat) : List Frame → Prop
  | []      => True
  | f :: fs => f.Written m base (depth fs) ∧ Entries m base fs

/-- The `n` bytes at `a` are inside the buffer at `base` of the size in `real_size`, and mapped. -/
def Inside (m : Machine) (base a n : Nat) : Prop :=
  base ≤ a ∧ a + n ≤ base + m.realSize ∧ ∀ i < n, m.mapped (a + i) = true

/-- **A correct stack**: who has popped has the pair of its call, the sizes are right, a store that comes next goes into
the buffer, and a buffer that is about to replace another has its entries. -/
structure Sound (s : Thread) : Prop where
  popped : ∀ f ∈ s.frames, ∀ r2 r8, f.phase = .popped r2 r8 → r2 = f.toc ∧ r8 = f.lr
  sizes  : s.machine.usedSize % 16 = 0 ∧ s.machine.usedSize ≤ s.machine.realSize
  toc    : ∀ f fs r5, s.frames = f :: fs → f.phase = .pushToc r5 →
    Inside s.machine s.machine.stackPtr (word (r5 + 2 ^ 64 - 16)) 8
  lr     : ∀ f fs r5, s.frames = f :: fs → f.phase = .pushLr r5 →
    Inside s.machine s.machine.stackPtr (word (r5 + 2 ^ 64 - 8)) 8
  copy   : ∀ f fs o old new done, s.frames = f :: fs → f.phase = .helperCopy o old new done → old ≠ 0 → done < o →
    Inside s.machine new (new + done) 1
  grown  : ∀ f fs new, s.frames = f :: fs → f.phase = .helperPublish new → Entries s.machine new fs

/-! ## Where handlers have to keep out -/

/-- The slot is given up and not read, or `real_size` is not that of the buffer. -/
def Phase.exposed : Phase → Bool
  | .popLoadPtr _ | .popToc _ | .popLr _ _ => true
  | .helperDouble _ | .helperStoreDouble _ _ | .helperOld _ | .helperMmap _ _ | .helperCopy _ _ _ _ |
    .helperUnmap _ _ _ | .helperPublish _ => true
  | _ => false

/-- The pointer to the buffer is in a register. -/
def Phase.holdsPtr : Phase → Bool
  | .pushToc _ | .pushLr _ => true
  | _ => false

/-- The comparison sends the activation to the helper. -/
def Phase.grows : Phase → Bool
  | .compare r6 r5 => decide (signed r6 ≤ signed r5)
  | _ => false

/-- **A step that keeps out**: no call starts where the activation it interrupts is exposed, and none lets the buffer grow
while one below holds the pointer. -/
def KeepsOut (s : Thread) : Action → Prop
  | .call _ _    => ∀ f ∈ s.frames.head?, f.phase.exposed = false
  | .instruction => ∀ f ∈ s.frames.head?, f.phase.grows = true → ∀ g ∈ s.frames.tail, g.phase.holdsPtr = false
  | _            => True

instance (s : Thread) : ∀ a : Action, Decidable (KeepsOut s a)
  | .call _ _    => inferInstanceAs (Decidable (∀ f ∈ s.frames.head?, f.phase.exposed = false))
  | .instruction => inferInstanceAs
      (Decidable (∀ f ∈ s.frames.head?, f.phase.grows = true → ∀ g ∈ s.frames.tail, g.phase.holdsPtr = false))
  | .mmap _      => isTrue trivial
  | .ret         => isTrue trivial
  | .other _     => isTrue trivial

/-- A thread takes a step. -/
def Step (page : PageSize) (s t : Thread) : Prop := ∃ a, act page.val a s = some t

/-- A thread takes a step that keeps out. -/
def SafeStep (page : PageSize) (s t : Thread) : Prop := ∃ a, KeepsOut s a ∧ act page.val a s = some t

end SideStack
end Libpulp
