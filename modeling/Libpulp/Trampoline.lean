import Libpulp.Power
import Libpulp.PowerCpu
/-!
# Trampoline — the registers across a redirected call (lib/arch/powerpc64le/ulp_prologue.S)

`ulp_prologue`, then `trampoline_routine` up to the new function, and from its return to the caller: the code between two
calls is a list of instructions, and the calls of `__tls_get_addr`, `ulp_stack_helper` and the new function are what they
leave behind.  The fast path saves the registers that it needs itself and leaves the others to the calls
(`transparent_iff`).
-/
namespace Libpulp
namespace Power

open Bytes (Byte Addr Mem toLE)
open PowerCpu (Cpu Call Instr Reg run exec load store Above)

/-! ## The code -/

/-- What the linker fills in: where `trampoline_routine` is, and the halves of the offsets of the TOC and of the GOT entry
of `ulp_stack`. -/
structure Link where
  trampolineRoutine : Addr
  tocHa : Addr
  tocLo : Addr
  gotHa : Addr
  gotLo : Addr

def ULP_STACK_REAL_SIZE : Addr := 0
def ULP_STACK_USED_SIZE : Addr := 8
def ULP_STACK_PTR : Addr := 16

/-- The absolute address of `trampoline_routine` is computed in `r12`. -/
def loadTrampoline (t : Addr) : List Instr :=
  [.lis 5 (t.extractLsb' 48 16), .ori 5 5 (t.extractLsb' 32 16),
   .lis 12 (t.extractLsb' 16 16), .ori 12 12 (t.extractLsb' 0 16), .rldimi 12 5 32]

/-- The copy of `ulp_prologue` at `area`, up to its `bctr`. -/
def prologueCode (t area : Addr) : List Instr :=
  [.std 5 (-8) 1, .std 6 (-16) 1] ++ (loadTrampoline t ++ [.mtctr 12, .mflr 5, .bl (area + 40)])

/-- The address of `ulp_stack` is asked for: the TOC from `r12`, then the argument of `__tls_get_addr`. -/
def loadUlpStack (l : Link) : List Instr :=
  [.addis 2 12 l.tocHa, .addi 2 2 l.tocLo, .addis 3 2 l.gotHa, .addi 3 3 l.gotLo]

/-- `trampoline_routine` up to the call of `__tls_get_addr`. -/
def entryCode (l : Link) : List Instr :=
  [.mflr 6, .ld 6 4 6, .mtctr 6, .mtlr 5,
   .std 2 (-24) 1, .std 3 (-32) 1, .std 12 (-40) 1, .mflr 2, .std 2 (-48) 1, .addi 1 1 (-88)] ++ loadUlpStack l

/-- Up to the comparison. -/
def sizesCode : List Instr := [.ld 6 ULP_STACK_REAL_SIZE 3, .ld 5 ULP_STACK_USED_SIZE 3]

/-- `.Lexpand_ulp_stack`, up to the call of `ulp_stack_helper` and from there on. -/
def expandCode : List Instr :=
  [.std 4 (-8) 1, .std 7 (-16) 1, .std 8 (-24) 1, .std 9 (-32) 1, .std 10 (-40) 1, .std 11 (-48) 1,
   .mfctr 4, .std 4 (-56) 1, .mflr 4, .std 4 (-64) 1, .addi 1 1 (-104)]

def expandedCode : List Instr :=
  [.addi 1 1 104, .ld 7 (-16) 1, .ld 8 (-24) 1, .ld 9 (-32) 1, .ld 10 (-40) 1, .ld 11 (-48) 1,
   .ld 4 (-56) 1, .mtctr 4, .ld 4 (-64) 1, .mtlr 4, .ld 4 (-8) 1]

/-- `.Lcontinue_ulp_prologue`, up to the `bctrl`. -/
def pushCode : List Instr :=
  [.ld 6 ULP_STACK_USED_SIZE 3, .addi 6 6 16, .std 6 ULP_STACK_USED_SIZE 3, .ld 5 ULP_STACK_PTR 3, .add 5 5 6,
   .addi 1 1 88, .ld 2 (-48) 1, .mtlr 2, .ld 6 (-24) 1, .std 6 (-16) 5, .std 2 (-8) 5,
   .ld 5 (-8) 1, .ld 6 (-16) 1, .ld 3 (-32) 1, .ld 12 (-40) 1, .mfctr 12]

/-- The offset of `.return_to_caller` in `trampoline_routine`, with the two calls and their NOPs, the comparison and its
branch, the `bctrl` and the four instructions behind it. -/
def returnToCaller (l : Link) : Addr :=
  BitVec.ofNat 64 (insnSize * ((entryCode l).length + 2 + sizesCode.length + 2 + pushCode.length + 1 + 4))

/-- From the return of the new function to the call of `__tls_get_addr`. -/
def returnCode (l : Link) : List Instr :=
  [.std 3 (-8) 1, .std 12 (-16) 1, .addi 1 1 (-56), .bl (l.trampolineRoutine + returnToCaller l), .mflr 12,
   .addi 12 12 (-returnToCaller l)] ++ loadUlpStack l

/-- Up to the `blr`. -/
def popCode : List Instr :=
  [.ld 6 ULP_STACK_USED_SIZE 3, .addi 6 6 (-16), .std 6 ULP_STACK_USED_SIZE 3, .ld 5 ULP_STACK_PTR 3, .add 5 5 6,
   .ld 2 0 5, .ld 8 8 5, .mtlr 8, .addi 1 1 56, .ld 3 (-8) 1, .ld 12 (-16) 1]

/-! ## A redirected call -/

/-- The state at the call of a function whose prologue is at `area`, and what the calls on the way leave. -/
structure Redirection where
  link     : Link
  area     : Addr
  target   : Addr
  ulpStack : Addr
  /-- The end of the thread's stack. -/
  top      : Addr
  cpu      : Cpu
  /-- `__tls_get_addr` on the way in. -/
  entry    : Call
  helper   : Call
  function : Call
  /-- `__tls_get_addr` on the way out. -/
  exit     : Call

namespace Redirection

variable (x : Redirection)

/-- At the `bctr` of the prologue. -/
def jumped : Cpu := run (prologueCode x.link.trampolineRoutine x.area) x.cpu

/-- At the call of `__tls_get_addr`. -/
def called : Cpu := run (entryCode x.link) x.jumped

/-- At the comparison of the sizes. -/
def compared : Cpu := run sizesCode (x.entry.after x.top x.called)

/-- At `.Lcontinue_ulp_prologue`. -/
def pushing : Cpu :=
  if (x.compared.gpr 6).sle (x.compared.gpr 5) then
    run expandedCode (x.helper.after x.top (run expandCode x.compared))
  else x.compared

/-- At the `bctrl`. -/
def entered : Cpu := run pushCode x.pushing

/-- Behind it. -/
def returned : Cpu := x.function.regs x.entered

/-- Behind the second call of `__tls_get_addr`. -/
def popping : Cpu := x.exit.after x.top (run (returnCode x.link) x.returned)

/-- At the `blr`. -/
def resumed : Cpu := run popCode x.popping

/-! ## What is promised -/

/-- **The redirection is transparent.** -/
structure Transparent : Prop where
  jump    : x.jumped.ctr = x.link.trampolineRoutine
  target  : x.entered.ctr = x.target ∧ x.entered.gpr 12 = x.target
  args    : ∀ r : Reg, 3 ≤ r → r ≤ 10 → x.entered.gpr r = x.cpu.gpr r
  fargs   : ∀ i : Reg, 1 ≤ i → i ≤ 13 → x.entered.fpr i = x.cpu.fpr i
  stack   : x.entered.gpr 1 = x.cpu.gpr 1 ∧ ∀ a, Above (x.cpu.gpr 1) x.top a → x.entered.mem a = x.cpu.mem a
  resume  : x.resumed.lr = x.cpu.lr
  toc     : x.resumed.gpr 2 = x.cpu.gpr 2
  sp      : x.resumed.gpr 1 = x.cpu.gpr 1
  results : x.resumed.gpr 3 = x.returned.gpr 3 ∧ x.resumed.gpr 4 = x.returned.gpr 4
  fresult : ∀ i : Reg, 1 ≤ i → i ≤ 8 → x.resumed.fpr i = x.returned.fpr i
  vresult : ∀ i : Reg, 2 ≤ i → i ≤ 9 → x.resumed.vr i = x.returned.vr i

/-! ## What it takes -/

/-- The lowest address on the stack that is written or has to survive a call, and what is from there to its end. -/
def base : Addr := x.cpu.gpr 1 - 192

def extent : Nat := (x.top - x.base).toNat

/-- Where the pair goes. -/
def pushSlot : Addr :=
  load x.pushing.mem (x.ulpStack + ULP_STACK_PTR) + load x.pushing.mem (x.ulpStack + ULP_STACK_USED_SIZE)

/-- Where it is taken from. -/
def popSlot : Addr :=
  load x.popping.mem (x.ulpStack + ULP_STACK_PTR) + load x.popping.mem (x.ulpStack + ULP_STACK_USED_SIZE) - 16

/-- The function is patched, the stack has room, the code and `ulp_stack` are not on it, and the calls return the address
of `ulp_stack`. -/
structure Grounds : Prop where
  prologue  : x.cpu.mem.read x.area (insnSize * preNopsLen) = prolog x.link.trampolineRoutine x.target
  room      : 192 ≤ x.extent
  code      : Mem.Disj x.area (insnSize * preNopsLen) x.base x.extent
  words     : Mem.Disj x.ulpStack 24 x.base x.extent
  entryPtr  : x.entry.gpr 3 = x.ulpStack
  helperPtr : x.helper.gpr 3 = x.ulpStack
  exitPtr   : x.exit.gpr 3 = x.ulpStack

/-- The buffer of the side stack is apart from the stack and from `ulp_stack`, and on the way out the pair on top is the
one from the way in: the redirected calls in between pop what they push. -/
structure Setting : Prop extends Grounds x where
  pushStack : Mem.Disj x.pushSlot 16 x.base x.extent
  popWords  : Mem.Disj x.popSlot 16 x.ulpStack 24
  balanced  : load x.popping.mem x.popSlot = load x.entered.mem x.pushSlot ∧
    load x.popping.mem (x.popSlot + 8) = load x.entered.mem (x.pushSlot + 8)

/-- The side stack is full when `__tls_get_addr` has returned its address. -/
def Full : Prop :=
  (load x.entry.mem (x.ulpStack + ULP_STACK_REAL_SIZE)).sle (load x.entry.mem (x.ulpStack + ULP_STACK_USED_SIZE)) = true

instance : Decidable x.Full := inferInstanceAs (Decidable (_ = true))

/-- **The calls spare what the code does not save**: the first `__tls_get_addr` leaves the new function's address in CTR
and the caller's `r4` and `r7` to `r10`, the last call on the way in leaves the caller's floating-point arguments, and the
second `__tls_get_addr` leaves the function's results but `r3`. -/
structure Spared : Prop where
  ctr     : x.entry.ctr = x.target
  args    : ∀ r ∈ [(4 : Reg), 7, 8, 9, 10], x.entry.gpr r = x.cpu.gpr r
  fargs   : ∀ i : Reg, 1 ≤ i → i ≤ 13 → (if x.Full then x.helper else x.entry).fpr i = x.cpu.fpr i
  result  : x.exit.gpr 4 = x.function.gpr 4
  fresult : ∀ i : Reg, 1 ≤ i → i ≤ 8 → x.exit.fpr i = x.function.fpr i
  vresult : ∀ i : Reg, 2 ≤ i → i ≤ 9 → x.exit.vr i = x.function.vr i

end Redirection
end Power
end Libpulp
