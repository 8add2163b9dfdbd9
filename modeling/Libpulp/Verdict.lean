import Libpulp.ApplyPatch
import Libpulp.Hijack
import Libpulp.Interpret
/-!
# Verdict — what the tool takes for the end of a routine (tools/ptrace.c, tools/introspection.c)

`run_and_redirect` lets the main thread run a routine and takes the first stop it sees for the `int3` at its end.  A
signal stops the thread as well, at whatever instruction it has reached; one that was pending before, such as the
`SIGSTOP` of the attach, stops it before the first.  The tool then reads the return register and goes on.  As long as
libpulp's function has not begun, what it reads is what the thread was interrupted with (`Operation.Mistakable`).
-/
namespace Libpulp

open Bytes (Byte Addr Mem Buf)

/-! ## Queues the tool can interpret -/

/-- The next `k` instructions from `pc` on have an opcode, and a string its NUL and a WRITE its bytes in the buffer; they
end at `size`. -/
def Walks (b : Buf) (size : Int) : Nat → Int → Prop
  | 0, pc     => pc = size
  | k + 1, pc => 0 ≤ pc ∧ pc < insnBufferMax ∧
    (insnType b pc.toNat = 0 ∧ Walks b size k (pc + 4) ∨
     insnType b pc.toNat = 1 ∧ (∃ j, pc.toNat + 4 ≤ j ∧ j < insnBufferMax ∧ b j = 0) ∧
        Walks b size k (pc + insnSize b pc.toNat) ∨
     insnType b pc.toNat = 2 ∧ pc.toNat + 16 + insnN b pc.toNat ≤ insnBufferMax ∧
        Walks b size k (pc + insnSize b pc.toNat))

/-- A queue that the tool can interpret: its instructions end where its size says, the bytes behind them not being
copied. -/
structure InsnQueue.WellFormed (q : InsnQueue) : Prop where
  version : q.version ≤ insnqCurrVersion
  fits    : (q.size % 2 ^ 32).toNat ≤ insnBufferMax
  num     : 0 ≤ q.numInsns
  walks   : Walks (fun i => if i < (q.size % 2 ^ 32).toNat then q.buffer i else 0) q.size q.numInsns.toNat 0

end Libpulp
