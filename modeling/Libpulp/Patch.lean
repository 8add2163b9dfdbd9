import Libpulp.State
/-!
# Patch — the function prologue on x86_64 (lib/arch/x86_64/patch.c)

A livepatchable function has `PRE_NOPS_LEN` bytes of padding before its entry and two bytes of NOP at it, possibly after
an `endbr64`.  Patching fills the padding with `jmp *0(%rip)` and the address of the new function and turns the two
bytes into a short jump back to the padding; unpatching turns them into a two-byte NOP and leaves the padding.
-/
namespace Libpulp

open Bytes (Byte Addr Mem toLE ofLE addrOfLE)

def preNopsLen : Nat := 14
def ulpNopsLen : Nat := 16
def ulpDataOffset : Nat := 6

def insnEndbr64 : List Byte := [0xf3, 0x0f, 0x1e, 0xfa]
def insnNop2 : List Byte := [0x66, 0x90]

def ulpPrologue : List Byte := [0xff, 0x25, 0, 0, 0, 0, 0, 0, 0, 0, 0, 0, 0, 0, 0xeb, -(14 + 2)]

def ulpPrologueEndbr64 : List Byte :=
  [0xff, 0x25, 0, 0, 0, 0, 0, 0, 0, 0, 0, 0, 0, 0, 0xf3, 0x0f, 0x1e, 0xfa, 0xeb, -(14 + 2 + 4)]

/-- The function entry starts with `endbr64`. -/
def hasEndbr64 (mem : Mem) (f : Addr) : Bool := mem.read f 4 == insnEndbr64

/-- Offset of the two patchable bytes from the function entry. -/
def entryBias (endbr : Bool) : Addr := if endbr then 4 else 0

/-- `patched_prologue`: the template with the new address in its data slot. -/
def patchedPrologue (endbr : Bool) (newFaddr : Addr) : List Byte :=
  let prologue := if endbr then ulpPrologueEndbr64 else ulpPrologue
  prologue.take ulpDataOffset ++ (toLE 8 newFaddr.toNat ++ prologue.drop (ulpDataOffset + 8))

/-- `ulp_skip_prologue`. -/
def ulpSkipPrologue (fentry : Addr) (s : State) : State :=
  memwrite (fentry + entryBias (hasEndbr64 s.mem fentry)) insnNop2 s

/-- The two bytes at the entry are ones libpulp patches: a short jump or a two-byte NOP. -/
def livepatchable (mem : Mem) (f : Addr) : Bool :=
  let b := f + entryBias (hasEndbr64 mem f)
  mem b == 0xeb || (mem (b + 1) == 0x90 && (mem b == 0x90 || mem b == 0x66))

def ulpPatchAddr (oldFaddr newFaddr : Addr) (enable : Bool) (s : State) : UlpError × State :=
  if !livepatchable s.mem oldFaddr then (ENOPATCHABLE, s)
  else if enable then
    (ENONE, memwrite (oldFaddr - BitVec.ofNat 64 preNopsLen)
      (patchedPrologue (hasEndbr64 s.mem oldFaddr) newFaddr) s)
  else (ENONE, ulpSkipPrologue oldFaddr s)

/-! ## What a prologue says -/

/-- The displacement of a short jump. -/
def rel8 (b : Byte) : Addr := (b.toBitVec).signExtend 64

/-- The function a patched prologue leads to: `jmp` at the entry to `f - 14`, and there `jmp *0(%rip)`. -/
def redirectTarget (mem : Mem) (f : Addr) : Option Addr :=
  let b := f + entryBias (hasEndbr64 mem f)
  if mem b = 0xeb ∧ b + 2 + rel8 (mem (b + 1)) = f - 14 ∧ mem.read (f - 14) 6 = [0xff, 0x25, 0, 0, 0, 0] then
    some (addrOfLE (mem.read (f - 8) 8))
  else none

/-- The entry is a two-byte NOP, so that control falls into the body. -/
def nopEntry (mem : Mem) (f : Addr) : Bool :=
  let b := f + entryBias (hasEndbr64 mem f)
  mem (b + 1) == 0x90 && (mem b == 0x90 || mem b == 0x66)

end Libpulp
