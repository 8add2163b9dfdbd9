import Libpulp.Bytes
/-!
# Common — error codes, metadata records and allocation sites

The data model libpulp and the `ulp` tool share (`include/error_common.h`, `include/ulp_common.h`).  An `ulp_error_t` is
a C `int`: codes below 256 are errno values, the rest are libpulp's own.  A `char *` field is the allocated buffer it
points to; the string in it is its `cstr`.
-/
namespace Libpulp

open Bytes (Byte Addr cstr)

abbrev UlpError := Int

def ENONE : UlpError := 0
def ESRCH : UlpError := 3
def EAGAIN : UlpError := 11
def ENOMEM : UlpError := 12
def ETIME : UlpError := 62
def EOVERFLOW : UlpError := 75
def EUNKNOWN : UlpError := 256
def EBUILDID : UlpError := 257
def ETARGETHOOK : UlpError := 258
def ETHRDATTACH : UlpError := 264
def ETHRDDETTACH : UlpError := 265
def EINVALIDULP : UlpError := 266
def ENOOLDFUNC : UlpError := 267
def ENONEWFUNC : UlpError := 268
def ENOMETA : UlpError := 269
def ESTATE : UlpError := 270
def ENOTAPPLIED : UlpError := 272
def EDEPEND : UlpError := 273
def ENOADDRESS : UlpError := 274
def EAPPLIED : UlpError := 275
def ENOTARGETLIB : UlpError := 276
def EHOOKNOTRUN : UlpError := 277
def ENOPATCHABLE : UlpError := 278
def EUSRBLOCKED : UlpError := 280
def EOLDLIBPULP : UlpError := 281
def EINITFAIL : UlpError := 282
def ENOPATCH : UlpError := 284
def EINSNQ : UlpError := 285
def EOLDULP : UlpError := 286
def EDLOPEN : UlpError := 287
def ENOLIBDL : UlpError := 288
def ENOLIBC : UlpError := 289

def ulpMetadataBufLen : Nat := 512 * 1024
def ulpPathLen : Nat := 256
def pathMax : Nat := 4096

/-- A 32-byte patch id; `memcmp(a, b, 32) == 0` is equality. -/
abbrev PatchId := Vector Byte 32

def PatchId.ofBytes (bs : List Byte) : PatchId := Vector.ofFn (fun i => bs.getD i.val 0)

@[simp] theorem PatchId.ofBytes_toList (p : PatchId) : PatchId.ofBytes p.toList = p := by
  unfold PatchId.ofBytes
  ext i hi
  simp [List.getD_eq_getElem?_getD]

/-- `get_basename`: what follows the last `/` of a path. -/
def getBasename (name : List Byte) : List Byte := (name.reverse.takeWhile (· != 47)).reverse

/-- `isnumber`. -/
def isnumber (str : List Byte) : Bool := str ≠ [] && str.all (fun c => 48 ≤ c.toNat && c.toNat ≤ 57)

def digitsValue (str : List Byte) : Nat := str.foldl (fun n c => 10 * n + (c.toNat - 48)) 0

/-- `strtoul(str, NULL, 10)` on digits. -/
def strtoul (str : List Byte) : Nat := min (digitsValue str) (2 ^ 64 - 1)

/-- `strtol(str, NULL, 10)` on digits. -/
def strtol (str : List Byte) : Nat := min (digitsValue str) (2 ^ 63 - 1)

structure UlpUnit where
  oldFname : List Byte
  newFname : List Byte
  oldFaddr : Addr
deriving DecidableEq

structure UlpDependency where
  depId        : PatchId
  patchIdCheck : Bool
deriving DecidableEq

structure UlpReference where
  targetName    : List Byte
  referenceName : List Byte
  targetOffset  : Addr
  patchOffset   : Addr
  tls           : Bool
deriving DecidableEq

structure UlpObject where
  buildIdLen   : Nat
  buildIdCheck : Bool
  buildId      : List Byte
  name         : List Byte
  nunits       : Nat
  units        : List UlpUnit
deriving DecidableEq

structure UlpMetadata where
  type       : Byte
  patchId    : PatchId
  soFilename : List Byte
  soHandler  : Addr
  objs       : UlpObject
  ndeps      : Nat
  deps       : List UlpDependency
  nrefs      : Nat
  refs       : List UlpReference
deriving DecidableEq

/-- Where memory is allocated while metadata is parsed and a patch is recorded; an index is the position in a list. -/
inductive AllocSite where
  | metadata
  | soFilename
  | object
  | buildId
  | objectName
  | unit (j : Nat)
  | oldFname (j : Nat)
  | newFname (j : Nat)
  | dep (i : Nat)
  | ref (i : Nat)
  | targetName (i : Nat)
  | referenceName (i : Nat)
  | appliedPatch
  | libName
  | containerName
  | appliedDep (i : Nat)
  | appliedUnit (j : Nat)
  | root (j : Nat)
  | detour (j : Nat)
deriving DecidableEq

end Libpulp
