import Libpulp.Common
/-!
# Parse — `parse_metadata_from_mem` (common/common.c)

The parser keeps `cur`, the number of bytes consumed, and one local `uint32_t c` that every length is read into.  Only
the bytes from `cur` on matter, so a `Cursor` holds these and `c`.  `read_from_mem` copies what is left when less than
the requested count remains, so a short read of `c` overwrites only its low bytes and the rest keeps the previous value;
`c` starts uninitialised.  A copy into an object smaller than the bytes copied is undefined behaviour (`.overflow`).
-/
namespace Libpulp

open Bytes (Byte Addr toLE ofLE addrOfLE)

inductive ParseStop where
  | err (e : UlpError)
  | overflow
deriving DecidableEq

structure Cursor where
  rest : List Byte
  c    : Nat

abbrev Parse (α : Type) := StateT Cursor (Except ParseStop) α

/-- `read_from_mem` into an object that now holds `dst`: its new contents and the number of bytes copied. -/
def readFromMem (dst : List Byte) (n : Nat) : Parse (List Byte × Nat) := fun s =>
  let got := s.rest.take n
  if dst.length < got.length then .error .overflow
  else .ok ((got ++ dst.drop got.length, got.length), { s with rest := s.rest.drop n })

/-- Read `c`; fewer than `least` bytes is an error. -/
def readC (least : Nat) (e : UlpError) : Parse Unit := do
  let s ← get
  let (b, k) ← readFromMem (toLE 4 s.c) 4
  modify (fun s => { s with c := ofLE b })
  if k < least then throw (.err e)

/-- Read a fixed-size field of a zeroed record. -/
def readField (size least : Nat) (e : UlpError) : Parse (List Byte) := do
  let (b, k) ← readFromMem (List.replicate size 0) size
  if k < least then throw (.err e)
  return b

/-- Allocate `c + extra` zeroed bytes (in `uint32_t`) and read `c` bytes into them. -/
def readName (calloc : AllocSite → Bool) (site : AllocSite) (extra : Nat) (noMem short : UlpError) :
    Parse (List Byte) := do
  let s ← get
  if !calloc site then throw (.err noMem)
  let (b, k) ← readFromMem (List.replicate ((s.c + extra) % 2 ^ 32) 0) s.c
  if k < s.c then throw (.err short)
  return b

def parseUnit (calloc : AllocSite → Bool) (j : Nat) : Parse UlpUnit := do
  if !calloc (.unit j) then throw (.err ENOMEM)
  readC 1 EINVALIDULP
  let oldFname ← readName calloc (.oldFname j) 1 EINVALIDULP EINVALIDULP
  readC 1 EINVALIDULP
  let newFname ← readName calloc (.newFname j) 1 EINVALIDULP EINVALIDULP
  let oldFaddr ← readField 8 1 EINVALIDULP
  return { oldFname, newFname, oldFaddr := addrOfLE oldFaddr }

def parseDependency (calloc : AllocSite → Bool) (i : Nat) : Parse UlpDependency := do
  if !calloc (.dep i) then throw (.err ENOMEM)
  let depId ← readField 32 32 EINVALIDULP
  return { depId := .ofBytes depId, patchIdCheck := false }

/-- The names of a reference get no byte beyond the `c` read into them, unlike every other name. -/
def parseReference (calloc : AllocSite → Bool) (i : Nat) : Parse UlpReference := do
  if !calloc (.ref i) then throw (.err ENOMEM)
  readC 4 EINVALIDULP
  let targetName ← readName calloc (.targetName i) 0 ENOMEM EINVALIDULP
  readC 4 EINVALIDULP
  let referenceName ← readName calloc (.referenceName i) 0 ENOMEM EINVALIDULP
  let targetOffset ← readField 8 8 EINVALIDULP
  let patchOffset ← readField 8 8 EINVALIDULP
  let tls ← readField 1 1 EINVALIDULP
  return { targetName, referenceName, targetOffset := addrOfLE targetOffset, patchOffset := addrOfLE patchOffset,
           tls := ofLE tls != 0 }

/-- One of the parser's three loops: `n` items from index `i` on, in order. -/
def parseMany {α : Type} (item : Nat → Parse α) : Nat → Nat → Parse (List α)
  | 0, _     => return []
  | n + 1, i => do
    let x ← item i
    let xs ← parseMany item n (i + 1)
    return x :: xs

/-- What follows the object name in an apply patch: units, dependencies and references. -/
def parseTail (calloc : AllocSite → Bool) (m : UlpMetadata) : Parse UlpMetadata := do
  let nunits ← readField 4 1 1
  let units ← parseMany (parseUnit calloc) (ofLE nunits) 0
  readC 1 EINVALIDULP
  let s ← get
  let deps ← parseMany (parseDependency calloc) s.c 0
  let nrefs ← readField 4 4 EINVALIDULP
  let refs ← parseMany (parseReference calloc) (ofLE nrefs) 0
  return { m with objs := { m.objs with nunits := ofLE nunits, units }, deps, nrefs := ofLE nrefs, refs }

/-- What an apply patch and a reverse patch share, up to the object name. -/
def parseHeader (calloc : AllocSite → Bool) : Parse UlpMetadata := do
  let type ← readField 1 1 EINVALIDULP
  let patchId ← readField 32 32 EINVALIDULP
  readC 1 EINVALIDULP
  let soFilename ← readName calloc .soFilename 1 EINVALIDULP EINVALIDULP
  if soFilename.headD 0 = 0 then throw (.err EINVALIDULP)
  if !calloc .object then throw (.err ENOMEM)
  readC 1 EINVALIDULP
  let s ← get
  let buildId ← readName calloc .buildId 0 EINVALIDULP EINVALIDULP
  readC 1 EINVALIDULP
  let name ← readName calloc .objectName 1 EINVALIDULP EINVALIDULP
  return { type := type.headD 0, patchId := .ofBytes patchId, soFilename, soHandler := 0,
           objs := { buildIdLen := s.c, buildIdCheck := false, buildId, name, nunits := 0, units := [] },
           ndeps := 0, deps := [], nrefs := 0, refs := [] }

/-- The body of `parse_metadata_from_mem`; a reverse patch has neither units nor dependencies. -/
def parseBody (calloc : AllocSite → Bool) : Parse UlpMetadata := do
  let m ← parseHeader calloc
  if m.type = 2 then return m else parseTail calloc m

/-- `parse_metadata_from_mem(ulp, src, size)` on a zeroed `ulp`, with the `size` bytes at `src` and `c` as it happens
to be on entry. -/
def parseMetadataFromMem (calloc : AllocSite → Bool) (src : List Byte) (c : Nat) : Except ParseStop UlpMetadata :=
  ((parseBody calloc).run { rest := src, c }).map (·.1)

end Libpulp
