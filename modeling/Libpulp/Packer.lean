import Libpulp.Parse
/-!
# Packer — the metadata the tools write (tools/packer.c, tools/introspection.c)

`create_patch_metadata_file` and `write_reverse_patch` write everything but the path of the container, which
`extract_ulp_from_so_to_mem` splices in after the patch type and the patch id when the patch is triggered.  The object
name goes out with its NUL in an apply patch and without it in a reverse patch.
-/
namespace Libpulp

open Bytes (Byte Addr toLE cstr)

/-- A name with its NUL, after its length. -/
def putName (name : List Byte) : List Byte := toLE 4 ((cstr name).length + 1) ++ (cstr name ++ [0])

def putUnit (u : UlpUnit) : List Byte := putName u.oldFname ++ (putName u.newFname ++ toLE 8 u.oldFaddr.toNat)

def putReference (r : UlpReference) : List Byte :=
  putName r.targetName ++ (putName r.referenceName ++
    (toLE 8 r.targetOffset.toNat ++ (toLE 8 r.patchOffset.toNat ++ [if r.tls then 1 else 0])))

def putBuildId (o : UlpObject) : List Byte := toLE 4 o.buildIdLen ++ o.buildId.take o.buildIdLen

def createPatchMetadataFile (ulp : UlpMetadata) : List Byte :=
  [1] ++ ulp.patchId.toList ++ (putBuildId ulp.objs ++ (putName ulp.objs.name ++
    (toLE 4 ulp.objs.nunits ++ (ulp.objs.units.flatMap putUnit ++
      (toLE 4 ulp.ndeps ++ (ulp.deps.flatMap (fun d => d.depId.toList) ++
        (toLE 4 ulp.nrefs ++ ulp.refs.flatMap putReference)))))))

def writeReversePatch (ulp : UlpMetadata) : List Byte :=
  [2] ++ ulp.patchId.toList ++ (putBuildId ulp.objs ++ (toLE 4 (cstr ulp.objs.name).length ++ cstr ulp.objs.name))

/-- The bytes of a section `d` with the container path spliced in after its first `1 + 32` bytes. -/
def spliceContainerPath (d path : List Byte) : List Byte :=
  d.take 33 ++ (toLE 4 (path.length + 1) ++ (path ++ [0] ++ d.drop 33))

/-- `extract_ulp_from_so_to_mem` on the `.ulp` or `.ulp.rev` section `d` (at least 33 bytes), once the path, prefix
included, is known; `none` where it returns 0. -/
def extractUlpFromSoToMem (d path : List Byte) : Option (List Byte) :=
  if pathMax ≤ path.length + 1 then none
  else if ulpMetadataBufLen ≤ (d.length + (path.length + 1) + 4) % 2 ^ 32 then none
  else some (spliceContainerPath d path)

end Libpulp
