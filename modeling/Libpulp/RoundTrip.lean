import Libpulp.Packer
/-!
# RoundTrip — what the packer writes, the parser reads back

Each parser step, run on the bytes its writer produces followed by anything, consumes exactly these bytes and returns
what was written (`*_append`).  The metadata laws are assembled from them.
-/
namespace Libpulp

open Bytes (Byte Addr toLE ofLE addrOfLE cstr)

namespace Parse

theorem run_bind_ok {α β : Type} {p : Parse α} {f : α → Parse β} {s s' : Cursor} {a : α}
    (h : p.run s = .ok (a, s')) : (p >>= f).run s = (f a).run s' := by
  rw [StateT.run_bind, h]
  rfl

theorem run_get_bind {β : Type} (f : Cursor → Parse β) (s : Cursor) : (get >>= f : Parse β).run s = (f s).run s := rfl

theorem run_modify_bind {β : Type} (g : Cursor → Cursor) (f : Unit → Parse β) (s : Cursor) :
    (modify g >>= f : Parse β).run s = (f ()).run (g s) := rfl

end Parse

theorem readFromMem_append {dst bs t : List Byte} {n c : Nat} (hb : bs.length = n) (hd : n ≤ dst.length) :
    (readFromMem dst n).run ⟨bs ++ t, c⟩ = .ok ((bs ++ dst.drop n, n), ⟨t, c⟩) := by
  have ht : (bs ++ t).take n = bs := by rw [← hb]; exact List.take_left
  have hr : (bs ++ t).drop n = t := by rw [← hb]; exact List.drop_left
  simp only [StateT.run, readFromMem, ht, hr, hb]
  rw [if_neg (by omega)]

theorem readField_append {bs t : List Byte} {size least c : Nat} (e : UlpError) (hb : bs.length = size)
    (hl : least ≤ size) : (readField size least e).run ⟨bs ++ t, c⟩ = .ok (bs, ⟨t, c⟩) := by
  unfold readField
  rw [Parse.run_bind_ok (readFromMem_append hb (by simp))]
  simp [Nat.not_lt.2 hl]
  rfl

theorem readC_append {t : List Byte} {least c v : Nat} (e : UlpError) (hv : v < 2 ^ 32) (hl : least ≤ 4) :
    (readC least e).run ⟨toLE 4 v ++ t, c⟩ = .ok ((), ⟨t, v⟩) := by
  unfold readC
  rw [Parse.run_get_bind, Parse.run_bind_ok (readFromMem_append (by simp) (by simp))]
  have hd : (toLE 4 c).drop 4 = [] := List.drop_of_length_le (by simp)
  have hv' : ofLE (toLE 4 v) = v := Bytes.ofLE_toLE_of_lt (by simpa using hv)
  simp only [hd, List.append_nil]
  rw [Parse.run_modify_bind, hv']
  simp [Nat.not_lt.2 hl]
  rfl

theorem readName_append {calloc : AllocSite → Bool} {site : AllocSite} {extra c : Nat} {bs t : List Byte}
    (noMem short : UlpError) (ha : calloc site = true) (hb : bs.length = c) (hc : c + extra < 2 ^ 32) :
    (readName calloc site extra noMem short).run ⟨bs ++ t, c⟩ = .ok (bs ++ List.replicate extra 0, ⟨t, c⟩) := by
  unfold readName
  rw [Parse.run_get_bind]
  simp only [ha, Bool.not_true, Bool.false_eq_true, ↓reduceIte, Nat.mod_eq_of_lt hc]
  rw [Parse.run_bind_ok (readFromMem_append hb (by simp))]
  simp
  rfl

/-- A name's length and bytes, read one after the other. -/
theorem run_name_append {β : Type} {calloc : AllocSite → Bool} {site : AllocSite} {least extra c : Nat}
    {name t : List Byte} (e noMem short : UlpError) (f : List Byte → Parse β) (ha : calloc site = true)
    (hl : least ≤ 4) (hn : (cstr name).length + 1 + extra < 2 ^ 32) :
    (do readC least e; f (← readName calloc site extra noMem short) : Parse β).run ⟨putName name ++ t, c⟩ =
      (f (cstr name ++ [0] ++ List.replicate extra 0)).run ⟨t, (cstr name).length + 1⟩ := by
  rw [putName, List.append_assoc, Parse.run_bind_ok (readC_append e (by omega) hl),
    Parse.run_bind_ok (readName_append noMem short ha (by simp) hn)]

/-- What a written unit parses to: the same names, each in a buffer with its NUL and the spare byte. -/
def UlpUnit.parsed (u : UlpUnit) : UlpUnit :=
  { u with oldFname := cstr u.oldFname ++ [0, 0], newFname := cstr u.newFname ++ [0, 0] }

def UlpReference.parsed (r : UlpReference) : UlpReference :=
  { r with targetName := cstr r.targetName ++ [0], referenceName := cstr r.referenceName ++ [0] }

def UlpDependency.parsed (d : UlpDependency) : UlpDependency := { d with patchIdCheck := false }

theorem parseUnit_append {calloc : AllocSite → Bool} (ha : ∀ site, calloc site = true) (j c : Nat) (u : UlpUnit)
    (t : List Byte) (ho : (cstr u.oldFname).length + 2 < 2 ^ 32) (hn : (cstr u.newFname).length + 2 < 2 ^ 32) :
    ∃ c', (parseUnit calloc j).run ⟨putUnit u ++ t, c⟩ = .ok (u.parsed, ⟨t, c'⟩) := by
  refine ⟨(cstr u.newFname).length + 1, ?_⟩
  unfold parseUnit putUnit
  simp only [ha, Bool.not_true, Bool.false_eq_true, ↓reduceIte, List.append_assoc]
  rw [run_name_append _ _ _ _ (ha _) (by omega) ho, run_name_append _ _ _ _ (ha _) (by omega) hn,
    Parse.run_bind_ok (readField_append EINVALIDULP (by simp) (by omega))]
  simp [UlpUnit.parsed]
  rfl

theorem parseDependency_append {calloc : AllocSite → Bool} (ha : ∀ site, calloc site = true) (i c : Nat)
    (d : UlpDependency) (t : List Byte) :
    ∃ c', (parseDependency calloc i).run ⟨d.depId.toList ++ t, c⟩ = .ok (d.parsed, ⟨t, c'⟩) := by
  refine ⟨c, ?_⟩
  unfold parseDependency
  simp only [ha, Bool.not_true, Bool.false_eq_true, ↓reduceIte]
  rw [Parse.run_bind_ok (readField_append EINVALIDULP (by simp) (by omega))]
  simp [UlpDependency.parsed]
  rfl

theorem parseReference_append {calloc : AllocSite → Bool} (ha : ∀ site, calloc site = true) (i c : Nat)
    (r : UlpReference) (t : List Byte) (ht : (cstr r.targetName).length + 1 < 2 ^ 32)
    (hr : (cstr r.referenceName).length + 1 < 2 ^ 32) :
    ∃ c', (parseReference calloc i).run ⟨putReference r ++ t, c⟩ = .ok (r.parsed, ⟨t, c'⟩) := by
  refine ⟨(cstr r.referenceName).length + 1, ?_⟩
  have htls : (ofLE [if r.tls = true then (1 : Byte) else 0] != 0) = r.tls := by cases r.tls <;> rfl
  unfold parseReference putReference
  simp only [ha, Bool.not_true, Bool.false_eq_true, ↓reduceIte, List.append_assoc]
  rw [run_name_append _ _ _ _ (ha _) (by omega) ht, run_name_append _ _ _ _ (ha _) (by omega) hr,
    Parse.run_bind_ok (readField_append EINVALIDULP (by simp) (by omega)),
    Parse.run_bind_ok (readField_append EINVALIDULP (by simp) (by omega)),
    Parse.run_bind_ok (readField_append EINVALIDULP (by simp) (by omega)), htls]
  simp [UlpReference.parsed]
  rfl

/-- **A loop of the parser reads back what was written item by item.** -/
theorem parseMany_append {α : Type} (item : Nat → Parse α) (put : α → List Byte) (f : α → α) :
    ∀ (xs : List α) (i c : Nat) (t : List Byte),
      (∀ x ∈ xs, ∀ i c t, ∃ c', (item i).run ⟨put x ++ t, c⟩ = .ok (f x, ⟨t, c'⟩)) →
        ∃ c', (parseMany item xs.length i).run ⟨xs.flatMap put ++ t, c⟩ = .ok (xs.map f, ⟨t, c'⟩)
  | [], _, c, _, _      => ⟨c, rfl⟩
  | x :: xs, i, c, t, h => by
    obtain ⟨c₁, h₁⟩ := h x (by simp) i c (xs.flatMap put ++ t)
    obtain ⟨c₂, h₂⟩ := parseMany_append item put f xs (i + 1) c₁ t (fun y hy => h y (by simp [hy]))
    refine ⟨c₂, ?_⟩
    rw [List.length_cons, parseMany, List.flatMap_cons, List.append_assoc, Parse.run_bind_ok h₁, Parse.run_bind_ok h₂]
    rfl

/-! ## The whole file -/

theorem length_le_flatMap {α : Type} (f : α → List Byte) : ∀ (xs : List α) (x : α), x ∈ xs →
    (f x).length ≤ (xs.flatMap f).length
  | [], _, h      => by cases h
  | y :: xs, x, h => by
    rw [List.flatMap_cons, List.length_append]
    rcases List.mem_cons.1 h with rfl | h
    · omega
    · have := length_le_flatMap f xs x h
      omega

theorem card_le_flatMap {α : Type} (f : α → List Byte) (hf : ∀ x, 0 < (f x).length) : ∀ (xs : List α),
    xs.length ≤ (xs.flatMap f).length
  | []      => Nat.le_refl _
  | x :: xs => by
    have := card_le_flatMap f hf xs
    have := hf x
    rw [List.flatMap_cons, List.length_append, List.length_cons]
    omega

/-- The header both kinds of patch share, with the path in place and the object name as `name` bytes. -/
def putHeader (type : Byte) (ulp : UlpMetadata) (path name : List Byte) : List Byte :=
  [type] ++ (ulp.patchId.toList ++ (toLE 4 (path.length + 1) ++ (path ++ [0] ++ (toLE 4 ulp.objs.buildIdLen ++
    (ulp.objs.buildId ++ (toLE 4 name.length ++ name))))))

/-- What that header parses to. -/
def headerParsed (type : Byte) (ulp : UlpMetadata) (path name : List Byte) : UlpMetadata :=
  { type, patchId := ulp.patchId, soFilename := path ++ [0, 0], soHandler := 0,
    objs := { buildIdLen := ulp.objs.buildIdLen, buildIdCheck := false, buildId := ulp.objs.buildId,
              name := name ++ [0], nunits := 0, units := [] },
    ndeps := 0, deps := [], nrefs := 0, refs := [] }

theorem parseHeader_append {calloc : AllocSite → Bool} (ha : ∀ site, calloc site = true) (type : Byte)
    (ulp : UlpMetadata) (path name t : List Byte) (c : Nat) (hb : ulp.objs.buildId.length = ulp.objs.buildIdLen)
    (hp : path ≠ []) (hp0 : (0 : Byte) ∉ path) (hfit : (putHeader type ulp path name).length < 2 ^ 31) :
    (parseHeader calloc).run ⟨putHeader type ulp path name ++ t, c⟩ =
      .ok (headerParsed type ulp path name, ⟨t, name.length⟩) := by
  obtain ⟨x, xs, rfl⟩ := List.exists_cons_of_ne_nil hp
  have hx : x ≠ 0 := fun h => hp0 (by simp [h])
  simp only [putHeader, List.length_append, Bytes.length_toLE, List.length_cons, List.length_nil] at hfit
  unfold parseHeader putHeader
  simp only [List.append_assoc]
  rw [Parse.run_bind_ok (readField_append EINVALIDULP (by simp) (by omega)),
    Parse.run_bind_ok (readField_append EINVALIDULP (by simp) (by omega)),
    Parse.run_bind_ok (readC_append EINVALIDULP (by simp; omega) (by omega)), ← List.append_assoc (x :: xs) [0],
    Parse.run_bind_ok (readName_append EINVALIDULP EINVALIDULP (ha _) (by simp) (by simp; omega))]
  simp only [List.cons_append, List.headD_cons, hx, ha, Bool.not_true, Bool.false_eq_true, ↓reduceIte]
  rw [Parse.run_bind_ok (readC_append EINVALIDULP (by omega) (by omega)), Parse.run_get_bind,
    Parse.run_bind_ok (readName_append EINVALIDULP EINVALIDULP (ha _) hb (by omega)),
    Parse.run_bind_ok (readC_append EINVALIDULP (by omega) (by omega)),
    Parse.run_bind_ok (readName_append EINVALIDULP EINVALIDULP (ha _) rfl (by omega))]
  simp [headerParsed]
  rfl

/-- The header's result with the lists of an apply patch. -/
def metadataParsed (m ulp : UlpMetadata) : UlpMetadata :=
  { m with objs := { m.objs with nunits := ulp.objs.nunits, units := ulp.objs.units.map UlpUnit.parsed }
           deps := ulp.deps.map UlpDependency.parsed, nrefs := ulp.nrefs, refs := ulp.refs.map UlpReference.parsed }

def putTail (ulp : UlpMetadata) : List Byte :=
  toLE 4 ulp.objs.nunits ++ (ulp.objs.units.flatMap putUnit ++ (toLE 4 ulp.ndeps ++
    (ulp.deps.flatMap (fun d => d.depId.toList) ++ (toLE 4 ulp.nrefs ++ ulp.refs.flatMap putReference))))

theorem parseTail_append {calloc : AllocSite → Bool} (ha : ∀ site, calloc site = true) (ulp m : UlpMetadata)
    (t : List Byte) (c : Nat) (hu : ulp.objs.nunits = ulp.objs.units.length) (hd : ulp.ndeps = ulp.deps.length)
    (hr : ulp.nrefs = ulp.refs.length) (hfit : (putTail ulp).length < 2 ^ 31) :
    ∃ c', (parseTail calloc m).run ⟨putTail ulp ++ t, c⟩ = .ok (metadataParsed m ulp, ⟨t, c'⟩) := by
  simp only [putTail, List.length_append, Bytes.length_toLE] at hfit
  have hub := card_le_flatMap putUnit (fun u => by simp only [putUnit, List.length_append, Bytes.length_toLE]; omega)
    ulp.objs.units
  have hdb := card_le_flatMap (fun d : UlpDependency => d.depId.toList) (fun d => by simp) ulp.deps
  have hrb := card_le_flatMap putReference
    (fun r => by simp only [putReference, List.length_append, Bytes.length_toLE]; omega) ulp.refs
  have hunit : ∀ u ∈ ulp.objs.units, ∀ i c t, ∃ c',
      (parseUnit calloc i).run ⟨putUnit u ++ t, c⟩ = .ok (u.parsed, ⟨t, c'⟩) := by
    intro u hu i c t
    have := length_le_flatMap putUnit _ u hu
    simp only [putUnit, putName, List.length_append, Bytes.length_toLE, List.length_cons] at this
    exact parseUnit_append ha i c u t (by omega) (by omega)
  have href : ∀ r ∈ ulp.refs, ∀ i c t, ∃ c',
      (parseReference calloc i).run ⟨putReference r ++ t, c⟩ = .ok (r.parsed, ⟨t, c'⟩) := by
    intro r hr i c t
    have := length_le_flatMap putReference _ r hr
    simp only [putReference, putName, List.length_append, Bytes.length_toLE, List.length_cons] at this
    exact parseReference_append ha i c r t (by omega) (by omega)
  have hnu : ofLE (toLE 4 ulp.objs.nunits) = ulp.objs.units.length := by
    rw [hu]; exact Bytes.ofLE_toLE_of_lt (by omega)
  have hnr : ofLE (toLE 4 ulp.nrefs) = ulp.refs.length := by
    rw [hr]; exact Bytes.ofLE_toLE_of_lt (by omega)
  unfold parseTail putTail
  simp only [List.append_assoc]
  rw [Parse.run_bind_ok (readField_append 1 (by simp) (by omega)), hnu]
  obtain ⟨c₁, h₁⟩ := parseMany_append _ putUnit UlpUnit.parsed ulp.objs.units 0 c (toLE 4 ulp.ndeps ++
    (ulp.deps.flatMap (fun d => d.depId.toList) ++ (toLE 4 ulp.nrefs ++ (ulp.refs.flatMap putReference ++ t)))) hunit
  rw [Parse.run_bind_ok h₁, Parse.run_bind_ok (readC_append EINVALIDULP (by omega) (by omega)), Parse.run_get_bind]
  obtain ⟨c₂, h₂⟩ := parseMany_append _ (fun d : UlpDependency => d.depId.toList) UlpDependency.parsed ulp.deps 0
    ulp.ndeps (toLE 4 ulp.nrefs ++ (ulp.refs.flatMap putReference ++ t))
    (fun d _ i c t => parseDependency_append ha i c d t)
  rw [← hd] at h₂
  rw [Parse.run_bind_ok h₂, Parse.run_bind_ok (readField_append EINVALIDULP (by simp) (by omega)), hnr]
  obtain ⟨c₃, h₃⟩ := parseMany_append _ putReference UlpReference.parsed ulp.refs 0 c₂ t href
  rw [Parse.run_bind_ok h₃]
  exact ⟨c₃, by rw [metadataParsed, hu, hr]; rfl⟩

theorem splice_create (ulp : UlpMetadata) (path : List Byte) (hb : ulp.objs.buildId.length = ulp.objs.buildIdLen) :
    spliceContainerPath (createPatchMetadataFile ulp) path =
      putHeader 1 ulp path (cstr ulp.objs.name ++ [0]) ++ putTail ulp := by
  have hid : ([1] ++ ulp.patchId.toList : List Byte).length = 33 := by simp
  unfold spliceContainerPath createPatchMetadataFile putHeader putTail putBuildId putName
  rw [List.take_left' hid, List.drop_left' hid, ← hb]
  simp

theorem splice_reverse (ulp : UlpMetadata) (path : List Byte) (hb : ulp.objs.buildId.length = ulp.objs.buildIdLen) :
    spliceContainerPath (writeReversePatch ulp) path = putHeader 2 ulp path (cstr ulp.objs.name) := by
  have hid : ([2] ++ ulp.patchId.toList : List Byte).length = 33 := by simp
  unfold spliceContainerPath writeReversePatch putHeader putBuildId
  rw [List.take_left' hid, List.drop_left' hid, ← hb]
  simp

/-- **What an apply patch parses to.** -/
theorem parse_create {calloc : AllocSite → Bool} (ha : ∀ site, calloc site = true) (ulp : UlpMetadata)
    (path t : List Byte) (c : Nat) (hu : ulp.objs.nunits = ulp.objs.units.length) (hd : ulp.ndeps = ulp.deps.length)
    (hr : ulp.nrefs = ulp.refs.length) (hb : ulp.objs.buildId.length = ulp.objs.buildIdLen) (hp : path ≠ [])
    (hp0 : (0 : Byte) ∉ path)
    (hfit : (spliceContainerPath (createPatchMetadataFile ulp) path).length ≤ ulpMetadataBufLen) :
    parseMetadataFromMem calloc (spliceContainerPath (createPatchMetadataFile ulp) path ++ t) c =
      .ok (metadataParsed (headerParsed 1 ulp path (cstr ulp.objs.name ++ [0])) ulp) := by
  rw [splice_create ulp path hb] at hfit ⊢
  rw [List.length_append] at hfit
  have hlen : ulpMetadataBufLen < 2 ^ 31 := by decide
  unfold parseMetadataFromMem parseBody
  rw [List.append_assoc, Parse.run_bind_ok (parseHeader_append ha 1 ulp path _ _ c hb hp hp0 (by omega))]
  obtain ⟨c', h⟩ := parseTail_append ha ulp (headerParsed 1 ulp path (cstr ulp.objs.name ++ [0])) t
    (cstr ulp.objs.name ++ [0]).length hu hd hr (by omega)
  rw [if_neg (by simp [headerParsed]), h]
  rfl

/-- **What a reverse patch parses to.** -/
theorem parse_reverse {calloc : AllocSite → Bool} (ha : ∀ site, calloc site = true) (ulp : UlpMetadata)
    (path t : List Byte) (c : Nat) (hb : ulp.objs.buildId.length = ulp.objs.buildIdLen) (hp : path ≠ [])
    (hp0 : (0 : Byte) ∉ path)
    (hfit : (spliceContainerPath (writeReversePatch ulp) path).length ≤ ulpMetadataBufLen) :
    parseMetadataFromMem calloc (spliceContainerPath (writeReversePatch ulp) path ++ t) c =
      .ok (headerParsed 2 ulp path (cstr ulp.objs.name)) := by
  rw [splice_reverse ulp path hb] at hfit ⊢
  have hlen : ulpMetadataBufLen < 2 ^ 31 := by decide
  unfold parseMetadataFromMem parseBody
  rw [Parse.run_bind_ok (parseHeader_append ha 2 ulp path _ t c hb hp hp0 (by omega))]
  simp [headerParsed]
  rfl

theorem cstr_cstr_append_nul (b t : List Byte) : cstr (cstr b ++ 0 :: t) = cstr b :=
  Bytes.cstr_of_noNul (Bytes.noNul_cstr b) t

/-- **The metadata round trip.**  What the packer writes for `ulp`, with the container path spliced in and anything
after it, is parsed back: an apply patch with its id, path, build id, object name, units, dependencies and references in
order, a reverse patch with its id, path, build id and object name. -/
theorem metadata_round_trip (calloc : AllocSite → Bool) (ha : ∀ site, calloc site = true) (ulp : UlpMetadata)
    (path t : List Byte) (c : Nat) (hu : ulp.objs.nunits = ulp.objs.units.length) (hd : ulp.ndeps = ulp.deps.length)
    (hr : ulp.nrefs = ulp.refs.length) (hb : ulp.objs.buildId.length = ulp.objs.buildIdLen) (hp : path ≠ [])
    (hp0 : (0 : Byte) ∉ path) :
    ((spliceContainerPath (createPatchMetadataFile ulp) path).length ≤ ulpMetadataBufLen →
      ∃ m, parseMetadataFromMem calloc (spliceContainerPath (createPatchMetadataFile ulp) path ++ t) c = .ok m ∧
        m.type = 1 ∧ m.patchId = ulp.patchId ∧ cstr m.soFilename = path ∧
        m.objs.buildIdLen = ulp.objs.buildIdLen ∧ m.objs.buildId = ulp.objs.buildId ∧
        cstr m.objs.name = cstr ulp.objs.name ∧
        m.objs.units.map (fun u => (cstr u.oldFname, cstr u.newFname, u.oldFaddr)) =
          ulp.objs.units.map (fun u => (cstr u.oldFname, cstr u.newFname, u.oldFaddr)) ∧
        m.deps.map (·.depId) = ulp.deps.map (·.depId) ∧
        m.refs.map (fun r => (cstr r.targetName, cstr r.referenceName, r.targetOffset, r.patchOffset, r.tls)) =
          ulp.refs.map (fun r => (cstr r.targetName, cstr r.referenceName, r.targetOffset, r.patchOffset, r.tls))) ∧
    ((spliceContainerPath (writeReversePatch ulp) path).length ≤ ulpMetadataBufLen →
      ∃ m, parseMetadataFromMem calloc (spliceContainerPath (writeReversePatch ulp) path ++ t) c = .ok m ∧
        m.type = 2 ∧ m.patchId = ulp.patchId ∧ cstr m.soFilename = path ∧
        m.objs.buildIdLen = ulp.objs.buildIdLen ∧ m.objs.buildId = ulp.objs.buildId ∧
        cstr m.objs.name = cstr ulp.objs.name) := by
  have hpath : cstr (path ++ [0, 0]) = path := Bytes.cstr_of_noNul hp0 [0]
  constructor
  · intro hfit
    refine ⟨_, parse_create ha ulp path t c hu hd hr hb hp hp0 hfit, rfl, rfl, hpath, rfl, rfl, ?_, ?_, ?_, ?_⟩
    · simpa [metadataParsed, headerParsed] using cstr_cstr_append_nul ulp.objs.name [0]
    · simp [metadataParsed, UlpUnit.parsed, cstr_cstr_append_nul]
    · simp [metadataParsed, UlpDependency.parsed]
    · simp [metadataParsed, UlpReference.parsed, cstr_cstr_append_nul]
  · intro hfit
    refine ⟨_, parse_reverse ha ulp path t c hb hp hp0 hfit, rfl, rfl, hpath, rfl, rfl, ?_⟩
    exact cstr_cstr_append_nul ulp.objs.name []

/-- A patch with one unit, one dependency and one reference. -/
def smallPatch : UlpMetadata :=
  { type := 1, patchId := Vector.replicate 32 7, soFilename := [], soHandler := 0
    objs := { buildIdLen := 2, buildIdCheck := false, buildId := [1, 2], name := [108, 105, 98], nunits := 1
              units := [⟨[102], [110], 64⟩] }
    ndeps := 1, deps := [⟨Vector.replicate 32 3, false⟩], nrefs := 1, refs := [⟨[118], [119], 8, 16, true⟩] }

/-- That patch in the container `/p`, with three bytes of an older patch after it. -/
theorem metadata_round_trip_small :
    (∃ m, parseMetadataFromMem (fun _ => true)
        (spliceContainerPath (createPatchMetadataFile smallPatch) [47, 112] ++ [1, 2, 3]) 0 = .ok m ∧
      m.type = 1 ∧ m.patchId = smallPatch.patchId ∧ m.deps.map (·.depId) = [Vector.replicate 32 3]) ∧
    ∃ m, parseMetadataFromMem (fun _ => true)
        (spliceContainerPath (writeReversePatch smallPatch) [47, 112] ++ [1, 2, 3]) 0 = .ok m ∧
      m.type = 2 ∧ m.patchId = smallPatch.patchId := by
  obtain ⟨h₁, h₂⟩ := metadata_round_trip (fun _ => true) (fun _ => rfl) smallPatch [47, 112] [1, 2, 3] 0 rfl rfl rfl rfl
    (by simp) (by decide)
  obtain ⟨m, hm, ht, hid, -, -, -, -, -, hd, -⟩ := h₁ (by decide +kernel)
  obtain ⟨m', hm', ht', hid', -⟩ := h₂ (by decide +kernel)
  exact ⟨⟨m, hm, ht, hid, hd⟩, m', hm', ht', hid'⟩

end Libpulp
