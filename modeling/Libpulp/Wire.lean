import Libpulp.Grammar
/-!
# Wire — the metadata format, and that the parser reads exactly this format

A `Wire` is what the bytes of an apply patch say; its fields carry the bounds the 32-bit lengths impose, so that only
metadata that can be written down exists.  The parser accepts precisely the encodings, up to what follows them
(`encode_of_parseBody`, `parseBody_encode`), and what the packer writes is one (`splice_create_encode`).  `Widened` names
the places where the parser adds one to a length before it allocates.
-/
namespace Libpulp

open Bytes (Byte Addr toLE ofLE addrOfLE cstr)

/-- Bytes after their length. -/
def chunk (bs : List Byte) : List Byte := toLE 4 bs.length ++ bs

structure WireUnit where
  oldFname : List Byte
  newFname : List Byte
  oldFaddr : Addr
  oldFits  : oldFname.length + 1 < 2 ^ 32
  newFits  : newFname.length + 1 < 2 ^ 32

structure WireReference where
  targetName    : List Byte
  referenceName : List Byte
  targetOffset  : Addr
  patchOffset   : Addr
  tls           : Byte
  targetFits    : targetName.length < 2 ^ 32
  referenceFits : referenceName.length < 2 ^ 32

/-- What an apply patch and a reverse patch share; the container path is not empty. -/
structure WireHeader where
  type       : Byte
  patchId    : PatchId
  soFilename : List Byte
  buildId    : List Byte
  name       : List Byte
  soFits     : soFilename.length + 1 < 2 ^ 32
  soFilled   : soFilename.headD 0 ≠ 0
  idFits     : buildId.length < 2 ^ 32
  nameFits   : name.length + 1 < 2 ^ 32

structure Wire extends WireHeader where
  units     : List WireUnit
  deps      : List PatchId
  refs      : List WireReference
  apply     : type ≠ 2
  unitsFit  : units.length < 2 ^ 32
  depsFit   : deps.length < 2 ^ 32
  refsFit   : refs.length < 2 ^ 32

def WireUnit.encode (u : WireUnit) : List Byte := chunk u.oldFname ++ (chunk u.newFname ++ toLE 8 u.oldFaddr.toNat)

def WireReference.encode (r : WireReference) : List Byte :=
  chunk r.targetName ++ (chunk r.referenceName ++ (toLE 8 r.targetOffset.toNat ++ (toLE 8 r.patchOffset.toNat ++ [r.tls])))

/-- A header up to the object name. -/
def WireHeader.front (h : WireHeader) : List Byte :=
  h.type :: (h.patchId.toList ++ (chunk h.soFilename ++ chunk h.buildId))

def WireHeader.encode (h : WireHeader) : List Byte := h.front ++ chunk h.name

def Wire.encode (w : Wire) : List Byte :=
  w.toWireHeader.encode ++ (toLE 4 w.units.length ++ (w.units.flatMap WireUnit.encode ++ (toLE 4 w.deps.length ++
    (w.deps.flatMap (fun d : PatchId => d.toList) ++ (toLE 4 w.refs.length ++ w.refs.flatMap WireReference.encode)))))

/-! ## What is read -/

def WireUnit.parsed (u : WireUnit) : UlpUnit := ⟨u.oldFname ++ [0], u.newFname ++ [0], u.oldFaddr⟩

/-- The names of a reference get no NUL of their own. -/
def WireReference.parsed (r : WireReference) : UlpReference :=
  ⟨r.targetName, r.referenceName, r.targetOffset, r.patchOffset, ofLE [r.tls] != 0⟩

def WireHeader.parsed (h : WireHeader) : UlpMetadata :=
  { type := h.type, patchId := h.patchId, soFilename := h.soFilename ++ [0], soHandler := 0,
    objs := { buildIdLen := h.buildId.length, buildIdCheck := false, buildId := h.buildId, name := h.name ++ [0],
              nunits := 0, units := [] },
    ndeps := 0, deps := [], nrefs := 0, refs := [] }

def Wire.parsed (w : Wire) : UlpMetadata :=
  let m := w.toWireHeader.parsed
  { m with objs := { m.objs with nunits := w.units.length, units := w.units.map WireUnit.parsed },
           deps := w.deps.map (⟨·, false⟩), nrefs := w.refs.length, refs := w.refs.map WireReference.parsed }

/-- The bytes in front of the length of a name that is read into one byte more than that length. -/
inductive Widened : List Byte → Prop
  | path (type : Byte) (id : PatchId) : Widened (type :: id.toList)
  | name (h : WireHeader) : Widened h.front
  | oldFname (h : WireHeader) (ha : h.type ≠ 2) {n : Nat} (hn : n < 2 ^ 32) {us : List WireUnit} (hu : us.length < n) :
      Widened (h.encode ++ (toLE 4 n ++ us.flatMap WireUnit.encode))
  | newFname (h : WireHeader) (ha : h.type ≠ 2) {n : Nat} (hn : n < 2 ^ 32) {us : List WireUnit} (hu : us.length < n)
      (u : WireUnit) : Widened (h.encode ++ (toLE 4 n ++ (us.flatMap WireUnit.encode ++ chunk u.oldFname)))

/-- A length that wraps when one is added to it. -/
def ones : List Byte := toLE 4 (2 ^ 32 - 1)

/-! ## The parser's grammar -/

theorem ofLE_lt_four {bs : List Byte} (h : bs.length = 4) : ofLE bs < 2 ^ 32 := by
  have := Bytes.ofLE_lt bs
  rwa [h] at this

theorem toLE_ofLE_four {bs : List Byte} (h : bs.length = 4) : toLE 4 (ofLE bs) = bs := by
  have := Bytes.toLE_ofLE bs
  rwa [h] at this

theorem ofLE_toLE_four {n : Nat} (h : n < 2 ^ 32) : ofLE (toLE 4 n) = n := Bytes.ofLE_toLE_of_lt h

theorem toLE_addrOfLE {bs : List Byte} (h : bs.length = 8) : toLE 8 (addrOfLE bs).toNat = bs := by
  have hlt : ofLE bs < 2 ^ 64 := by
    have := Bytes.ofLE_lt bs
    rwa [h] at this
  unfold addrOfLE
  rw [BitVec.toNat_ofNat, Nat.mod_eq_of_lt hlt, ← h]
  exact Bytes.toLE_ofLE bs

theorem PatchId.toList_ofBytes {bs : List Byte} (h : bs.length = 32) : (PatchId.ofBytes bs).toList = bs := by
  refine List.ext_getElem (by simp [h]) (fun i hi hi' => ?_)
  simp [PatchId.ofBytes, List.getD_eq_getElem?_getD, List.getElem?_eq_getElem hi']

theorem WireHeader.front_append (h : WireHeader) (t : List Byte) :
    h.front ++ t =
      [h.type] ++ (h.patchId.toList ++ (chunk h.soFilename ++ (toLE 4 h.buildId.length ++ (h.buildId ++ t)))) := by
  simp [WireHeader.front, chunk]

theorem headD_append_nul (bs : List Byte) : (bs ++ List.replicate 1 0).headD 0 = bs.headD 0 := by
  cases bs <;> rfl

namespace Reads

variable {β : Type} {calloc : AllocSite → Bool} {full : Bool} {c : Nat}

/-- A name: its length, then as many bytes, in a buffer with room for `extra` more. -/
theorem name {site : AllocSite} {least extra : Nat} {e noMem short : UlpError} {f : List Byte → Parse β}
    {M : List Byte → List Byte → β → Prop} {Q : List Byte → List Byte → Prop} (hx : extra ≤ 1) (hl : least ≤ 4)
    (hfull : full = true → least = 4)
    (hf : ∀ b c, Reads calloc full (f b) c (M b) (Q b)) :
    Reads calloc full (do Libpulp.readC least e; f (← Libpulp.readName calloc site extra noMem short)) c
      (fun bs b => ∃ nm y, nm.length + extra < 2 ^ 32 ∧ bs = chunk nm ++ y ∧ M (nm ++ List.replicate extra 0) y b)
      (fun pre => extra = 1 ∧ pre = ones ∨
        ∃ nm y, nm.length + extra < 2 ^ 32 ∧ pre = chunk nm ++ y ∧ Q (nm ++ List.replicate extra 0) y) := by
  refine (Reads.readC (q := full) hl hfull (fun v hv => (Reads.readName hx hv).bind hf)
    (fun h h' => by rw [h] at h'; cases h')).congr (fun bs b => ?_) (fun pre => ?_)
  · constructor
    · rintro ⟨_, _, -, rfl, nm, y, _, rfl, ⟨rfl, hfit, rfl⟩, hM⟩
      exact ⟨nm, y, hfit, by rw [chunk, List.append_assoc], hM⟩
    · rintro ⟨nm, y, hfit, rfl, hM⟩
      exact ⟨nm.length, nm ++ y, by omega, by rw [chunk, List.append_assoc], nm, y, _, rfl, ⟨rfl, hfit, rfl⟩, hM⟩
  · constructor
    · rintro ⟨_, _, -, rfl, ⟨rfl, rfl, rfl⟩ | ⟨nm, y, _, rfl, ⟨rfl, hfit, rfl⟩, hQ⟩⟩
      · exact Or.inl ⟨rfl, List.append_nil _⟩
      · exact Or.inr ⟨nm, y, hfit, by rw [chunk, List.append_assoc], hQ⟩
    · rintro (⟨rfl, rfl⟩ | ⟨nm, y, hfit, rfl, hQ⟩)
      · exact ⟨2 ^ 32 - 1, [], by decide, (List.append_nil _).symm, Or.inl ⟨rfl, rfl, rfl⟩⟩
      · exact ⟨nm.length, nm ++ y, by omega, by rw [chunk, List.append_assoc],
          Or.inr ⟨nm, y, _, rfl, ⟨rfl, hfit, rfl⟩, hQ⟩⟩

/-- One of the parser's loops, over items that are read as `W`. -/
theorem many {α W : Type} {item : Nat → Parse α} {enc : W → List Byte} {val : W → α} {O : List Byte → Prop}
    (h : ∀ i c, Reads calloc full (item i) c (fun bs a => ∃ w, bs = enc w ∧ a = val w) O) :
    ∀ n i c, Reads calloc full (parseMany item n i) c
      (fun bs as => ∃ ws : List W, ws.length = n ∧ bs = ws.flatMap enc ∧ as = ws.map val)
      (fun pre => ∃ (ws : List W) (y : List Byte), ws.length < n ∧ pre = ws.flatMap enc ++ y ∧ O y)
  | 0, i, c => by
    refine (Reads.pure []).congr (fun bs as => ?_) (fun pre => ?_)
    · constructor
      · rintro ⟨rfl, rfl⟩
        exact ⟨[], rfl, rfl, rfl⟩
      · rintro ⟨ws, hw, rfl, rfl⟩
        obtain rfl := List.length_eq_zero_iff.1 hw
        exact ⟨rfl, rfl⟩
    · simp
  | n + 1, i, c => by
    refine ((h i c).bind (fun a c' => (many h n (i + 1) c').bind (fun as _ => Reads.pure (a :: as)))).congr
      (fun bs as => ?_) (fun pre => ?_)
    · constructor
      · rintro ⟨_, _, _, rfl, ⟨w, rfl, rfl⟩, _, _, _, rfl, ⟨ws, rfl, rfl, rfl⟩, rfl, rfl⟩
        exact ⟨w :: ws, rfl, by simp, rfl⟩
      · rintro ⟨ws, hw, rfl, rfl⟩
        obtain ⟨w, ws, rfl⟩ := List.exists_cons_of_length_eq_add_one hw
        exact ⟨enc w, ws.flatMap enc, val w, rfl, ⟨w, rfl, rfl⟩, ws.flatMap enc, [], ws.map val, by simp,
          ⟨ws, by simpa using hw, rfl, rfl⟩, rfl, rfl⟩
    · constructor
      · rintro (hO | ⟨_, _, _, rfl, ⟨w, rfl, rfl⟩, ⟨ws, y, hlt, rfl, hO⟩ | ⟨_, _, _, -, -, hF⟩⟩)
        · exact ⟨[], pre, by simp, rfl, hO⟩
        · exact ⟨w :: ws, y, by simpa using hlt, by simp, hO⟩
        · exact hF.elim
      · rintro ⟨_ | ⟨w, ws⟩, y, hlt, rfl, hO⟩
        · exact Or.inl hO
        · exact Or.inr ⟨enc w, ws.flatMap enc ++ y, val w, by simp, ⟨w, rfl, rfl⟩,
            Or.inl ⟨ws, y, by simpa using hlt, rfl, hO⟩⟩

end Reads

section
variable (calloc : AllocSite → Bool)

theorem parseUnit_reads (j c : Nat) : Reads calloc false (parseUnit calloc j) c
    (fun bs a => ∃ u : WireUnit, bs = u.encode ∧ a = u.parsed)
    (fun pre => pre = ones ∨ ∃ u : WireUnit, pre = chunk u.oldFname ++ ones) := by
  unfold parseUnit
  refine Reads.alloc ((Reads.name (by omega) (by omega) (by simp) (fun o _ =>
    Reads.name (by omega) (by omega) (by simp) (fun n _ =>
      (Reads.readField (by omega) (by simp)).bind (fun a _ => Reads.pure _)))).congr (fun bs a => ?_) (fun pre => ?_))
  · constructor
    · rintro ⟨o, _, ho, rfl, n, _, hn, rfl, _, _, a, rfl, ⟨ha, rfl⟩, rfl, rfl⟩
      refine ⟨⟨o, n, addrOfLE a, ho, hn⟩, ?_, rfl⟩
      rw [WireUnit.encode, toLE_addrOfLE ha, List.append_nil]
    · rintro ⟨u, rfl, rfl⟩
      refine ⟨_, _, u.oldFits, rfl, _, _, u.newFits, rfl, toLE 8 u.oldFaddr.toNat, [], _, by simp, ⟨by simp, rfl⟩, rfl, ?_⟩
      simp [WireUnit.parsed]
  · constructor
    · rintro (⟨-, rfl⟩ | ⟨o, _, ho, rfl, ⟨-, rfl⟩ | ⟨_, _, _, rfl, hF | ⟨_, _, _, -, -, hF⟩⟩⟩)
      · exact Or.inl rfl
      · exact Or.inr ⟨⟨o, [], 0, ho, by decide⟩, rfl⟩
      · exact hF.elim
      · exact hF.elim
    · rintro (rfl | ⟨u, rfl⟩)
      · exact Or.inl ⟨rfl, rfl⟩
      · exact Or.inr ⟨u.oldFname, ones, u.oldFits, rfl, Or.inl ⟨rfl, rfl⟩⟩

theorem parseDependency_reads (i c : Nat) : Reads calloc true (parseDependency calloc i) c
    (fun bs a => ∃ d : PatchId, bs = d.toList ∧ a = ⟨d, false⟩) (fun _ => False) := by
  unfold parseDependency
  refine Reads.alloc (((Reads.readField (by omega) (fun _ => rfl)).bind (fun d _ => Reads.pure _)).congr
    (fun bs a => ?_) (fun pre => by simp))
  constructor
  · rintro ⟨_, _, d, rfl, ⟨hd, rfl⟩, rfl, rfl⟩
    exact ⟨.ofBytes d, by rw [PatchId.toList_ofBytes hd, List.append_nil], rfl⟩
  · rintro ⟨d, rfl, rfl⟩
    refine ⟨d.toList, [], d.toList, (List.append_nil _).symm, ⟨by simp, rfl⟩, rfl, ?_⟩
    rw [PatchId.ofBytes_toList]

theorem parseReference_reads (i c : Nat) : Reads calloc true (parseReference calloc i) c
    (fun bs a => ∃ r : WireReference, bs = r.encode ∧ a = r.parsed) (fun _ => False) := by
  have hF : ∀ {size c}, Reads calloc true (readField size size EINVALIDULP) c
      (fun bs a => bs.length = size ∧ a = bs) (fun _ => False) := Reads.readField (Nat.le_refl _) (fun _ => rfl)
  unfold parseReference
  refine Reads.alloc ((Reads.name (by omega) (by omega) (by simp) (fun t _ =>
    Reads.name (by omega) (by omega) (by simp) (fun r _ =>
      hF.bind (fun o _ => hF.bind (fun q _ => hF.bind (fun l _ => Reads.pure _)))))).congr
    (fun bs a => ?_) (fun pre => by simp))
  constructor
  · rintro ⟨t, _, ht, rfl, r, _, hr, rfl, _, _, o, rfl, ⟨ho, rfl⟩, _, _, q, rfl, ⟨hq, rfl⟩, _, _, l, rfl, ⟨hl, rfl⟩, rfl,
      rfl⟩
    obtain ⟨b, rfl⟩ := List.length_eq_one_iff.1 hl
    refine ⟨⟨t, r, addrOfLE o, addrOfLE q, b, ht, hr⟩, ?_, by simp [WireReference.parsed]⟩
    rw [WireReference.encode, toLE_addrOfLE ho, toLE_addrOfLE hq, List.append_nil]
  · rintro ⟨w, rfl, rfl⟩
    refine ⟨w.targetName, _, w.targetFits, rfl, w.referenceName, _, w.referenceFits, rfl, toLE 8 w.targetOffset.toNat, _,
      _, rfl, ⟨by simp, rfl⟩, toLE 8 w.patchOffset.toNat, _, _, rfl, ⟨by simp, rfl⟩, [w.tls], [], _, rfl, ⟨rfl, rfl⟩, rfl,
      ?_⟩
    simp [WireReference.parsed]

theorem parseHeader_reads (c : Nat) : Reads calloc false (parseHeader calloc) c
    (fun bs a => ∃ h : WireHeader, bs = h.encode ∧ a = h.parsed)
    (fun pre => (∃ (type : Byte) (id : PatchId), pre = type :: id.toList ++ ones) ∨
      ∃ h : WireHeader, pre = h.front ++ ones) := by
  have hF : ∀ {size c}, Reads calloc false (readField size size EINVALIDULP) c
      (fun bs a => bs.length = size ∧ a = bs) (fun _ => False) := Reads.readField (Nat.le_refl _) (fun _ => rfl)
  unfold parseHeader
  refine (hF.bind (fun type _ => hF.bind (fun id _ => Reads.name (by omega) (by omega) (by simp) (fun so _ =>
    Reads.check (Reads.alloc (Reads.readC (q := false) (by omega) (by simp) (fun v hv =>
      Reads.length (fun _ => rfl)
        ((Reads.readName (by omega) hv).bind (fun b _ =>
          Reads.name (by omega) (by omega) (by simp) (fun nm _ => Reads.pure _)))) (by simp))))))).congr
    (fun bs a => ?_) (fun pre => ?_)
  · constructor
    · rintro ⟨_, _, type, rfl, ⟨ht, rfl⟩, _, _, id, rfl, ⟨hid, rfl⟩, so, _, hso, rfl, hne, _, _, hv, rfl, b, _, _, rfl,
        ⟨rfl, hb, rfl⟩, nm, _, hnm, rfl, rfl, rfl⟩
      obtain ⟨type, rfl⟩ := List.length_eq_one_iff.1 ht
      refine ⟨⟨type, .ofBytes id, so, b, nm, hso, fun h => hne (by rwa [headD_append_nul]), hb, hnm⟩, ?_, ?_⟩
      · simp only [WireHeader.encode, WireHeader.front, PatchId.toList_ofBytes hid, chunk]
        simp
      · simp [WireHeader.parsed]
    · rintro ⟨h, rfl, rfl⟩
      rw [WireHeader.encode, WireHeader.front_append, ← List.append_nil (chunk h.name)]
      refine ⟨[h.type], _, _, rfl, ⟨rfl, rfl⟩, h.patchId.toList, _, _, rfl, ⟨by simp, rfl⟩, h.soFilename, _, h.soFits, rfl,
        fun h0 => h.soFilled (by rwa [headD_append_nul] at h0), h.buildId.length, _, h.idFits, rfl, h.buildId, _, _, rfl,
        ⟨rfl, h.idFits, rfl⟩, h.name, [], h.nameFits, rfl, rfl, ?_⟩
      simp [WireHeader.parsed]
  · constructor
    · rintro (hF | ⟨_, _, type, rfl, ⟨ht, rfl⟩, hF | ⟨_, _, id, rfl, ⟨hid, rfl⟩, hQ⟩⟩)
      · exact hF.elim
      · exact hF.elim
      obtain ⟨type, rfl⟩ := List.length_eq_one_iff.1 ht
      rcases hQ with ⟨-, rfl⟩ | ⟨so, _, hso, rfl, hne, _, _, hv, rfl, ⟨-, h0, -⟩ | ⟨b, _, _, rfl, ⟨rfl, hb, rfl⟩, hQ⟩⟩
      · exact Or.inl ⟨type, .ofBytes id, by rw [PatchId.toList_ofBytes hid]; simp⟩
      · cases h0
      · rcases hQ with ⟨-, rfl⟩ | ⟨_, _, _, -, hF⟩
        · refine Or.inr ⟨⟨type, .ofBytes id, so, b, [], hso, fun h => hne (by rwa [headD_append_nul]), hb, by decide⟩, ?_⟩
          simp only [WireHeader.front, PatchId.toList_ofBytes hid, chunk]
          simp
        · exact hF.elim
    · rintro (⟨type, id, rfl⟩ | ⟨h, rfl⟩)
      · exact Or.inr ⟨[type], _, _, rfl, ⟨rfl, rfl⟩, Or.inr ⟨id.toList, ones, _, rfl, ⟨by simp, rfl⟩, Or.inl ⟨rfl, rfl⟩⟩⟩
      · rw [WireHeader.front_append]
        exact Or.inr ⟨[h.type], _, _, rfl, ⟨rfl, rfl⟩, Or.inr ⟨h.patchId.toList, _, _, rfl, ⟨by simp, rfl⟩,
          Or.inr ⟨h.soFilename, _, h.soFits, rfl, fun h0 => h.soFilled (by rwa [headD_append_nul] at h0),
            h.buildId.length, _, h.idFits, rfl, Or.inr ⟨h.buildId, ones, _, rfl, ⟨rfl, h.idFits, rfl⟩,
              Or.inl ⟨rfl, rfl⟩⟩⟩⟩⟩

/-- The units, dependencies and references of an apply patch, with the metadata `m` read so far. -/
theorem parseTail_reads (m : UlpMetadata) (c : Nat) : Reads calloc true (parseTail calloc m) c
    (fun bs a => ∃ (us : List WireUnit) (ds : List PatchId) (rs : List WireReference),
      us.length < 2 ^ 32 ∧ ds.length < 2 ^ 32 ∧ rs.length < 2 ^ 32 ∧
      bs = toLE 4 us.length ++ (us.flatMap WireUnit.encode ++ (toLE 4 ds.length ++
        (ds.flatMap (fun d : PatchId => d.toList) ++ (toLE 4 rs.length ++ rs.flatMap WireReference.encode)))) ∧
      a = { m with objs := { m.objs with nunits := us.length, units := us.map WireUnit.parsed },
                   deps := ds.map (⟨·, false⟩), nrefs := rs.length, refs := rs.map WireReference.parsed })
    (fun pre => ∃ (n : Nat) (us : List WireUnit) (y : List Byte), n < 2 ^ 32 ∧ us.length < n ∧
      pre = toLE 4 n ++ (us.flatMap WireUnit.encode ++ y) ∧ (y = ones ∨ ∃ u : WireUnit, y = chunk u.oldFname ++ ones)) := by
  have hU := Reads.many (parseUnit_reads calloc)
  have hD := Reads.many (parseDependency_reads calloc)
  have hR := Reads.many (parseReference_reads calloc)
  have hn : Hungry (readField 4 4 EINVALIDULP) := hungry_readField (by omega)
  have hc : Hungry (readC 1 EINVALIDULP) := hungry_readC (by omega)
  unfold parseTail
  have hF : ∀ {c}, Reads calloc false (readField 4 1 1) c (fun bs a => bs.length = 4 ∧ a = bs) (fun _ => False) :=
    Reads.readField (by omega) (by simp)
  -- after the last read that may fall short comes one that may not
  refine (hF.bindBy (fun nunits c => (hU _ _ c).bindBy (fun units c =>
    Reads.readC (q := false) (by omega) (by simp) (fun v hv => Reads.length (fun _ => rfl)
      ((hD _ _ _).bind (fun deps c => (Reads.readField (by omega) (fun _ => rfl)).bind (fun nrefs c =>
        (hR _ _ c).bind (fun refs c => Reads.pure _)))))
      (fun _ _ => hungry_get (fun _ => Reads.hungry_bind (hD _ _) (fun _ => hn.bind _)))) (fun _ _ _ => hc.bind _))
    (fun _ _ _ => Reads.hungry_bind (hU _ _) (fun _ => hc.bind _))).congr
    (fun bs a => ?_) (fun pre => ?_)
  · constructor
    · rintro ⟨_, _, nu, rfl, ⟨hnu, rfl⟩, _, _, _, rfl, ⟨us, hus, rfl, rfl⟩, v, _, hv, rfl, _, _, _, rfl, ⟨ds, hds, rfl, rfl⟩,
        _, _, nr, rfl, ⟨hnr, rfl⟩, _, _, _, rfl, ⟨rs, hrs, rfl, rfl⟩, rfl, rfl⟩
      obtain rfl : v = ds.length := hds.symm
      refine ⟨us, ds, rs, hus ▸ ofLE_lt_four hnu, hv, hrs ▸ ofLE_lt_four hnr, ?_, ?_⟩
      · rw [hus, hrs, toLE_ofLE_four hnu, toLE_ofLE_four hnr, List.append_nil]
      · rw [hus, hrs]
    · rintro ⟨us, ds, rs, hu, hd, hr, rfl, rfl⟩
      refine ⟨toLE 4 us.length, _, _, rfl, ⟨by simp, rfl⟩, us.flatMap WireUnit.encode, _, _, rfl,
        ⟨us, (ofLE_toLE_four hu).symm, rfl, rfl⟩, ds.length, _, hd, rfl, _, _, _, rfl, ⟨ds, rfl, rfl, rfl⟩,
        toLE 4 rs.length, _, _, rfl, ⟨by simp, rfl⟩, rs.flatMap WireReference.encode, [], _, (List.append_nil _).symm,
        ⟨rs, (ofLE_toLE_four hr).symm, rfl, rfl⟩, rfl, ?_⟩
      rw [ofLE_toLE_four hu, ofLE_toLE_four hr]
  · constructor
    · rintro (hF | ⟨_, _, nu, rfl, ⟨hnu, rfl⟩, ⟨us, y, hus, rfl, hy⟩ | ⟨_, _, _, rfl, -, v, _, hv, rfl, hQ⟩⟩)
      · exact hF.elim
      · exact ⟨ofLE nu, us, y, ofLE_lt_four hnu, hus, by rw [toLE_ofLE_four hnu], hy⟩
      · simp at hQ
    · rintro ⟨n, us, y, hn, hu, rfl, hy⟩
      exact Or.inr ⟨toLE 4 n, _, _, rfl, ⟨by simp, rfl⟩, Or.inl ⟨us, y, by rwa [ofLE_toLE_four hn], rfl, hy⟩⟩

end

/-! ## The whole parser -/

section
variable {calloc : AllocSite → Bool} {src r t : List Byte} {c c' : Nat} {m : UlpMetadata}

theorem hungry_parseTail (m : UlpMetadata) : Hungry (parseTail calloc m) := by
  unfold parseTail
  exact (hungry_readField (by omega)).bind _

/-- **What is parsed as an apply patch is the encoding of one.** -/
theorem encode_of_parseBody (h : parseBody calloc ⟨src, c⟩ = Except.ok (m, ⟨r, c'⟩)) (hm : m.type ≠ 2) :
    ∃ w : Wire, src = w.encode ++ r ∧ m = w.parsed := by
  unfold parseBody at h
  obtain ⟨m₀, ⟨r₀, c₀⟩, h₀, h⟩ := parse_bind_ok h
  split at h
  · rename_i h2
    cases h
    exact absurd h2 hm
  rename_i h2
  have hne : r₀ ≠ [] := fun hnil => hungry_parseTail m₀ c₀ m _ (hnil ▸ h)
  obtain ⟨_, rfl, hd, rfl, rfl⟩ := (parseHeader_reads calloc c).ok h₀ (fun _ => hne)
  obtain ⟨_, rfl, us, ds, rs, hu, hds, hr, rfl, rfl⟩ := (parseTail_reads calloc hd.parsed c₀).ok h (by simp)
  exact ⟨⟨hd, us, ds, rs, h2, hu, hds, hr⟩, by simp only [Wire.encode, List.append_assoc], rfl⟩

/-- **An encoding is parsed as what it encodes, whatever follows it.** -/
theorem parseBody_encode (hc : ∀ site, calloc site = true) (w : Wire) (t : List Byte) (c : Nat) :
    ∃ c', parseBody calloc ⟨w.encode ++ t, c⟩ = Except.ok (w.parsed, ⟨t, c'⟩) := by
  obtain ⟨c₁, h₁⟩ := (parseHeader_reads calloc c).accepts hc ⟨w.toWireHeader, rfl, rfl⟩ (toLE 4 w.units.length ++
    (w.units.flatMap WireUnit.encode ++ (toLE 4 w.deps.length ++ (w.deps.flatMap (fun d : PatchId => d.toList) ++
      (toLE 4 w.refs.length ++ w.refs.flatMap WireReference.encode)))) ++ t)
  obtain ⟨c₂, h₂⟩ := (parseTail_reads calloc w.toWireHeader.parsed c₁).accepts hc
    ⟨w.units, w.deps, w.refs, w.unitsFit, w.depsFit, w.refsFit, rfl, rfl⟩ t
  have ha : w.toWireHeader.parsed.type ≠ 2 := w.apply
  refine ⟨c₂, ?_⟩
  unfold parseBody
  rw [Wire.encode, List.append_assoc, bind_of_ok _ h₁, if_neg ha, h₂]
  rfl

/-- **A copy out of bounds is into a name whose length wrapped.** -/
theorem widened_of_parseBody (h : parseBody calloc ⟨src, c⟩ = Except.error .overflow) :
    ∃ b t, Widened b ∧ t ≠ [] ∧ src = b ++ (ones ++ t) := by
  unfold parseBody at h
  rcases parse_bind_overflow h with h | ⟨m₀, ⟨r₀, c₀⟩, h₀, h⟩
  · obtain ⟨_, t, rfl, ht, ⟨type, id, rfl⟩ | ⟨hd, rfl⟩⟩ := (parseHeader_reads calloc c).overflow h
    · exact ⟨_, t, .path type id, ht, by simp⟩
    · exact ⟨_, t, .name hd, ht, by simp⟩
  · split at h
    · cases h
    rename_i h2
    obtain ⟨_, t, rfl, ht, n, us, _, hn, hu, rfl, hy⟩ := (parseTail_reads calloc m₀ c₀).overflow h
    obtain ⟨_, rfl, hd, rfl, rfl⟩ := (parseHeader_reads calloc c).ok h₀ (fun _ => by simp [ht])
    rcases hy with rfl | ⟨u, rfl⟩
    · exact ⟨_, t, .oldFname hd h2 hn hu, ht, by simp⟩
    · exact ⟨_, t, .newFname hd h2 hn hu u, ht, by simp⟩

theorem parseBody_of_header {hd : WireHeader} (hc : ∀ site, calloc site = true) (ha : hd.type ≠ 2)
    (h : ∀ c, parseTail calloc hd.parsed ⟨t, c⟩ = Except.error .overflow) :
    parseBody calloc ⟨hd.encode ++ t, c⟩ = Except.error .overflow := by
  obtain ⟨c₁, h₁⟩ := (parseHeader_reads calloc c).accepts hc ⟨hd, rfl, rfl⟩ t
  have ha' : hd.parsed.type ≠ 2 := ha
  unfold parseBody
  rw [bind_of_ok _ h₁, if_neg ha', h]

/-- **A length that wraps, with bytes after it, is a copy out of bounds.** -/
theorem parseBody_widened (hc : ∀ site, calloc site = true) {b : List Byte} (hb : Widened b) (ht : t ≠ []) (c : Nat) :
    parseBody calloc ⟨b ++ (ones ++ t), c⟩ = Except.error .overflow := by
  cases hb with
  | path type id =>
    have := (parseHeader_reads calloc c).breaks hc (Or.inl ⟨type, id, rfl⟩) ht
    rw [List.append_assoc] at this
    exact bind_of_overflow _ this
  | name h =>
    have := (parseHeader_reads calloc c).breaks hc (Or.inr ⟨h, rfl⟩) ht
    rw [List.append_assoc] at this
    exact bind_of_overflow _ this
  | oldFname h ha hn hu =>
    rw [List.append_assoc]
    refine parseBody_of_header hc ha (fun c => ?_)
    have := (parseTail_reads calloc h.parsed c).breaks hc ⟨_, _, ones, hn, hu, rfl, Or.inl rfl⟩ ht
    simpa only [List.append_assoc] using this
  | newFname h ha hn hu u =>
    rw [List.append_assoc]
    refine parseBody_of_header hc ha (fun c => ?_)
    have := (parseTail_reads calloc h.parsed c).breaks hc ⟨_, _, chunk u.oldFname ++ ones, hn, hu, rfl, Or.inr ⟨u, rfl⟩⟩ ht
    simpa only [List.append_assoc] using this

end

/-! ## What the packer writes -/

theorem exists_flatMap_eq {α W : Type} (put : α → List Byte) (enc : W → List Byte) : ∀ xs : List α,
    (∀ x ∈ xs, ∃ w, enc w = put x) → ∃ ws : List W, ws.length = xs.length ∧ ws.flatMap enc = xs.flatMap put
  | [], _      => ⟨[], rfl, rfl⟩
  | x :: xs, h => by
    obtain ⟨w, hw⟩ := h x (by simp)
    obtain ⟨ws, hl, hs⟩ := exists_flatMap_eq put enc xs (fun y hy => h y (by simp [hy]))
    exact ⟨w :: ws, by simp [hl], by rw [List.flatMap_cons, List.flatMap_cons, hw, hs]⟩

theorem putName_eq (name : List Byte) : putName name = chunk (cstr name ++ [0]) := by simp [putName, chunk]

theorem exists_wireUnit {u : UlpUnit} (h : (putUnit u).length < 2 ^ 32) : ∃ w : WireUnit, w.encode = putUnit u := by
  simp only [putUnit, putName, List.length_append, Bytes.length_toLE, List.length_cons, List.length_nil] at h
  refine ⟨⟨cstr u.oldFname ++ [0], cstr u.newFname ++ [0], u.oldFaddr, ?_, ?_⟩, ?_⟩
  · simp only [List.length_append, List.length_cons, List.length_nil]; omega
  · simp only [List.length_append, List.length_cons, List.length_nil]; omega
  · simp only [WireUnit.encode, putUnit, putName_eq]

theorem exists_wireReference {r : UlpReference} (h : (putReference r).length < 2 ^ 32) :
    ∃ w : WireReference, w.encode = putReference r := by
  simp only [putReference, putName, List.length_append, Bytes.length_toLE, List.length_cons, List.length_nil] at h
  refine ⟨⟨cstr r.targetName ++ [0], cstr r.referenceName ++ [0], r.targetOffset, r.patchOffset,
    if r.tls then 1 else 0, ?_, ?_⟩, ?_⟩
  · simp only [List.length_append, List.length_cons, List.length_nil]; omega
  · simp only [List.length_append, List.length_cons, List.length_nil]; omega
  · simp only [WireReference.encode, putReference, putName_eq]

/-- **What the packer writes, with the container path spliced in, is the encoding of an apply patch.** -/
theorem splice_create_encode (ulp : UlpMetadata) (path : List Byte) (hu : ulp.objs.nunits = ulp.objs.units.length)
    (hd : ulp.ndeps = ulp.deps.length) (hr : ulp.nrefs = ulp.refs.length)
    (hb : ulp.objs.buildId.length = ulp.objs.buildIdLen) (hp : path ≠ []) (hp0 : (0 : Byte) ∉ path)
    (hfit : (spliceContainerPath (createPatchMetadataFile ulp) path).length ≤ ulpMetadataBufLen) :
    ∃ w : Wire, w.type = 1 ∧ spliceContainerPath (createPatchMetadataFile ulp) path = w.encode := by
  have hlen : ulpMetadataBufLen = 524288 := by decide
  rw [splice_create ulp path hb] at hfit ⊢
  simp only [putHeader, putTail, List.length_append, Bytes.length_toLE, List.length_cons, List.length_nil] at hfit
  have hub := card_le_flatMap putUnit (fun u => by simp only [putUnit, List.length_append, Bytes.length_toLE]; omega)
    ulp.objs.units
  have hdb := card_le_flatMap (fun d : UlpDependency => d.depId.toList) (fun d => by simp) ulp.deps
  have hrb := card_le_flatMap putReference
    (fun r => by simp only [putReference, List.length_append, Bytes.length_toLE]; omega) ulp.refs
  have hunit : ∀ u ∈ ulp.objs.units, ∃ w : WireUnit, w.encode = putUnit u := by
    intro u hm
    have := length_le_flatMap putUnit _ u hm
    exact exists_wireUnit (by omega)
  have href : ∀ r ∈ ulp.refs, ∃ w : WireReference, w.encode = putReference r := by
    intro r hm
    have := length_le_flatMap putReference _ r hm
    exact exists_wireReference (by omega)
  obtain ⟨us, hul, hus⟩ := exists_flatMap_eq putUnit WireUnit.encode ulp.objs.units hunit
  obtain ⟨ds, hdl, hds⟩ := exists_flatMap_eq (fun d : UlpDependency => d.depId.toList) (fun d : PatchId => d.toList)
    ulp.deps (fun d _ => ⟨d.depId, rfl⟩)
  obtain ⟨rs, hrl, hrs⟩ := exists_flatMap_eq putReference WireReference.encode ulp.refs href
  obtain ⟨x, xs, rfl⟩ := List.exists_cons_of_ne_nil hp
  have hx : x ≠ 0 := fun h => hp0 (by simp [h])
  refine ⟨{ type := 1, patchId := ulp.patchId, soFilename := x :: xs ++ [0], buildId := ulp.objs.buildId,
            name := cstr ulp.objs.name ++ [0], units := us, deps := ds, refs := rs, soFits := ?_,
            soFilled := by simpa using hx, idFits := ?_, nameFits := ?_, apply := by decide, unitsFit := ?_,
            depsFit := ?_, refsFit := ?_ }, rfl, ?_⟩
  · simp only [List.length_cons, List.length_append, List.length_nil] at hfit ⊢; omega
  · omega
  · simp only [List.length_append, List.length_cons, List.length_nil]; omega
  · omega
  · omega
  · omega
  · simp only [putHeader, putTail, Wire.encode, WireHeader.encode, WireHeader.front, chunk, hul, hdl, hrl, hus, hds, hrs, hu,
      hd, hr, hb]
    simp

end Libpulp
