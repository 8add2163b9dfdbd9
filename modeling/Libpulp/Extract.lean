import Libpulp.Common
/-!
# Extract — library information through a JSON file (tools/extract.c)

`ulp extract` writes what the packer needs of a library (`write_ulp_so_info_json`), and the packer may read it back
(`parse_so_json`) instead of opening the ELF file.  json-c is not part of the repository: `JsonC` is its interface, with
what its documentation says of objects, arrays, strings and `int`s.  Every number goes through a C `int`.
-/
namespace Libpulp

open Bytes (Byte Addr)

/-! ## Data -/

/-- A C string: its bytes, without the NUL that ends it. -/
abbrev CString := { s : List Byte // (0 : Byte) ∉ s }

abbrev buildidLen : Nat := 20

structure Symbol where
  name    : CString
  offset  : Addr
  size    : BitVec 32
  stInfo  : Byte
  stOther : Byte
deriving DecidableEq

structure UlpSoInfo where
  name    : CString
  buildid : Vector Byte buildidLen
  symbols : List Symbol

/-- The part of json-c the tool uses, and what it promises.  A key that is not there is `none`. -/
structure JsonC where
  Obj             : Type
  Text            : Type
  newString       : CString → Obj
  newInt          : BitVec 32 → Obj
  newObject       : Obj
  objectAdd       : Obj → String → Obj → Obj
  newArray        : Obj
  arrayAdd        : Obj → Obj → Obj
  toText          : Obj → Text
  fromText        : Text → Option Obj
  objectGet       : Obj → String → Option Obj
  getString       : Obj → CString
  getInt          : Obj → BitVec 32
  getArray        : Obj → Option (List Obj)
  getString_new   : ∀ s, getString (newString s) = s
  getInt_new      : ∀ n, getInt (newInt n) = n
  IsObject        : Obj → Prop
  isObject_new    : IsObject newObject
  isObject_add    : ∀ o k v, IsObject o → IsObject (objectAdd o k v)
  objectGet_add   : ∀ o k v k', IsObject o → objectGet (objectAdd o k v) k' = if k = k' then some v else objectGet o k'
  getArray_new    : getArray newArray = some []
  getArray_add    : ∀ a xs v, getArray a = some xs → getArray (arrayAdd a v) = some (xs ++ [v])
  fromText_toText : ∀ o, fromText (toText o) = some o

/-! ## Build ids as text -/

/-- A digit as `%x` prints it. -/
def hexDigit (n : Nat) : Byte := UInt8.ofNat (if n < 10 then 48 + n else 87 + n)

/-- `snprintf("%02x")` of a byte. -/
def hexByte (b : Byte) : List Byte := [hexDigit (b.toNat / 16), hexDigit (b.toNat % 16)]

def hexValue (c : Byte) : Option Nat :=
  let n := c.toNat
  if 48 ≤ n ∧ n ≤ 57 then some (n - 48)
  else if 97 ≤ n ∧ n ≤ 102 then some (n - 87)
  else if 65 ≤ n ∧ n ≤ 70 then some (n - 55)
  else none

def isspace (c : Byte) : Bool := c.toNat = 32 || (9 ≤ c.toNat && c.toNat ≤ 13)

/-- The value of the leading hexadecimal digits, at most `w` of them; `none` when there is not one. -/
def hexDigits : Nat → List Byte → Option Nat → Option Nat
  | w + 1, c :: cs, acc =>
    match hexValue c with
    | some d => hexDigits w cs (some (16 * acc.getD 0 + d))
    | none   => acc
  | _, _, acc => acc

/-- `sscanf(str, "%02x", &val)`: blanks are skipped, a sign counts towards the width, and without a digit `val` keeps
what it held. -/
def sscanfHex (str : List Byte) (val : Nat) : Nat :=
  match str.dropWhile isspace with
  | 43 :: cs => (hexDigits 1 cs none).getD val
  | 45 :: cs => ((hexDigits 1 cs none).map (fun n => 2 ^ 32 - n)).getD val
  | cs       => (hexDigits 2 cs none).getD val

theorem hexDigit_spec : ∀ n < 16, hexValue (hexDigit n) = some n ∧ isspace (hexDigit n) = false ∧ hexDigit n ≠ 43 ∧
    hexDigit n ≠ 45 ∧ hexDigit n ≠ 0 := by decide

theorem nul_notMem_hex (bs : List Byte) : (0 : Byte) ∉ bs.flatMap hexByte := by
  intro h
  obtain ⟨b, -, hb⟩ := List.mem_flatMap.1 h
  have hlt : b.toNat < 256 := UInt8.toNat_lt b
  simp only [hexByte, List.mem_cons, List.not_mem_nil, or_false] at hb
  rcases hb with hb | hb
  · exact (hexDigit_spec (b.toNat / 16) (by omega)).2.2.2.2 hb.symm
  · exact (hexDigit_spec (b.toNat % 16) (by omega)).2.2.2.2 hb.symm

def buildidToString (buildid : Vector Byte buildidLen) : CString :=
  ⟨buildid.toList.flatMap hexByte, nul_notMem_hex _⟩

/-- `str_to_buildid`; `none` is `EINVAL`.  `val i` is what the uninitialised `val` holds in the `i`-th turn. -/
def strToBuildid (val : Nat → Nat) (str : CString) : Option (Vector Byte buildidLen) :=
  if str.1.length < buildidLen then none
  else some (Vector.ofFn (fun i => UInt8.ofNat (sscanfHex (str.1.drop (2 * i.val)) (val i.val))))

/-! ## Writing -/

variable (J : JsonC)

/-- `get_json_symbol`: the offset and the size are converted to `int`. -/
def getJsonSymbol (s : Symbol) : J.Obj :=
  let js := J.newObject
  let js := J.objectAdd js "name" (J.newString s.name)
  let js := J.objectAdd js "offset" (J.newInt (s.offset.setWidth 32))
  let js := J.objectAdd js "size" (J.newInt s.size)
  let js := J.objectAdd js "st_info" (J.newInt (BitVec.ofNat 32 s.stInfo.toNat))
  J.objectAdd js "st_other" (J.newInt (BitVec.ofNat 32 s.stOther.toNat))

def writeUlpSoInfoJson (info : UlpSoInfo) : J.Text :=
  let library := J.objectAdd J.newObject "name" (J.newString info.name)
  let library := J.objectAdd library "buildid" (J.newString (buildidToString info.buildid))
  let symbols := info.symbols.foldl (fun a s => J.arrayAdd a (getJsonSymbol J s)) J.newArray
  let library := J.objectAdd library "symbols" symbols
  J.toText (J.objectAdd J.newObject "library" library)

/-! ## Reading -/

/-- Why there is no result: `NULL` was returned, or `strdup` got a `NULL`. -/
inductive JsonStop where
  | null
  | crash
deriving DecidableEq

/-- `json_object_get_int` of a member; 0 when it is missing. -/
def getMemberInt (obj : J.Obj) (key : String) : BitVec 32 := ((J.objectGet obj key).map J.getInt).getD 0

/-- One turn of the loop of `parse_symbols_json`. -/
def parseSymbolJson (obj : J.Obj) : Except JsonStop Symbol :=
  match J.objectGet obj "name" with
  | none       => .error .crash
  | some jname => .ok
    { name    := J.getString jname
      offset  := (getMemberInt J obj "offset").signExtend 64
      size    := ((getMemberInt J obj "size").signExtend 64).setWidth 32
      stInfo  := UInt8.ofNat (getMemberInt J obj "st_info").toNat
      stOther := UInt8.ofNat (getMemberInt J obj "st_other").toNat }

def parseSymbolsJson (jsymbols : Option J.Obj) : Except JsonStop (List Symbol) :=
  match jsymbols.bind J.getArray with
  | none    => .ok []
  | some xs => xs.mapM (parseSymbolJson J)

/-- `parse_so_json` on the contents of the file. -/
def parseSoJson (val : Nat → Nat) (text : J.Text) : Except JsonStop UlpSoInfo := do
  let some root := J.fromText text | .error .null
  let some library := J.objectGet root "library" | .error .null
  let some name := J.objectGet library "name" | .error .null
  let some buildid := J.objectGet library "buildid" | .error .null
  let some id := strToBuildid val (J.getString buildid) | .error .null
  let symbols ← parseSymbolsJson J (J.objectGet library "symbols")
  return { name := J.getString name, buildid := id, symbols }

/-! ## Comparing -/

def symbolsEqual : List Symbol → List Symbol → Bool
  | a :: as, b :: bs =>
    if a.name ≠ b.name ∨ a.offset ≠ b.offset ∨ a.size ≠ b.size ∨ a.stInfo ≠ b.stInfo ∨ a.stOther ≠ b.stOther then false
    else symbolsEqual as bs
  | [], [] => true
  | _, _   => false

def soInfoEqual (a b : UlpSoInfo) : Bool :=
  if a.name ≠ b.name then false
  else if a.buildid ≠ b.buildid then false
  else symbolsEqual a.symbols b.symbols

/-! ## The round trip -/

theorem sscanfHex_hexByte (b : Byte) (t : List Byte) (val : Nat) : sscanfHex (hexByte b ++ t) val = b.toNat := by
  have hlt : b.toNat < 256 := UInt8.toNat_lt b
  obtain ⟨hv, hs, hp, hm, -⟩ := hexDigit_spec (b.toNat / 16) (by omega)
  obtain ⟨hv', -⟩ := hexDigit_spec (b.toNat % 16) (by omega)
  have hd : (hexByte b ++ t).dropWhile isspace = hexDigit (b.toNat / 16) :: (hexDigit (b.toNat % 16) :: t) := by
    simp [hexByte, hs]
  have hh : hexDigits 2 (hexDigit (b.toNat / 16) :: (hexDigit (b.toNat % 16) :: t)) none = some b.toNat := by
    simp only [hexDigits, hv, hv', Option.getD_none, Option.getD_some]
    congr 1
    omega
  unfold sscanfHex
  rw [hd]
  split
  · rename_i h
    exact absurd (List.cons.inj h).1 hp
  · rename_i h
    exact absurd (List.cons.inj h).1 hm
  · rw [hh, Option.getD_some]

theorem length_flatMap_hexByte (bs : List Byte) : (bs.flatMap hexByte).length = 2 * bs.length := by
  induction bs with
  | nil => rfl
  | cons b bs ih => rw [List.flatMap_cons, List.length_append, ih, List.length_cons]; simp [hexByte]; omega

theorem drop_flatMap_hexByte : ∀ (bs : List Byte) (i : Nat) (h : i < bs.length),
    ∃ t, (bs.flatMap hexByte).drop (2 * i) = hexByte bs[i] ++ t
  | [], _, h         => absurd h (by simp)
  | b :: bs, 0, _     => ⟨bs.flatMap hexByte, rfl⟩
  | b :: bs, i + 1, h => by
    obtain ⟨t, ht⟩ := drop_flatMap_hexByte bs i (by simpa using h)
    exact ⟨t, ht⟩

/-- **A build id is read back from its text.** -/
theorem strToBuildid_buildidToString (val : Nat → Nat) (id : Vector Byte buildidLen) :
    strToBuildid val (buildidToString id) = some id := by
  unfold strToBuildid buildidToString
  have hlen : ¬ (id.toList.flatMap hexByte).length < buildidLen := by
    rw [length_flatMap_hexByte, Vector.length_toList]
    decide
  rw [if_neg hlen, Option.some.injEq]
  ext i hi
  obtain ⟨t, ht⟩ := drop_flatMap_hexByte id.toList i (by simpa using hi)
  rw [Vector.getElem_ofFn]
  simp only [ht, sscanfHex_hexByte, UInt8.ofNat_toNat]
  simp

/-- What a symbol comes back as: its offset is cut to an `int`, and that is sign-extended. -/
def Symbol.cut (s : Symbol) : Symbol := { s with offset := (s.offset.setWidth 32).signExtend 64 }

theorem parseSymbolJson_getJsonSymbol (s : Symbol) : parseSymbolJson J (getJsonSymbol J s) = .ok s.cut := by
  have hs : (s.size.signExtend 64).setWidth 32 = s.size := by
    ext i hi
    rw [BitVec.getElem_setWidth, BitVec.getLsbD_signExtend]
    simp [hi, Nat.lt_trans hi (by decide : 32 < 64)]
  -- each member is added to an object
  have h₁ := J.isObject_add _ "name" (J.newString s.name) J.isObject_new
  have h₂ := J.isObject_add _ "offset" (J.newInt (s.offset.setWidth 32)) h₁
  have h₃ := J.isObject_add _ "size" (J.newInt s.size) h₂
  have h₄ := J.isObject_add _ "st_info" (J.newInt (BitVec.ofNat 32 s.stInfo.toNat)) h₃
  simp [parseSymbolJson, getJsonSymbol, getMemberInt, J.objectGet_add, h₁, h₂, h₃, h₄, J.isObject_new, J.getInt_new,
    J.getString_new, hs, Symbol.cut]

theorem getArray_foldl (ss : List Symbol) : ∀ (a : J.Obj) (xs : List J.Obj), J.getArray a = some xs →
    J.getArray (ss.foldl (fun a s => J.arrayAdd a (getJsonSymbol J s)) a) = some (xs ++ ss.map (getJsonSymbol J)) := by
  induction ss with
  | nil => intro a xs h; simpa using h
  | cons s ss ih =>
    intro a xs h
    rw [List.foldl_cons, ih _ _ (J.getArray_add a xs _ h), List.map_cons, List.append_assoc]
    rfl

theorem mapM_parseSymbolJson (ss : List Symbol) :
    (ss.map (getJsonSymbol J)).mapM (parseSymbolJson J) = .ok (ss.map Symbol.cut) := by
  induction ss with
  | nil => rfl
  | cons s ss ih =>
    rw [List.map_cons, List.mapM_cons, parseSymbolJson_getJsonSymbol, ih]
    rfl

/-- **What is read back from the file.** -/
theorem parseSoJson_write (val : Nat → Nat) (info : UlpSoInfo) :
    parseSoJson J val (writeUlpSoInfoJson J info) = .ok { info with symbols := info.symbols.map Symbol.cut } := by
  have hsym : parseSymbolsJson J (some (info.symbols.foldl (fun a s => J.arrayAdd a (getJsonSymbol J s)) J.newArray)) =
      .ok (info.symbols.map Symbol.cut) := by
    unfold parseSymbolsJson
    rw [Option.bind_some, getArray_foldl J _ _ _ J.getArray_new, List.nil_append]
    exact mapM_parseSymbolJson J info.symbols
  have h₁ := J.isObject_add _ "name" (J.newString info.name) J.isObject_new
  have h₂ := J.isObject_add _ "buildid" (J.newString (buildidToString info.buildid)) h₁
  simp [parseSoJson, writeUlpSoInfoJson, J.fromText_toText, J.objectGet_add, h₁, h₂, J.isObject_new, J.getString_new,
    strToBuildid_buildidToString, hsym]

theorem symbolsEqual_iff : ∀ as bs : List Symbol, symbolsEqual as bs = true ↔ as = bs
  | [], []           => by simp [symbolsEqual]
  | [], b :: bs      => by simp [symbolsEqual]
  | a :: as, []      => by simp [symbolsEqual]
  | a :: as, b :: bs => by
    have hab : a = b ↔ a.name = b.name ∧ a.offset = b.offset ∧ a.size = b.size ∧ a.stInfo = b.stInfo ∧
        a.stOther = b.stOther := by
      cases a; cases b; simp
    rw [symbolsEqual, List.cons.injEq, hab, ← symbolsEqual_iff as bs]
    simp only [← not_and_or, ne_eq]
    by_cases h : a.name = b.name ∧ a.offset = b.offset ∧ a.size = b.size ∧ a.stInfo = b.stInfo ∧ a.stOther = b.stOther
    · rw [if_neg (not_not_intro h), and_iff_right h]
    · rw [if_pos h]
      simp [h]

theorem soInfoEqual_iff (a b : UlpSoInfo) :
    soInfoEqual a b = true ↔ a.name = b.name ∧ a.buildid = b.buildid ∧ a.symbols = b.symbols := by
  unfold soInfoEqual
  split
  · rename_i h
    simp [h]
  · rename_i h
    split
    · rename_i h'
      simp [h']
    · rename_i h'
      rw [symbolsEqual_iff]
      simp [not_not.1 h, not_not.1 h']

/-- An address that survives the way through an `int`. -/
theorem signExtend_setWidth_iff (o : Addr) :
    (o.setWidth 32).signExtend 64 = o ↔ o.toNat < 2 ^ 31 ∨ 2 ^ 64 - 2 ^ 31 ≤ o.toNat := by
  have ho : o.toNat < 2 ^ 64 := o.isLt
  rw [← BitVec.toNat_inj, BitVec.toNat_signExtend, BitVec.msb_eq_decide]
  simp only [BitVec.toNat_setWidth]
  split
  · rename_i h
    simp at h
    omega
  · rename_i h
    simp at h
    omega

/-- Written to a file and read back, library information equals what it was. -/
def RoundTrips (val : Nat → Nat) (info : UlpSoInfo) : Prop :=
  ∃ info', parseSoJson J val (writeUlpSoInfoJson J info) = .ok info' ∧ soInfoEqual info info' = true

theorem Symbol.cut_eq_iff (s : Symbol) : s.cut = s ↔ (s.offset.setWidth 32).signExtend 64 = s.offset := by
  cases s
  simp [Symbol.cut]

/-- **Exactly when library information survives the file**: every offset is that of some `int`. -/
theorem roundTrips_iff (val : Nat → Nat) (info : UlpSoInfo) :
    RoundTrips J val info ↔ ∀ s ∈ info.symbols, s.offset.toNat < 2 ^ 31 ∨ 2 ^ 64 - 2 ^ 31 ≤ s.offset.toNat := by
  have hmap : info.symbols = info.symbols.map Symbol.cut ↔ ∀ s ∈ info.symbols, s.cut = s := by
    have := List.map_inj_left (l := info.symbols) (f := Symbol.cut) (g := id)
    rwa [List.map_id, eq_comm] at this
  unfold RoundTrips
  rw [parseSoJson_write]
  constructor
  · rintro ⟨info', h, heq⟩ s hs
    cases h
    obtain ⟨-, -, hsym⟩ := (soInfoEqual_iff _ _).1 heq
    exact (signExtend_setWidth_iff _).1 ((Symbol.cut_eq_iff s).1 (hmap.1 hsym s hs))
  · intro h
    refine ⟨_, rfl, (soInfoEqual_iff _ _).2 ⟨rfl, rfl, hmap.2 (fun s hs => ?_)⟩⟩
    exact (Symbol.cut_eq_iff s).2 ((signExtend_setWidth_iff _).2 (h s hs))

/-- JSON values as trees, newest member first. -/
inductive Json where
  | str (s : CString)
  | int (n : BitVec 32)
  | arr (xs : List Json)
  | obj (members : List (String × Json))

/-- json-c over these trees; the file holds the tree. -/
def jsonTree : JsonC where
  Obj := Json
  Text := Json
  newString := .str
  newInt := .int
  newObject := .obj []
  objectAdd o k v := match o with | .obj ms => .obj ((k, v) :: ms) | o => o
  newArray := .arr []
  arrayAdd a v := match a with | .arr xs => .arr (xs ++ [v]) | a => a
  toText := id
  fromText := some
  objectGet o k := match o with | .obj ms => ms.lookup k | _ => none
  getString o := match o with | .str s => s | _ => ⟨[], by simp⟩
  getInt o := match o with | .int n => n | _ => 0
  getArray o := match o with | .arr xs => some xs | _ => none
  getString_new _ := rfl
  getInt_new _ := rfl
  IsObject o := ∃ ms, o = .obj ms
  isObject_new := ⟨[], rfl⟩
  isObject_add := by rintro _ k v ⟨ms, rfl⟩; exact ⟨_, rfl⟩
  objectGet_add := by
    rintro _ k v k' ⟨ms, rfl⟩
    by_cases h : k = k'
    · simp [h]
    · simp [List.lookup_cons, h, beq_eq_false_iff_ne.2 (Ne.symm h)]
  getArray_new := rfl
  getArray_add := by
    intro a xs v h
    cases a <;> simp_all
  fromText_toText _ := rfl

/-- A library whose one symbol lies at `2^31`: it comes back at `2^64 - 2^31`. -/
def highSymbol : UlpSoInfo :=
  { name := ⟨[97], by decide⟩, buildid := Vector.replicate 20 0, symbols := [⟨⟨[102], by decide⟩, 0x80000000, 4, 18, 0⟩] }

theorem offset_cut : ¬ RoundTrips jsonTree (fun _ => 0) highSymbol := by
  rintro ⟨info', h, heq⟩
  rw [parseSoJson_write] at h
  cases h
  exact absurd heq (by decide)

end Libpulp
