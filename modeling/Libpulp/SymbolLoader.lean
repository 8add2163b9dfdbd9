import Libpulp.BuildId
import Libpulp.InsnQueue
/-!
# SymbolLoader — the library's lookups in the loaded objects (lib/symbol_loader.c, tools/introspection.c)

The tool takes the object whose basename is the target's and whose build id is the metadata's.  The library has
`dl_iterate_phdr` walk the objects in load order and stops at the first whose path contains the name anywhere; its two
callbacks differ in what else they ask of the object.
-/
namespace Libpulp

open Bytes (Byte Addr Mem ofLE)

/-- The entries of a dynamic section that `dl_find_symbol` looks at. -/
inductive ElfDyn where
  | symtab (ptr : Addr)
  | strtab (ptr : Addr)
  | syment (val : BitVec 64)
  | hash (ptr : Addr)
  | other
deriving DecidableEq

/-- A loaded object: `dynamic` are the entries of its `PT_DYNAMIC` segments, each up to `DT_NULL`, `buildId` is what the
tool read from its notes. -/
structure LoadedObject extends DlPhdrInfo where
  dlpiTlsModid : Nat
  dynamic      : List ElfDyn
  buildId      : List Byte
deriving DecidableEq

/-- The part of `check_patch_sanity` (tools) about one object. -/
def LoadedObject.isTarget (target buildId : List Byte) (d : LoadedObject) : Bool :=
  getBasename d.dlpiName == target && d.buildId == buildId

/-! ## Symbols -/

structure ElfSym where
  stValue : Addr
  stSize  : BitVec 64

def sizeofElf64Sym : Nat := 24

/-- `get_symbol_by_name`. -/
def getSymbolByName (mem : Mem) (dynsym dynstr : Addr) (len : Int) (name : List Byte) : Option ElfSym :=
  (List.range len.toNat).findSome? (fun i =>
    let sym := dynsym + BitVec.ofNat 64 (sizeofElf64Sym * i)
    let stName := BitVec.ofNat 64 (readWord mem sym)
    if mem.read (dynstr + stName) (name.length + 1) = name ++ [0] then
      some ⟨BitVec.ofNat 64 (ofLE (mem.read (sym + 8) 8)), BitVec.ofNat 64 (ofLE (mem.read (sym + 16) 8))⟩
    else none)

structure DynTables where
  dynsym     : Addr
  dynstr     : Addr
  numSymbols : Int

/-- The switch on an entry of the dynamic section; `none` if the size of a symbol entry is not the expected one. -/
def dynEntry (mem : Mem) (t : DynTables) : ElfDyn → Option DynTables
  | .symtab ptr => some { t with dynsym := ptr }
  | .strtab ptr => some { t with dynstr := ptr }
  | .syment val => if val.toNat ≠ sizeofElf64Sym then none else some t
  | .hash ptr   => some { t with numSymbols := int32 (readWord mem (ptr + 4)) }
  | .other      => some t

/-- The loop over the dynamic section. -/
def readDynamic (mem : Mem) (dynamic : List ElfDyn) (t : DynTables) : Option DynTables := dynamic.foldlM (dynEntry mem) t

/-- The symbol and the string table of an object, if it has both. -/
def LoadedObject.tables (mem : Mem) (info : LoadedObject) : Option DynTables :=
  (readDynamic mem info.dynamic ⟨0, 0, 0⟩).filter (fun t => t.dynstr ≠ 0 && t.dynsym ≠ 0)

/-! ## The callbacks -/

structure DlIterateArg where
  library    : List Byte
  symbol     : List Byte
  symbolAddr : Addr
  symbolSize : BitVec 64
  biasAddr   : Addr
  tlsIndex   : Int

def sizeofDlPhdrInfo : Nat := 64

/-- `linux-vdso.so.1` -/
def linuxVdso : List Byte := [108, 105, 110, 117, 120, 45, 118, 100, 115, 111, 46, 115, 111, 46, 49]

def strstr (haystack needle : List Byte) : Bool := haystack.tails.any (needle.isPrefixOf ·)

def dlFindSymbol (mem : Mem) (size : Nat) (info : LoadedObject) (args : DlIterateArg) : Bool × DlIterateArg :=
  if size ≠ sizeofDlPhdrInfo then (false, args)
  else
    let args := { args with symbolAddr := 0, symbolSize := 0, tlsIndex := -1 }
    if !strstr info.dlpiName args.library then (false, args)
    else if info.dlpiName = linuxVdso then (false, args)
    else
      match info.tables mem with
      | none   => (false, args)
      | some t =>
        match getSymbolByName mem t.dynsym t.dynstr t.numSymbols args.symbol with
        | none     => (true, { args with tlsIndex := int32 info.dlpiTlsModid, biasAddr := info.dlpiAddr })
        | some sym => (true, { args with tlsIndex := int32 info.dlpiTlsModid, biasAddr := info.dlpiAddr,
                                         symbolAddr := sym.stValue, symbolSize := sym.stSize })

def dlFindBaseAddr (size : Nat) (info : LoadedObject) (args : DlIterateArg) : Bool × DlIterateArg :=
  let args := { args with biasAddr := 0xFF, tlsIndex := -1 }
  if size ≠ sizeofDlPhdrInfo then (false, args)
  else if info.dlpiName = linuxVdso then (false, args)
  else if !strstr info.dlpiName args.library then (false, args)
  else (true, { args with biasAddr := info.dlpiAddr, tlsIndex := int32 info.dlpiTlsModid })

/-- `dl_iterate_phdr`: the position of the object at which the callback asked to stop, and the data it leaves. -/
def dlIteratePhdr (callback : LoadedObject → DlIterateArg → Bool × DlIterateArg) :
    List LoadedObject → DlIterateArg → Option Nat × DlIterateArg
  | [], args      => (none, args)
  | o :: os, args =>
    if (callback o args).1 then (some 0, (callback o args).2)
    else
      let r := dlIteratePhdr callback os (callback o args).2
      (r.1.map (· + 1), r.2)

/-! ## The lookups -/

/-- A process as the lookups see it: `size` is what its loader passes for the size of `dl_phdr_info`. -/
structure Loaded where
  mem      : Mem
  size     : Nat
  progname : List Byte
  objects  : List LoadedObject

namespace Loaded

/-- The argument all lookups start with; the program itself is the empty name. -/
def iterateArg (l : Loaded) (library symbol : List Byte) : DlIterateArg :=
  ⟨if library = l.progname then [] else library, symbol, 0, 0, 0, 0⟩

def findBaseAddr (l : Loaded) (library : List Byte) : Option Nat × DlIterateArg :=
  dlIteratePhdr (dlFindBaseAddr l.size) l.objects (l.iterateArg library [])

def getLoadedLibraryBaseAddr (l : Loaded) (library : List Byte) : Addr := (l.findBaseAddr library).2.biasAddr

def getLoadedLibraryTlsIndex (l : Loaded) (library : List Byte) : Int := (l.findBaseAddr library).2.tlsIndex

def findSymbol (l : Loaded) (library symbol : List Byte) : Option Nat × DlIterateArg :=
  dlIteratePhdr (dlFindSymbol l.mem l.size) l.objects (l.iterateArg library symbol)

def getLoadedSymbolAddr (l : Loaded) (library symbol : List Byte) (oldFaddr : Addr) : Addr :=
  let arg := (l.findSymbol library symbol).2
  if oldFaddr ≠ 0 ∧ arg.symbolAddr ≠ oldFaddr then arg.biasAddr + oldFaddr
  else if arg.symbolAddr = 0 then 0
  else arg.biasAddr + arg.symbolAddr

end Loaded

/-- **All lookups of `library` select the object `x` at position `k`**: they stop there, and answer as if there were no
other object. -/
structure Selects (l : Loaded) (library : List Byte) (k : Nat) (x : LoadedObject) : Prop where
  base   : (l.findBaseAddr library).1 = some k
  addr   : l.getLoadedLibraryBaseAddr library = x.dlpiAddr
  tls    : l.getLoadedLibraryTlsIndex library = int32 x.dlpiTlsModid
  symbol : ∀ symbol, (l.findSymbol library symbol).1 = some k
  value  : ∀ symbol oldFaddr, l.getLoadedSymbolAddr library symbol oldFaddr =
    { l with objects := [x] }.getLoadedSymbolAddr library symbol oldFaddr

/-! ## Where an iteration stops -/

/-- A callback that only looks at the object and the library to decide whether it stops. -/
structure StopRule (callback : LoadedObject → DlIterateArg → Bool × DlIterateArg) (library : List Byte)
    (stop : LoadedObject → Bool) : Prop where
  stops   : ∀ o args, args.library = library → (callback o args).1 = stop o
  library : ∀ o args, (callback o args).2.library = args.library
  symbol  : ∀ o args, (callback o args).2.symbol = args.symbol

variable {callback : LoadedObject → DlIterateArg → Bool × DlIterateArg} {library : List Byte}
  {stop : LoadedObject → Bool}

theorem StopRule.position (h : StopRule callback library stop) (x : LoadedObject) (post : List LoadedObject) :
    ∀ (pre : List LoadedObject) (args : DlIterateArg), args.library = library →
      ((dlIteratePhdr callback (pre ++ x :: post) args).1 = some pre.length ↔
        stop x = true ∧ ∀ o ∈ pre, stop o = false)
  | [], args, hargs       => by
    rw [List.nil_append, dlIteratePhdr, h.stops x args hargs]
    cases hx : stop x with
    | false => simp
    | true => simp
  | o :: pre, args, hargs => by
    rw [List.cons_append, dlIteratePhdr, h.stops o args hargs]
    cases ho : stop o with
    | true => simp [ho]
    | false =>
      have ih := h.position x post pre (callback o args).2 ((h.library o args).trans hargs)
      simp [ho, ih]

/-- The data left is what the callback made of the object it stopped at. -/
theorem StopRule.data (h : StopRule callback library stop) {x : LoadedObject} (hx : stop x = true)
    (post : List LoadedObject) : ∀ (pre : List LoadedObject) (args : DlIterateArg), args.library = library →
      (∀ o ∈ pre, stop o = false) →
      ∃ args', args'.library = library ∧ args'.symbol = args.symbol ∧
        (dlIteratePhdr callback (pre ++ x :: post) args).2 = (callback x args').2
  | [], args, hargs, _         => by
    refine ⟨args, hargs, rfl, ?_⟩
    rw [List.nil_append, dlIteratePhdr, h.stops x args hargs, if_pos hx]
  | o :: pre, args, hargs, hpre => by
    obtain ⟨args', h₁, h₂, h₃⟩ := h.data hx post pre (callback o args).2 ((h.library o args).trans hargs)
      (fun o' ho' => hpre o' (List.mem_cons_of_mem _ ho'))
    refine ⟨args', h₁, h₂.trans (h.symbol o args), ?_⟩
    have ho : ¬ stop o = true := by simp [hpre o List.mem_cons_self]
    rw [List.cons_append, dlIteratePhdr, h.stops o args hargs, if_neg ho]
    exact h₃

/-! ## The two callbacks -/

/-- `dl_find_base_addr` stops at `o`. -/
def stopsBase (size : Nat) (library : List Byte) (o : LoadedObject) : Bool :=
  size == sizeofDlPhdrInfo && (o.dlpiName != linuxVdso && strstr o.dlpiName library)

/-- `dl_find_symbol` stops at `o`: it also asks for a symbol table. -/
def stopsSymbol (mem : Mem) (size : Nat) (library : List Byte) (o : LoadedObject) : Bool :=
  stopsBase size library o && (o.tables mem).isSome

theorem dlFindBaseAddr_stopRule (size : Nat) (library : List Byte) :
    StopRule (dlFindBaseAddr size) library (stopsBase size library) := by
  refine ⟨fun o args h => ?_, fun o args => ?_, fun o args => ?_⟩
  · unfold dlFindBaseAddr stopsBase
    simp only [h]
    split
    · simp_all
    split
    · simp_all
    split
    · simp_all
    · simp_all
  · unfold dlFindBaseAddr
    simp only
    split_ifs <;> rfl
  · unfold dlFindBaseAddr
    simp only
    split_ifs <;> rfl

theorem dlFindSymbol_stopRule (mem : Mem) (size : Nat) (library : List Byte) :
    StopRule (dlFindSymbol mem size) library (stopsSymbol mem size library) := by
  refine ⟨fun o args h => ?_, fun o args => ?_, fun o args => ?_⟩
  · unfold dlFindSymbol stopsSymbol stopsBase
    simp only [h]
    split
    · simp_all
    split
    · simp_all
    split
    · simp_all
    cases o.tables mem with
    | none => simp
    | some t =>
      simp only
      split <;> simp_all
  · unfold dlFindSymbol
    simp only
    split_ifs
    · rfl
    · rfl
    · rfl
    split
    · rfl
    · split <;> rfl
  · unfold dlFindSymbol
    simp only
    split_ifs
    · rfl
    · rfl
    · rfl
    split
    · rfl
    · split <;> rfl

theorem dlFindBaseAddr_data {size : Nat} {library : List Byte} {x : LoadedObject} (h : stopsBase size library x = true)
    {args : DlIterateArg} (hargs : args.library = library) :
    (dlFindBaseAddr size x args).2.biasAddr = x.dlpiAddr ∧
      (dlFindBaseAddr size x args).2.tlsIndex = int32 x.dlpiTlsModid := by
  simp only [stopsBase, Bool.and_eq_true, beq_iff_eq, bne_iff_ne] at h
  obtain ⟨h₁, h₂, h₃⟩ := h
  simp [dlFindBaseAddr, h₁, h₂, hargs, h₃]

/-- What `dl_find_symbol` leaves when it stops depends on the object, the library and the symbol only. -/
theorem dlFindSymbol_data {mem : Mem} {size : Nat} {library : List Byte} {x : LoadedObject}
    (h : stopsSymbol mem size library x = true) {args args' : DlIterateArg} (h₁ : args.library = library)
    (h₂ : args'.library = library) (h₃ : args'.symbol = args.symbol) :
    (dlFindSymbol mem size x args').2 = (dlFindSymbol mem size x args).2 := by
  simp only [stopsSymbol, stopsBase, Bool.and_eq_true, beq_iff_eq, bne_iff_ne, Option.isSome_iff_exists] at h
  obtain ⟨⟨e₁, e₂, e₃⟩, t, ht⟩ := h
  simp only [dlFindSymbol, e₁, e₂, h₁, h₂, h₃, e₃, ht, ne_eq, not_true_eq_false, if_false, Bool.not_true,
    Bool.false_eq_true]

theorem strstr_basename (path : List Byte) : strstr path (getBasename path) = true := by
  have hsuf : getBasename path <:+ path := by
    unfold getBasename
    have := List.reverse_suffix.2 (List.takeWhile_prefix (· != (47 : Byte)) (l := path.reverse))
    rwa [List.reverse_reverse] at this
  exact List.any_eq_true.2 ⟨getBasename path, (List.mem_tails _ _).2 hsuf, by simp⟩

/-! ## The tool's target and the library's -/

/-- The object `x` at position `k` is the one object the tool takes for the target. -/
structure OnlyTarget (l : Loaded) (target buildId : List Byte) (k : Nat) (x : LoadedObject) : Prop where
  found    : l.objects[k]? = some x
  isTarget : x.isTarget target buildId = true
  only     : ∀ j o, l.objects[j]? = some o → o.isTarget target buildId = true → j = k

theorem OnlyTarget.split {l : Loaded} {target buildId : List Byte} {k : Nat} {x : LoadedObject}
    (h : OnlyTarget l target buildId k x) :
    l.objects = l.objects.take k ++ x :: l.objects.drop (k + 1) ∧ (l.objects.take k).length = k := by
  obtain ⟨hk, hget⟩ := List.getElem?_eq_some_iff.1 h.found
  refine ⟨?_, List.length_take_of_le (Nat.le_of_lt hk)⟩
  rw [← hget, List.cons_getElem_drop_succ, List.take_append_drop]

theorem OnlyTarget.contains {l : Loaded} {target buildId : List Byte} {k : Nat} {x : LoadedObject}
    (h : OnlyTarget l target buildId k x) : strstr x.dlpiName target = true := by
  have ht := h.isTarget
  simp only [LoadedObject.isTarget, Bool.and_eq_true, beq_iff_eq] at ht
  rw [← ht.1]
  exact strstr_basename x.dlpiName

theorem stopsBase_eq_false {size : Nat} (hsize : size = sizeofDlPhdrInfo) {library : List Byte} {o : LoadedObject} :
    stopsBase size library o = false ↔ o.dlpiName = linuxVdso ∨ strstr o.dlpiName library = false := by
  simp only [stopsBase, hsize, beq_self_eq_true, Bool.true_and, Bool.and_eq_false_iff, bne_eq_false_iff_eq]

/-- **The tool and the library agree on the target object** exactly when the loader is the one libpulp was built for, the
object is not the vDSO and has symbol and string tables, and no object loaded before it, the vDSO apart, has a path that
contains the target's name. -/
theorem lookups_agree_iff {l : Loaded} {target buildId : List Byte} {k : Nat} {x : LoadedObject}
    (h : OnlyTarget l target buildId k x) (hprog : target ≠ l.progname) :
    Selects l target k x ↔ l.size = sizeofDlPhdrInfo ∧ x.dlpiName ≠ linuxVdso ∧ (x.tables l.mem).isSome ∧
      ∀ o ∈ l.objects.take k, o.dlpiName = linuxVdso ∨ strstr o.dlpiName target = false := by
  obtain ⟨hsplit, hlen⟩ := h.split
  have hlib : ∀ symbol, (l.iterateArg target symbol).library = target := fun _ => if_neg hprog
  have hbase := (dlFindBaseAddr_stopRule l.size target).position x (l.objects.drop (k + 1)) (l.objects.take k) _ (hlib [])
  have hsym := fun symbol => (dlFindSymbol_stopRule l.mem l.size target).position x (l.objects.drop (k + 1))
    (l.objects.take k) _ (hlib symbol)
  rw [← hsplit, hlen] at hbase
  simp only [← hsplit, hlen] at hsym
  constructor
  · intro hs
    obtain ⟨hx, hpre⟩ := hbase.1 hs.base
    have htab := (hsym []).1 (hs.symbol [])
    have hsize : l.size = sizeofDlPhdrInfo := by
      simp only [stopsBase, Bool.and_eq_true, beq_iff_eq] at hx
      exact hx.1
    refine ⟨hsize, ?_, ?_, fun o ho => (stopsBase_eq_false hsize).1 (hpre o ho)⟩
    · simp only [stopsBase, Bool.and_eq_true, bne_iff_ne] at hx
      exact hx.2.1
    · simp only [stopsSymbol, Bool.and_eq_true] at htab
      exact htab.1.2
  · rintro ⟨hsize, hvdso, htab, hpre⟩
    have hx : stopsBase l.size target x = true := by
      simp [stopsBase, hsize, hvdso, h.contains]
    have hxs : stopsSymbol l.mem l.size target x = true := by
      simp [stopsSymbol, hx, htab]
    have hno : ∀ o ∈ l.objects.take k, stopsBase l.size target o = false :=
      fun o ho => (stopsBase_eq_false hsize).2 (hpre o ho)
    have hnos : ∀ o ∈ l.objects.take k, stopsSymbol l.mem l.size target o = false :=
      fun o ho => by simp [stopsSymbol, hno o ho]
    obtain ⟨args, ha, -, hdata⟩ := (dlFindBaseAddr_stopRule l.size target).data hx (l.objects.drop (k + 1))
      (l.objects.take k) _ (hlib []) hno
    rw [← hsplit] at hdata
    obtain ⟨haddr, htls⟩ := dlFindBaseAddr_data hx ha
    refine ⟨hbase.2 ⟨hx, hno⟩, ?_, ?_, fun symbol => (hsym symbol).2 ⟨hxs, hnos⟩, fun symbol oldFaddr => ?_⟩
    · exact (congrArg DlIterateArg.biasAddr hdata).trans haddr
    · exact (congrArg DlIterateArg.tlsIndex hdata).trans htls
    · obtain ⟨args, ha, hs, hdata⟩ := (dlFindSymbol_stopRule l.mem l.size target).data hxs (l.objects.drop (k + 1))
        (l.objects.take k) _ (hlib symbol) hnos
      obtain ⟨args', ha', hs', hdata'⟩ := (dlFindSymbol_stopRule l.mem l.size target).data hxs [] [] _ (hlib symbol)
        (by simp)
      rw [← hsplit, dlFindSymbol_data hxs ha' ha (hs.trans hs'.symm)] at hdata
      have hsame : (l.findSymbol target symbol).2 = ({ l with objects := [x] }.findSymbol target symbol).2 :=
        hdata.trans hdata'.symm
      unfold Loaded.getLoadedSymbolAddr
      rw [hsame]

/-- An object at `path`, with symbol and string tables. -/
def demoObject (path : List Byte) (addr : Addr) (buildId : Byte) : LoadedObject :=
  { dlpiAddr := addr, dlpiName := path, dlpiPhdr := [], dlpiTlsModid := 1
    dynamic := [.hash 0x10, .strtab 0x20, .symtab 0x30, .syment 24], buildId := List.replicate 20 buildId }

/-- `f.so` in the root directory. -/
def demoTarget : LoadedObject := demoObject [47, 102, 46, 115, 111] 0x2000 1

/-- `f.so.2`, another library. -/
def demoOther : LoadedObject := demoObject [47, 102, 46, 115, 111, 46, 50] 0x3000 2

/-- The program and two libraries. -/
def twoLibraries (o o' : LoadedObject) : Loaded :=
  { mem := fun _ => 0, size := 64, progname := [112], objects := [demoObject [] 0 3, o, o'] }

theorem twoLibraries_only {o o' x : LoadedObject} {k : Nat} (target buildId : List Byte)
    (hk : (twoLibraries o o').objects[k]? = some x) (hx : x.isTarget target buildId = true)
    (h : ∀ j < 3, ∀ y, (twoLibraries o o').objects[j]? = some y → y.isTarget target buildId = true → j = k) :
    OnlyTarget (twoLibraries o o') target buildId k x :=
  ⟨hk, hx, fun j y hj => h j (List.getElem?_eq_some_iff.1 hj).1 y hj⟩

theorem lookups_agree_first : Selects (twoLibraries demoTarget demoOther) [102, 46, 115, 111] 1 demoTarget :=
  (lookups_agree_iff (twoLibraries_only _ (List.replicate 20 1) rfl (by decide) (by decide)) (by decide)).2 (by decide)

/-- **The library takes another object**: `f.so.2` is loaded first, and its path contains `f.so`. -/
theorem lookups_disagree : OnlyTarget (twoLibraries demoOther demoTarget) [102, 46, 115, 111] (List.replicate 20 1) 2
      demoTarget ∧ [102, 46, 115, 111] ≠ (twoLibraries demoOther demoTarget).progname ∧
    (twoLibraries demoOther demoTarget).getLoadedLibraryBaseAddr [102, 46, 115, 111] = demoOther.dlpiAddr ∧
    ¬ Selects (twoLibraries demoOther demoTarget) [102, 46, 115, 111] 2 demoTarget :=
  ⟨twoLibraries_only _ _ rfl (by decide) (by decide), by decide, by decide, fun h => absurd h.base (by decide)⟩

end Libpulp
