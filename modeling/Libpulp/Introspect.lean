import Libpulp.Listing
import Libpulp.Notes
import Libpulp.SymbolLoader
/-!
# Introspect — the loaded objects as the tool finds them (tools/introspection.c: `initialize_data_structures`)

From the auxiliary vector the tool gets at the program headers, from these at the dynamic section, there at the debugger
interface of the loader and through it at the chain of link maps, which it follows to the end.  It puts each library in
front of those before, so that it has them in the opposite order of the loader's.  What `parse_dynobj_elf_headers` and
`get_libpulp_extern_symbols` find in an object is a parameter here; `Notes` and `ExternSymbols` are about them.
-/
namespace Libpulp
namespace Introspect

open Bytes (Byte Addr Mem Buf cstr toLE ofLE addrOfLE)
open Fuel (Returns Settles)
open Notes (ENOPHDR sizeofPhdr)
open Listing (StringAt readMemory_whole read_field)
open ReadState (pointerAt readMemory_steady)

def ENODEBUGTAG : UlpError := 259
def ENOPENTRY : UlpError := 262
def ENOLIBPULP : UlpError := 263

/-- `struct link_map`, without the dynamic section and the link back. -/
structure LinkMap where
  lAddr : Addr
  lName : Addr
  lNext : Addr
deriving DecidableEq

def sizeofLinkMap : Nat := 40

def linkMapOf (buf : Buf) : LinkMap := ⟨pointerAt buf 0, pointerAt buf 8, pointerAt buf 24⟩

structure UlpDynobj where
  filename : List Byte
  linkMap  : LinkMap
deriving DecidableEq

/-! ## The load bias -/

/-- `/proc/<pid>/auxv`: its entries, and `errno` where they end without `AT_NULL`. -/
structure Auxv where
  entries : List (BitVec 64 × BitVec 64)
  errno   : Int

/-- What `dig_load_bias` takes from it. -/
structure Aux where
  addrofEntry : Addr
  atPhdr      : Addr
  phnum       : BitVec 32
  phent       : BitVec 32

def Aux.zero : Aux := ⟨0, 0, 0, 0⟩

def Aux.set (a : Aux) (aType aVal : BitVec 64) : Aux :=
  if aType = 9 then { a with addrofEntry := aVal }
  else if aType = 3 then { a with atPhdr := aVal }
  else if aType = 5 then { a with phnum := aVal.setWidth 32 }
  else if aType = 4 then { a with phent := aVal.setWidth 32 }
  else a

def readAuxv : List (BitVec 64 × BitVec 64) → Aux → Option Aux
  | [], _                     => none
  | (aType, aVal) :: rest, a => if aType = 0 then some (a.set aType aVal) else readAuxv rest (a.set aType aVal)

/-- The loop over the program headers from number `i` on: `pt_phdr` and `adyn`. -/
def phdrLoop (t : ReadState.Target) (atPhdr : Addr) (fuel : Nat) :
    Nat → Nat → Addr × Addr → Option (Except UlpError (Addr × Addr))
  | 0, _, acc                  => some (.ok acc)
  | n + 1, i, (ptPhdr, adyn) =>
    (t.readMemory sizeofPhdr (atPhdr + BitVec.ofNat 64 (i * sizeofPhdr)) t.fresh fuel).bind (fun (ret, phdr) =>
      if ret ≠ 0 then some (.error ETARGETHOOK)
      else if ofLE (phdr.read 0 4) = 6 then phdrLoop t atPhdr fuel n (i + 1) (pointerAt phdr 16, adyn)
      else if ofLE (phdr.read 0 4) = 2 then phdrLoop t atPhdr fuel n (i + 1) (ptPhdr, pointerAt phdr 16)
      else phdrLoop t atPhdr fuel n (i + 1) (ptPhdr, adyn))

/-- `dig_load_bias`: the code, the load bias and the address of the dynamic section, which stay 0 when it fails. -/
def digLoadBias (t : ReadState.Target) (auxv : Auxv) (fuel : Nat) : Option (UlpError × Addr × Addr) :=
  match readAuxv auxv.entries .zero with
  | none   => some (auxv.errno, 0, 0)
  | some a =>
    if a.addrofEntry = 0 then some (ENOPENTRY, 0, 0)
    else if a.atPhdr = 0 then some (ENOPHDR, 0, 0)
    else if a.phent.toInt ≠ sizeofPhdr then some (ENOPHDR, 0, 0)
    else
      (phdrLoop t a.atPhdr fuel a.phnum.toInt.toNat 0 (0, 0)).map (fun
        | .error e           => (e, 0, 0)
        | .ok (ptPhdr, adyn) =>
          if ptPhdr ≠ 0 then (ENONE, a.atPhdr - ptPhdr, adyn + (a.atPhdr - ptPhdr)) else (ENONE, 0, adyn))

/-! ## The link map -/

def sizeofDyn : Nat := 16

/-- The loop of `dig_main_link_map`: the value of the `DT_DEBUG` entry. -/
def digRDebug (t : ReadState.Target) : Nat → Addr → Option (Except UlpError Addr)
  | 0, _              => none
  | fuel + 1, dynAddr =>
    (t.readMemory sizeofDyn dynAddr t.fresh fuel).bind (fun (ret, dyn) =>
      if ret ≠ 0 then some (.error ETARGETHOOK)
      else if pointerAt dyn 0 = 0 then some (.error ENODEBUGTAG)
      else if pointerAt dyn 0 = 21 then some (.ok (pointerAt dyn 8))
      else digRDebug t fuel (dynAddr + BitVec.ofNat 64 sizeofDyn))

/-- The rest of `dig_main_link_map`. -/
def digLinkMap (t : ReadState.Target) (rDebug : Addr) (fuel : Nat) : Option (Except UlpError LinkMap) :=
  (t.readMemory 8 (rDebug + 8) t.fresh fuel).bind (fun (ret, rMap) =>
    if ret ≠ 0 then some (.error ETARGETHOOK)
    else
      (t.readMemory sizeofLinkMap (pointerAt rMap 0) t.fresh fuel).map (fun (ret, linkMap) =>
        if ret ≠ 0 then .error ETARGETHOOK else .ok (linkMapOf linkMap)))

def digMainLinkMap (t : ReadState.Target) (dynAddr : Addr) (fuel : Nat) : Option (Except UlpError LinkMap) :=
  (digRDebug t fuel dynAddr).bind (fun
    | .error e   => some (.error e)
    | .ok rDebug => digLinkMap t rDebug fuel)

/-- `libpulp.so`. -/
def libpulpName : List Byte := [108, 105, 98, 112, 117, 108, 112, 46, 115, 111]

/-- `get_libname_dynobj`, without the lists of the process. -/
def getLibnameDynobj (t : ReadState.Target) (linkMapAddr : Addr) (fuel : Nat) : Option (Option UlpDynobj) :=
  (t.readMemory sizeofLinkMap linkMapAddr (fun _ => 0) fuel).bind (fun (ret, linkMap) =>
    if ret ≠ 0 then some none
    else
      (ReadState.readString t (linkMapOf linkMap).lName fuel).map (fun
        | none        => none
        | some string => some ⟨cstr string, linkMapOf linkMap⟩))

/-- The first loop of `parse_libs_dynobj`: the list of targets and the last object named like libpulp. -/
def libsLoop (t : ReadState.Target) :
    Nat → List UlpDynobj × Option UlpDynobj → Addr → Option (List UlpDynobj × Option UlpDynobj)
  | 0, _, _                                        => none
  | fuel + 1, (targets, libpulp), objLinkMap =>
    if objLinkMap = 0 then some (targets, libpulp)
    else
      (getLibnameDynobj t objLinkMap fuel).bind (fun
        | none     => some (targets, libpulp)
        | some obj =>
          libsLoop t fuel (obj :: targets, if strstr obj.filename libpulpName then some obj else libpulp)
            obj.linkMap.lNext)

/-- What the tool finds in an object: whether it has all entry points of libpulp, and the address of its state. -/
structure Exports where
  complete : Bool
  state    : Addr

/-- The rest of `parse_libs_dynobj`, where every object named like libpulp with all entry points becomes libpulp. -/
def parseLibs (exports : UlpDynobj → Exports) (targets : List UlpDynobj) (libpulp : UlpDynobj) : UlpDynobj :=
  targets.foldl (fun libpulp obj =>
    if obj ≠ libpulp ∧ strstr obj.filename libpulpName ∧ (exports obj).complete then obj else libpulp) libpulp

structure UlpProcess where
  loadBias : Addr
  dynAddr  : Addr
  main     : UlpDynobj
  targets  : List UlpDynobj
  libpulp  : Option UlpDynobj
deriving DecidableEq

/-- `parse_main_dynobj` once the name of the program is known. -/
def parseMainDynobj (t : ReadState.Target) (auxv : Auxv) (filename : List Byte) (fuel : Nat) :
    Option (Except UlpError UlpProcess) :=
  (digLoadBias t auxv fuel).bind (fun (ret, loadBias, dynAddr) =>
    if ret ≠ ENONE then some (.error ret)
    else
      (digMainLinkMap t dynAddr fuel).map (fun r =>
        r.map (fun linkMap => ⟨loadBias, dynAddr, ⟨filename, linkMap⟩, [], none⟩)))

def parseLibsDynobj (t : ReadState.Target) (exports : UlpDynobj → Exports) (p : UlpProcess) (fuel : Nat) :
    Option (UlpError × UlpProcess) :=
  (libsLoop t fuel (p.targets, p.libpulp) p.main.linkMap.lNext).map (fun (targets, libpulp) =>
    match libpulp with
    | none     => (ENOLIBPULP, { p with targets })
    | some lib => (ENONE, { p with targets, libpulp := some (parseLibs exports targets lib) }))

/-- The check that libpulp's constructor has been executed. -/
def libpulpReady (t : ReadState.Target) (state : Addr) (fuel : Nat) : Option UlpError :=
  (t.readMemory ReadState.sizeofUlpPatchingState state t.fresh fuel).map (fun (ret, ulpState) =>
    if ret ≠ 0 ∨ ulpState 0 = 0 then EAGAIN else ENONE)

/-- `initialize_data_structures`: the code, and the process where it got that far. -/
def initializeDataStructures (t : ReadState.Target) (auxv : Auxv) (filename : List Byte) (exports : UlpDynobj → Exports)
    (fuel : Nat) : Option (UlpError × Option UlpProcess) :=
  if t.attach ≠ 0 then some (ETARGETHOOK, none)
  else
    (parseMainDynobj t auxv filename fuel).bind (fun
      | .error e => some (e, none)
      | .ok p    =>
        (parseLibsDynobj t exports p fuel).bind (fun (ret, p) =>
          if ret ≠ ENONE then some (ret, some p)
          else
            (libpulpReady t ((p.libpulp.map (fun obj => (exports obj).state)).getD 0) fuel).map
              (fun ret => (ret, some p))))

/-! ## A running process -/

/-- At `a` is a program header of the type for the address. -/
structure PhdrAt (t : ReadState.Target) (a : Addr) (type : Nat) (vaddr : Addr) : Prop where
  readable : t.processVmReadv a sizeofPhdr = .ok sizeofPhdr
  type     : ofLE (t.mem.read a 4) = type
  vaddr    : addrOfLE (t.mem.read (a + 16) 8) = vaddr

/-- From `a` on lies a dynamic section whose first `DT_DEBUG` entry has the value. -/
inductive DynamicAt (t : ReadState.Target) (rDebug : Addr) : Addr → Prop
  | debug {a : Addr} (readable : t.processVmReadv a sizeofDyn = .ok sizeofDyn) (tag : addrOfLE (t.mem.read a 8) = 21)
      (value : addrOfLE (t.mem.read (a + 8) 8) = rDebug) : DynamicAt t rDebug a
  | other {a : Addr} (readable : t.processVmReadv a sizeofDyn = .ok sizeofDyn) (tag : addrOfLE (t.mem.read a 8) ≠ 21)
      (notNull : addrOfLE (t.mem.read a 8) ≠ 0) (rest : DynamicAt t rDebug (a + BitVec.ofNat 64 sizeofDyn)) :
      DynamicAt t rDebug a

structure LinkMapAt (t : ReadState.Target) (a : Addr) (m : LinkMap) : Prop where
  readable : t.processVmReadv a sizeofLinkMap = .ok sizeofLinkMap
  lAddr    : addrOfLE (t.mem.read a 8) = m.lAddr
  lName    : addrOfLE (t.mem.read (a + 8) 8) = m.lName
  lNext    : addrOfLE (t.mem.read (a + 24) 8) = m.lNext

/-- At `a` is the link map of the object, linked to the one at `next`. -/
structure ObjectAt (t : ReadState.Target) (a : Addr) (obj : UlpDynobj) (next : Addr) : Prop where
  map  : LinkMapAt t a obj.linkMap
  next : obj.linkMap.lNext = next
  name : StringAt t obj.linkMap.lName obj.filename

/-- What the kernel and the loader have put into a process: it lies at `base`, which is 0 where it has no header for the
headers themselves, and the loader's list of objects begins with the program. -/
structure Running (t : ReadState.Target) (auxv : Auxv) where
  aux     : Aux
  phdrs   : List (Nat × Addr)
  base    : Addr
  dynamic : Addr
  rDebug  : Addr
  head    : Addr
  main    : LinkMap
  libs    : List UlpDynobj
  attach  : t.attach = 0
  vector  : readAuxv auxv.entries .zero = some aux
  entry   : aux.addrofEntry ≠ 0
  atPhdr  : aux.atPhdr ≠ 0
  phent   : aux.phent.toInt = sizeofPhdr
  phnum   : aux.phnum.toInt.toNat = phdrs.length
  headers : ∀ i h, phdrs[i]? = some h → PhdrAt t (aux.atPhdr + BitVec.ofNat 64 (i * sizeofPhdr)) h.1 h.2
  self    : ∀ h ∈ phdrs, h.1 = 6 → h.2 ≠ 0 ∧ base = aux.atPhdr - h.2
  fixed   : (∀ h ∈ phdrs, h.1 ≠ 6) → base = 0
  linked  : ∃ h ∈ phdrs, h.1 = 2
  same    : ∀ h ∈ phdrs, h.1 = 2 → h.2 = dynamic
  debug   : DynamicAt t rDebug (base + dynamic)
  first   : t.processVmReadv (rDebug + 8) 8 = .ok 8 ∧ addrOfLE (t.mem.read (rDebug + 8) 8) = head
  program : LinkMapAt t head main
  objects : Chain.Linked 0 (ObjectAt t) main.lNext libs

/-- The process as the tool is to have it. -/
def Running.process {t : ReadState.Target} {auxv : Auxv} (r : Running t auxv) (filename : List Byte)
    (libpulp : Option UlpDynobj) : UlpProcess :=
  ⟨r.base, r.base + r.dynamic, ⟨filename, r.main⟩, r.libs.reverse, libpulp⟩

/-! ## Following it -/

variable {t : ReadState.Target} {auxv : Auxv}

theorem readMemory_settles {a : Addr} {n : Nat} (h : t.processVmReadv a n = .ok n) (hn : n < 2 ^ 64) (buf : Buf) :
    Settles (t.readMemory n a buf) (0, buf.write 0 (t.mem.read a n)) := by
  refine ⟨1, fun m hm => ?_⟩
  obtain ⟨k, rfl⟩ : ∃ k, m = k + 1 := ⟨m - 1, by omega⟩
  exact readMemory_whole h hn buf k

/-- The header taken for a type is the last one of that type. -/
def take (type : Nat) (a : Addr) (h : Nat × Addr) : Addr := if h.1 = type then h.2 else a

theorem foldl_take (type : Nat) : ∀ (phdrs : List (Nat × Addr)) (a : Addr),
    ((∀ h ∈ phdrs, h.1 ≠ type) ∧ phdrs.foldl (take type) a = a) ∨
      ∃ h ∈ phdrs, h.1 = type ∧ phdrs.foldl (take type) a = h.2
  | [], _           => Or.inl ⟨fun h hm => (by cases hm), rfl⟩
  | p :: phdrs, a => by
    rw [List.foldl_cons]
    rcases foldl_take type phdrs (take type a p) with ⟨hno, he⟩ | ⟨h, hm, ht, he⟩
    · by_cases hp : p.1 = type
      · exact Or.inr ⟨p, List.mem_cons_self, hp, he.trans (if_pos hp)⟩
      · exact Or.inl ⟨fun h hm => (List.mem_cons.1 hm).elim (fun e => e ▸ hp) (hno h), he.trans (if_neg hp)⟩
    · exact Or.inr ⟨h, List.mem_cons_of_mem p hm, ht, he⟩

theorem phdrLoop_eq (atPhdr : Addr) (fuel : Nat) : ∀ (phdrs : List (Nat × Addr)) (i : Nat) (p d : Addr),
    (∀ j h, phdrs[j]? = some h → PhdrAt t (atPhdr + BitVec.ofNat 64 ((i + j) * sizeofPhdr)) h.1 h.2) →
    phdrLoop t atPhdr (fuel + 1) phdrs.length i (p, d) =
      some (.ok (phdrs.foldl (take 6) p, phdrs.foldl (take 2) d))
  | [], _, _, _, _               => rfl
  | h :: phdrs, i, p, d, hat => by
    have hh : PhdrAt t (atPhdr + BitVec.ofNat 64 (i * sizeofPhdr)) h.1 h.2 := hat 0 h rfl
    have hrest : ∀ j h', phdrs[j]? = some h' →
        PhdrAt t (atPhdr + BitVec.ofNat 64 ((i + 1 + j) * sizeofPhdr)) h'.1 h'.2 := by
      intro j h' hj
      rw [show i + 1 + j = i + (j + 1) by omega]
      exact hat (j + 1) h' hj
    have htype := congrArg ofLE (read_field t.fresh t.mem (atPhdr + BitVec.ofNat 64 (i * sizeofPhdr))
      (by decide : 0 + 4 ≤ sizeofPhdr))
    rw [show ∀ a : Addr, a + BitVec.ofNat 64 0 = a from BitVec.add_zero, hh.type] at htype
    have hvaddr : pointerAt _ 16 = h.2 := (congrArg addrOfLE (read_field t.fresh t.mem
      (atPhdr + BitVec.ofNat 64 (i * sizeofPhdr)) (by decide : 16 + 8 ≤ sizeofPhdr))).trans hh.vaddr
    rw [List.length_cons, phdrLoop, readMemory_whole hh.readable (by decide), Option.bind_some]
    simp only [ne_eq, not_true_eq_false, if_false, htype, hvaddr, List.foldl_cons, take]
    by_cases h6 : h.1 = 6
    · rw [if_pos h6, phdrLoop_eq atPhdr fuel phdrs (i + 1) h.2 d hrest, if_pos h6, if_neg (by omega)]
    · by_cases h2 : h.1 = 2
      · rw [if_neg h6, if_pos h2, phdrLoop_eq atPhdr fuel phdrs (i + 1) p h.2 hrest, if_neg h6, if_pos h2]
      · rw [if_neg h6, if_neg h2, phdrLoop_eq atPhdr fuel phdrs (i + 1) p d hrest, if_neg h6, if_neg h2]

/-- **The load bias is where the program lies.** -/
theorem Running.digLoadBias (r : Running t auxv) :
    Settles (digLoadBias t auxv) (ENONE, r.base, r.base + r.dynamic) := by
  refine ⟨1, fun m hm => ?_⟩
  obtain ⟨k, rfl⟩ : ∃ k, m = k + 1 := ⟨m - 1, by omega⟩
  have hloop := phdrLoop_eq r.aux.atPhdr k r.phdrs 0 0 0 (fun j h hj => by
    rw [Nat.zero_add]
    exact r.headers j h hj)
  have hdyn : r.phdrs.foldl (take 2) 0 = r.dynamic := by
    obtain ⟨h, hm, ht⟩ := r.linked
    rcases foldl_take 2 r.phdrs 0 with ⟨hno, -⟩ | ⟨h', hm', ht', he⟩
    · exact absurd ht (hno h hm)
    · exact he.trans (r.same h' hm' ht')
  unfold Introspect.digLoadBias
  simp only [r.vector, if_neg r.entry, if_neg r.atPhdr, r.phent, ne_eq, not_true_eq_false, if_false, r.phnum, hloop,
    Option.map_some, hdyn]
  rcases foldl_take 6 r.phdrs 0 with ⟨hno, he⟩ | ⟨h, hm, ht, he⟩
  · simp only [he, not_true_eq_false, if_false, r.fixed hno, zero_add]
  · obtain ⟨h0, hb⟩ := r.self h hm ht
    simp only [he, h0, not_false_eq_true, if_true, ← hb, BitVec.add_comm]

theorem DynamicAt.digRDebug {rDebug a : Addr} (h : DynamicAt t rDebug a) :
    Settles (fun fuel => Introspect.digRDebug t fuel a) (.ok rDebug) := by
  have htag : ∀ a : Addr, pointerAt (t.fresh.write 0 (t.mem.read a sizeofDyn)) 0 = addrOfLE (t.mem.read a 8) := by
    intro a
    have hf := read_field t.fresh t.mem a (by decide : 0 + 8 ≤ sizeofDyn)
    rw [show a + BitVec.ofNat 64 0 = a from BitVec.add_zero a] at hf
    exact congrArg addrOfLE hf
  induction h with
  | @debug a readable tag value =>
    have hvalue : pointerAt (t.fresh.write 0 (t.mem.read a sizeofDyn)) 8 = rDebug :=
      (congrArg addrOfLE (read_field t.fresh t.mem a (by decide : 8 + 8 ≤ sizeofDyn))).trans value
    refine Settles.succ (Settles.bind (readMemory_settles readable (by decide) _) ?_)
    simp only [ne_eq, not_true_eq_false, if_false, htag, tag, hvalue]
    exact Settles.const _
  | @other a readable tag notNull rest ih =>
    refine Settles.succ (Settles.bind (readMemory_settles readable (by decide) _) ?_)
    simp only [ne_eq, not_true_eq_false, if_false, htag, tag, notNull]
    exact ih

theorem linkMapOf_read {a : Addr} {m : LinkMap} (h : LinkMapAt t a m) (buf : Buf) :
    linkMapOf (buf.write 0 (t.mem.read a sizeofLinkMap)) = m := by
  have hfield : ∀ o, o + 8 ≤ sizeofLinkMap →
      pointerAt (buf.write 0 (t.mem.read a sizeofLinkMap)) o = addrOfLE (t.mem.read (a + BitVec.ofNat 64 o) 8) :=
    fun o ho => congrArg addrOfLE (read_field buf t.mem a ho)
  have h0 := hfield 0 (by decide)
  rw [show a + BitVec.ofNat 64 0 = a from BitVec.add_zero a] at h0
  rw [linkMapOf, h0, hfield 8 (by decide), hfield 24 (by decide)]
  exact congr (congr (congrArg LinkMap.mk h.lAddr) h.lName) h.lNext

/-- **The main link map is the loader's first.** -/
theorem Running.digMainLinkMap (r : Running t auxv) :
    Settles (Introspect.digMainLinkMap t (r.base + r.dynamic)) (.ok r.main) := by
  refine Settles.bind r.debug.digRDebug (Settles.bind (readMemory_settles r.first.1 (by decide) _) ?_)
  have hhead : pointerAt (t.fresh.write 0 (t.mem.read (r.rDebug + 8) 8)) 0 = r.head := by
    have hf := read_field t.fresh t.mem (r.rDebug + 8) (by decide : 0 + 8 ≤ 8)
    rw [show r.rDebug + 8 + BitVec.ofNat 64 0 = r.rDebug + 8 from BitVec.add_zero _] at hf
    exact (congrArg addrOfLE hf).trans r.first.2
  simp only [ne_eq, not_true_eq_false, if_false, hhead]
  have hread := (readMemory_settles r.program.readable (by decide) t.fresh).map (fun (ret, linkMap) =>
    if ret ≠ 0 then Except.error ETARGETHOOK else .ok (linkMapOf linkMap))
  simp only [ne_eq, not_true_eq_false, if_false, linkMapOf_read r.program] at hread
  exact hread

theorem ObjectAt.getLibnameDynobj {a next : Addr} {obj : UlpDynobj} (h : ObjectAt t a obj next) :
    Settles (Introspect.getLibnameDynobj t a) (some obj) := by
  obtain ⟨string, hread, hs⟩ := h.name.readString
  refine Settles.bind (readMemory_settles h.map.readable (by decide) _) ?_
  simp only [ne_eq, not_true_eq_false, if_false, linkMapOf_read h.map]
  have hmap := hread.map (fun
    | none        => none
    | some string => some (⟨cstr string, obj.linkMap⟩ : UlpDynobj))
  simp only [hs] at hmap
  exact hmap

/-- The object is called like libpulp. -/
def UlpDynobj.Named (obj : UlpDynobj) : Prop := strstr obj.filename libpulpName = true

instance (obj : UlpDynobj) : Decidable obj.Named := inferInstanceAs (Decidable (_ = true))

/-- What a round of the loop over the libraries does with an object. -/
def collect (s : List UlpDynobj × Option UlpDynobj) (obj : UlpDynobj) : List UlpDynobj × Option UlpDynobj :=
  (obj :: s.1, if strstr obj.filename libpulpName then some obj else s.2)

/-- **The loop over the libraries collects the loader's list.** -/
theorem libsLoop_folds {a : Addr} {libs : List UlpDynobj} (h : Chain.Linked 0 (ObjectAt t) a libs)
    (s : List UlpDynobj × Option UlpDynobj) : Settles (fun fuel => libsLoop t fuel s a) (libs.foldl collect s) := by
  refine Chain.Linked.folds (fun s a fuel => libsLoop t fuel s a) collect id (fun s => ⟨1, fun m hm => ?_⟩)
    (fun s a obj next b ha hobj hb => Settles.succ ?_) h s
  · obtain ⟨k, rfl⟩ : ∃ k, m = k + 1 := ⟨m - 1, by omega⟩
    rfl
  · simp only [libsLoop, if_neg ha]
    refine Settles.bind hobj.getLibnameDynobj ?_
    simp only [hobj.next]
    exact hb

theorem foldl_collect_fst : ∀ (libs : List UlpDynobj) (s : List UlpDynobj × Option UlpDynobj),
    (libs.foldl collect s).1 = libs.reverse ++ s.1
  | [], _          => rfl
  | obj :: libs, s => by
    rw [List.foldl_cons, foldl_collect_fst libs, List.reverse_cons, List.append_assoc]
    rfl

theorem foldl_collect_none : ∀ (libs : List UlpDynobj) (s : List UlpDynobj × Option UlpDynobj),
    (∀ obj ∈ libs, ¬ obj.Named) → (libs.foldl collect s).2 = s.2
  | [], _, _            => rfl
  | obj :: libs, s, hno => by
    rw [List.foldl_cons, foldl_collect_none libs _ (fun o ho => hno o (List.mem_cons_of_mem obj ho))]
    exact if_neg (hno obj List.mem_cons_self)

theorem foldl_collect_some {x : UlpDynobj} : ∀ (libs : List UlpDynobj) (s : List UlpDynobj × Option UlpDynobj), x ∈ libs →
    x.Named → (∀ obj ∈ libs, obj.Named → obj = x) → (libs.foldl collect s).2 = some x
  | obj :: libs, s, hx, hn, honly => by
    have hrest : ∀ o ∈ libs, o.Named → o = x := fun o ho => honly o (List.mem_cons_of_mem obj ho)
    rw [List.foldl_cons]
    by_cases hin : x ∈ libs
    · exact foldl_collect_some libs _ hin hn hrest
    · obtain rfl : x = obj := (List.mem_cons.1 hx).resolve_right hin
      have hno : ∀ o ∈ libs, ¬ o.Named := fun o ho hnamed => hin (hrest o ho hnamed ▸ ho)
      rw [foldl_collect_none libs _ hno]
      exact if_pos hn

/-- The only object called like libpulp stays libpulp. -/
theorem parseLibs_only (exports : UlpDynobj → Exports) {x : UlpDynobj} : ∀ targets : List UlpDynobj,
    (∀ obj ∈ targets, obj.Named → obj = x) → parseLibs exports targets x = x
  | [], _               => rfl
  | obj :: targets, honly => by
    have hstay : ¬ (obj ≠ x ∧ strstr obj.filename libpulpName = true ∧ (exports obj).complete = true) :=
      fun h => h.1 (honly obj List.mem_cons_self h.2.1)
    rw [parseLibs, List.foldl_cons, if_neg hstay]
    exact parseLibs_only exports targets (fun o ho => honly o (List.mem_cons_of_mem obj ho))

theorem Running.parseMainDynobj (r : Running t auxv) (filename : List Byte) :
    Settles (Introspect.parseMainDynobj t auxv filename)
      (.ok ⟨r.base, r.base + r.dynamic, ⟨filename, r.main⟩, [], none⟩) := by
  refine Settles.bind r.digLoadBias ?_
  simp only [ne_eq, not_true_eq_false, if_false]
  exact r.digMainLinkMap.map _

theorem Running.parseLibsDynobj (r : Running t auxv) (filename : List Byte) (exports : UlpDynobj → Exports) :
    Settles (Introspect.parseLibsDynobj t exports ⟨r.base, r.base + r.dynamic, ⟨filename, r.main⟩, [], none⟩)
      (match (r.libs.foldl collect ([], none)).2 with
        | none     => (ENOLIBPULP, r.process filename none)
        | some lib => (ENONE, r.process filename (some (parseLibs exports r.libs.reverse lib)))) := by
  have hloop := libsLoop_folds r.objects ([], none)
  have htargets := foldl_collect_fst r.libs ([], none)
  generalize r.libs.foldl collect ([], none) = found at hloop htargets
  obtain ⟨targets, libpulp⟩ := found
  obtain rfl : targets = r.libs.reverse := htargets.trans (List.append_nil _)
  cases libpulp with
  | none     => exact hloop.map _
  | some lib => exact hloop.map _

theorem libpulpReady_settles {state : Addr} (h : t.processVmReadv state ReadState.sizeofUlpPatchingState =
    .ok ReadState.sizeofUlpPatchingState) :
    Settles (libpulpReady t state) (if t.mem state = 0 then EAGAIN else ENONE) := by
  have hread := (readMemory_settles h (by decide) t.fresh).map (fun (ret, ulpState) =>
    if ret ≠ 0 ∨ ulpState 0 = 0 then EAGAIN else ENONE)
  have hbyte : t.fresh.write 0 (t.mem.read state ReadState.sizeofUlpPatchingState) 0 = t.mem state := by
    have hf := read_field t.fresh t.mem state (by decide : 0 + 1 ≤ ReadState.sizeofUlpPatchingState)
    rw [show state + BitVec.ofNat 64 0 = state from BitVec.add_zero state] at hf
    exact (List.cons.inj hf).1
  simp only [ne_eq, not_true_eq_false, false_or, hbyte] at hread
  exact hread

/-- **The tool finds what the loader has.**  The load bias, the dynamic section, the program's link map and all loaded
libraries are found, the last loaded first.  Where no library is called like libpulp the tool says so; where exactly one
is, it is taken for libpulp, and the tool goes on only if libpulp's constructor has run. -/
theorem introspection_exact (r : Running t auxv) (filename : List Byte) (exports : UlpDynobj → Exports) :
    ((∀ obj ∈ r.libs, ¬ obj.Named) → Returns (initializeDataStructures t auxv filename exports)
      (ENOLIBPULP, some (r.process filename none))) ∧
    ∀ x ∈ r.libs, x.Named → (∀ obj ∈ r.libs, obj.Named → obj = x) →
      t.processVmReadv (exports x).state ReadState.sizeofUlpPatchingState = .ok ReadState.sizeofUlpPatchingState →
      Returns (initializeDataStructures t auxv filename exports)
        (if t.mem (exports x).state = 0 then EAGAIN else ENONE, some (r.process filename (some x))) := by
  have hlibs := r.parseLibsDynobj filename exports
  unfold initializeDataStructures
  simp only [r.attach, ne_eq, not_true_eq_false, if_false]
  refine ⟨fun hno => (Settles.bind (r.parseMainDynobj filename) (Settles.bind hlibs ?_)).returns,
    fun x hx hn honly hstate => (Settles.bind (r.parseMainDynobj filename) (Settles.bind hlibs ?_)).returns⟩
  · rw [foldl_collect_none r.libs _ hno]
    exact Settles.const _
  · have hrev : ∀ obj ∈ r.libs.reverse, obj.Named → obj = x := fun obj ho => honly obj (List.mem_reverse.1 ho)
    rw [foldl_collect_some r.libs _ hx hn honly]
    simp only [not_true_eq_false, if_false, parseLibs_only exports _ hrev]
    exact (libpulpReady_settles hstate).map _

/-- A program at `0x1000` with libpulp behind it. -/
def demoProcess : ReadState.Target :=
  { mem := ((((((((((Mem.write (fun _ => 0) 0x1040 (toLE 4 6)).write 0x1050 (toLE 8 0x40)).write 0x1078 (toLE 4 2)).write
      0x1088 (toLE 8 0x200)).write 0x1200 (toLE 8 21)).write 0x1208 (toLE 8 0x2000)).write 0x2008 (toLE 8 0x3000)).write
      0x3018 (toLE 8 0x4000)).write 0x4008 (toLE 8 0x4100)).write 0x4100 libpulpName).write 0x6000 [1]
    processVmReadv := fun _ n => .ok n, fresh := fun _ => 7, calloc := fun _ => true, attach := 0 }

def demoAuxv : Auxv := ⟨[(9, 0x1100), (3, 0x1040), (5, 2), (4, 56), (0, 0)], 0⟩

def demoLibpulp : UlpDynobj := ⟨libpulpName, ⟨0, 0x4100, 0⟩⟩

theorem introspection_exact_one : Returns (initializeDataStructures demoProcess demoAuxv [112] (fun _ => ⟨true, 0x6000⟩))
    (ENONE, some ⟨0x1000, 0x1200, ⟨[112], ⟨0, 0, 0x4000⟩⟩, [demoLibpulp], some demoLibpulp⟩) := by
  have hname : StringAt demoProcess 0x4100 libpulpName :=
    ⟨by decide, by decide, by decide +kernel, fun _ _ => rfl⟩
  have hheaders : ∀ i h, [(6, (0x40 : Addr)), (2, 0x200)][i]? = some h →
      PhdrAt demoProcess (0x1040 + BitVec.ofNat 64 (i * sizeofPhdr)) h.1 h.2 := by
    intro i h hi
    match i with
    | 0 =>
      obtain rfl := Option.some.inj hi
      exact ⟨rfl, by decide +kernel, by decide +kernel⟩
    | 1 =>
      obtain rfl := Option.some.inj hi
      exact ⟨rfl, by decide +kernel, by decide +kernel⟩
    | _ + 2 => cases hi
  have hobject : Chain.Linked 0 (ObjectAt demoProcess) 0x4000 [demoLibpulp] :=
    .cons (by decide) ⟨⟨rfl, by decide +kernel, by decide +kernel, by decide +kernel⟩, rfl, hname⟩ .nil
  let r : Running demoProcess demoAuxv :=
    { aux := ⟨0x1100, 0x1040, 2, 56⟩, phdrs := [(6, 0x40), (2, 0x200)], base := 0x1000, dynamic := 0x200, rDebug := 0x2000
      head := 0x3000, main := ⟨0, 0, 0x4000⟩, libs := [demoLibpulp], attach := rfl, vector := rfl
      entry := by decide, atPhdr := by decide, phent := by decide, phnum := by decide, headers := hheaders
      self := by decide, fixed := by decide, linked := by decide, same := by decide
      debug := .debug rfl (by decide +kernel) (by decide +kernel), first := ⟨rfl, by decide +kernel⟩
      program := ⟨rfl, by decide +kernel, by decide +kernel, by decide +kernel⟩, objects := hobject }
  have h := (introspection_exact r [112] (fun _ => ⟨true, 0x6000⟩)).2 demoLibpulp List.mem_cons_self (by decide)
    (fun obj ho _ => List.mem_singleton.1 ho) rfl
  rwa [if_neg (by decide +kernel)] at h

end Introspect
end Libpulp
