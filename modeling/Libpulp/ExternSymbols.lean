import Libpulp.ReadString
import Libpulp.Tokens
import Mathlib.Algebra.Order.BigOperators.Group.List
import Mathlib.Algebra.Order.Group.Nat
/-!
# ExternSymbols — libpulp's entry symbols in a process (tools/introspection.c)

`get_symbol_by_name` reads every name whole.  `get_libpulp_extern_symbols` reads five bytes of each, what is behind them
only if they are `__ulp`, into a buffer of 64 bytes that it does not clear, and leaves the loop when it has found all
eleven symbols.  On a table whose names differ, both find the same addresses (`externs_agree`).
-/
namespace Libpulp
namespace ExternSymbols

open Bytes (Byte Addr Mem Buf addrOfLE cstr)
open ReadState (Target hasbytezero)
open ReadString (WordReadable)

/-- Where `struct ulp_dynobj` says that the tables are. -/
structure Dynobj where
  lAddr      : Addr
  dynsymAddr : Addr
  dynstrAddr : Addr
  numSymbols : Int

/-- The symbols whose addresses are kept. -/
inductive Entry where
  | trigger
  | check
  | state
  | global
  | msgQueue
  | revertAll
  | metadataBuffer
  | errorState
  | enableDisablePatching
  | insnQueue
deriving DecidableEq

namespace Entry

/-- In the order in which the names are compared. -/
def all : List Entry :=
  [trigger, check, state, global, msgQueue, revertAll, metadataBuffer, errorState, enableDisablePatching, insnQueue]

def suffix : Entry → List Byte
  | trigger               => "_trigger".toUTF8.toList
  | check                 => "_check_patched".toUTF8.toList
  | state                 => "_state".toUTF8.toList
  | global                => "_get_global_universe".toUTF8.toList
  | msgQueue              => "_msg_queue".toUTF8.toList
  | revertAll             => "_revert_all".toUTF8.toList
  | metadataBuffer        => "_metadata_buffer".toUTF8.toList
  | errorState            => "_error_state".toUTF8.toList
  | enableDisablePatching => "_enable_or_disable_patching".toUTF8.toList
  | insnQueue             => "_insn_queue".toUTF8.toList

/-- Its bit in `bitfield`. -/
def bit : Entry → Nat
  | trigger               => 0
  | check                 => 1
  | state                 => 2
  | global                => 3
  | msgQueue              => 4
  | revertAll             => 5
  | metadataBuffer        => 6
  | errorState            => 7
  | enableDisablePatching => 8
  | insnQueue             => 9

end Entry

def ulpPrefix : List Byte := "__ulp".toUTF8.toList
def versionSuffix : List Byte := "_version".toUTF8.toList
def versionBit : Nat := 10

def Entry.name (f : Entry) : List Byte := ulpPrefix ++ f.suffix
def versionName : List Byte := ulpPrefix ++ versionSuffix

/-- The fields of `struct ulp_dynobj` that are filled in. -/
structure Externs where
  trigger               : Addr
  check                 : Addr
  state                 : Addr
  global                : Addr
  msgQueue              : Addr
  revertAll             : Addr
  metadataBuffer        : Addr
  errorState            : Addr
  enableDisablePatching : Addr
  insnQueue             : Addr
  libpulpVersion        : BitVec 64

/-- As `calloc` leaves them. -/
def Externs.zero : Externs := ⟨0, 0, 0, 0, 0, 0, 0, 0, 0, 0, 0⟩

def Externs.addr (e : Externs) : Entry → Addr
  | .trigger               => e.trigger
  | .check                 => e.check
  | .state                 => e.state
  | .global                => e.global
  | .msgQueue              => e.msgQueue
  | .revertAll             => e.revertAll
  | .metadataBuffer        => e.metadataBuffer
  | .errorState            => e.errorState
  | .enableDisablePatching => e.enableDisablePatching
  | .insnQueue             => e.insnQueue

def Externs.store (e : Externs) (a : Addr) : Entry → Externs
  | .trigger               => { e with trigger := a }
  | .check                 => { e with check := a }
  | .state                 => { e with state := a }
  | .global                => { e with global := a }
  | .msgQueue              => { e with msgQueue := a }
  | .revertAll             => { e with revertAll := a }
  | .metadataBuffer        => { e with metadataBuffer := a }
  | .errorState            => { e with errorState := a }
  | .enableDisablePatching => { e with enableDisablePatching := a }
  | .insnQueue             => { e with insnQueue := a }

@[simp] theorem Externs.addr_zero (f : Entry) : Externs.zero.addr f = 0 := by
  cases f <;> rfl

@[simp] theorem Externs.libpulpVersion_store (e : Externs) (a : Addr) (f : Entry) :
    (e.store a f).libpulpVersion = e.libpulpVersion := by
  cases f <;> rfl

theorem Externs.addr_store (e : Externs) (a : Addr) (f g : Entry) :
    (e.store a f).addr g = if f = g then a else e.addr g := by
  cases f <;> cases g <;> rfl

/-! ## Reading -/

/-- `strcmp(buf, s) == 0` for a string `s`: no byte behind the first `s.length + 1` is looked at. -/
def strcmpEq (buf : Buf) (s : List Byte) : Bool := buf.read 0 (s.length + 1) == s ++ [0]

/-- The loop of `read_string_allocated` from word `i` on, and what follows it. -/
def readStringAllocatedLoop (t : Target) (remaining fuel : Nat) : Nat → Nat → Addr → Buf → Option (Int × Buf)
  | 0, i, addr, buf            =>
    if remaining > 0 then
      (t.readLong addr fuel).map (fun (ret, l) =>
        if ret ≠ 0 then (1, buf) else (0, buf.write (8 * i) (l.read 0 remaining)))
    else some (0, buf)
  | numLongs + 1, i, addr, buf =>
    (t.readLong addr fuel).bind (fun (ret, word) =>
      let buf := buf.write (8 * i) (word.read 0 8)
      if ret ≠ 0 then some (1, buf)
      else if hasbytezero (addrOfLE (buf.read (8 * i) 8)) then some (0, buf)
      else readStringAllocatedLoop t remaining fuel numLongs (i + 1) (addr + 8) buf)

def readStringAllocated (t : Target) (buffer : Buf) (n : Nat) (addr : Addr) (fuel : Nat) : Option (Int × Buf) :=
  readStringAllocatedLoop t (n % 8) fuel (n / 8) 0 addr buffer

def sizeofSym : Nat := 24

/-- `get_symbol_by_name` with `len` symbols left. -/
def getSymbolByName (t : Target) (dynstrAddr : Addr) (name : List Byte) (fuel : Nat) : Nat → Addr → Option Addr
  | 0, _                => some 0
  | len + 1, dynsymAddr =>
    (t.readMemory sizeofSym dynsymAddr t.fresh fuel).bind (fun (ret, sym) =>
      if ret ≠ 0 then some 0
      else
        (ReadState.readString t (dynstrAddr + addrOfLE (sym.read 0 4)) fuel).bind (fun
          | none            => some 0
          | some remoteName =>
            if cstr remoteName = name then some (addrOfLE (sym.read 8 8))
            else getSymbolByName t dynstrAddr name fuel len (dynsymAddr + BitVec.ofNat 64 sizeofSym)))

def getLoadedSymbolAddr (t : Target) (obj : Dynobj) (symName : List Byte) (fuel : Nat) : Option Addr :=
  if obj.dynsymAddr = 0 ∨ obj.dynstrAddr = 0 ∨ obj.numSymbols ≤ 0 then some 0
  else
    (getSymbolByName t obj.dynstrAddr symName fuel obj.numSymbols.toNat obj.dynsymAddr).map (fun symAddr =>
      if symAddr ≠ 0 then obj.lAddr + symAddr else 0)

/-- The variables of the loop in `get_libpulp_extern_symbols`. -/
structure Locals where
  dynsymAddr : Addr
  remoteName : Buf
  externs    : Externs
  bitfield   : BitVec 32

/-- The comparisons; `version addr` is what `ulp_version_from_string` makes of the string at `addr`. -/
def Locals.compare (version : Addr → BitVec 64) (s : Locals) (addr : Addr) : Locals :=
  match Entry.all.find? (fun f => strcmpEq s.remoteName f.suffix) with
  | some f => { s with externs := s.externs.store addr f, bitfield := s.bitfield ||| 1#32 <<< f.bit }
  | none   =>
    if strcmpEq s.remoteName versionSuffix then
      { s with externs := { s.externs with libpulpVersion := version addr },
               bitfield := s.bitfield ||| 1#32 <<< versionBit }
    else s

def Locals.next (s : Locals) : Locals := { s with dynsymAddr := s.dynsymAddr + BitVec.ofNat 64 sizeofSym }

/-- One turn of the loop; the code is not 0 when the function returns with it. -/
def externTurn (t : Target) (obj : Dynobj) (version : Addr → BitVec 64) (fuel : Nat) (s : Locals) :
    Option (Int × Locals) :=
  (t.readMemory 4 s.dynsymAddr t.fresh fuel).bind (fun (ret, sym) =>
    if ret ≠ 0 then some (1, s)
    else
      let nameAddr := obj.dynstrAddr + addrOfLE (sym.read 0 4)
      (t.readMemory 5 nameAddr s.remoteName fuel).bind (fun (ret, remoteName) =>
        if ret ≠ 0 then some (1, s)
        else if remoteName.read 0 5 = ulpPrefix then
          (readStringAllocated t remoteName 64 (nameAddr + 5) fuel).bind (fun (ret, remoteName) =>
            if ret ≠ 0 then some (1, s)
            else
              (t.readMemory sizeofSym s.dynsymAddr sym fuel).map (fun (ret, sym) =>
                if ret ≠ 0 then (1, s)
                else (0, ({ s with remoteName }.compare version (obj.lAddr + addrOfLE (sym.read 8 8))).next)))
        else some (0, { s with remoteName }.next)))

def externLoop (t : Target) (obj : Dynobj) (version : Addr → BitVec 64) (fuel : Nat) :
    Nat → Locals → Option (Int × Externs)
  | 0, s              => some (0, s.externs)
  | numSymbols + 1, s =>
    (externTurn t obj version fuel s).bind (fun (ret, s) =>
      if ret ≠ 0 then some (ret, s.externs)
      else if s.bitfield = 0x7FF then some (0, s.externs)
      else externLoop t obj version fuel numSymbols s)

def getLibpulpExternSymbols (t : Target) (obj : Dynobj) (version : Addr → BitVec 64) (fuel : Nat) :
    Option (Int × Externs) :=
  if obj.dynsymAddr = 0 ∨ obj.dynstrAddr = 0 ∨ obj.numSymbols ≤ 0 then some (0, .zero)
  else externLoop t obj version fuel obj.numSymbols.toNat ⟨obj.dynsymAddr, t.fresh, .zero, 0⟩

/-! ## The names -/

theorem Entry.mem_all (f : Entry) : f ∈ Entry.all := by
  cases f <;> decide

/-- What the comparisons rely on: the suffixes fit the buffer with their NUL. -/
theorem suffixes_fit : ∀ s ∈ versionSuffix :: Entry.all.map Entry.suffix, (0 : Byte) ∉ s ∧ s.length < 64 := by
  decide +kernel

theorem Entry.suffix_fits (f : Entry) : (0 : Byte) ∉ f.suffix ∧ f.suffix.length < 64 :=
  suffixes_fit _ (List.mem_cons_of_mem _ (List.mem_map_of_mem f.mem_all))

theorem suffix_inj : ∀ f ∈ Entry.all, ∀ g ∈ Entry.all, f.suffix = g.suffix → f = g := by
  decide +kernel

theorem Entry.name_inj {f g : Entry} (h : f.name = g.name) : f = g :=
  suffix_inj f f.mem_all g g.mem_all (List.append_cancel_left h)

theorem Entry.bit_inj : ∀ {f g : Entry}, f.bit = g.bit → f = g := by
  have h : ∀ f ∈ Entry.all, ∀ g ∈ Entry.all, f.bit = g.bit → f = g := by decide
  exact fun {f g} => h f f.mem_all g g.mem_all

theorem Entry.bit_lt (f : Entry) : f.bit < versionBit := by
  cases f <;> decide

theorem ulpPrefix_facts : ulpPrefix.length = 5 ∧ (0 : Byte) ∉ ulpPrefix := by
  decide +kernel

/-! ## The strings -/

/-- The bytes of the memory from an address on. -/
def view (m : Mem) (a : Addr) : Buf := fun i => m (a + BitVec.ofNat 64 i)

theorem read_eq_view (m : Mem) (a : Addr) (n : Nat) : m.read a n = (view m a).read 0 n := by
  apply List.ext_getElem
  · rw [Mem.length_read, Buf.length_read]
  · intro i h₁ h₂
    rw [Mem.getElem_read]
    simp [Buf.read, view]

theorem cstr_of_noZero {b : List Byte} (h : (0 : Byte) ∉ b) : cstr b = b := by
  unfold cstr
  rw [List.takeWhile_eq_self_iff]
  intro x hx
  have : x ≠ 0 := fun h0 => h (h0 ▸ hx)
  simpa using this

/-- A string is what the bytes from there on say, however many are looked at. -/
theorem cstr_read_of_string {b : Buf} {s : List Byte} (h0 : (0 : Byte) ∉ s) (h : b.read 0 (s.length + 1) = s ++ [0])
    {n : Nat} (hn : s.length < n) : cstr (b.read 0 n) = s := by
  obtain ⟨r, rfl⟩ : ∃ r, n = s.length + 1 + r := ⟨n - (s.length + 1), by omega⟩
  rw [Buf.read_add, h, List.append_assoc]
  exact Bytes.cstr_of_noNul h0 _

theorem read_of_long_string {b : Buf} {s : List Byte} (h : b.read 0 (s.length + 1) = s ++ [0]) {n : Nat}
    (hn : n ≤ s.length) : b.read 0 n = s.take n := by
  obtain ⟨r, hr⟩ : ∃ r, s.length + 1 = n + r := ⟨s.length + 1 - n, by omega⟩
  rw [hr, Buf.read_add] at h
  have htake := congrArg (List.take n) h
  rwa [List.take_append_of_le_length (by rw [Buf.length_read]), List.take_append_of_le_length hn,
    List.take_of_length_le (by rw [Buf.length_read])] at htake

theorem read_shorter {b b' : Buf} {n m : Nat} (h : b.read 0 n = b'.read 0 n) (hm : m ≤ n) : b.read 0 m = b'.read 0 m := by
  apply Buf.read_congr
  intro i hi
  have hall := congrArg (fun l => l.getD i 0) h
  simpa [Buf.read, List.getD_eq_getElem?_getD, show i < n by omega] using hall

/-- **Comparing the buffer is comparing the string in it.** -/
theorem strcmpEq_iff {b : Buf} {s : List Byte} (h0 : (0 : Byte) ∉ s) (hs : s.length < 64) :
    strcmpEq b s = true ↔ cstr (b.read 0 64) = s := by
  unfold strcmpEq
  rw [beq_iff_eq]
  constructor
  · intro h
    exact cstr_read_of_string h0 h hs
  · intro h
    have hmem : (0 : Byte) ∈ b.read 0 64 := by
      by_contra hno
      rw [cstr_of_noZero hno] at h
      rw [← h, Buf.length_read] at hs
      exact Nat.lt_irrefl _ hs
    -- the string and its NUL are in front
    obtain ⟨rest, hrest⟩ : ∃ rest, b.read 0 64 = s ++ 0 :: rest := by
      have hsplit := Tokens.eq_append_of_mem hmem
      rw [show (b.read 0 64).takeWhile (· != 0) = s from h] at hsplit
      exact ⟨_, hsplit⟩
    have happ : b.read 0 64 = (s ++ [0]) ++ rest := by rw [hrest, List.append_assoc]; rfl
    have hread := (Buf.read_eq_append happ).1
    rwa [List.length_append] at hread

/-! ## The table -/

variable {t : Target} {obj : Dynobj}

/-- An entry of the table. -/
structure TableSym where
  stName  : Addr
  stValue : Addr
  name    : List Byte
deriving DecidableEq

/-- Requests for these bytes are answered in full. -/
def Readable (t : Target) (a : Addr) (n : Nat) : Prop := t.processVmReadv a n = .ok n

/-- **The symbol at an address**: the entry and its name in the string table can be read, the name up to the end of a word
that its NUL may begin. -/
structure SymAt (t : Target) (obj : Dynobj) (a : Addr) (s : TableSym) : Prop where
  stName   : addrOfLE (t.mem.read a 4) = s.stName
  stValue  : addrOfLE (t.mem.read (a + 8) 8) = s.stValue
  entry    : Readable t a 4 ∧ Readable t a sizeofSym
  noNul    : (0 : Byte) ∉ s.name
  name     : t.mem.read (obj.dynstrAddr + s.stName) (s.name.length + 1) = s.name ++ [0]
  readable : ∀ i n, i + n ≤ s.name.length + 8 → Readable t (obj.dynstrAddr + s.stName + BitVec.ofNat 64 i) n

/-- The table from an address on. -/
def HoldsFrom (t : Target) (obj : Dynobj) : Addr → List TableSym → Prop
  | _, []      => True
  | a, s :: ss => SymAt t obj a s ∧ HoldsFrom t obj (a + BitVec.ofNat 64 sizeofSym) ss

/-- **The dynamic symbol table is these symbols.** -/
structure Holds (t : Target) (obj : Dynobj) (syms : List TableSym) : Prop where
  count : obj.numSymbols = syms.length
  holds : HoldsFrom t obj obj.dynsymAddr syms

/-! ## Reading the strings -/

theorem readMemory_of_readable {a : Addr} {n : Nat} (h : Readable t a n) (hn : n < 2 ^ 64) (buf : Buf) (fuel : Nat) :
    t.readMemory n a buf (fuel + 1) = some (0, buf.write 0 (t.mem.read a n)) := by
  have hcall : t.processVmReadv a n = .ok n := h
  unfold Target.readMemory Transfer.readMemory Transfer.transferLoop
  rw [hcall]
  simp only [Nat.zero_add, Nat.mod_eq_of_lt hn, if_true]
  rfl

theorem read_written (b : Buf) (m : Mem) (a : Addr) (o n : Nat) : (b.write o (m.read a n)).read o n = m.read a n := by
  have := Buf.read_write_self b o (m.read a n)
  rwa [Mem.length_read] at this

theorem view_add (m : Mem) (a : Addr) (i j : Nat) : m (a + BitVec.ofNat 64 i + BitVec.ofNat 64 j) = view m a (i + j) := by
  unfold view
  rw [BitVec.add_assoc, BitVec.ofNat_add]

theorem string_bytes {a : Addr} {s : List Byte} (h0 : (0 : Byte) ∉ s) (h : t.mem.read a (s.length + 1) = s ++ [0]) :
    t.mem (a + BitVec.ofNat 64 s.length) = 0 ∧ ∀ i < s.length, t.mem (a + BitVec.ofNat 64 i) ≠ 0 := by
  have hbyte : ∀ i < s.length + 1, t.mem (a + BitVec.ofNat 64 i) = (s ++ [0]).getD i 0 := by
    intro i hi
    have hlen : i < (t.mem.read a (s.length + 1)).length := by rwa [Mem.length_read]
    rw [← h, List.getD_eq_getElem?_getD, List.getElem?_eq_getElem hlen, Option.getD_some, Mem.getElem_read]
  constructor
  · rw [hbyte s.length (Nat.lt_succ_self _)]
    simp [List.getD_eq_getElem?_getD]
  · intro i hi hz
    rw [hbyte i (by omega), List.getD_eq_getElem?_getD, List.getElem?_append_left hi, List.getElem?_eq_getElem hi,
      Option.getD_some] at hz
    exact h0 (hz ▸ List.getElem_mem hi)

/-- **What `read_string_allocated` leaves in the buffer**: whole words of the string, up to the one with its NUL or as
many as there is room for. -/
theorem readStringAllocatedLoop_spec {a : Addr} {s : List Byte} (h0 : (0 : Byte) ∉ s)
    (h : t.mem.read a (s.length + 1) = s ++ [0])
    (hr : ∀ j ≤ s.length / 8, WordReadable t (a + BitVec.ofNat 64 (8 * j))) :
    ∀ (m i : Nat) (buf : Buf), 8 * i ≤ s.length → buf.read 0 (8 * i) = t.mem.read a (8 * i) →
      ∃ (k : Nat) (buf' : Buf),
        (∀ fuel, readStringAllocatedLoop t 0 (fuel + 1) m i (a + BitVec.ofNat 64 (8 * i)) buf = some (0, buf')) ∧
        buf'.read 0 (8 * k) = t.mem.read a (8 * k) ∧ (s.length < 8 * k ∨ k = i + m)
  | 0, i, buf, _, hbuf     => ⟨i, buf, fun _ => rfl, hbuf, Or.inr rfl⟩
  | m + 1, i, buf, hi, hbuf => by
    obtain ⟨hk, hfirst⟩ := string_bytes h0 h
    obtain ⟨word, hread, hword⟩ := ReadString.readLong_of_readable (hr i (by omega))
    have hself := Buf.read_write_self buf (8 * i) (word.read 0 8)
    rw [Buf.length_read] at hself
    have hzero : hasbytezero (addrOfLE ((buf.write (8 * i) (word.read 0 8)).read (8 * i) 8)) = true ↔
        i = s.length / 8 := by
      rw [hself, ReadString.hasbytezero_addrOfLE (Buf.length_read _ _ _), hword]
      exact ReadString.nul_mem_word hk hfirst (by omega)
    have hnext : (buf.write (8 * i) (word.read 0 8)).read 0 (8 * (i + 1)) = t.mem.read a (8 * (i + 1)) := by
      rw [Nat.mul_succ, Buf.read_add, Nat.zero_add, hself, Buf.read_write_before _ (by omega), hbuf, hword, Mem.read_add]
    by_cases hlast : i = s.length / 8
    · refine ⟨i + 1, _, fun fuel => ?_, hnext, Or.inl (by omega)⟩
      rw [readStringAllocatedLoop, hread fuel, Option.bind_some]
      simp only [ne_eq, not_true_eq_false, if_false]
      rw [if_pos (hzero.2 hlast)]
    · obtain ⟨k, buf', hrun, hbuf', hend⟩ := readStringAllocatedLoop_spec h0 h hr m (i + 1) _ (by omega) hnext
      refine ⟨k, buf', fun fuel => ?_, hbuf', by omega⟩
      rw [readStringAllocatedLoop, hread fuel, Option.bind_some]
      simp only [ne_eq, not_true_eq_false, if_false]
      rw [if_neg (fun hn => hlast (hzero.1 hn)), ← hrun fuel, Nat.mul_succ, BitVec.ofNat_add, BitVec.add_assoc]
      rfl

/-- **The buffer of 64 bytes is as good as the string**: it compares equal to what the string is equal to. -/
theorem readStringAllocated_spec {a : Addr} {s : List Byte} (h0 : (0 : Byte) ∉ s)
    (h : t.mem.read a (s.length + 1) = s ++ [0])
    (hr : ∀ j ≤ s.length / 8, WordReadable t (a + BitVec.ofNat 64 (8 * j))) (buf : Buf) :
    ∃ buf', (∀ fuel, readStringAllocated t buf 64 a (fuel + 1) = some (0, buf')) ∧
      ∀ c, (0 : Byte) ∉ c → c.length < 64 → (strcmpEq buf' c = true ↔ s = c) := by
  obtain ⟨k, buf', hrun, hbuf', hend⟩ := readStringAllocatedLoop_spec h0 h hr 8 0 buf (Nat.zero_le _) rfl
  refine ⟨buf', fun fuel => by simpa [readStringAllocated] using hrun fuel, fun c hc hlen => ?_⟩
  rw [strcmpEq_iff hc hlen]
  have hview : (view t.mem a).read 0 (s.length + 1) = s ++ [0] := by rw [← read_eq_view, h]
  rw [read_eq_view] at hbuf'
  by_cases hs : s.length < 64
  · have hstring : buf'.read 0 (s.length + 1) = s ++ [0] := by
      rw [read_shorter hbuf' (by omega), hview]
    rw [cstr_read_of_string h0 hstring hs]
  · -- neither the string nor the buffer has a NUL where `c` has one
    have hlong : buf'.read 0 64 = s.take 64 := by
      rw [read_shorter hbuf' (by omega), read_of_long_string hview (by omega)]
    rw [hlong, cstr_of_noZero (fun hmem => h0 (List.mem_of_mem_take hmem))]
    constructor
    · rintro rfl
      rw [List.length_take] at hlen
      omega
    · rintro rfl
      omega

/-- The five bytes read first tell whether the name starts with `__ulp`. -/
theorem prefix_read_iff {a : Addr} {s : List Byte} (h0 : (0 : Byte) ∉ s) (h : t.mem.read a (s.length + 1) = s ++ [0]) :
    t.mem.read a 5 = ulpPrefix ↔ ∃ rest, s = ulpPrefix ++ rest := by
  obtain ⟨hlen, hz⟩ := ulpPrefix_facts
  have hview : (view t.mem a).read 0 (s.length + 1) = s ++ [0] := by rw [← read_eq_view, h]
  rw [read_eq_view]
  by_cases hs : 5 ≤ s.length
  · rw [read_of_long_string hview hs]
    constructor
    · intro heq
      exact ⟨s.drop 5, by rw [← heq, List.take_append_drop]⟩
    · rintro ⟨rest, rfl⟩
      rw [← hlen, List.take_left]
  · constructor
    · intro heq
      have hmem : (0 : Byte) ∈ (view t.mem a).read 0 5 := by
        rw [show 5 = s.length + 1 + (4 - s.length) by omega, Buf.read_add, hview]
        simp
      rw [heq] at hmem
      exact absurd hmem hz
    · rintro ⟨rest, rfl⟩
      rw [List.length_append, hlen] at hs
      omega

/-! ## One turn -/

/-- What a symbol comes to. -/
def Locals.see (version : Addr → BitVec 64) (lAddr : Addr) (s : Locals) (sym : TableSym) : Locals :=
  match Entry.all.find? (fun f => decide (sym.name = f.name)) with
  | some f => { s with externs := s.externs.store (lAddr + sym.stValue) f, bitfield := s.bitfield ||| 1#32 <<< f.bit }
  | none   =>
    if sym.name = versionName then
      { s with externs := { s.externs with libpulpVersion := version (lAddr + sym.stValue) },
               bitfield := s.bitfield ||| 1#32 <<< versionBit }
    else s

theorem Locals.see_dynsymAddr (version : Addr → BitVec 64) (lAddr : Addr) (s : Locals) (sym : TableSym) :
    (s.see version lAddr sym).dynsymAddr = s.dynsymAddr := by
  unfold Locals.see
  split
  · rfl
  · split <;> rfl

/-- A name without the prefix is none of the names. -/
theorem Locals.see_of_no_prefix {version : Addr → BitVec 64} {lAddr : Addr} {s : Locals} {sym : TableSym}
    (h : ¬ ∃ rest, sym.name = ulpPrefix ++ rest) : s.see version lAddr sym = s := by
  have hnone : Entry.all.find? (fun f => decide (sym.name = f.name)) = none := by
    rw [List.find?_eq_none]
    intro f _ hf
    exact h ⟨f.suffix, of_decide_eq_true hf⟩
  unfold Locals.see
  rw [hnone]
  exact if_neg (fun hv => h ⟨versionSuffix, hv⟩)

/-- A buffer that compares like the rest of the name. -/
theorem Locals.compare_eq_see {version : Addr → BitVec 64} {lAddr : Addr} {s : Locals} {sym : TableSym}
    {rest : List Byte} (hname : sym.name = ulpPrefix ++ rest)
    (h : ∀ c, (0 : Byte) ∉ c → c.length < 64 → (strcmpEq s.remoteName c = true ↔ rest = c)) :
    s.compare version (lAddr + sym.stValue) = s.see version lAddr sym := by
  have hentry : (fun f : Entry => strcmpEq s.remoteName f.suffix) = fun f => decide (sym.name = f.name) := by
    funext f
    rw [Bool.eq_iff_iff, h _ f.suffix_fits.1 f.suffix_fits.2, decide_eq_true_eq, hname, Entry.name]
    exact List.append_cancel_left_eq _ _ _ |>.symm ▸ Iff.rfl
  have hversion : strcmpEq s.remoteName versionSuffix = true ↔ sym.name = versionName := by
    obtain ⟨h0, hlen⟩ := suffixes_fit versionSuffix List.mem_cons_self
    rw [h _ h0 hlen, hname, versionName, List.append_cancel_left_eq]
  unfold Locals.compare Locals.see
  rw [hentry]
  simp only [hversion]

theorem SymAt.readString {a : Addr} {sym : TableSym} (h : SymAt t obj a sym) (fuel : Nat)
    (hf : sym.name.length / 8 + 2 ≤ fuel) : ∃ words,
      ReadState.readString t (obj.dynstrAddr + sym.stName) fuel = some (some words) ∧ cstr words = sym.name := by
  obtain ⟨hk, hfirst⟩ := string_bytes h.noNul h.name
  rw [← (Mem.read_eq_append h.name).1]
  exact ReadString.readString_words hk hfirst (fun j hj => h.readable (8 * j) 8 (by omega)) fuel hf

theorem SymAt.rest {a : Addr} {sym : TableSym} {rest : List Byte} (h : SymAt t obj a sym)
    (hname : sym.name = ulpPrefix ++ rest) : (0 : Byte) ∉ rest ∧
      t.mem.read (obj.dynstrAddr + sym.stName + BitVec.ofNat 64 5) (rest.length + 1) = rest ++ [0] ∧
      ∀ j ≤ rest.length / 8,
        WordReadable t (obj.dynstrAddr + sym.stName + BitVec.ofNat 64 5 + BitVec.ofNat 64 (8 * j)) := by
  obtain ⟨hlen, -⟩ := ulpPrefix_facts
  have hlength : sym.name.length = 5 + rest.length := by rw [hname, List.length_append, hlen]
  have hread := h.name
  rw [hname, List.append_assoc] at hread
  have hsplit := (Mem.read_eq_append hread).2
  rw [hlen, List.length_append, hlen, show 5 + rest.length + 1 - 5 = rest.length + 1 by omega] at hsplit
  refine ⟨fun hz => h.noNul (hname ▸ List.mem_append_right _ hz), hsplit, fun j hj => ?_⟩
  rw [BitVec.add_assoc, ← BitVec.ofNat_add]
  exact h.readable (5 + 8 * j) 8 (by omega)

theorem entry_value (b : Buf) (m : Mem) (a : Addr) :
    (b.write 0 (m.read a sizeofSym)).read 8 8 = m.read (a + 8) 8 := by
  have hself := read_written b m a 0 sizeofSym
  have hsplit : m.read a sizeofSym = m.read a 8 ++ m.read (a + BitVec.ofNat 64 8) 16 := Mem.read_add m 16 8 a
  rw [hsplit] at hself
  have htail := (Buf.read_eq_append hself).2
  rw [Mem.length_read, Nat.zero_add] at htail
  rw [hsplit]
  have hm : m.read (a + BitVec.ofNat 64 8) 16 =
      m.read (a + BitVec.ofNat 64 8) 8 ++ m.read (a + BitVec.ofNat 64 8 + BitVec.ofNat 64 8) 8 := Mem.read_add m 8 8 _
  rw [hm] at htail ⊢
  have hhead := (Buf.read_eq_append htail).1
  rwa [Mem.length_read] at hhead

/-- **One turn of the loop on a symbol of the table.** -/
theorem externTurn_eq (version : Addr → BitVec 64) {s : Locals} {sym : TableSym} (h : SymAt t obj s.dynsymAddr sym) :
    ∃ buf, ∀ fuel, externTurn t obj version (fuel + 1) s =
      some (0, ({ s with remoteName := buf }.see version obj.lAddr sym).next) := by
  have hsym : addrOfLE ((t.fresh.write 0 (t.mem.read s.dynsymAddr 4)).read 0 4) = sym.stName := by
    rw [read_written, h.stName]
  have hfive : Readable t (obj.dynstrAddr + sym.stName) 5 := by
    have := h.readable 0 5 (by omega)
    rwa [BitVec.add_zero] at this
  -- the five bytes are read
  have hstart : ∀ fuel, externTurn t obj version (fuel + 1) s =
      if t.mem.read (obj.dynstrAddr + sym.stName) 5 = ulpPrefix then
        (readStringAllocated t (s.remoteName.write 0 (t.mem.read (obj.dynstrAddr + sym.stName) 5)) 64
          (obj.dynstrAddr + sym.stName + 5) (fuel + 1)).bind (fun (ret, remoteName) =>
            if ret ≠ 0 then some ((1 : Int), s)
            else
              (t.readMemory sizeofSym s.dynsymAddr (t.fresh.write 0 (t.mem.read s.dynsymAddr 4)) (fuel + 1)).map
                (fun (ret, sym) =>
                  if ret ≠ 0 then ((1 : Int), s)
                  else (0, ({ s with remoteName }.compare version (obj.lAddr + addrOfLE (sym.read 8 8))).next)))
      else some (0, { s with remoteName := s.remoteName.write 0 (t.mem.read (obj.dynstrAddr + sym.stName) 5) }.next) := by
    intro fuel
    unfold externTurn
    rw [readMemory_of_readable h.entry.1 (by decide), Option.bind_some]
    simp only [ne_eq, not_true_eq_false, if_false, hsym]
    rw [readMemory_of_readable hfive (by decide), Option.bind_some]
    simp only [not_true_eq_false, if_false, read_written]
  by_cases hp : ∃ rest, sym.name = ulpPrefix ++ rest
  · obtain ⟨rest, hname⟩ := hp
    obtain ⟨h0, hrest, hwords⟩ := h.rest hname
    obtain ⟨buf, hrun, hcmp⟩ := readStringAllocated_spec h0 hrest hwords
      (s.remoteName.write 0 (t.mem.read (obj.dynstrAddr + sym.stName) 5))
    have hrun' : ∀ fuel, readStringAllocated t
        (s.remoteName.write 0 (t.mem.read (obj.dynstrAddr + sym.stName) 5)) 64 (obj.dynstrAddr + sym.stName + 5)
        (fuel + 1) = some (0, buf) := hrun
    have hvalue : ∀ b : Buf, addrOfLE ((b.write 0 (t.mem.read s.dynsymAddr sizeofSym)).read 8 8) = sym.stValue := by
      intro b
      rw [← h.stValue, entry_value]
    refine ⟨buf, fun fuel => ?_⟩
    rw [hstart fuel, if_pos ((prefix_read_iff h.noNul h.name).2 ⟨rest, hname⟩), hrun' fuel, Option.bind_some]
    simp only [ne_eq, not_true_eq_false, if_false]
    rw [readMemory_of_readable h.entry.2 (by decide), Option.map_some]
    simp only [not_true_eq_false, if_false, hvalue]
    rw [Locals.compare_eq_see (s := { s with remoteName := buf }) hname hcmp]
  · refine ⟨s.remoteName.write 0 (t.mem.read (obj.dynstrAddr + sym.stName) 5), fun fuel => ?_⟩
    rw [hstart fuel, if_neg (fun heq => hp ((prefix_read_iff h.noNul h.name).1 heq)), Locals.see_of_no_prefix hp]

/-! ## The loop -/

/-- The symbol with a name. -/
def named (syms : List TableSym) (name : List Byte) : Option TableSym := syms.find? (fun s => decide (s.name = name))

theorem named_eq_none {syms : List TableSym} {name : List Byte} (h : ∀ s ∈ syms, s.name ≠ name) :
    named syms name = none := by
  unfold named
  rw [List.find?_eq_none]
  intro s hs
  simpa using h s hs

/-- The address a field gets. -/
def addrOf (lAddr : Addr) (syms : List TableSym) (f : Entry) : Addr :=
  ((named syms f.name).map (fun s => lAddr + s.stValue)).getD 0

/-- **What the symbols seen so far have left**: their addresses, and a bit only for what was among them. -/
structure Seen (lAddr : Addr) (syms : List TableSym) (e : Externs) (bitfield : BitVec 32) : Prop where
  addr       : ∀ f, e.addr f = addrOf lAddr syms f
  version    : (∀ s ∈ syms, s.name ≠ versionName) → e.libpulpVersion = 0
  bit        : ∀ f : Entry, bitfield.getLsbD f.bit = true → ∃ s ∈ syms, s.name = f.name
  versionBit : bitfield.getLsbD ExternSymbols.versionBit = true → ∃ s ∈ syms, s.name = versionName

theorem named_append_of_ne {syms : List TableSym} {s : TableSym} {name : List Byte} (h : s.name ≠ name) :
    named (syms ++ [s]) name = named syms name := by
  unfold named
  rw [List.find?_append, List.find?_cons_of_neg (by simpa using h), List.find?_nil, Option.or_none]

theorem named_append_self {syms : List TableSym} {s : TableSym} (h : ∀ s' ∈ syms, s'.name ≠ s.name) :
    named (syms ++ [s]) s.name = some s := by
  have hnone := named_eq_none h
  unfold named at hnone ⊢
  rw [List.find?_append, hnone, Option.none_or, List.find?_cons_of_pos (by simp)]

theorem getLsbD_or_bit {b : BitVec 32} {k i : Nat} (h : (b ||| 1#32 <<< k).getLsbD i = true) :
    i = k ∨ b.getLsbD i = true := by
  rw [BitVec.getLsbD_or, Bool.or_eq_true, BitVec.getLsbD_shiftLeft] at h
  rcases h with h | h
  · exact Or.inr h
  · simp only [Bool.and_eq_true, decide_eq_true_eq, Bool.not_eq_true', decide_eq_false_iff_not, BitVec.getLsbD_one] at h
    omega

/-- **One symbol more**, of another name than those before. -/
theorem Seen.see (version : Addr → BitVec 64) {lAddr : Addr} {syms : List TableSym} {s : Locals} {sym : TableSym}
    (h : Seen lAddr syms s.externs s.bitfield) (hnew : ∀ s' ∈ syms, s'.name ≠ sym.name) :
    Seen lAddr (syms ++ [sym]) (s.see version lAddr sym).externs (s.see version lAddr sym).bitfield := by
  have hlift : ∀ {name : List Byte}, (∃ s ∈ syms, s.name = name) → ∃ s ∈ syms ++ [sym], s.name = name :=
    fun ⟨s, hs, hn⟩ => ⟨s, List.mem_append_left _ hs, hn⟩
  have hself : sym ∈ syms ++ [sym] := List.mem_append_right _ List.mem_cons_self
  unfold Locals.see
  cases hf : Entry.all.find? (fun f => decide (sym.name = f.name)) with
  | some f =>
    have hname : sym.name = f.name := by simpa using List.find?_some hf
    refine ⟨fun g => ?_, fun hno => ?_, fun g hg => ?_, fun hv => ?_⟩
    · simp only [Externs.addr_store]
      by_cases hg : f = g
      · rw [if_pos hg, addrOf, ← hg, ← hname, named_append_self hnew]
        rfl
      · have hne : sym.name ≠ g.name := fun h0 => hg (Entry.name_inj (hname.symm.trans h0))
        rw [if_neg hg, h.addr g, addrOf, addrOf, named_append_of_ne hne]
    · simp only [Externs.libpulpVersion_store]
      exact h.version (fun s hs => hno s (List.mem_append_left _ hs))
    · rcases getLsbD_or_bit hg with heq | hold
      · rw [Entry.bit_inj heq]
        exact ⟨sym, hself, hname⟩
      · exact hlift (h.bit g hold)
    · rcases getLsbD_or_bit hv with heq | hold
      · exact absurd heq (Nat.ne_of_gt f.bit_lt)
      · exact hlift (h.versionBit hold)
  | none =>
    have hne : ∀ g : Entry, sym.name ≠ g.name := fun g heq =>
      List.find?_eq_none.1 hf g g.mem_all (decide_eq_true heq)
    have haddr : ∀ g : Entry, s.externs.addr g = addrOf lAddr (syms ++ [sym]) g := fun g => by
      rw [h.addr g, addrOf, addrOf, named_append_of_ne (hne g)]
    simp only
    by_cases hv : sym.name = versionName
    · rw [if_pos hv]
      refine ⟨haddr, fun hno => absurd hv (hno sym hself), fun g hg => ?_, fun _ => ⟨sym, hself, hv⟩⟩
      rcases getLsbD_or_bit hg with heq | hold
      · exact absurd heq (Nat.ne_of_lt g.bit_lt)
      · exact hlift (h.bit g hold)
    · rw [if_neg hv]
      exact ⟨haddr, fun hno => h.version (fun s hs => hno s (List.mem_append_left _ hs)), fun g hg => hlift (h.bit g hg),
        fun hb => hlift (h.versionBit hb)⟩

/-- The fields when the loop is over. -/
structure Final (lAddr : Addr) (syms : List TableSym) (e : Externs) : Prop where
  addr    : ∀ f, e.addr f = addrOf lAddr syms f
  version : (∀ s ∈ syms, s.name ≠ versionName) → e.libpulpVersion = 0

/-- **With all bits set nothing is missed**: every symbol was seen, and there is no second one. -/
theorem Seen.final_of_full {lAddr : Addr} {syms : List TableSym} {e : Externs} (h : Seen lAddr syms e 0x7FF)
    (rest : List TableSym) : Final lAddr (syms ++ rest) e := by
  constructor
  · intro f
    have hbit : (0x7FF : BitVec 32).getLsbD f.bit = true := by
      cases f <;> decide
    obtain ⟨s, hs, hname⟩ := h.bit f hbit
    have hsome : (syms.find? (fun s => decide (s.name = f.name))).isSome = true :=
      List.find?_isSome.2 ⟨s, hs, decide_eq_true hname⟩
    rw [h.addr f, addrOf, addrOf, named, named, List.find?_append, Option.or_of_isSome hsome]
  · intro hno
    obtain ⟨s, hs, hname⟩ := h.versionBit (by decide)
    exact absurd hname (hno s (List.mem_append_left _ hs))

/-- **The whole loop**, on the symbols that are left. -/
theorem externLoop_spec (version : Addr → BitVec 64) : ∀ (left seen : List TableSym) (s : Locals),
    HoldsFrom t obj s.dynsymAddr left → ((seen ++ left).map TableSym.name).Nodup →
    Seen obj.lAddr seen s.externs s.bitfield →
    ∃ e, (∀ fuel, externLoop t obj version (fuel + 1) left.length s = some (0, e)) ∧ Final obj.lAddr (seen ++ left) e
  | [], seen, s, _, _, h                  => ⟨s.externs, fun _ => rfl, by
      rw [List.append_nil]
      exact ⟨h.addr, h.version⟩⟩
  | sym :: left, seen, s, hholds, hd, h => by
    obtain ⟨buf, hturn⟩ := externTurn_eq version hholds.1
    have hnew : ∀ s' ∈ seen, s'.name ≠ sym.name := by
      intro s' hs' heq
      rw [List.map_append, List.map_cons] at hd
      exact (List.nodup_append.1 hd).2.2 s'.name (List.mem_map_of_mem hs') sym.name List.mem_cons_self heq
    have hsee := Seen.see version (s := { s with remoteName := buf }) h hnew
    rw [show seen ++ sym :: left = (seen ++ [sym]) ++ left by simp] at hd ⊢
    have hrun : ∀ fuel, externLoop t obj version (fuel + 1) (left.length + 1) s =
        if ({ s with remoteName := buf }.see version obj.lAddr sym).next.bitfield = 0x7FF then
          some (0, ({ s with remoteName := buf }.see version obj.lAddr sym).next.externs)
        else
          externLoop t obj version (fuel + 1) left.length
            ({ s with remoteName := buf }.see version obj.lAddr sym).next := by
      intro fuel
      rw [externLoop, hturn fuel, Option.bind_some]
      simp only [ne_eq, not_true_eq_false, if_false]
    by_cases hfull : ({ s with remoteName := buf }.see version obj.lAddr sym).next.bitfield = 0x7FF
    · have hfull' : ({ s with remoteName := buf }.see version obj.lAddr sym).bitfield = 0x7FF := hfull
      rw [hfull'] at hsee
      exact ⟨_, fun fuel => (hrun fuel).trans (if_pos hfull), hsee.final_of_full left⟩
    · have hnext : HoldsFrom t obj ({ s with remoteName := buf }.see version obj.lAddr sym).next.dynsymAddr left := by
        rw [Locals.next, Locals.see_dynsymAddr]
        exact hholds.2
      obtain ⟨e, he, hfinal⟩ := externLoop_spec version left (seen ++ [sym]) _ hnext hd hsee
      exact ⟨e, fun fuel => ((hrun fuel).trans (if_neg hfull)).trans (he fuel), hfinal⟩

/-! ## The plain lookup -/

/-- **The plain lookup on the symbols that are left.** -/
theorem getSymbolByName_spec (name : List Byte) (fuel : Nat) : ∀ (left : List TableSym) (a : Addr),
    HoldsFrom t obj a left → (∀ s ∈ left, s.name.length / 8 + 2 ≤ fuel) →
    getSymbolByName t obj.dynstrAddr name fuel left.length a =
      some (((named left name).map TableSym.stValue).getD 0)
  | [], _, _, _                   => rfl
  | sym :: left, a, hholds, hfuel => by
    obtain ⟨h, hrest⟩ := hholds
    obtain ⟨f, rfl⟩ : ∃ f, fuel = f + 1 := ⟨fuel - 1, by have := hfuel sym List.mem_cons_self; omega⟩
    have hself := read_written t.fresh t.mem a 0 sizeofSym
    have hsplit : t.mem.read a sizeofSym = t.mem.read a 4 ++ t.mem.read (a + BitVec.ofNat 64 4) 20 :=
      Mem.read_add t.mem 20 4 a
    have hstName : (t.fresh.write 0 (t.mem.read a sizeofSym)).read 0 4 = t.mem.read a 4 := by
      have hhead := (Buf.read_eq_append (hself.trans hsplit)).1
      rwa [Mem.length_read] at hhead
    obtain ⟨words, hread, hcstr⟩ := h.readString (f + 1) (hfuel sym List.mem_cons_self)
    rw [List.length_cons, getSymbolByName, readMemory_of_readable h.entry.2 (by decide), Option.bind_some]
    simp only [ne_eq, not_true_eq_false, if_false]
    rw [hstName, h.stName, hread, Option.bind_some, entry_value, h.stValue]
    simp only [hcstr]
    unfold named
    by_cases hname : sym.name = name
    · rw [if_pos hname, List.find?_cons_of_pos (by simpa using hname)]
      rfl
    · rw [if_neg hname, List.find?_cons_of_neg (by simpa using hname)]
      exact getSymbolByName_spec name (f + 1) left _ hrest (fun s hs => hfuel s (List.mem_cons_of_mem _ hs))

theorem getLoadedSymbolAddr_eq {syms : List TableSym} (h : Holds t obj syms) (hdyn : obj.dynsymAddr ≠ 0)
    (hstr : obj.dynstrAddr ≠ 0) (hne : syms ≠ []) (name : List Byte) (fuel : Nat)
    (hf : ∀ s ∈ syms, s.name.length / 8 + 2 ≤ fuel) :
    getLoadedSymbolAddr t obj name fuel =
      some (((named syms name).map (fun s => if s.stValue ≠ 0 then obj.lAddr + s.stValue else 0)).getD 0) := by
  have hpos : 0 < syms.length := List.length_pos_iff.2 hne
  have hnum : ¬ (obj.dynsymAddr = 0 ∨ obj.dynstrAddr = 0 ∨ obj.numSymbols ≤ 0) := by
    rw [h.count]
    rintro (h0 | h0 | h0)
    · exact hdyn h0
    · exact hstr h0
    · omega
  rw [getLoadedSymbolAddr, if_neg hnum, h.count, Int.toNat_natCast, getSymbolByName_spec name fuel syms _ h.holds hf,
    Option.map_some]
  cases named syms name with
  | none   => rfl
  | some s => rfl

theorem named_of_mem : ∀ {syms : List TableSym} {s : TableSym}, (syms.map TableSym.name).Nodup → s ∈ syms →
    named syms s.name = some s
  | s' :: syms, s, hd, hs => by
    rw [List.map_cons, List.nodup_cons] at hd
    unfold named
    rcases List.mem_cons.1 hs with rfl | hs
    · exact List.find?_cons_of_pos (decide_eq_true rfl)
    · have hne : s'.name ≠ s.name := fun heq => hd.1 (heq ▸ List.mem_map_of_mem hs)
      rw [List.find?_cons_of_neg (by simpa using hne)]
      exact named_of_mem hd.2 hs

theorem enough_fuel (syms : List TableSym) : ∃ n, ∀ fuel ≥ n, 1 ≤ fuel ∧ ∀ s ∈ syms, s.name.length / 8 + 2 ≤ fuel := by
  refine ⟨(syms.map (fun s => s.name.length)).sum + 2, fun fuel hfuel => ⟨by omega, fun s hs => ?_⟩⟩
  have := List.le_sum_of_mem (List.mem_map_of_mem (f := fun s : TableSym => s.name.length) hs)
  omega

/-- **The fast scan agrees with the plain lookup.**  On a table of symbols with different names, the address kept for each
entry symbol that has a value is the one `get_loaded_symbol_addr` returns, and the field of a symbol that the table does
not have stays 0. -/
theorem externs_agree (t : Target) (obj : Dynobj) (version : Addr → BitVec 64) (syms : List TableSym)
    (h : Holds t obj syms) (hd : (syms.map TableSym.name).Nodup) :
    ∃ n e, ∀ fuel ≥ n, getLibpulpExternSymbols t obj version fuel = some (0, e) ∧
      (∀ f : Entry, (∀ s ∈ syms, s.name = f.name → s.stValue ≠ 0 →
          getLoadedSymbolAddr t obj f.name fuel = some (e.addr f)) ∧
        ((∀ s ∈ syms, s.name ≠ f.name) → e.addr f = 0)) ∧
      ((∀ s ∈ syms, s.name ≠ versionName) → e.libpulpVersion = 0) := by
  obtain ⟨n, hn⟩ := enough_fuel syms
  by_cases hguard : obj.dynsymAddr = 0 ∨ obj.dynstrAddr = 0 ∨ obj.numSymbols ≤ 0
  · refine ⟨n, .zero, fun fuel _ => ⟨if_pos hguard, fun f => ⟨fun s _ _ _ => ?_, fun _ => Externs.addr_zero f⟩,
      fun _ => rfl⟩⟩
    rw [getLoadedSymbolAddr, if_pos hguard, Externs.addr_zero]
  · obtain ⟨hdyn, hrest⟩ := not_or.1 hguard
    obtain ⟨hstr, hnum⟩ := not_or.1 hrest
    have hne : syms ≠ [] := by
      rintro rfl
      exact hnum (by rw [h.count]; rfl)
    have hstart : Seen obj.lAddr [] Externs.zero 0 :=
      ⟨fun f => Externs.addr_zero f, fun _ => rfl, fun f hf => by simp at hf, fun hv => by simp at hv⟩
    obtain ⟨e, hloop, hfinal⟩ := externLoop_spec version syms [] ⟨obj.dynsymAddr, t.fresh, .zero, 0⟩ h.holds
      hd hstart
    rw [List.nil_append] at hfinal
    refine ⟨n, e, fun fuel hfuel => ⟨?_, fun f => ⟨fun s hs hname hvalue => ?_, fun hno => ?_⟩, hfinal.version⟩⟩
    · obtain ⟨k, rfl⟩ : ∃ k, fuel = k + 1 := ⟨fuel - 1, by have := (hn fuel hfuel).1; omega⟩
      rw [getLibpulpExternSymbols, if_neg hguard, h.count, Int.toNat_natCast, hloop k]
    · have hnamed := named_of_mem hd hs
      rw [hname] at hnamed
      rw [getLoadedSymbolAddr_eq h hdyn hstr hne _ _ (hn fuel hfuel).2, hfinal.addr, addrOf, hnamed, Option.map_some,
        Option.map_some, Option.getD_some, Option.getD_some, if_pos hvalue]
    · rw [hfinal.addr, addrOf, named_eq_none hno]
      rfl

/-- A string table with the empty name and `__ulp_state`, and a table of these two symbols. -/
def twoSymbols : Target :=
  ⟨Mem.write (Mem.write (fun _ => 0) 0x1000 (0 :: Entry.state.name)) 0x2018
      (Bytes.toLE 4 1 ++ [0, 0, 0, 0] ++ Bytes.toLE 8 0x30),
    fun _ n => .ok n, fun _ => 0, fun _ => true, 0⟩

theorem externs_agree_two : ∃ n e, ∀ fuel ≥ n,
    getLibpulpExternSymbols twoSymbols ⟨0x70000000, 0x2000, 0x1000, 2⟩ (fun _ => 0) fuel = some (0, e) ∧
    getLoadedSymbolAddr twoSymbols ⟨0x70000000, 0x2000, 0x1000, 2⟩ Entry.state.name fuel = some (e.addr .state) ∧
    e.addr .trigger = 0 := by
  have hsym : ∀ s a, twoSymbols.mem.read (0x1000 + s.stName) (s.name.length + 1) = s.name ++ [0] → (0 : Byte) ∉ s.name →
      addrOfLE (twoSymbols.mem.read a 4) = s.stName → addrOfLE (twoSymbols.mem.read (a + 8) 8) = s.stValue →
      SymAt twoSymbols ⟨0x70000000, 0x2000, 0x1000, 2⟩ a s := fun s a hname h0 hoff hval =>
    ⟨hoff, hval, ⟨rfl, rfl⟩, h0, hname, fun _ _ _ => rfl⟩
  obtain ⟨n, e, h⟩ := externs_agree twoSymbols ⟨0x70000000, 0x2000, 0x1000, 2⟩ (fun _ => 0)
    [⟨0, 0, []⟩, ⟨1, 0x30, Entry.state.name⟩]
    ⟨rfl, hsym _ _ (by decide +kernel) (by decide +kernel) (by decide +kernel) (by decide +kernel),
      hsym _ _ (by decide +kernel) (by decide +kernel) (by decide +kernel) (by decide +kernel), trivial⟩
    (by decide +kernel)
  refine ⟨n, e, fun fuel hfuel => ⟨(h fuel hfuel).1, ?_, ?_⟩⟩
  · exact ((h fuel hfuel).2.1 .state).1 ⟨1, 0x30, Entry.state.name⟩ (by simp) rfl (by decide)
  · exact ((h fuel hfuel).2.1 .trigger).2 (by decide +kernel)

end ExternSymbols
end Libpulp
