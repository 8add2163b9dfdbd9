import Libpulp.Livepatchable
/-!
# Post — the `ulp post` pass on x86_64 (tools/post.c, tools/arch/x86_64/post-arch.c)

The compiler leaves two one-byte NOPs at the entry of a patchable function and lists the start of its padding in
`__patchable_function_entries`.  `ulp post` goes through that list, finds a symbol for each function and turns the pair of
NOPs into one two-byte NOP.  It edits the sections while it goes on, so a later entry is looked at in the edited bytes:
`nopsFixup_eq` says what comes out in terms of the file as it was.
-/
namespace Libpulp
namespace Post

open Bytes (Byte Addr Buf)

structure Sym where
  stValue  : Addr
  stShndx  : Nat

/-- A section with data; behind its `size` bytes `data` goes on with whatever follows the buffer of `libelf`. -/
structure Section where
  shAddr : Addr
  size   : Nat
  data   : Buf

/-- The file as `libelf` has it in memory: the list of patchable functions, the two symbol tables if they are there, and
the sections that hold the functions, by index.  No two indices share their data. -/
structure Elf where
  patchableFunctionEntries : Option (List Addr)
  symtab                   : Option (List Sym)
  dynsym                   : Option (List Sym)
  sections                 : Nat → Option Section

/-- The `.symtab` if available, otherwise the `.dynsym`; no symbols without either. -/
def Elf.symbols (e : Elf) : List Sym := (e.symtab.or e.dynsym).getD []

def Section.set (scn : Section) (i : Nat) (b : Byte) : Section := { scn with data := Function.update scn.data i b }

/-- The function starts with `endbr64`. -/
def Section.endbr64 (scn : Section) (offset : Nat) : Bool := scn.data.read offset 4 == insnEndbr64

/-- `func_addr`, as an offset into the section, once the `endbr64` is skipped. -/
def Section.funcAddr (scn : Section) (offset : Nat) : Nat := if scn.endbr64 offset then offset + 4 else offset

/-- The assertion that the instruction is a NOP. -/
def Section.isNop (scn : Section) (i : Nat) : Bool :=
  scn.data (i + 1) == 0x90 && (scn.data i == 0x90 || scn.data i == 0x66)

/-- `merge_nops_at_addr`; `none` when an assertion fails. -/
def mergeNopsAtAddr (addr : Addr) (amount : Nat) (e : Elf) : Option Elf :=
  if amount < 2 then some e
  else if 2 < amount then some e
  else
    match e.symbols.find? (·.stValue == addr) with
    | none     => some e
    | some sym =>
      match e.sections sym.stShndx with
      | none     => none
      | some scn =>
        let funcAddr := scn.funcAddr (addr - scn.shAddr).toNat
        if scn.isNop funcAddr then
          some { e with sections := Function.update e.sections sym.stShndx (some (scn.set funcAddr 0x66)) }
        else none

/-- The loop of `nops_fixup`. -/
def nopsFixupFrom : List Addr → Elf → Option Elf
  | [], e            => some e
  | addr :: addrs, e =>
    (mergeNopsAtAddr (addr + BitVec.ofNat 64 preNopsLen) (ulpNopsLen - preNopsLen) e).bind (nopsFixupFrom addrs)

def nopsFixup (e : Elf) : Option Elf :=
  match e.patchableFunctionEntries with
  | none       => some e
  | some addrs => nopsFixupFrom addrs e

/-! ## Where the functions lie -/

/-- The function at an address: the section of the first symbol there and the offset in it. -/
structure Place where
  shndx  : Nat
  scn    : Section
  offset : Nat

def Elf.place (e : Elf) (addr : Addr) : Option Place :=
  (e.symbols.find? (·.stValue == addr)).bind (fun sym =>
    (e.sections sym.stShndx).map (fun scn => ⟨sym.stShndx, scn, (addr - scn.shAddr).toNat⟩))

/-- The addresses of the functions that are listed. -/
def Elf.functions (e : Elf) : List Addr :=
  (e.patchableFunctionEntries.getD []).map (fun addr => addr + BitVec.ofNat 64 preNopsLen)

/-- The number of bytes at the entry of a function, the `endbr64` included. -/
def Section.entryLength (scn : Section) (offset : Nat) : Nat := if scn.endbr64 offset then 6 else 2

/-- **Every symbol of a listed function is defined in the section that contains the function, and the entry bytes of
distinct functions do not overlap.** -/
structure Elf.WellPlaced (e : Elf) : Prop where
  inside : ∀ sym ∈ e.symbols, sym.stValue ∈ e.functions →
    ∃ scn, e.sections sym.stShndx = some scn ∧ (sym.stValue - scn.shAddr).toNat < scn.size
  apart  : ∀ sym ∈ e.symbols, ∀ sym' ∈ e.symbols, sym.stValue ∈ e.functions → sym'.stValue ∈ e.functions →
    sym.stShndx = sym'.stShndx → sym.stValue ≠ sym'.stValue → ∀ scn, e.sections sym.stShndx = some scn →
    (sym.stValue - scn.shAddr).toNat + scn.entryLength (sym.stValue - scn.shAddr).toNat ≤
        (sym'.stValue - scn.shAddr).toNat ∨
      (sym'.stValue - scn.shAddr).toNat + scn.entryLength (sym'.stValue - scn.shAddr).toNat ≤
        (sym.stValue - scn.shAddr).toNat

/-- The byte that is changed for a function. -/
def Place.site (p : Place) : Nat × Nat := (p.shndx, p.scn.funcAddr p.offset)

/-- The function passes the assertion. -/
def Place.ok (p : Place) : Bool := p.scn.isNop (p.scn.funcAddr p.offset)

/-- The byte is changed for one of the functions. -/
def Elf.marked (e : Elf) (addrs : List Addr) (k i : Nat) : Bool :=
  addrs.any (fun addr => (e.place addr).any (fun p => p.site == (k, i)))

/-- The section with the NOPs of the given functions merged. -/
def Elf.mergedSection (e : Elf) (addrs : List Addr) (k : Nat) (scn : Section) : Section :=
  { scn with data := fun i => if e.marked addrs k i then 0x66 else scn.data i }

def Elf.merged (e : Elf) (addrs : List Addr) : Elf :=
  { e with sections := fun k => (e.sections k).map (e.mergedSection addrs k) }

theorem place_eq_some {e : Elf} {addr : Addr} {p : Place} (h : e.place addr = some p) :
    ∃ sym ∈ e.symbols, e.symbols.find? (·.stValue == addr) = some sym ∧ sym.stValue = addr ∧ sym.stShndx = p.shndx ∧
      e.sections p.shndx = some p.scn ∧ p.offset = (addr - p.scn.shAddr).toNat := by
  obtain ⟨sym, hsym, h⟩ := Option.bind_eq_some_iff.1 h
  obtain ⟨scn, hscn, rfl⟩ := Option.map_eq_some_iff.1 h
  exact ⟨sym, List.mem_of_find?_eq_some hsym, hsym, by simpa using List.find?_some hsym, rfl, hscn, rfl⟩

theorem mergeNopsAtAddr_at {e : Elf} {addr : Addr} {p : Place} (h : e.place addr = some p) :
    mergeNopsAtAddr addr 2 e =
      if p.ok then some { e with sections := Function.update e.sections p.shndx (some (p.scn.set p.site.2 0x66)) }
      else none := by
  obtain ⟨sym, -, hfind, -, hk, hscn, ho⟩ := place_eq_some h
  unfold mergeNopsAtAddr Place.ok Place.site
  rw [if_neg (by decide), if_neg (by decide), hfind]
  simp only [hk, hscn, ho]

theorem mergeNopsAtAddr_absent {e : Elf} {addr : Addr} (h : e.symbols.find? (·.stValue == addr) = none) :
    mergeNopsAtAddr addr 2 e = some e := by
  unfold mergeNopsAtAddr
  rw [if_neg (by decide), if_neg (by decide), h]

theorem merged_place (e : Elf) (addrs : List Addr) (addr : Addr) :
    (e.merged addrs).place addr =
      (e.place addr).map (fun p => { p with scn := e.mergedSection addrs p.shndx p.scn }) := by
  unfold Elf.place
  rw [Option.map_bind]
  congr 1
  funext sym
  simp only [Elf.merged, Function.comp_apply, Option.map_map]
  rfl

theorem funcAddr_add_two (scn : Section) (o : Nat) : scn.funcAddr o + 2 = o + scn.entryLength o := by
  unfold Section.funcAddr Section.entryLength
  by_cases h : scn.endbr64 o = true <;> simp [h]

theorem le_funcAddr (scn : Section) (o : Nat) : o ≤ scn.funcAddr o := by
  unfold Section.funcAddr
  by_cases h : scn.endbr64 o = true <;> simp [h]

theorem marked_iff {e : Elf} {addrs : List Addr} {k i : Nat} :
    e.marked addrs k i = true ↔ ∃ addr ∈ addrs, ∃ p, e.place addr = some p ∧ p.site = (k, i) := by
  simp [Elf.marked, Option.any_eq_true]

theorem endbr64_iff (scn : Section) (o : Nat) :
    scn.endbr64 o = true ↔ ∀ j (hj : j < insnEndbr64.length), scn.data (o + j) = insnEndbr64[j] := by
  unfold Section.endbr64
  rw [beq_iff_eq]
  constructor
  · intro h j hj
    have hlen : j < (scn.data.read o 4).length := by rw [Bytes.Buf.length_read]; exact hj
    rw [← List.getElem_of_eq h hlen]
    simp [Bytes.Buf.read]
  · intro h
    refine List.ext_getElem (by simp [insnEndbr64]) (fun j hj hj' => ?_)
    rw [← h j hj']
    simp [Bytes.Buf.read]

theorem endbr64_ne_nop : ∀ j (hj : j < insnEndbr64.length), insnEndbr64[j] ≠ 0x66 := by decide

section Run

variable {e : Elf} (he : e.WellPlaced)
include he

theorem entries_apart {addr addr' : Addr} {p p' : Place} (ha : addr ∈ e.functions) (ha' : addr' ∈ e.functions)
    (hp : e.place addr = some p) (hp' : e.place addr' = some p') (hk : p'.shndx = p.shndx) (hne : addr ≠ addr') :
    p.offset + p.scn.entryLength p.offset ≤ p'.offset ∨ p'.offset + p'.scn.entryLength p'.offset ≤ p.offset := by
  obtain ⟨sym, hmem, -, rfl, hs, hscn, ho⟩ := place_eq_some hp
  obtain ⟨sym', hmem', -, rfl, hs', hscn', ho'⟩ := place_eq_some hp'
  have hsame : p'.scn = p.scn := by
    rw [hk, hscn] at hscn'
    exact (Option.some.inj hscn').symm
  rw [ho, ho', hsame]
  exact he.apart sym hmem sym' hmem' ha ha' (by rw [hs, hs', hk]) hne p.scn (by rw [hs]; exact hscn)

/-- **Within the entry bytes of a function only the first NOP is ever changed, and for that function only.** -/
theorem marked_in_entry {addrs : List Addr} (hsub : addrs ⊆ e.functions) {addr : Addr} {p : Place} {i : Nat}
    (ha : addr ∈ e.functions) (hp : e.place addr = some p) (hle : p.offset ≤ i)
    (hlt : i < p.offset + p.scn.entryLength p.offset) (hm : e.marked addrs p.shndx i = true) :
    addr ∈ addrs ∧ i = p.scn.funcAddr p.offset := by
  obtain ⟨addr', ha', p', hp', hsite⟩ := marked_iff.1 hm
  obtain ⟨hk, hi⟩ := Prod.mk.inj hsite
  by_cases heq : addr = addr'
  · subst heq
    rw [hp] at hp'
    obtain rfl := Option.some.inj hp'
    exact ⟨ha', hi.symm⟩
  · exfalso
    have hapart := entries_apart he ha (hsub ha') hp hp' hk heq
    have hfunc := funcAddr_add_two p'.scn p'.offset
    have hbound := le_funcAddr p'.scn p'.offset
    omega

variable {addrs : List Addr} (hsub : addrs ⊆ e.functions) {addr : Addr} {p : Place} (ha : addr ∈ e.functions)
  (hp : e.place addr = some p)
include hsub ha hp

/-- The edits neither remove nor make up an `endbr64`. -/
theorem endbr64_merged : (e.mergedSection addrs p.shndx p.scn).endbr64 p.offset = p.scn.endbr64 p.offset := by
  rw [Bool.eq_iff_iff, endbr64_iff, endbr64_iff]
  constructor
  · intro h j hj
    have hb := h j hj
    by_cases hm : e.marked addrs p.shndx (p.offset + j) = true
    · simp only [Elf.mergedSection, hm, if_true] at hb
      exact absurd hb.symm (endbr64_ne_nop j hj)
    · simpa [Elf.mergedSection, hm] using hb
  · intro h j hj
    have hlen : p.scn.entryLength p.offset = 6 := if_pos ((endbr64_iff _ _).2 h)
    have hfunc : p.scn.funcAddr p.offset = p.offset + 4 := if_pos ((endbr64_iff _ _).2 h)
    have hj4 : j < 4 := hj
    by_cases hm : e.marked addrs p.shndx (p.offset + j) = true
    · have hi := (marked_in_entry he hsub ha hp (Nat.le_add_right _ _) (by omega) hm).2
      omega
    · simpa [Elf.mergedSection, hm] using h j hj

theorem funcAddr_merged :
    (e.mergedSection addrs p.shndx p.scn).funcAddr p.offset = p.scn.funcAddr p.offset := by
  unfold Section.funcAddr
  rw [endbr64_merged he hsub ha hp]

/-- The assertion comes out on the edited bytes as on the original ones. -/
theorem ok_merged (hok : ∀ addr ∈ addrs, ∀ p, e.place addr = some p → p.ok = true) :
    Place.ok { p with scn := e.mergedSection addrs p.shndx p.scn } = p.ok := by
  have hfunc := funcAddr_add_two p.scn p.offset
  have hge : p.offset ≤ p.scn.funcAddr p.offset := le_funcAddr p.scn p.offset
  unfold Place.ok
  rw [funcAddr_merged he hsub ha hp]
  have hsecond : e.marked addrs p.shndx (p.scn.funcAddr p.offset + 1) = false := by
    by_contra hm
    rw [Bool.not_eq_false] at hm
    have hi := (marked_in_entry he hsub ha hp (by omega) (by omega) hm).2
    omega
  by_cases hm : e.marked addrs p.shndx (p.scn.funcAddr p.offset) = true
  · -- the function has been edited already, so it passed then
    have hpok := hok addr (marked_in_entry he hsub ha hp hge (by omega) hm).1 p hp
    have hnop : p.scn.data (p.scn.funcAddr p.offset + 1) = 0x90 := by
      simp only [Place.ok, Section.isNop, Bool.and_eq_true, beq_iff_eq] at hpok
      exact hpok.1
    rw [Place.ok] at hpok
    rw [hpok]
    simp [Section.isNop, Elf.mergedSection, hm, hsecond, hnop]
  · simp [Section.isNop, Elf.mergedSection, hm, hsecond]

end Run

theorem marked_append (e : Elf) (addrs addrs' : List Addr) (k i : Nat) :
    e.marked (addrs ++ addrs') k i = (e.marked addrs k i || e.marked addrs' k i) := by
  simp [Elf.marked]

theorem merged_append {e : Elf} (addrs : List Addr) {addr : Addr} {p : Place} (hp : e.place addr = some p) :
    Function.update (e.merged addrs).sections p.shndx
      (some ((e.mergedSection addrs p.shndx p.scn).set p.site.2 0x66)) = (e.merged (addrs ++ [addr])).sections := by
  obtain ⟨-, -, -, -, -, hscn, -⟩ := place_eq_some hp
  have hmark : ∀ k i, e.marked [addr] k i = true ↔ p.site = (k, i) := by
    intro k i
    simp [Elf.marked, hp]
  funext k
  simp only [Elf.merged]
  by_cases hk : k = p.shndx
  · subst hk
    rw [Function.update_self, hscn, Option.map_some, Section.set]
    unfold Elf.mergedSection
    congr 2
    funext i
    rw [marked_append]
    by_cases hi : i = p.site.2
    · have h1 : e.marked [addr] p.shndx i = true := (hmark _ _).2 (by rw [hi]; rfl)
      rw [hi, Function.update_self, ← hi, h1, Bool.or_true, if_pos rfl]
    · have h0 : e.marked [addr] p.shndx i = false := by
        rw [Bool.eq_false_iff, ne_eq, hmark]
        intro h
        exact hi (by rw [h])
      rw [Function.update_of_ne hi, h0, Bool.or_false]
  · have h0 : ∀ i, e.marked [addr] k i = false := by
      intro i
      rw [Bool.eq_false_iff, ne_eq, hmark]
      intro h
      exact hk (Prod.mk.inj h).1.symm
    rw [Function.update_of_ne hk]
    unfold Elf.mergedSection
    simp only [marked_append, h0, Bool.or_false]

theorem merged_append_absent {e : Elf} (addrs : List Addr) {addr : Addr} (hp : e.place addr = none) :
    e.merged (addrs ++ [addr]) = e.merged addrs := by
  have h0 : ∀ k i, e.marked [addr] k i = false := by
    intro k i
    simp [Elf.marked, hp]
  unfold Elf.merged Elf.mergedSection
  simp only [marked_append, h0, Bool.or_false]

theorem merged_nil (e : Elf) : e.merged [] = e := by
  have h0 : ∀ k, e.mergedSection [] k = id := fun k => rfl
  unfold Elf.merged
  simp only [h0, Option.map_id]
  rfl

/-- **The next entry, looked at in the edited file.** -/
theorem mergeNopsAtAddr_merged {e : Elf} (he : e.WellPlaced) {addrs : List Addr} (hsub : addrs ⊆ e.functions)
    (hok : ∀ addr ∈ addrs, ∀ p, e.place addr = some p → p.ok = true) {addr : Addr} (ha : addr ∈ e.functions) :
    mergeNopsAtAddr addr 2 (e.merged addrs) =
      if (e.place addr).all Place.ok then some (e.merged (addrs ++ [addr])) else none := by
  by_cases hfind : e.symbols.find? (·.stValue == addr) = none
  · have hp : e.place addr = none := by rw [Elf.place, hfind]; rfl
    have habsent : mergeNopsAtAddr addr 2 (e.merged addrs) = some (e.merged addrs) := mergeNopsAtAddr_absent hfind
    rw [habsent, hp, merged_append_absent addrs hp]
    rfl
  · obtain ⟨sym, hsym⟩ := Option.ne_none_iff_exists'.1 hfind
    have hval : sym.stValue = addr := by simpa using List.find?_some hsym
    obtain ⟨scn, hscn, -⟩ := he.inside sym (List.mem_of_find?_eq_some hsym) (by rw [hval]; exact ha)
    obtain ⟨p, hp⟩ : ∃ p, e.place addr = some p := ⟨_, by rw [Elf.place, hsym, Option.bind_some, hscn]; rfl⟩
    have hpm : (e.merged addrs).place addr = some { p with scn := e.mergedSection addrs p.shndx p.scn } := by
      rw [merged_place, hp]
      rfl
    rw [mergeNopsAtAddr_at hpm, ok_merged he hsub ha hp hok, hp, Option.all_some]
    by_cases hpok : p.ok = true
    · have hsite : Place.site { p with scn := e.mergedSection addrs p.shndx p.scn } = p.site := by
        rw [Place.site, Place.site, funcAddr_merged he hsub ha hp]
      rw [if_pos hpok, if_pos hpok, hsite, merged_append addrs hp]
      rfl
    · rw [if_neg hpok, if_neg hpok]

theorem nopsFixupFrom_merged {e : Elf} (he : e.WellPlaced) : ∀ (rest addrs : List Addr),
    addrs ⊆ e.functions → (∀ addr ∈ rest, addr + BitVec.ofNat 64 preNopsLen ∈ e.functions) →
    (∀ addr ∈ addrs, ∀ p, e.place addr = some p → p.ok = true) →
    nopsFixupFrom rest (e.merged addrs) =
      if (rest.map (· + BitVec.ofNat 64 preNopsLen)).all (fun addr => (e.place addr).all Place.ok) then
        some (e.merged (addrs ++ rest.map (· + BitVec.ofNat 64 preNopsLen)))
      else none
  | [], addrs, _, _, _             => by simp [nopsFixupFrom]
  | addr :: rest, addrs, hsub, hr, hok => by
    have ha := hr addr List.mem_cons_self
    rw [nopsFixupFrom, show ulpNopsLen - preNopsLen = 2 from rfl, mergeNopsAtAddr_merged he hsub hok ha]
    by_cases hpok : (e.place (addr + BitVec.ofNat 64 preNopsLen)).all Place.ok = true
    · rw [if_pos hpok, Option.bind_some]
      have hsub' : addrs ++ [addr + BitVec.ofNat 64 preNopsLen] ⊆ e.functions :=
        List.append_subset.2 ⟨hsub, List.cons_subset.2 ⟨ha, List.nil_subset _⟩⟩
      have hok' : ∀ a ∈ addrs ++ [addr + BitVec.ofNat 64 preNopsLen], ∀ p, e.place a = some p → p.ok = true := by
        intro a hmem p hp
        rcases List.mem_append.1 hmem with hold | hnew
        · exact hok a hold p hp
        · rw [List.mem_singleton.1 hnew] at hp
          rw [hp] at hpok
          exact hpok
      rw [nopsFixupFrom_merged he rest _ hsub' (fun a h => hr a (List.mem_cons_of_mem _ h)) hok']
      simp [hpok]
    · rw [if_neg hpok]
      simp [hpok]

/-- **The pass aborts if a listed function does not pass the assertion, and else merges the NOPs of all of them**, those
of some of them for the second time. -/
theorem nopsFixup_merged {e : Elf} (he : e.WellPlaced) {addrs : List Addr} (hsub : addrs ⊆ e.functions)
    (hok : ∀ addr ∈ addrs, ∀ p, e.place addr = some p → p.ok = true) :
    nopsFixup (e.merged addrs) =
      if e.functions.all (fun addr => (e.place addr).all Place.ok) then some (e.merged (addrs ++ e.functions))
      else none := by
  unfold nopsFixup
  cases hentries : e.patchableFunctionEntries with
  | none => simp [Elf.merged, Elf.functions, hentries]
  | some rest =>
    have hfun : e.functions = rest.map (· + BitVec.ofNat 64 preNopsLen) := by
      rw [Elf.functions, hentries, Option.getD_some]
    have hmem : ∀ addr ∈ rest, addr + BitVec.ofNat 64 preNopsLen ∈ e.functions := by
      intro addr h
      rw [hfun]
      exact List.mem_map_of_mem h
    have hm : (e.merged addrs).patchableFunctionEntries = some rest := hentries
    rw [hm, hfun]
    exact nopsFixupFrom_merged he rest addrs hsub hmem hok

theorem nopsFixup_eq {e : Elf} (he : e.WellPlaced) :
    nopsFixup e =
      if e.functions.all (fun addr => (e.place addr).all Place.ok) then some (e.merged e.functions) else none := by
  have h := nopsFixup_merged he (List.nil_subset e.functions) (fun _ h => by cases h)
  rw [merged_nil, List.nil_append] at h
  exact h

theorem all_ok_iff (e : Elf) :
    e.functions.all (fun addr => (e.place addr).all Place.ok) = true ↔
      ∀ addr ∈ e.functions, ∀ p, e.place addr = some p → p.ok = true := by
  simp [Option.all_eq_true]

theorem merged_twice (e : Elf) (addrs : List Addr) : e.merged (addrs ++ addrs) = e.merged addrs := by
  unfold Elf.merged Elf.mergedSection
  simp only [marked_append, Bool.or_self]

/-! ## The functions in a process -/

/-- The process has the entry bytes of the function at `f`. -/
def Shows (mem : Bytes.Mem) (f : Addr) (scn : Section) (offset : Nat) : Prop :=
  ∀ i < 6, mem (f + BitVec.ofNat 64 i) = scn.data (offset + i)

theorem hasEndbr64_eq {mem : Bytes.Mem} {f : Addr} {scn : Section} {o : Nat} (h : Shows mem f scn o) :
    hasEndbr64 mem f = scn.endbr64 o := by
  have hread : mem.read f 4 = scn.data.read o 4 := by
    refine List.ext_getElem (by simp) (fun i hi hi' => ?_)
    have h4 : i < 4 := by simpa using hi
    rw [Bytes.Mem.getElem_read, h i (by omega)]
    simp [Bytes.Buf.read]
  rw [hasEndbr64, hread, Section.endbr64]

theorem nopEntry_eq {mem : Bytes.Mem} {f : Addr} {scn : Section} {o : Nat} (h : Shows mem f scn o) :
    nopEntry mem f = scn.isNop (scn.funcAddr o) := by
  rw [nopEntry, hasEndbr64_eq h, Section.isNop, Section.funcAddr]
  by_cases hb : scn.endbr64 o = true
  · have h4 : mem (f + entryBias true) = scn.data (o + 4) := h 4 (by decide)
    have h5 : mem (f + entryBias true + 1) = scn.data (o + 4 + 1) := by
      rw [Nat.add_assoc, ← h 5 (by decide), BitVec.add_assoc]
      rfl
    rw [hb, if_pos rfl, h4, h5]
  · rw [Bool.not_eq_true] at hb
    have h0 : mem f = scn.data o := by simpa using h 0 (by decide)
    rw [hb, if_neg Bool.false_ne_true, entryBias_false, h0, ← h 1 (by decide)]
    rfl

/-- The bytes of a section. -/
def Elf.byte (e : Elf) (k i : Nat) : Option Byte := (e.sections k).map (fun scn => scn.data i)

/-- The file once `run_post` is done with it: it is written at the end, and not at all if an assertion has failed. -/
def runPost (e : Elf) : Elf := (nopsFixup e).getD e

/-- **The two files differ in at most one byte for each listed function: the first byte of its pair of NOPs, in the
section of a symbol at its address, is `66` where it was `90`.** -/
structure MergedOnly (e e' : Elf) : Prop where
  entries : e'.patchableFunctionEntries = e.patchableFunctionEntries
  symtab  : e'.symtab = e.symtab
  dynsym  : e'.dynsym = e.dynsym
  layout  : ∀ k, (e'.sections k).map (fun scn => (scn.shAddr, scn.size)) =
    (e.sections k).map (fun scn => (scn.shAddr, scn.size))
  changed : ∃ site : Addr → Option (Nat × Nat), ∀ k i, e'.byte k i ≠ e.byte k i → ∃ addr ∈ e.functions,
    site addr = some (k, i) ∧ e.byte k i = some 0x90 ∧ e.byte k (i + 1) = some 0x90 ∧ e'.byte k i = some 0x66 ∧
    ∃ sym ∈ e.symbols, ∃ scn, sym.stValue = addr ∧ sym.stShndx = k ∧ e.sections k = some scn ∧
      (addr - scn.shAddr).toNat < scn.size ∧ i = scn.funcAddr (addr - scn.shAddr).toNat

theorem merged_byte (e : Elf) (addrs : List Addr) (k i : Nat) :
    (e.merged addrs).byte k i = if e.marked addrs k i then (e.byte k i).map (fun _ => 0x66) else e.byte k i := by
  unfold Elf.byte Elf.merged Elf.mergedSection
  rw [Option.map_map, Option.map_map]
  by_cases hm : e.marked addrs k i = true <;> simp [hm, Function.comp_def]

theorem isNop_iff (scn : Section) (i : Nat) :
    scn.isNop i = true ↔ scn.data (i + 1) = 0x90 ∧ (scn.data i = 0x90 ∨ scn.data i = 0x66) := by
  simp [Section.isNop]

theorem merged_mergedOnly {e : Elf} (he : e.WellPlaced)
    (hok : ∀ addr ∈ e.functions, ∀ p, e.place addr = some p → p.ok = true) : MergedOnly e (e.merged e.functions) := by
  refine ⟨rfl, rfl, rfl, fun k => ?_, fun addr => (e.place addr).map Place.site, fun k i hne => ?_⟩
  · simp only [Elf.merged, Option.map_map]
    rfl
  · rw [merged_byte] at hne ⊢
    by_cases hm : e.marked e.functions k i = true
    · obtain ⟨addr, ha, p, hp, hsite⟩ := marked_iff.1 hm
      obtain ⟨sym, hmem, -, rfl, hk, hscn, ho⟩ := place_eq_some hp
      obtain ⟨rfl, rfl⟩ := Prod.mk.inj hsite
      obtain ⟨scn, hscn', hlt⟩ := he.inside sym hmem ha
      rw [hk, hscn] at hscn'
      obtain rfl := Option.some.inj hscn'
      obtain ⟨hsecond, hfirst⟩ := (isNop_iff _ _).1 (hok _ ha p hp)
      rw [if_pos hm, Elf.byte, hscn] at hne ⊢
      -- a byte that was 66 is not changed
      have h90 : p.scn.data (p.scn.funcAddr p.offset) = 0x90 := by
        rcases hfirst with h | h
        · exact h
        · rw [Option.map_some, Option.map_some, h] at hne
          exact absurd rfl hne
      refine ⟨sym.stValue, ha, by simp only [hp, Option.map_some, hsite], congrArg some h90, ?_, rfl, sym, hmem, p.scn,
        rfl, hk, rfl, hlt, by rw [ho]⟩
      rw [Elf.byte, hscn]
      exact congrArg some hsecond
    · rw [if_neg hm] at hne
      exact absurd rfl hne

/-- A function that passes the assertion is taken by libpulp. -/
theorem ulpPatchAddr_of_ok {p : Place} {s : State} {f : Addr} (hok : p.ok = true) (h : Shows s.mem f p.scn p.offset)
    (newFaddr : Addr) (enable : Bool) : (ulpPatchAddr f newFaddr enable s).1 = ENONE := by
  rw [ulpPatchAddr_eq_zero, nopEntry_eq h]
  exact Or.inr hok

/-- **The pass aborts with the file as it was, or changes at most one byte for each listed function, from `90` to `66`;
done once more it changes nothing; and libpulp takes every function it went through as before, with the same template.** -/
theorem nopsFixup_preserves (e : Elf) (he : e.WellPlaced) :
    (nopsFixup e = none ∧ runPost e = e) ∨ ∃ e', nopsFixup e = some e' ∧ runPost e = e' ∧ MergedOnly e e' ∧
      nopsFixup e' = some e' ∧
      ∀ addr ∈ e.functions, ∀ sym, e.symbols.find? (·.stValue == addr) = some sym →
        ∃ scn scn', e.sections sym.stShndx = some scn ∧ e'.sections sym.stShndx = some scn' ∧
          ∀ (s s' : State) (f newFaddr : Addr) (enable : Bool), Shows s.mem f scn (addr - scn.shAddr).toNat →
            Shows s'.mem f scn' (addr - scn.shAddr).toNat →
            (ulpPatchAddr f newFaddr enable s).1 = ENONE ∧ (ulpPatchAddr f newFaddr enable s').1 = ENONE ∧
              hasEndbr64 s'.mem f = hasEndbr64 s.mem f := by
  unfold runPost
  rw [nopsFixup_eq he]
  by_cases hall : e.functions.all (fun addr => (e.place addr).all Place.ok) = true
  · have hok := (all_ok_iff e).1 hall
    have hagain := nopsFixup_merged he (List.Subset.refl _) hok
    rw [if_pos hall, merged_twice] at hagain
    rw [if_pos hall]
    refine Or.inr ⟨e.merged e.functions, rfl, rfl, merged_mergedOnly he hok, hagain, fun addr ha sym hsym => ?_⟩
    have hval : sym.stValue = addr := by simpa using List.find?_some hsym
    obtain ⟨scn, hscn, -⟩ := he.inside sym (List.mem_of_find?_eq_some hsym) (by rw [hval]; exact ha)
    have hp : e.place addr = some ⟨sym.stShndx, scn, (addr - scn.shAddr).toNat⟩ := by
      rw [Elf.place, hsym, Option.bind_some, hscn]
      rfl
    refine ⟨scn, e.mergedSection e.functions sym.stShndx scn, hscn, ?_, fun s s' f newFaddr enable hs hs' => ?_⟩
    · simp only [Elf.merged, hscn, Option.map_some]
    · have hpok := hok addr ha _ hp
      have hpok' := (ok_merged he (List.Subset.refl _) ha hp hok).trans hpok
      refine ⟨ulpPatchAddr_of_ok hpok hs newFaddr enable, ulpPatchAddr_of_ok hpok' hs' newFaddr enable, ?_⟩
      rw [hasEndbr64_eq hs, hasEndbr64_eq hs']
      exact endbr64_merged he (List.Subset.refl _) ha hp
  · rw [if_neg hall]
    exact Or.inl ⟨rfl, rfl⟩

/-- A file with one section, and in it a function with `endbr64` that is listed twice and has two symbols. -/
def demoElf : Elf :=
  { patchableFunctionEntries := some [0x1000, 0x1000], symtab := some [⟨0x100e, 1⟩, ⟨0x100e, 1⟩], dynsym := none
    sections := fun k => if k = 1 then some ⟨0x1000, 32, Buf.write (fun _ => 0x90) 14 insnEndbr64⟩ else none }

theorem demoElf_wellPlaced : demoElf.WellPlaced := by
  refine ⟨?_, ?_⟩
  · intro sym hmem _
    obtain rfl : sym = ⟨0x100e, 1⟩ := by simpa [demoElf, Elf.symbols] using hmem
    exact ⟨_, rfl, by decide⟩
  · intro sym hmem sym' hmem' _ _ _ hne
    obtain rfl : sym = ⟨0x100e, 1⟩ := by simpa [demoElf, Elf.symbols] using hmem
    obtain rfl : sym' = ⟨0x100e, 1⟩ := by simpa [demoElf, Elf.symbols] using hmem'
    exact absurd rfl hne

theorem nopsFixup_preserves_demo :
    demoElf.WellPlaced ∧ ∃ e', nopsFixup demoElf = some e' ∧ e'.byte 1 18 = some 0x66 ∧ MergedOnly demoElf e' ∧
      nopsFixup e' = some e' := by
  refine ⟨demoElf_wellPlaced, ?_⟩
  rcases nopsFixup_preserves demoElf demoElf_wellPlaced with ⟨habort, -⟩ | ⟨e', he', -, hm, hagain, -⟩
  · exact absurd habort (by rw [nopsFixup_eq demoElf_wellPlaced, if_pos (by decide)]; exact Option.some_ne_none _)
  · refine ⟨e', he', ?_, hm, hagain⟩
    rw [nopsFixup_eq demoElf_wellPlaced, if_pos (by decide)] at he'
    rw [← Option.some.inj he']
    decide

end Post
end Libpulp
