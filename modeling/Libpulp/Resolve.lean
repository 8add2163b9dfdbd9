import Libpulp.SymbolLoader
import Libpulp.Outcome
/-!
# Resolve — the address of a function to patch (lib/symbol_loader.c, lib/ulp.c)

`get_loaded_symbol_addr` puts its answer together from what `dl_find_symbol` leaves: the load bias of the object it
stopped at, plus the offset from the metadata or the symbol's value.  When it stops nowhere the bias is still the 0 the
argument was initialised with, so an offset that is not 0 comes back as an address.  `ulp_state_update` then copies the
bytes at that address.
-/
namespace Libpulp

open Bytes (Byte Addr Mem cstr)

namespace Loaded

/-- The object's path contains the name of the library, the program being the empty name. -/
def Matches (l : Loaded) (library : List Byte) (o : LoadedObject) : Prop :=
  strstr o.dlpiName (l.iterateArg library []).library = true

instance (l : Loaded) (library : List Byte) (o : LoadedObject) : Decidable (l.Matches library o) :=
  inferInstanceAs (Decidable (_ = true))

/-- `dl_find_symbol` stops at the object. -/
def Stops (l : Loaded) (library : List Byte) (o : LoadedObject) : Prop :=
  stopsSymbol l.mem l.size (l.iterateArg library []).library o = true

/-- A process in which the lookups of symbols are those in the loaded objects. -/
def env (l : Loaded) (env : Env) : Env := { env with getLoadedSymbolAddr := l.getLoadedSymbolAddr }

end Loaded

/-- The copies of overwritten bytes the unit loop of `ulp_state_update` makes: the position of the unit and the address
read.  The copy is the last step for a unit. -/
def updateReads (env : Env) (ulp : UlpMetadata) (mem : Mem) : Nat → List UlpUnit → List (Nat × Addr)
  | _, []            => []
  | j, unit :: units =>
    if (updateUnit env ulp mem j unit).isSome then
      (j, (unitAddrs env ulp unit).1) :: updateReads env ulp mem (j + 1) units
    else []

def stateUpdateReads (env : Env) (ulp : UlpMetadata) (s : State) : List (Nat × Addr) :=
  if env.calloc .appliedPatch && env.calloc .libName && env.calloc .containerName &&
      (List.range ulp.deps.length).all (fun i => env.calloc (.appliedDep i)) then
    updateReads env ulp s.mem 0 ulp.objs.units
  else []

/-- **No address is invented for the symbol**: an answer other than NULL is the load bias of an object that matches the
library, plus the offset, or plus the symbol's value there if the offset is 0; if none matches the answer is NULL, and
`ulp_state_update` fails on a unit that asks for this and reads nothing through the answer. -/
structure NotInvented (l : Loaded) (library symbol : List Byte) (offset : Addr) : Prop where
  address : l.getLoadedSymbolAddr library symbol offset ≠ 0 → ∃ o ∈ l.objects, l.Matches library o ∧
    (offset ≠ 0 → l.getLoadedSymbolAddr library symbol offset = o.dlpiAddr + offset) ∧
    (offset = 0 → ∃ t sym, o.tables l.mem = some t ∧
      getSymbolByName l.mem t.dynsym t.dynstr t.numSymbols symbol = some sym ∧
      l.getLoadedSymbolAddr library symbol offset = o.dlpiAddr + sym.stValue)
  missing : (∀ o ∈ l.objects, ¬ l.Matches library o) → l.getLoadedSymbolAddr library symbol offset = 0 ∧
    ∀ env ulp s k unit, ulp.objs.units[k]? = some unit → getBasename (cstr ulp.objs.name) = library →
      cstr unit.oldFname = symbol → unit.oldFaddr = offset →
        ulpStateUpdate (l.env env) ulp s = none ∧ ∀ a, (k, a) ∉ stateUpdateReads (l.env env) ulp s

/-! ## What the iteration leaves -/

/-- An object that does not stop the callback leaves the bias, and no symbol. -/
theorem dlFindSymbol_pass {mem : Mem} {size : Nat} {o : LoadedObject} {args : DlIterateArg}
    (h : stopsSymbol mem size args.library o = false) (ha : args.symbolAddr = 0) :
    (dlFindSymbol mem size o args).2.biasAddr = args.biasAddr ∧ (dlFindSymbol mem size o args).2.symbolAddr = 0 := by
  have hstop := (dlFindSymbol_stopRule mem size args.library).stops o args rfl
  rw [h] at hstop
  unfold dlFindSymbol at hstop ⊢
  simp only at hstop ⊢
  split
  · exact ⟨rfl, ha⟩
  split
  · exact ⟨rfl, rfl⟩
  split
  · exact ⟨rfl, rfl⟩
  cases ht : o.tables mem with
  | none => exact ⟨rfl, rfl⟩
  | some t =>
    rename_i h₁ h₂ h₃
    rw [if_neg h₁, if_neg h₂, if_neg h₃, ht] at hstop
    simp only at hstop
    split at hstop <;> cases hstop

theorem dlIteratePhdr_pass {mem : Mem} {size : Nat} {library : List Byte} :
    ∀ (objects : List LoadedObject) (args : DlIterateArg), args.library = library → args.symbolAddr = 0 →
      (∀ o ∈ objects, stopsSymbol mem size library o = false) →
      (dlIteratePhdr (dlFindSymbol mem size) objects args).2.biasAddr = args.biasAddr ∧
        (dlIteratePhdr (dlFindSymbol mem size) objects args).2.symbolAddr = 0
  | [], args, _, ha, _              => ⟨rfl, ha⟩
  | o :: objects, args, hl, ha, hno => by
    have hrule := dlFindSymbol_stopRule mem size library
    have ho := hno o List.mem_cons_self
    obtain ⟨hb, hs⟩ := @dlFindSymbol_pass mem size o args (by rw [hl]; exact ho) ha
    obtain ⟨hb', hs'⟩ := dlIteratePhdr_pass objects (dlFindSymbol mem size o args).2 ((hrule.library o args).trans hl) hs
      (fun o' h' => hno o' (List.mem_cons_of_mem _ h'))
    rw [dlIteratePhdr, hrule.stops o args hl, if_neg (by rw [ho]; decide)]
    exact ⟨hb'.trans hb, hs'⟩

/-- **Where the callback stops nowhere the answer is the offset itself.** -/
theorem getLoadedSymbolAddr_pass {l : Loaded} {library : List Byte} (h : ∀ o ∈ l.objects, ¬ l.Stops library o)
    (symbol : List Byte) (offset : Addr) : l.getLoadedSymbolAddr library symbol offset = offset := by
  obtain ⟨hb, hs⟩ := @dlIteratePhdr_pass l.mem l.size (l.iterateArg library []).library l.objects
    (l.iterateArg library symbol) rfl rfl (fun o ho => by simpa [Loaded.Stops] using h o ho)
  have hb : (l.findSymbol library symbol).2.biasAddr = 0 := hb
  have hs : (l.findSymbol library symbol).2.symbolAddr = 0 := hs
  simp only [Loaded.getLoadedSymbolAddr, hb, hs]
  by_cases ho : offset = 0
  · simp [ho]
  · rw [if_pos ⟨ho, Ne.symm ho⟩]
    exact BitVec.zero_add offset

theorem dlFindSymbol_stop {mem : Mem} {size : Nat} {o : LoadedObject} {args : DlIterateArg}
    (h : stopsSymbol mem size args.library o = true) :
    (dlFindSymbol mem size o args).2.biasAddr = o.dlpiAddr ∧ ∃ t, o.tables mem = some t ∧
      (dlFindSymbol mem size o args).2.symbolAddr =
        ((getSymbolByName mem t.dynsym t.dynstr t.numSymbols args.symbol).map (·.stValue)).getD 0 := by
  simp only [stopsSymbol, stopsBase, Bool.and_eq_true, beq_iff_eq, bne_iff_ne, Option.isSome_iff_exists] at h
  obtain ⟨⟨e₁, e₂, e₃⟩, t, ht⟩ := h
  simp only [dlFindSymbol, e₁, e₂, e₃, ht, ne_eq, not_true_eq_false, if_false, Bool.not_true, Bool.false_eq_true]
  cases hsym : getSymbolByName mem t.dynsym t.dynstr t.numSymbols args.symbol with
  | none => exact ⟨rfl, t, rfl, by simp [hsym]⟩
  | some sym => exact ⟨rfl, t, rfl, by simp [hsym]⟩

/-- **Where it stops the answer is about one of the objects.** -/
theorem findSymbol_stop {l : Loaded} {library : List Byte} (h : ∃ o ∈ l.objects, l.Stops library o) (symbol : List Byte) :
    ∃ o ∈ l.objects, l.Stops library o ∧ (l.findSymbol library symbol).2.biasAddr = o.dlpiAddr ∧
      ∃ t, o.tables l.mem = some t ∧ (l.findSymbol library symbol).2.symbolAddr =
        ((getSymbolByName l.mem t.dynsym t.dynstr t.numSymbols symbol).map (·.stValue)).getD 0 := by
  -- the first object that stops the callback
  obtain ⟨x, hx⟩ : ∃ x, l.objects.find? (stopsSymbol l.mem l.size (l.iterateArg library []).library ·) = some x := by
    rw [← Option.isSome_iff_exists, List.find?_isSome]
    exact h
  obtain ⟨hstop, pre, post, hsplit, hpre⟩ := List.find?_eq_some_iff_append.1 hx
  obtain ⟨args, hl, hs, hdata⟩ := (dlFindSymbol_stopRule l.mem l.size _).data hstop post pre
    (l.iterateArg library symbol) rfl (fun o ho => by simpa using hpre o ho)
  have hfind : (l.findSymbol library symbol).2 = (dlFindSymbol l.mem l.size x args).2 := by
    rw [← hdata, ← hsplit]
    rfl
  rw [← hl] at hstop
  obtain ⟨hb, t, ht, ha⟩ := dlFindSymbol_stop hstop
  rw [hs] at ha
  rw [hl] at hstop
  refine ⟨x, by rw [hsplit]; simp, hstop, ?_, t, ht, ?_⟩
  · rw [hfind, hb]
  · rw [hfind, ha]
    rfl

theorem Loaded.Stops.matches {l : Loaded} {library : List Byte} {o : LoadedObject} (h : l.Stops library o) :
    l.Matches library o := by
  simp only [Loaded.Stops, stopsSymbol, stopsBase, Bool.and_eq_true] at h
  exact h.1.2.2

/-! ## What `ulp_state_update` does with the answer -/

theorem updateReads_missing {env : Env} {ulp : UlpMetadata} {mem : Mem} :
    ∀ (units : List UlpUnit) (j k : Nat) (unit : UlpUnit), units[k]? = some unit → (unitAddrs env ulp unit).1 = 0 →
      ∀ a, (j + k, a) ∉ updateReads env ulp mem j units
  | [], _, _, _, hk, _              => by cases hk
  | u :: units, j, k, unit, hk, h0 => by
    intro a hmem
    rw [updateReads] at hmem
    split at hmem
    · rename_i hu
      cases k with
      | zero =>
        obtain rfl : u = unit := Option.some.inj hk
        exact (updateUnit_isSome.1 hu).2.1 h0
      | succ k =>
        rcases List.mem_cons.1 hmem with heq | hmem
        · have := congrArg Prod.fst heq
          simp at this
        · have hno := @updateReads_missing env ulp mem units (j + 1) k unit (by simpa using hk) h0 a
          rw [show j + 1 + k = j + (k + 1) by omega] at hno
          exact hno hmem
    · cases hmem

theorem stateUpdate_missing {env : Env} {ulp : UlpMetadata} {k : Nat} {unit : UlpUnit}
    (hk : ulp.objs.units[k]? = some unit) (h0 : (unitAddrs env ulp unit).1 = 0) (s : State) :
    ulpStateUpdate env ulp s = none ∧ ∀ a, (k, a) ∉ stateUpdateReads env ulp s := by
  constructor
  · rw [← Option.not_isSome_iff_eq_none, ulpStateUpdate_isSome]
    intro hrec
    exact (hrec.units k unit hk).2.1 h0
  · intro a hmem
    unfold stateUpdateReads at hmem
    split at hmem
    · have hno := @updateReads_missing env ulp s.mem ulp.objs.units 0 k unit hk h0 a
      rw [Nat.zero_add] at hno
      exact hno hmem
    · cases hmem

/-! ## When no address is invented -/

variable {l : Loaded} {library : List Byte}

theorem getLoadedSymbolAddr_offset {symbol : List Byte} {offset : Addr} (hoff : offset ≠ 0) :
    l.getLoadedSymbolAddr library symbol offset = (l.findSymbol library symbol).2.biasAddr + offset := by
  unfold Loaded.getLoadedSymbolAddr
  simp only
  split
  · rfl
  · rename_i hne
    have heq : (l.findSymbol library symbol).2.symbolAddr = offset := by
      by_contra h
      exact hne ⟨hoff, h⟩
    rw [heq, if_neg hoff]

theorem getLoadedSymbolAddr_value {symbol : List Byte} (h : l.getLoadedSymbolAddr library symbol 0 ≠ 0) :
    (l.findSymbol library symbol).2.symbolAddr ≠ 0 ∧ l.getLoadedSymbolAddr library symbol 0 =
      (l.findSymbol library symbol).2.biasAddr + (l.findSymbol library symbol).2.symbolAddr := by
  unfold Loaded.getLoadedSymbolAddr at h ⊢
  simp only [ne_eq, not_true_eq_false, false_and, if_false] at h ⊢
  by_cases h0 : (l.findSymbol library symbol).2.symbolAddr = 0
  · exact absurd (if_pos h0) h
  · exact ⟨h0, if_neg h0⟩

theorem notInvented_stop (h : ∃ o ∈ l.objects, l.Stops library o) (symbol : List Byte) (offset : Addr) :
    NotInvented l library symbol offset := by
  obtain ⟨o, ho, hs, hb, t, ht, ha⟩ := findSymbol_stop h symbol
  refine ⟨fun hr => ⟨o, ho, hs.matches, fun hoff => ?_, ?_⟩, fun hno => absurd hs.matches (hno o ho)⟩
  · rw [getLoadedSymbolAddr_offset hoff, hb]
  · rintro rfl
    obtain ⟨hne, hr⟩ := getLoadedSymbolAddr_value hr
    rw [hr, hb, ha]
    cases hsym : getSymbolByName l.mem t.dynsym t.dynstr t.numSymbols symbol with
    | none =>
      rw [hsym] at ha
      exact absurd ha hne
    | some sym => exact ⟨t, sym, ht, hsym, rfl⟩

theorem notInvented_pass (h : ∀ o ∈ l.objects, ¬ l.Stops library o) (symbol : List Byte) (offset : Addr) :
    NotInvented l library symbol offset ↔ offset = 0 ∨ ∃ o ∈ l.objects, l.Matches library o ∧ o.dlpiAddr = 0 := by
  have hpass := getLoadedSymbolAddr_pass h symbol offset
  by_cases hoff : offset = 0
  · refine ⟨fun _ => Or.inl hoff, fun _ => ⟨fun hr => absurd (hpass.trans hoff) hr, fun _ => ⟨hpass.trans hoff, ?_⟩⟩⟩
    rintro env ulp s k unit hk rfl rfl rfl
    exact @stateUpdate_missing (l.env env) ulp k unit hk (hpass.trans hoff) s
  · constructor
    · intro hn
      obtain ⟨o, ho, hm, haddr, -⟩ := hn.address (by rw [hpass]; exact hoff)
      refine Or.inr ⟨o, ho, hm, ?_⟩
      have haddr := haddr hoff
      rw [hpass] at haddr
      simpa using haddr
    · rintro (h0 | ⟨o, ho, hm, h0⟩)
      · exact absurd h0 hoff
      · refine ⟨fun _ => ⟨o, ho, hm, fun _ => ?_, fun h => absurd h hoff⟩, fun hno => absurd hm (hno o ho)⟩
        rw [hpass, h0]
        exact (BitVec.zero_add offset).symm

/-- **No address is invented exactly when** the offset is 0, or `dl_find_symbol` stops at an object: one that matches,
is not the vDSO and has symbol and string tables, the loader being the one libpulp was built for; or when an object that
matches is loaded at 0. -/
theorem notInvented_iff (l : Loaded) (library symbol : List Byte) (offset : Addr) :
    NotInvented l library symbol offset ↔ offset = 0 ∨ (∃ o ∈ l.objects, l.Stops library o) ∨
      ∃ o ∈ l.objects, l.Matches library o ∧ o.dlpiAddr = 0 := by
  by_cases hstop : ∃ o ∈ l.objects, l.Stops library o
  · exact ⟨fun _ => Or.inr (Or.inl hstop), fun _ => notInvented_stop hstop symbol offset⟩
  · rw [notInvented_pass (fun o ho hs => hstop ⟨o, ho, hs⟩), or_iff_right hstop]

/-- A unit of a patch for `z.so` that gives its function the offset 0x100. -/
def strayPatch : UlpMetadata := demoLoaded 1 [122, 46, 115, 111] [{ demoUnit with oldFaddr := 0x100 }] [] []

/-- **An invented address**: `z.so` is not loaded, offset 0x100 of it is address 0x100, and `ulp_state_update` succeeds
and reads there. -/
theorem symbol_invented :
    (∀ o ∈ (twoLibraries demoTarget demoOther).objects,
        ¬ (twoLibraries demoTarget demoOther).Matches [122, 46, 115, 111] o) ∧
      (twoLibraries demoTarget demoOther).getLoadedSymbolAddr [122, 46, 115, 111] [102] 0x100 = 0x100 ∧
      (0, 0x100) ∈ stateUpdateReads ((twoLibraries demoTarget demoOther).env demoEnv) strayPatch demoStart ∧
      ¬ NotInvented (twoLibraries demoTarget demoOther) [122, 46, 115, 111] [102] 0x100 := by
  have hno : ∀ o ∈ (twoLibraries demoTarget demoOther).objects,
      ¬ (twoLibraries demoTarget demoOther).Matches [122, 46, 115, 111] o := by decide
  have haddr : (twoLibraries demoTarget demoOther).getLoadedSymbolAddr [122, 46, 115, 111] [102] 0x100 = 0x100 := by
    decide
  refine ⟨hno, haddr, ?_, fun h => ?_⟩
  · decide
  · exact absurd (haddr.symm.trans (h.missing hno).1) (by decide)

end Libpulp
