import Libpulp.Listing
import Libpulp.Livepatchable
/-!
# Listed — which libraries `ulp patches` takes for livepatchable (tools/patches.c: `is_library_livepatchable`)

A library is listed if one of its first symbols has the preamble or a livepatch for it is applied.  A livepatch takes the
preamble away, so only both together make the listing a property of the library: once it is listed for a function it
stays listed, whatever is applied and reverted (`library_listed`).  Of a library without symbols, for which no livepatch
is applied, the answer is whatever was on the stack.
-/
namespace Libpulp
namespace Listed

open Bytes (Byte Addr Mem Buf ofLE addrOfLE)
open Fuel (Returns)
open Listing (ListAt hasLivepatchLoaded hasLivepatchLoaded_copies readMemory_whole read_field unit_of_redirectOf)
open ReadState (DynobjLibpulp pointerAt ulpReadState)
open Relation (ReflTransGen)

/-- What `is_library_livepatchable` looks at in an object. -/
structure Library where
  filename   : List Byte
  ehdrAddr   : Addr
  dynsymAddr : Addr
  numSymbols : Int

def sizeofSym : Nat := 24

/-- `MIN(obj->num_symbols, 8000)`, as the number of rounds. -/
def Library.len (obj : Library) : Nat := (min obj.numSymbols 8000).toNat

/-- `check_preamble` on x86_64. -/
def checkPreamble (t : ReadState.Target) (symAddress : Addr) (fuel : Nat) : Option Bool :=
  (t.readMemory 2 symAddress t.fresh fuel).map (fun (ret, bytes) =>
    Arch.x86_64.checkPreamble (fun _ n => if ret ≠ 0 then none else some (bytes.read 0 n)) symAddress)

/-- The loop over the symbols; `ret` is what it holds so far. -/
def symbolLoop (t : ReadState.Target) (ehdrAddr : Addr) (fuel : Nat) : Nat → Addr → Bool → Option Bool
  | 0, _, ret            => some ret
  | n + 1, dynsymAddr, _ =>
    (t.readMemory sizeofSym dynsymAddr t.fresh fuel).bind (fun (ret, sym) =>
      if ret ≠ 0 then some false
      else
        (checkPreamble t (ehdrAddr + pointerAt sym 8) fuel).bind (fun found =>
          if found then some true else symbolLoop t ehdrAddr fuel n (dynsymAddr + BitVec.ofNat 64 sizeofSym) false))

/-- `is_library_livepatchable`; `ret` starts with whatever is on the stack. -/
def isLibraryLivepatchable (t : ReadState.Target) (detach : Int) (ret : Bool) (patch : List ReadState.AppliedPatch)
    (obj : Library) (fuel : Nat) : Option Bool :=
  (hasLivepatchLoaded (some obj.filename) patch).bind (fun loaded =>
    if loaded then some true
    else if t.attach ≠ 0 then some false
    else
      (symbolLoop t obj.ehdrAddr fuel obj.len obj.dynsymAddr ret).map (fun ret => if detach ≠ 0 then false else ret))

/-! ## The symbols of a library -/

/-- Where symbol `i` lies, and its address. -/
def Library.symbolAt (obj : Library) (i : Nat) : Addr := obj.dynsymAddr + BitVec.ofNat 64 (sizeofSym * i)

def Library.address (obj : Library) (t : ReadState.Target) (i : Nat) : Addr :=
  obj.ehdrAddr + addrOfLE (t.mem.read (obj.symbolAt i + 8) 8)

/-- Every read comes back with all it asked for, or fails. -/
structure Answers (t : ReadState.Target) (obj : Library) : Prop where
  symbols : ∀ i < obj.len, t.processVmReadv (obj.symbolAt i) sizeofSym = .ok sizeofSym ∨
    ∃ e, e ≠ 0 ∧ t.processVmReadv (obj.symbolAt i) sizeofSym = .error e
  entries : ∀ i < obj.len, t.processVmReadv (obj.address t i) 2 = .ok 2 ∨
    ∃ e, e ≠ 0 ∧ t.processVmReadv (obj.address t i) 2 = .error e

/-- The symbol can be read. -/
def SymbolRead (t : ReadState.Target) (obj : Library) (i : Nat) : Prop :=
  t.processVmReadv (obj.symbolAt i) sizeofSym = .ok sizeofSym

/-- The entry at `f` can be read and has the preamble. -/
def HasPreamble (t : ReadState.Target) (f : Addr) : Prop := t.processVmReadv f 2 = .ok 2 ∧ Arch.x86_64.Preamble t.mem f

variable {t : ReadState.Target} {obj : Library}

theorem readMemory_refused {a : Addr} {n : Nat} {e : Int} (h : t.processVmReadv a n = .error e) (buf : Buf) (fuel : Nat) :
    t.readMemory n a buf (fuel + 1) = some (e, buf) := by
  unfold ReadState.Target.readMemory Transfer.readMemory Transfer.transferLoop
  simp only [h]
  rfl

theorem checkPreamble_spec {f : Addr} (h : t.processVmReadv f 2 = .ok 2 ∨ ∃ e, e ≠ 0 ∧ t.processVmReadv f 2 = .error e)
    (fuel : Nat) : ∃ b, checkPreamble t f (fuel + 1) = some b ∧ (b = true ↔ HasPreamble t f) := by
  rcases h with h | ⟨e, he, h⟩
  · have hself : (t.fresh.write 0 (t.mem.read f 2)).read 0 2 = [t.mem f, t.mem (f + 1)] := by
      have := Buf.read_write_self t.fresh 0 (t.mem.read f 2)
      rw [Mem.length_read] at this
      exact this.trans (read_two t.mem f)
    refine ⟨_, by rw [checkPreamble, readMemory_whole h (by decide)]; rfl, ?_⟩
    simp only [ne_eq, not_true_eq_false, if_false, Arch.checkPreamble, hself, HasPreamble, Arch.Preamble, h, true_and,
       Bool.and_eq_true, Bool.or_eq_true, beq_iff_eq]
  · refine ⟨false, ?_, ?_⟩
    · rw [checkPreamble, readMemory_refused h]
      simp [Arch.checkPreamble, he]
    · refine ⟨fun hb => (by cases hb), fun hp => ?_⟩
      cases h.symm.trans hp.1

/-- **The loop finds a preamble if one of the symbols has it** before the first that cannot be read. -/
theorem symbolLoop_spec (fuel : Nat) : ∀ (n i : Nat) (ret : Bool), i + n ≤ obj.len → Answers t obj →
    ∃ b, symbolLoop t obj.ehdrAddr (fuel + 1) n (obj.symbolAt i) ret = some b ∧
      (b = true ↔ n = 0 ∧ ret = true ∨ ∃ j, i ≤ j ∧ j < i + n ∧ (∀ k, i ≤ k → k ≤ j → SymbolRead t obj k) ∧
        HasPreamble t (obj.address t j))
  | 0, i, ret, _, _        => ⟨ret, rfl, by
    refine ⟨fun h => Or.inl ⟨rfl, h⟩, fun h => ?_⟩
    rcases h with ⟨-, h⟩ | ⟨j, h₁, h₂, -⟩
    · exact h
    · omega⟩
  | n + 1, i, ret, hle, hr => by
    rcases hr.symbols i (by omega) with hsym | ⟨e, he, hsym⟩
    · have haddr : obj.ehdrAddr + pointerAt (t.fresh.write 0 (t.mem.read (obj.symbolAt i) sizeofSym)) 8 =
          obj.address t i := congrArg (fun bs => obj.ehdrAddr + addrOfLE bs)
            (read_field t.fresh t.mem (obj.symbolAt i) (by decide : 8 + 8 ≤ sizeofSym))
      have hnext : obj.symbolAt i + BitVec.ofNat 64 sizeofSym = obj.symbolAt (i + 1) := by
        unfold Library.symbolAt
        rw [Nat.mul_succ, BitVec.ofNat_add, BitVec.add_assoc]
      obtain ⟨found, hfound, hiff⟩ := checkPreamble_spec (hr.entries i (by omega)) fuel
      rw [symbolLoop, readMemory_whole hsym (by decide), Option.bind_some]
      simp only [ne_eq, not_true_eq_false, if_false, haddr, hnext, hfound, Option.bind_some]
      cases found with
      | true =>
        refine ⟨true, rfl, fun _ => Or.inr ⟨i, Nat.le_refl i, by omega, fun k h₁ h₂ => ?_, hiff.1 rfl⟩, fun _ => rfl⟩
        obtain rfl := Nat.le_antisymm h₂ h₁
        exact hsym
      | false =>
        have hno : ¬ HasPreamble t (obj.address t i) := fun h => Bool.false_ne_true (hiff.2 h)
        obtain ⟨b, hb, hrest⟩ := symbolLoop_spec fuel n (i + 1) false (by omega) hr
        refine ⟨b, hb, hrest.trans ⟨fun h => ?_, fun h => ?_⟩⟩
        · rcases h with ⟨-, h⟩ | ⟨j, h₁, h₂, hread, hp⟩
          · cases h
          · refine Or.inr ⟨j, by omega, by omega, fun k hk hkj => ?_, hp⟩
            rcases Nat.eq_or_lt_of_le hk with rfl | hk
            · exact hsym
            · exact hread k hk hkj
        · rcases h with ⟨h, -⟩ | ⟨j, h₁, h₂, hread, hp⟩
          · omega
          · rcases Nat.eq_or_lt_of_le h₁ with rfl | h₁
            · exact absurd hp hno
            · exact Or.inr ⟨j, h₁, by omega, fun k hk hkj => hread k (by omega) hkj, hp⟩
    · refine ⟨false, ?_, fun h => (by cases h), fun h => ?_⟩
      · rw [symbolLoop, readMemory_refused hsym, Option.bind_some]
        exact if_pos he
      · rcases h with ⟨h, -⟩ | ⟨j, h₁, -, hread, -⟩
        · omega
        · cases hsym.symm.trans (hread i (Nat.le_refl i) h₁)

/-- One of the symbols that the tool comes to has the preamble. -/
def Library.Prepared (obj : Library) (t : ReadState.Target) : Prop :=
  ∃ i < obj.len, (∀ k ≤ i, SymbolRead t obj k) ∧ HasPreamble t (obj.address t i)

/-- **Which libraries are listed.** -/
theorem isLibraryLivepatchable_spec {version : BitVec 64} {patches : List AppliedPatch} {l : List ReadState.AppliedPatch}
    (hl : List.Forall₂ (Listing.Copies version) patches l) (hattach : t.attach = 0) (hr : Answers t obj) (detach : Int)
    (ret : Bool) :
    ∃ b, Returns (isLibraryLivepatchable t detach ret l obj) b ∧
      (b = true ↔ (∃ p ∈ patches, getBasename obj.filename = p.libName) ∨
        detach = 0 ∧ (obj.len = 0 ∧ ret = true ∨ obj.Prepared t)) := by
  by_cases hany : ∃ p ∈ patches, getBasename obj.filename = p.libName
  · refine ⟨true, ⟨0, ?_⟩, fun _ => Or.inl hany, fun _ => rfl⟩
    rw [isLibraryLivepatchable, hasLivepatchLoaded_copies obj.filename hl, Option.bind_some]
    exact if_pos (by simpa using hany)
  · obtain ⟨b, hb, hiff⟩ := symbolLoop_spec 0 obj.len 0 ret (by omega) hr
    rw [show obj.symbolAt 0 = obj.dynsymAddr from BitVec.add_zero _] at hb
    have hloop : b = true ↔ obj.len = 0 ∧ ret = true ∨ obj.Prepared t := by
      refine hiff.trans (or_congr Iff.rfl ⟨?_, ?_⟩)
      · rintro ⟨j, -, hj, hread, hp⟩
        exact ⟨j, by omega, fun k hk => hread k (Nat.zero_le k) hk, hp⟩
      · rintro ⟨j, hj, hread, hp⟩
        exact ⟨j, Nat.zero_le j, by omega, fun k _ hk => hread k hk, hp⟩
    refine ⟨if detach ≠ 0 then false else b, ⟨1, ?_⟩, ?_⟩
    · rw [isLibraryLivepatchable, hasLivepatchLoaded_copies obj.filename hl, Option.bind_some,
        if_neg (by simpa using hany), if_neg (not_not.2 hattach), hb]
      rfl
    · rw [or_iff_right hany, ← hloop]
      by_cases hd : detach = 0 <;> simp [hd]

/-- A function without `endbr64` has the NOP at its entry. -/
theorem preamble_of_nopEntry {m : Mem} {f : Addr} (hn : nopEntry m f = true) (he : hasEndbr64 m f = false) :
    Arch.x86_64.Preamble m f := by
  unfold nopEntry at hn
  simp only [he, entryBias_false, Bool.and_eq_true, Bool.or_eq_true, beq_iff_eq] at hn
  exact ⟨hn.2, hn.1⟩

/-- **A library that was livepatchable stays listed.**  In every state of a run whose list of patches lies in the memory
of the process, the tool lists a library if and only if a patch for it is applied, or it can let go of the process and
one of the symbols it comes to has the preamble; of a library without symbols the answer is what `ret` was before.  If one
of the symbols is a function that had its NOP at the start, and the patches that replace it are for the library, then the
library is listed, whatever has been applied and reverted. -/
theorem library_listed {F : Set Addr} {s₀ s : State} (hF : RegionsDisjoint F s₀.mem) (h₀ : s₀.Start)
    (hrun : ReflTransGen (Round F (ReferencesAvoid F)) s₀ s) {lib : DynobjLibpulp} (h : ListAt t lib s.patches)
    (hr : Answers t obj) (detach : Int) (ret : Bool) :
    ∃ l b, Returns (ulpReadState t (some lib)) l ∧ Returns (isLibraryLivepatchable t detach ret l obj) b ∧
      (b = true ↔ (∃ p ∈ s.patches, getBasename obj.filename = p.libName) ∨
        detach = 0 ∧ (obj.len = 0 ∧ ret = true ∨ obj.Prepared t)) ∧
      (detach = 0 → ∀ i < obj.len, (∀ k ≤ i, SymbolRead t obj k) → ∀ f ∈ F, obj.address t i = f →
        t.processVmReadv f 2 = .ok 2 → nopEntry s₀.mem f = true → hasEndbr64 s₀.mem f = false →
        t.mem f = s.mem f → t.mem (f + 1) = s.mem (f + 1) →
        (∀ p ∈ s.patches, ∀ u ∈ p.units, u.patchedAddr = f → getBasename obj.filename = p.libName) → b = true) := by
  obtain ⟨l, hread, hl⟩ := h.read
  obtain ⟨b, hb, hiff⟩ := isLibraryLivepatchable_spec hl h.attach hr detach ret
  refine ⟨l, b, hread, hb, hiff, fun hd i hi hsyms f hf haddr hok hn hendbr hm₀ hm₁ hown => hiff.2 ?_⟩
  have hfaithful := faithful_of_run hF h₀ hrun
  have hshows := (serves_of_run hF h₀ hrun).shows f hf hn
  cases hv : Layers.value s.layers f with
  | none =>
    rw [hv] at hshows
    have hpre := preamble_of_nopEntry hshows ((hfaithful.endbr f hf).trans hendbr)
    refine Or.inr ⟨hd, Or.inr ⟨i, hi, hsyms, haddr ▸ ⟨hok, ?_⟩⟩⟩
    unfold Arch.Preamble at hpre ⊢
    rwa [hm₀, hm₁]
  | some g =>
    rw [layers_value] at hv
    obtain ⟨p, hp, u, hu, he, -⟩ := unit_of_redirectOf hv
    exact Or.inl ⟨p, hp, hown p hp u hu he⟩

/-- The library `l` with its one function, which is patched. -/
theorem library_listed_one : ∃ l,
    Returns (ulpReadState Listing.demoHolding (some ⟨0x1000, ReadState.ulpVersionTriplet 0 3 1⟩)) l ∧
    Returns (isLibraryLivepatchable Listing.demoHolding 0 false l ⟨[108], 0x5000, 0x8000, 1⟩) true := by
  obtain ⟨c, hround⟩ := Listing.demo_recorded
  have hr : Answers Listing.demoHolding ⟨[108], 0x5000, 0x8000, 1⟩ := ⟨fun _ _ => .inl rfl, fun _ _ => .inl rfl⟩
  obtain ⟨l, b, hl, hb, -, hstays⟩ := library_listed (F := {0x5000}) (demo_disjoint _) demoStart_start (.single hround)
    (Listing.demo_listAt c) hr 0 false
  have hmem : (demoPatched Listing.demoRecord c).mem = demoMem.write (0x5000 - 14) (patchedPrologue false 0x9000) := rfl
  have htrue : b = true := hstays rfl 0 (by decide) (fun k hk => rfl) 0x5000 rfl (by decide +kernel) rfl (by decide)
    (by decide) (hmem ▸ (by decide +kernel)) (hmem ▸ (by decide +kernel)) (fun p hp u hu he => by
      obtain rfl := List.mem_singleton.1 hp
      decide)
  exact ⟨l, hl, htrue ▸ hb⟩

end Listed
end Libpulp
