import Libpulp.Footprint
import Libpulp.Post
/-!
# Built — what `ulp post` has prepared, in a process that is live patched

`ulp post` writes the same two-byte NOP that libpulp writes when the last patch of a function goes.  So a function from a
file that went through it has, whenever no patch replaces it, the entry of the file again byte for byte
(`entries_as_built`), and once no patch replaces any of them the code is what it was (`code_restored`).  Of the pair of
one-byte NOPs that the compiler leaves this would not hold.
-/
namespace Libpulp
namespace Built

open Bytes (Byte Addr Mem)
open Disabling (Event Turn Turns demo_patched_turn turns_twin)
open Footprint (ReferencesIn referencesIn_nil changed_in_region turns_changes)
open Post (Elf Place Section nopsFixup)
open Relation (ReflTransGen)

/-! ## The file in a process -/

/-- The functions of `F` are listed ones of the file, each at its place, and the process has their entry bytes. -/
structure Maps (e : Elf) (mem : Mem) (F : Set Addr) (place : Addr → Place) : Prop where
  listed : ∀ f ∈ F, ∃ addr ∈ e.functions, e.place addr = some (place f)
  shows  : ∀ f ∈ F, Post.Shows mem f (place f).scn (place f).offset

/-- In the file that `ulp post` has written the pair of NOPs of a listed function is `66 90`. -/
theorem built_nop {e e' : Elf} (he : e.WellPlaced) (hpost : nopsFixup e = some e') {addr : Addr} {p : Place}
    (ha : addr ∈ e'.functions) (hp : e'.place addr = some p) :
    p.scn.data (p.scn.funcAddr p.offset) = 0x66 ∧ p.scn.data (p.scn.funcAddr p.offset + 1) = 0x90 := by
  rw [Post.nopsFixup_eq he] at hpost
  by_cases hall : e.functions.all (fun addr => (e.place addr).all Place.ok) = true
  · rw [if_pos hall] at hpost
    obtain rfl := Option.some.inj hpost
    have hok := (Post.all_ok_iff e).1 hall
    have ha' : addr ∈ e.functions := ha
    rw [Post.merged_place] at hp
    obtain ⟨q, hq, rfl⟩ := Option.map_eq_some_iff.1 hp
    have hpok := (Post.ok_merged he (List.Subset.refl _) ha' hq hok).trans (hok addr ha' q hq)
    refine ⟨?_, ((Post.isNop_iff _ _).1 hpok).1⟩
    have hm : e.marked e.functions q.shndx (q.scn.funcAddr q.offset) = true := Post.marked_iff.2 ⟨addr, ha', q, hq, rfl⟩
    simp only [Post.funcAddr_merged he (List.Subset.refl _) ha' hq]
    exact if_pos hm
  · rw [if_neg hall] at hpost
    cases hpost

variable {F : Set Addr} {m₀ : Mem}

/-! ## The first byte of the NOP -/

/-- The first byte of the NOP is that of the two-byte NOP or that of the jump. -/
def NopOrJump (F : Set Addr) (m₀ m : Mem) : Prop := ∀ f ∈ F,
  m (f + entryBias (hasEndbr64 m₀ f)) = 0x66 ∨ m (f + entryBias (hasEndbr64 m₀ f)) = 0xeb

theorem first_of_redirect {m : Mem} {f t : Addr} (h : redirectTarget m f = some t) :
    m (f + entryBias (hasEndbr64 m f)) = 0xeb := by
  unfold redirectTarget at h
  simp only at h
  split at h
  · rename_i hc
    exact hc.1
  · cases h

theorem prologueWrite_nopOrJump (m : Mem) (f : Addr) (o : Option Addr) :
    (prologueWrite m₀ f o).applyTo m (f + entryBias (hasEndbr64 m₀ f)) = 0x66 ∨
      (prologueWrite m₀ f o).applyTo m (f + entryBias (hasEndbr64 m₀ f)) = 0xeb := by
  cases o with
  | none => exact Or.inl (bytes_of_read (Mem.read_write_self m (f + entryBias (hasEndbr64 m₀ f)) insnNop2 (by decide))).1
  | some t =>
    obtain ⟨he, ht⟩ := patched_redirects m f t (hasEndbr64 m₀ f)
    have h := first_of_redirect ht
    rw [he] at h
    exact Or.inr h

theorem entry_in_region (f : Addr) (e : Bool) : (f + entryBias e - (f - 14)).toNat < patchLen e :=
  nop_sub_patch f e (f + entryBias e) (by rw [BitVec.sub_self]; decide)

theorem NopOrJump.agree {m m' : Mem} (h : NopOrJump F m₀ m)
    (hm : ∀ f ∈ F, AgreeOn m m' (f - 14) (patchLen (hasEndbr64 m₀ f))) : NopOrJump F m₀ m' := by
  intro f hf
  rw [hm f hf _ (entry_in_region f _)]
  exact h f hf

theorem NopOrJump.writes (hF : RegionsDisjoint F m₀) : ∀ (is : List Insn) {m : Mem}, NopOrJump F m₀ m →
    (∀ i ∈ is, (∃ g o, i = prologueWrite m₀ g o ∧ g ∈ F) ∨ ∃ a bs, i = .write a bs ∧ Avoids F a bs.length) →
    NopOrJump F m₀ (is.foldl Insn.applyTo m)
  | [], m, h, _        => h
  | i :: is, m, h, his => by
    refine NopOrJump.writes hF is ?_ (fun j hj => his j (List.mem_cons_of_mem _ hj))
    rcases his i List.mem_cons_self with ⟨g, o, rfl, hg⟩ | ⟨a, bs, rfl, ha⟩
    · intro f hf
      by_cases hfg : f = g
      · subst hfg
        exact prologueWrite_nopOrJump m f o
      · rw [prologueWrite_agree hF m hf hg hfg o _ (entry_in_region f _)]
        exact h f hf
    · exact h.agree (fun f hf => (agreeOn_write (ha f hf)).mono (by unfold patchLen; split <;> omega))

/-- **A round keeps it.** -/
theorem NopOrJump.round {s s' : State} (hF : RegionsDisjoint F m₀) (h : Round F (ReferencesAvoid F) s s')
    (hi : Faithful F m₀ s) (hn : NopOrJump F m₀ s.mem) : NopOrJump F m₀ s'.mem := by
  cases h with
  | call buffer hlen op env ret run noError functions loads tool =>
    obtain ⟨is, hmem, his, -⟩ := Footprint.call_writes (hi.buffer buffer) run noError functions
      (fun ulp hulp => (loads ulp hulp).writes) tool
    rw [hmem]
    refine NopOrJump.writes hF is hn (fun i hi' => ?_)
    rcases his i hi' with ⟨g, o, rfl, hg, -⟩ | hP
    · exact Or.inl ⟨g, o, rfl, hg⟩
    · exact Or.inr hP
  | outside mem h => exact hn.agree (fun f hf => (h f hf).mono (by unfold patchLen; split <;> omega))

theorem nopOrJump_of_run {s₀ s : State} (hF : RegionsDisjoint F s₀.mem) (h₀ : s₀.Start)
    (hn : NopOrJump F s₀.mem s₀.mem) (h : ReflTransGen (Round F (ReferencesAvoid F)) s₀ s) :
    NopOrJump F s₀.mem s.mem := by
  induction h with
  | refl => exact hn
  | tail hrun hr ih => exact ih.round hF hr (faithful_of_run hF h₀ hrun)

/-! ## The entries -/

/-- The entry of a function is the `endbr64`, if there is one, and the NOP. -/
theorem entry_bytes {m m' : Mem} {f : Addr} {scn : Section} {o : Nat} (hs : Post.Shows m f scn o)
    (he : hasEndbr64 m' f = hasEndbr64 m f)
    (h0 : m' (f + entryBias (hasEndbr64 m f)) = m (f + entryBias (hasEndbr64 m f)))
    (h1 : m' (f + entryBias (hasEndbr64 m f) + 1) = m (f + entryBias (hasEndbr64 m f) + 1)) :
    ∀ i < scn.entryLength o, m' (f + BitVec.ofNat 64 i) = scn.data (o + i) := by
  intro i hi
  have hlen : scn.entryLength o = if hasEndbr64 m f then 6 else 2 := by
    rw [Section.entryLength, Post.hasEndbr64_eq hs]
  rw [hlen] at hi
  have h6 : i < 6 := by split at hi <;> omega
  rw [← hs i h6]
  cases hb : hasEndbr64 m f with
  | false =>
    rw [hb] at hi h0 h1
    have hi2 : i = 0 ∨ i = 1 := by simp only [Bool.false_eq_true, if_false] at hi; omega
    rcases hi2 with rfl | rfl
    · simpa [entryBias] using h0
    · simpa [entryBias] using h1
  | true =>
    rw [hb] at hi h0 h1
    by_cases h4 : i < 4
    · exact Footprint.endbr_unchanged hb (he.trans hb) (by
        rw [Mem.sub_ofNat_toNat f (by omega)]
        exact h4)
    · have hi2 : i = 4 ∨ i = 5 := by omega
      rcases hi2 with rfl | rfl
      · exact h0
      · have e : f + entryBias true + 1 = f + BitVec.ofNat 64 5 := by rw [entryBias, if_pos rfl]; bv_omega
        rwa [e] at h1

theorem nop_bytes {m : Mem} {f : Addr} {scn : Section} {o : Nat} (hs : Post.Shows m f scn o) :
    m (f + entryBias (hasEndbr64 m f)) = scn.data (scn.funcAddr o) ∧
      m (f + entryBias (hasEndbr64 m f) + 1) = scn.data (scn.funcAddr o + 1) := by
  rw [Section.funcAddr, ← Post.hasEndbr64_eq hs]
  cases hasEndbr64 m f with
  | false =>
    have h0 := hs 0 (by decide)
    rw [BitVec.add_zero] at h0
    exact ⟨by simpa [entryBias] using h0, by simpa [entryBias] using hs 1 (by decide)⟩
  | true =>
    have e : f + entryBias true + 1 = f + BitVec.ofNat 64 5 := by rw [entryBias, if_pos rfl]; bv_omega
    rw [e]
    exact ⟨hs 4 (by decide), hs 5 (by decide)⟩

/-- The two-byte NOP behind the `endbr64`, if there is one. -/
def TwoByteNop (m : Mem) (f : Addr) : Prop :=
  m (f + entryBias (hasEndbr64 m f)) = 0x66 ∧ m (f + entryBias (hasEndbr64 m f) + 1) = 0x90

theorem Maps.nop {e e' : Elf} {mem : Mem} {place : Addr → Place} (h : Maps e' mem F place) (he : e.WellPlaced)
    (hpost : nopsFixup e = some e') : ∀ f ∈ F, TwoByteNop mem f := by
  intro f hf
  obtain ⟨addr, ha, hp⟩ := h.listed f hf
  obtain ⟨h0, h1⟩ := nop_bytes (h.shows f hf)
  obtain ⟨b0, b1⟩ := built_nop he hpost ha hp
  exact ⟨h0.trans b0, h1.trans b1⟩

theorem nopEntry_of_two {m : Mem} {f : Addr} (h : TwoByteNop m f) : nopEntry m f = true := by
  unfold nopEntry
  simp only [h.1, h.2]
  rfl

/-- Whenever no patch replaces the function, its two-byte NOP is there. -/
theorem nop_restored {s₀ s : State} (hF : RegionsDisjoint F s₀.mem) (h₀ : s₀.Start)
    (hnop : ∀ f ∈ F, TwoByteNop s₀.mem f) (hrun : ReflTransGen (Round F (ReferencesAvoid F)) s₀ s) {f : Addr} (hf : f ∈ F)
    (hnone : redirectOf s.patches f = none) :
    s.mem (f + entryBias (hasEndbr64 s₀.mem f)) = 0x66 ∧ s.mem (f + entryBias (hasEndbr64 s₀.mem f) + 1) = 0x90 := by
  have hfirst := nopOrJump_of_run hF h₀ (fun g hg => Or.inl (hnop g hg).1) hrun f hf
  have hn := (redirects_of_run hF h₀ hrun hf).2 hnone (Or.inl (nopEntry_of_two (hnop f hf)))
  unfold nopEntry at hn
  simp only [(faithful_of_run hF h₀ hrun).endbr f hf, Bool.and_eq_true, Bool.or_eq_true, beq_iff_eq] at hn
  refine ⟨?_, hn.1⟩
  -- of the bytes that a NOP may start with only that of the two-byte NOP is ever written
  rcases hfirst with h | h
  · exact h
  · rw [h] at hn
    exact absurd hn.2 (by decide)

/-- **From the build to the process.**  Of a file that went through `ulp post`, let the listed functions `F` be in a
process with their patch regions disjoint.  In every run of rounds from its start every function of `F` can be patched;
one that a patch replaces leads to its new function, and every other one has the entry of the file, byte for byte. -/
theorem entries_as_built {e e' : Elf} (he : e.WellPlaced) (hpost : nopsFixup e = some e') {place : Addr → Place}
    {s₀ s : State} (hmap : Maps e' s₀.mem F place) (hF : RegionsDisjoint F s₀.mem) (h₀ : s₀.Start)
    (hrun : ReflTransGen (Round F (ReferencesAvoid F)) s₀ s) {f : Addr} (hf : f ∈ F) :
    (∀ newFaddr enable, (ulpPatchAddr f newFaddr enable s).1 = ENONE) ∧
    (∀ t, redirectOf s.patches f = some t → redirectTarget s.mem f = some t) ∧
    (redirectOf s.patches f = none → ∀ i < (place f).scn.entryLength (place f).offset,
      s.mem (f + BitVec.ofNat 64 i) = (place f).scn.data ((place f).offset + i)) := by
  have hnop := hmap.nop he hpost
  have hentry := nopEntry_of_two (hnop f hf)
  have hi := faithful_of_run hF h₀ hrun
  refine ⟨fun newFaddr enable => ?_, (redirects_of_run hF h₀ hrun hf).1, fun hnone => ?_⟩
  · rw [ulpPatchAddr_eq_zero, ← Bool.or_eq_true]
    exact (hi.shows f hf (Or.inl hentry)).livepatchable
  · obtain ⟨h0, h1⟩ := nop_restored hF h₀ hnop hrun hf hnone
    exact entry_bytes (hmap.shows f hf) (hi.endbr f hf) (h0.trans (hnop f hf).1.symm) (h1.trans (hnop f hf).2.symm)

/-- A file with the function `f` of the process of `demoStart`, as the compiler leaves it. -/
def demoFile : Elf :=
  { patchableFunctionEntries := some [0x1000], symtab := none, dynsym := some [⟨0x100e, 1⟩]
    sections := fun k => if k = 1 then some ⟨0x1000, 32, Bytes.Buf.write (fun _ => 0) 14 [0x90, 0x90]⟩ else none }

theorem demoFile_wellPlaced : demoFile.WellPlaced := by
  refine ⟨fun sym hmem _ => ?_, fun sym hmem sym' hmem' _ _ _ hne => ?_⟩
  · obtain rfl : sym = ⟨0x100e, 1⟩ := by simpa [demoFile, Elf.symbols] using hmem
    exact ⟨_, rfl, by decide⟩
  · obtain rfl : sym = ⟨0x100e, 1⟩ := by simpa [demoFile, Elf.symbols] using hmem
    obtain rfl : sym' = ⟨0x100e, 1⟩ := by simpa [demoFile, Elf.symbols] using hmem'
    exact absurd rfl hne

def demoBuilt : Elf := demoFile.merged demoFile.functions

theorem demoFile_built : nopsFixup demoFile = some demoBuilt := by
  rw [Post.nopsFixup_eq demoFile_wellPlaced, if_pos (by decide)]
  rfl

def demoSection : Section :=
  demoFile.mergedSection demoFile.functions 1 ⟨0x1000, 32, Bytes.Buf.write (fun _ => 0) 14 [0x90, 0x90]⟩

theorem demoBuilt_maps : Maps demoBuilt demoMem {0x5000} (fun _ => ⟨1, demoSection, 14⟩) := by
  refine ⟨fun f _ => ⟨0x100e, by decide, rfl⟩, fun f hf i hi => ?_⟩
  obtain rfl := Set.mem_singleton_iff.1 hf
  have hall : ∀ i < 6, demoMem (0x5000 + BitVec.ofNat 64 i) = demoSection.data (14 + i) := by decide +kernel
  exact hall i hi

/-- The function is patched in such a process, and has the entry of the file again after the reverse patch. -/
theorem entries_as_built_one : ∃ p b s, ReflTransGen (Round {0x5000} (ReferencesAvoid {0x5000})) demoStart (demoPatched p b) ∧
    redirectTarget (demoPatched p b).mem 0x5000 = some 0x9000 ∧
    Round {0x5000} (ReferencesAvoid {0x5000}) (demoPatched p b) s ∧
    ∀ i < demoSection.entryLength 14, s.mem (0x5000 + BitVec.ofNat 64 i) = demoSection.data (14 + i) := by
  obtain ⟨p, b, hp, hround⟩ := @demo_patched_round (ReferencesAvoid {0x5000}) (fun r hr => by cases hr)
  obtain ⟨t, s, hcall, he, hnone, htool, hpatches⟩ := demo_left hp b
  have hback : Round {0x5000} (ReferencesAvoid {0x5000}) (demoPatched p b) s :=
    .call _ (length_bufferOf (by decide)) .applyPatch demoEnv ENONE hcall he (fun q hq => by rw [hnone] at hq; cases hq)
      (demo_leaving_ok (fun ulp hulp r hr => by rw [hulp] at hr; cases hr) p b) htool
  have hrun := ReflTransGen.single hround
  obtain ⟨-, hredirect, -⟩ := entries_as_built demoFile_wellPlaced demoFile_built demoBuilt_maps (demo_disjoint _)
    demoStart_start hrun rfl
  obtain ⟨-, -, hfile⟩ := entries_as_built demoFile_wellPlaced demoFile_built demoBuilt_maps (demo_disjoint _)
    demoStart_start (hrun.tail hback) rfl
  refine ⟨p, b, s, hrun, hredirect _ ?_, hback, hfile (by rw [hpatches]; rfl)⟩
  rw [← layers_value, show State.layers (demoPatched p b) = [p.layer] from rfl, hp.layer]
  rfl

/-- **The code is restored.**  Of a file that went through `ulp post` let `F` be in a process as before.  After any run of
applies, reverts and toggles, without a step of the process itself, if no patch that is still applied replaces a function
of `F`, every byte of the process is what it was at the start, but for the references of the patches and the 14 bytes of
padding before the functions. -/
theorem code_restored {e e' : Elf} (he : e.WellPlaced) (hpost : nopsFixup e = some e') {place : Addr → Place}
    {R : Set Addr} {s₀ s : State} (hmap : Maps e' s₀.mem F place) (hF : RegionsDisjoint F s₀.mem) (h₀ : s₀.Start)
    {es : List Event} (hrun : Turns F (ReferencesIn F R) es s₀ s) (hes : ∀ mem, Event.outside mem ∉ es)
    (hnone : ∀ f ∈ F, redirectOf s.patches f = none) {x : Addr} (hR : x ∉ R)
    (hpad : ∀ f ∈ F, 14 ≤ (x - (f - 14)).toNat) : s.mem x = s₀.mem x := by
  obtain ⟨r, -, hr, ht, -⟩ := turns_twin hF h₀ (fun _ _ h => h.1) hrun .refl (.refl h₀.errorState)
  have hi := faithful_of_run hF h₀ hr
  by_contra hx
  obtain ⟨f, hf, hregion⟩ := ((turns_changes hF h₀ hrun hes .refl (.refl h₀.errorState)).bytes x hx).resolve_left hR
  rw [ht.roots] at hf
  obtain ⟨root, hroot, rfl⟩ := List.mem_map.1 hf
  have hf' := hi.functions root hroot
  have hn := hnone _ hf'
  rw [ht.patches] at hn
  rw [ht.mem] at hx
  rcases changed_in_region (hi.endbr _ hf') hx hregion with hlt | hlt
  · exact absurd hlt (Nat.not_lt.2 (hpad _ hf'))
  · obtain ⟨h0, h1⟩ := hmap.nop he hpost _ hf'
    obtain ⟨b0, b1⟩ := nop_restored hF h₀ (hmap.nop he hpost) hr hf' hn
    have htwo : x = root.patchedAddr + entryBias (hasEndbr64 s₀.mem root.patchedAddr) ∨
        x = root.patchedAddr + entryBias (hasEndbr64 s₀.mem root.patchedAddr) + 1 := by
      generalize root.patchedAddr + entryBias (hasEndbr64 s₀.mem root.patchedAddr) = b at hlt ⊢
      bv_omega
    rcases htwo with rfl | rfl
    · exact hx (b0.trans h0.symm)
    · exact hx (b1.trans h1.symm)

/-- The function is patched, which changes its first byte, and reverted. -/
theorem code_restored_one : ∃ e e' p b s, Turns {0x5000} (ReferencesIn {0x5000} ∅) [e] demoStart (demoPatched p b) ∧
    (demoPatched p b).mem 0x5000 ≠ demoMem 0x5000 ∧
    Turns {0x5000} (ReferencesIn {0x5000} ∅) [e, e'] demoStart s ∧ s.patches = [] ∧ s.mem 0x5000 = demoMem 0x5000 := by
  obtain ⟨p, b, hp, happly⟩ := @demo_patched_turn (ReferencesIn {0x5000} ∅) (referencesIn_nil rfl)
  obtain ⟨t, s, hcall, he, hnone, htool, hpatches⟩ := demo_left hp b
  have hrevert : Turn {0x5000} (ReferencesIn {0x5000} ∅)
      (.call (demoLeaving p b).metadataBuffer .applyPatch demoEnv ENONE) (demoPatched p b) s :=
    .call _ (length_bufferOf (by decide)) .applyPatch demoEnv ENONE hcall he (fun q hq => by rw [hnone] at hq; cases hq)
      (demo_leaving_ok (fun ulp hulp => referencesIn_nil hulp) p b) htool
  have hrun := Turns.cons happly (.cons hrevert (.nil s))
  have hpatched : demoMem.write (0x5000 - 14) (patchedPrologue false 0x9000) 0x5000 ≠ demoMem 0x5000 := by decide +kernel
  refine ⟨_, _, p, b, s, .cons happly (.nil _), hpatched, hrun, hpatches, ?_⟩
  refine code_restored demoFile_wellPlaced demoFile_built demoBuilt_maps (demo_disjoint _) demoStart_start hrun
    (fun mem hm => (by simp at hm)) (fun f _ => ?_) (Set.notMem_empty _) (fun f hf => ?_)
  · rw [hpatches]
    rfl
  · obtain rfl := Set.mem_singleton_iff.1 hf
    decide

end Built
end Libpulp
