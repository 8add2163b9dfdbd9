import Libpulp.Footprint
import Libpulp.Reverse
/-!
# References — the data of the library that a live patch uses

A live patch reaches the static data of the library through variables of its own, the references, which libpulp fills in
once the functions are patched.  They lie in the container that was loaded for the patch.  When the call returns 0 all of
them are filled, and they stay so whatever is applied and reverted later (`references_in_force`).
-/
namespace Libpulp
namespace References

open Bytes (Byte Addr Mem cstr toLE addrOfLE)
open Footprint (Hits ReferencesIn InRegion applyTo_of_not_hits applied_of_not_hits prologueWrite_hits call_writes)
open Relation (ReflTransGen)

section Slots

variable (env : Env) (ulp : UlpMetadata)

/-- Where libpulp writes the reference. -/
def slotAddr (ref : UlpReference) : Addr := referenceAddr env ulp ((env.dlinfo ulp.soHandler).getD 0) ref

def slotLen (ref : UlpReference) : Nat := if ref.tls then 16 else 8

/-- The addresses of all references of the patch. -/
def slots : Set Addr := {x | ∃ ref ∈ ulp.refs, (x - slotAddr env ulp ref).toNat < slotLen ref}

/-- No two references of the patch overlap. -/
def Apart : Prop := ulp.refs.Pairwise (fun r r' =>
  Mem.Disj (slotAddr env ulp r) (slotLen r) (slotAddr env ulp r') (slotLen r'))

/-- The reference holds the address of its target in the library, or for a thread-local target the module of the library
and the offset. -/
def Filled (m : Mem) (ref : UlpReference) : Prop :=
  let library := getBasename (cstr ulp.objs.name)
  if ref.tls then
    m.read (slotAddr env ulp ref) 8 = toLE 8 (BitVec.ofInt 64 (env.getLoadedLibraryTlsIndex library)).toNat ∧
      addrOfLE (m.read (slotAddr env ulp ref + 8) 8) = ref.targetOffset
  else addrOfLE (m.read (slotAddr env ulp ref) 8) = env.getLoadedLibraryBaseAddr library + ref.targetOffset

end Slots

variable {env : Env} {ulp : UlpMetadata}

/-! ## Filling them -/

theorem length_referenceBytes (targetBase : Addr) (tlsIdx : Int) (ref : UlpReference) :
    (referenceBytes targetBase tlsIdx ref).length = slotLen ref := by
  unfold referenceBytes slotLen
  split <;> simp

theorem referenceWrite_hits {x : Addr} {ref : UlpReference} (h : Hits x (referenceWrite env ulp ref)) :
    (x - slotAddr env ulp ref).toNat < slotLen ref := by
  unfold Hits referenceWrite at h
  simp only [length_referenceBytes] at h
  exact h

theorem slotLen_le (ref : UlpReference) : slotLen ref ≤ 2 ^ 64 := by
  unfold slotLen
  split <;> decide

theorem filled_of_write (m : Mem) (ref : UlpReference) :
    Filled env ulp ((referenceWrite env ulp ref).applyTo m) ref := by
  have h := Mem.read_write_self m (slotAddr env ulp ref) (referenceBytes
    (env.getLoadedLibraryBaseAddr (getBasename (cstr ulp.objs.name)))
    (env.getLoadedLibraryTlsIndex (getBasename (cstr ulp.objs.name))) ref)
    (by rw [length_referenceBytes]; exact slotLen_le ref)
  change Filled env ulp (m.write (slotAddr env ulp ref) _) ref
  generalize m.write (slotAddr env ulp ref) _ = m' at h ⊢
  unfold Filled
  rw [length_referenceBytes] at h
  by_cases ht : ref.tls = true
  · rw [slotLen, if_pos ht, referenceBytes, if_pos ht] at h
    rw [if_pos ht]
    obtain ⟨h₁, h₂⟩ := Mem.read_eq_append h
    simp only [Bytes.length_toLE] at h₁ h₂
    refine ⟨h₁, ?_⟩
    have h8 : m'.read (slotAddr env ulp ref + 8) 8 = toLE 8 ref.targetOffset.toNat := h₂
    rw [h8, Bytes.addrOfLE_toLE]
  · rw [slotLen, if_neg ht, referenceBytes, if_neg ht] at h
    rw [if_neg ht, h, Bytes.addrOfLE_toLE]

theorem Filled.congr {m m' : Mem} {ref : UlpReference} (h : Filled env ulp m ref)
    (hm : AgreeOn m m' (slotAddr env ulp ref) (slotLen ref)) : Filled env ulp m' ref := by
  unfold Filled at *
  by_cases ht : ref.tls = true
  · rw [slotLen, if_pos ht] at hm
    rw [if_pos ht] at h ⊢
    have h₁ : m'.read (slotAddr env ulp ref) 8 = m.read (slotAddr env ulp ref) 8 :=
      hm.read (fun x hx => by omega) (by decide)
    have h₂ : m'.read (slotAddr env ulp ref + 8) 8 = m.read (slotAddr env ulp ref + 8) 8 :=
      hm.read (fun x hx => by bv_omega) (by decide)
    rw [h₁, h₂]
    exact h
  · rw [slotLen, if_neg ht] at hm
    rw [if_neg ht] at h ⊢
    have h₁ : m'.read (slotAddr env ulp ref) 8 = m.read (slotAddr env ulp ref) 8 :=
      hm.read (fun x hx => hx) (by decide)
    rw [h₁]
    exact h

/-- The writes of references that do not overlap fill them all. -/
theorem filled_of_writes : ∀ (refs : List UlpReference) (m : Mem), refs.Pairwise (fun r r' =>
      Mem.Disj (slotAddr env ulp r) (slotLen r) (slotAddr env ulp r') (slotLen r')) →
    ∀ ref ∈ refs, Filled env ulp ((refs.map (referenceWrite env ulp)).foldl Insn.applyTo m) ref
  | [], _, _, ref, h       => by cases h
  | r :: rs, m, hd, ref, h => by
    obtain ⟨hr, hrs⟩ := List.pairwise_cons.1 hd
    rw [List.map_cons, List.foldl_cons]
    rcases List.mem_cons.1 h with rfl | h
    · refine (filled_of_write m ref).congr (fun x hx => applied_of_not_hits _ _ (fun i hi hhit => ?_))
      obtain ⟨r', hr', rfl⟩ := List.mem_map.1 hi
      have := hr r' hr' x hx
      have := referenceWrite_hits hhit
      omega
    · exact filled_of_writes rs _ hrs ref h

/-! ## Keeping them -/

variable {F S : Set Addr} {m₀ : Mem}

/-- A round in which neither the process nor the references that are loaded write in `S`. -/
inductive Later (F S : Set Addr) : State → State → Prop
  | call {s t s' : State} (buffer : List Byte) (hlen : buffer.length = ulpMetadataBufLen) (op : Operation) (env : Env)
      (ret : UlpError) (run : op.run env { s with metadataBuffer := buffer } = some (ret, t))
      (noError : t.errorState = ENONE)
      (functions : ∀ p ∈ t.patches, ∀ u ∈ p.units, u.patchedAddr ∈ F)
      (loads : ∀ ulp, parseMetadata env { s with metadataBuffer := buffer } = some (.ok ulp) →
        ReferencesIn F Sᶜ env ulp)
      (tool : insnqInterpretFromProcess t = some (ENONE, s')) : Later F S s s'
  | outside (s : State) (mem : Mem) (h : ∀ f ∈ F, AgreeOn s.mem mem (f - 14) 20) (hS : ∀ x ∈ S, mem x = s.mem x) :
      Later F S s { s with mem }

theorem Later.round {s s' : State} (h : Later F S s s') : Round F (ReferencesAvoid F) s s' := by
  cases h with
  | call buffer hlen op env ret run noError functions loads tool =>
    exact .call buffer hlen op env ret run noError functions (fun ulp hulp => (loads ulp hulp).1) tool
  | outside mem h hS => exact .outside s mem h

/-- Such a round changes nothing in `S`, which lies outside the patch regions. -/
theorem Later.keeps {s s' : State} (h : Later F S s s') (hi : Faithful F m₀ s)
    (hS : ∀ x ∈ S, ∀ f ∈ F, ¬ InRegion m₀ f x) : ∀ x ∈ S, s'.mem x = s.mem x := by
  intro x hx
  cases h with
  | call buffer hlen op env ret run noError functions loads tool =>
    obtain ⟨is, hmem, his, -⟩ := call_writes (P := fun i => ∀ y, Hits y i → y ∈ Sᶜ) (hi.buffer buffer) run noError
      functions (fun ulp hulp => (loads ulp hulp).2) tool
    rw [hmem]
    refine applied_of_not_hits is s.mem (fun i hi' hhit => ?_)
    rcases his i hi' with ⟨g, o, rfl, hg, -⟩ | hP
    · exact hS x hx g hg (prologueWrite_hits hhit)
    · exact hP x hhit hx
  | outside mem h hmem => exact hmem x hx

theorem later_keeps {s₀ s s' : State} (hF : RegionsDisjoint F s₀.mem) (h₀ : s₀.Start)
    (hrun : ReflTransGen (Round F (ReferencesAvoid F)) s₀ s) (hS : ∀ x ∈ S, ∀ f ∈ F, ¬ InRegion s₀.mem f x)
    (h : ReflTransGen (Later F S) s s') : ∀ x ∈ S, s'.mem x = s.mem x := by
  induction h with
  | refl => exact fun _ _ => rfl
  | @tail u v hu hv ih =>
    have hr : ReflTransGen (Round F (ReferencesAvoid F)) s₀ u := hrun.trans (hu.lift id (fun _ _ h => h.round))
    exact fun x hx => (hv.keeps (faithful_of_run hF h₀ hr) hS x hx).trans (ih x hx)

/-- References that stay clear of the functions lie outside the patch regions. -/
theorem slots_outside (h : ReferencesAvoid F env ulp) : ∀ x ∈ slots env ulp, ∀ f ∈ F, ¬ InRegion m₀ f x := by
  rintro x ⟨ref, hr, hx⟩ f hf hregion
  have hle : patchLen (hasEndbr64 m₀ f) ≤ 20 := by
    unfold patchLen
    split <;> omega
  have := h ref hr f hf x (Nat.lt_of_lt_of_le hregion hle)
  unfold slotLen slotAddr at hx
  omega

/-! ## The references of an applied patch -/

/-- A call that returns 0 on a patch has queued all of its writes. -/
theorem apply_writes {s t s₁ : State} (hr : s.metadataRef = none) (hq : Queued s [])
    (hload : parseMetadata env s = some (.ok ulp)) (ht : ulp.type = 1) (hcall : ulpApplyPatch env s = some (ENONE, t))
    (he : t.errorState = ENONE) (htool : insnqInterpretFromProcess t = some (ENONE, s₁)) :
    ∃ m, s₁.mem = (ulp.refs.map (referenceWrite env ulp)).foldl Insn.applyTo m := by
  obtain ⟨p, hreach, hok⟩ := reaches_of_zero hr hq hload ht hcall returnInt_zero
  rw [hreach.call hr, exitOnError, if_neg (not_not.2 hok)] at hcall
  obtain ⟨-, rfl⟩ := Prod.mk.inj (Option.some.inj hcall)
  obtain ⟨k, l, hw, hkl, -⟩ := ulpApplyAllUnits_wrote env ulp (s.recorded ulp p)
  obtain ⟨rfl, rfl⟩ := hkl hok
  rw [List.take_length, List.take_length] at hw
  have hqd := hw.queued [] ⟨hq.noError, hq.holds⟩ he
  have hqueue := insnqInterpretFromProcess_holds
    (s := { (ulpApplyAllUnits env ulp (s.recorded ulp p)).2 with metadataRef := none }) hqd.holds
  obtain rfl := congrArg Prod.snd (Option.some.inj (hqueue.symm.trans htool))
  rw [List.nil_append, List.foldl_append]
  exact ⟨_, rfl⟩

/-- **The references are in force.**  In any run, when a call of `ulp_apply_patch` returns 0 on a patch whose references
lie apart from each other and from the functions, and the tool has carried out what was queued, every reference holds its
target; and it does after any later rounds, of other patches too, which do not write there themselves. -/
theorem references_in_force {s₀ s t s₁ u : State} (hF : RegionsDisjoint F s₀.mem) (h₀ : s₀.Start)
    (hrun : ReflTransGen (Round F (ReferencesAvoid F)) s₀ s) {buffer : List Byte}
    (hlen : buffer.length = ulpMetadataBufLen)
    (hload : parseMetadata env { s with metadataBuffer := buffer } = some (.ok ulp)) (ht : ulp.type = 1)
    (hcall : ulpApplyPatch env { s with metadataBuffer := buffer } = some (ENONE, t)) (he : t.errorState = ENONE)
    (hfun : ∀ p ∈ t.patches, ∀ u ∈ p.units, u.patchedAddr ∈ F) (href : ReferencesAvoid F env ulp)
    (hapart : Apart env ulp) (htool : insnqInterpretFromProcess t = some (ENONE, s₁))
    (hlater : ReflTransGen (Later F (slots env ulp)) s₁ u) : ∀ ref ∈ ulp.refs, Filled env ulp u.mem ref := by
  intro ref hr
  have hi := faithful_of_run hF h₀ hrun
  obtain ⟨m, hmem⟩ := apply_writes (s := { s with metadataBuffer := buffer }) hi.applied.metadataRef
    ⟨hi.queued.noError, hi.queued.holds⟩ hload ht hcall he htool
  have hfilled : Filled env ulp s₁.mem ref := hmem ▸ filled_of_writes ulp.refs m hapart ref hr
  have hround : Round F (ReferencesAvoid F) s s₁ := .call buffer hlen .applyPatch env ENONE hcall he hfun
    (fun ulp' hulp => by cases hload.symm.trans hulp; exact href) htool
  exact hfilled.congr (fun x hx => later_keeps hF h₀ (hrun.tail hround) (slots_outside href) hlater x ⟨ref, hr, hx⟩)

/-- A reference to the static variable at 0x40 of the library, and one to a thread-local variable. -/
def demoRefs : List UlpReference :=
  [{ targetName := [97], referenceName := [98], targetOffset := 0x40, patchOffset := 0x200, tls := false },
   { targetName := [99], referenceName := [100], targetOffset := 0x18, patchOffset := 0x300, tls := true }]

theorem demoRefs_avoid : ReferencesAvoid {0x5000} demoEnv (demoLoaded 1 [108] [demoUnit] [] demoRefs) := by
  intro ref hr f hf
  obtain rfl := Set.mem_singleton_iff.1 hf
  simp only [demoLoaded, demoRefs, List.map_cons, List.map_nil, List.mem_cons, List.not_mem_nil, or_false] at hr
  rcases hr with rfl | rfl
  · intro x hx
    change 8 ≤ (x - (0x1200 : Addr)).toNat
    bv_omega
  · intro x hx
    change 16 ≤ (x - (0x1300 : Addr)).toNat
    bv_omega

theorem demoRefs_apart : Apart demoEnv (demoLoaded 1 [108] [demoUnit] [] demoRefs) := by
  refine List.pairwise_pair.2 (fun x hx => ?_)
  change (x - (0x1200 : Addr)).toNat < 8 at hx
  change 16 ≤ (x - (0x1300 : Addr)).toNat
  bv_omega

/-- Both are filled; then the process goes on. -/
theorem references_in_force_one : ∃ s u, Later {0x5000} (slots demoEnv (demoLoaded 1 [108] [demoUnit] [] demoRefs)) s u ∧
    addrOfLE (u.mem.read 0x1200 8) = 0x400040 ∧ u.mem.read 0x1300 8 = toLE 8 1 ∧
      addrOfLE (u.mem.read 0x1308 8) = 0x18 := by
  have hoff : ∀ r ∈ demoRefs, r.patchOffset ≠ 0 := by decide
  have hfit : (spliceContainerPath (createPatchMetadataFile (demoPatch 1 [108] [demoUnit] [] demoRefs)) [47]).length ≤
      ulpMetadataBufLen := by decide +kernel
  obtain ⟨p, t, hp, happ, hq, hu⟩ := demo_called hoff hfit (by decide +kernel)
  have hload := demo_loads (demoLoading_ready demoRefs) hfit rfl (fun d hd => by cases hd) (fun q hq => by cases hq)
  have htool := insnqInterpretFromProcess_holds (s := { t with metadataRef := none }) hq.holds
  have hunits : p.units.map (fun u => (u.patchedAddr, u.targetAddr)) = [(0x5000, 0x9000)] := hp.units
  have hfun : ∀ q ∈ t.patches, ∀ u ∈ q.units, u.patchedAddr ∈ ({0x5000} : Set Addr) := fun q hm u hum => by
    obtain rfl : q = p := by simpa [show t.patches = [p] from hu.patches] using hm
    have := List.mem_map_of_mem (f := fun u : AppliedUnit => (u.patchedAddr, u.targetAddr)) hum
    rw [hunits, List.mem_singleton] at this
    exact congrArg Prod.fst this
  have hlater (s : State) : Later {0x5000} (slots demoEnv (demoLoaded 1 [108] [demoUnit] [] demoRefs)) s s :=
    .outside s s.mem (fun _ _ _ _ => rfl) (fun _ _ => rfl)
  have hall := references_in_force (demo_disjoint _) demoStart_start .refl (length_bufferOf hfit) hload rfl happ
    hq.noError hfun demoRefs_avoid demoRefs_apart htool (.single (hlater _))
  have hpointer := hall _ List.mem_cons_self
  have htls := hall _ (List.mem_cons_of_mem _ List.mem_cons_self)
  exact ⟨_, _, hlater _, hpointer, htls.1, htls.2⟩

end References
end Libpulp
