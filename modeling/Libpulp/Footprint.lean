import Libpulp.Disabling
/-!
# Footprint — the bytes that live patching changes in a process

A run without a step of the process changes nothing but the references of the patches, the padding before a patched
function and the two bytes of the NOP at its entry (`footprint_bounded`): not even the `endbr64` before the NOP, which
every patch writes again.  So all other code and data is what it was, whatever is applied and reverted.
-/
namespace Libpulp
namespace Footprint

open Bytes (Byte Addr Mem)
open Disabling (Event Turns Twin turns_twin blocked_call interpreted_nothing)
open Relation (ReflTransGen)

/-! ## Instructions -/

/-- The instruction writes at `x`. -/
def Hits (x : Addr) : Insn → Prop
  | .print _    => False
  | .write a bs => (x - a).toNat < bs.length

theorem applyTo_of_not_hits {x : Addr} {i : Insn} (h : ¬ Hits x i) (m : Mem) : i.applyTo m x = m x := by
  cases i with
  | print string => rfl
  | write a bs => exact Mem.write_outside (Nat.not_lt.1 h)

theorem applied_of_not_hits {x : Addr} : ∀ (is : List Insn) (m : Mem), (∀ i ∈ is, ¬ Hits x i) →
    is.foldl Insn.applyTo m x = m x
  | [], _, _      => rfl
  | i :: is, m, h => by
    rw [List.foldl_cons, applied_of_not_hits is _ (fun j hj => h j (List.mem_cons_of_mem _ hj)),
      applyTo_of_not_hits (h i List.mem_cons_self)]

/-- The patch region of the function at `f`. -/
def InRegion (m : Mem) (f x : Addr) : Prop := (x - (f - 14)).toNat < patchLen (hasEndbr64 m f)

theorem prologueWrite_hits {m : Mem} {f x : Addr} {o : Option Addr} (h : Hits x (prologueWrite m f o)) :
    InRegion m f x := by
  cases o with
  | none => exact nop_sub_patch f (hasEndbr64 m f) x h
  | some t =>
    unfold Hits prologueWrite at h
    simp only [length_patchedPrologue] at h
    exact h

/-! ## A turn -/

/-- The references lie in `R`, and outside the patch regions of `F`. -/
def ReferencesIn (F R : Set Addr) (env : Env) (ulp : UlpMetadata) : Prop := ReferencesAvoid F env ulp ∧
  ∀ i ∈ ulp.refs.map (referenceWrite env ulp), ∀ x, Hits x i → x ∈ R

theorem referencesIn_nil {F R : Set Addr} {env : Env} {ulp : UlpMetadata} (h : ulp.refs = []) :
    ReferencesIn F R env ulp := by
  refine ⟨fun r hr => ?_, fun i hi => ?_⟩
  · rw [h] at hr
    cases hr
  · rw [h] at hi
    cases hi

variable {F R : Set Addr} {m₀ : Mem} {s u : State}

/-- From `s` to `u` bytes change in `R` and in the patch regions of functions that have a root in `u` only. -/
structure Changes (m₀ : Mem) (R : Set Addr) (s u : State) : Prop where
  roots : ∀ f ∈ s.roots.map (·.patchedAddr), f ∈ u.roots.map (·.patchedAddr)
  bytes : ∀ x, u.mem x ≠ s.mem x → x ∈ R ∨ ∃ f ∈ u.roots.map (·.patchedAddr), InRegion m₀ f x

theorem Changes.of_eq (hr : u.roots = s.roots) (hm : u.mem = s.mem) : Changes m₀ R s u :=
  ⟨fun _ hf => hr ▸ hf, fun x hx => absurd (congrFun hm x) hx⟩

theorem Changes.trans {v : State} (h : Changes m₀ R s u) (h' : Changes m₀ R u v) : Changes m₀ R s v := by
  refine ⟨fun f hf => h'.roots f (h.roots f hf), fun x hx => ?_⟩
  by_cases hux : u.mem x = s.mem x
  · exact h'.bytes x (hux ▸ hx)
  · exact (h.bytes x hux).imp_right (fun ⟨f, hf, hx⟩ => ⟨f, h'.roots f hf, hx⟩)

/-- What a call that came through has written: prologues of functions that have a root then, and references. -/
theorem call_writes {P : Insn → Prop} {t : State} {op : Operation} {env : Env} {ret e : UlpError}
    (hi : Faithful F m₀ s) (run : op.run env s = some (ret, t)) (noError : t.errorState = ENONE)
    (functions : ∀ p ∈ t.patches, ∀ u ∈ p.units, u.patchedAddr ∈ F)
    (loads : ∀ ulp, parseMetadata env s = some (.ok ulp) → ∀ i ∈ ulp.refs.map (referenceWrite env ulp), P i)
    (tool : insnqInterpretFromProcess t = some (e, u)) : ∃ is : List Insn, u.mem = is.foldl Insn.applyTo s.mem ∧
      (∀ i ∈ is, (∃ g o, i = prologueWrite m₀ g o ∧ g ∈ F ∧ g ∈ u.roots.map (·.patchedAddr)) ∨ P i) ∧
      ∀ f ∈ s.roots.map (·.patchedAddr), f ∈ u.roots.map (·.patchedAddr) := by
  obtain ⟨ps, ws, hr, hps, hws⟩ := Operation.redraws hi run noError functions loads
  rw [insnqInterpretFromProcess_holds (hr.wrote.queued [] hi.queued noError).holds, List.nil_append] at tool
  obtain rfl := congrArg Prod.snd (Option.some.inj tool)
  refine ⟨ps.map (fun p => prologueWrite s.mem p.1 p.2) ++ ws, ?_, fun i hi' => ?_,
    fun f hf => (hr.roots f).2 (Or.inl hf)⟩
  · change List.foldl Insn.applyTo t.mem _ = _
    rw [hr.wrote.mem]
  · rcases List.mem_append.1 hi' with hi' | hi'
    · obtain ⟨p, hp, rfl⟩ := List.mem_map.1 hi'
      exact Or.inl ⟨p.1, p.2, prologueWrite_endbr (hi.endbr p.1 (hps p hp)) p.2, hps p hp,
        (hr.roots p.1).2 (Or.inr (List.mem_map_of_mem hp))⟩
    · exact Or.inr (hws i hi')

/-- **A call** writes the references of a patch, and at functions that have a root. -/
theorem call_changes {t : State} {op : Operation} {env : Env} {ret e : UlpError} (hi : Faithful F m₀ s)
    (run : op.run env s = some (ret, t)) (noError : t.errorState = ENONE)
    (functions : ∀ p ∈ t.patches, ∀ u ∈ p.units, u.patchedAddr ∈ F)
    (loads : ∀ ulp, parseMetadata env s = some (.ok ulp) → ReferencesIn F R env ulp)
    (tool : insnqInterpretFromProcess t = some (e, u)) : Changes m₀ R s u := by
  obtain ⟨is, hmem, his, hroots⟩ := call_writes (P := fun i => ∀ x, Hits x i → x ∈ R) hi run noError functions
    (fun ulp hulp => (loads ulp hulp).2) tool
  refine ⟨hroots, fun x hx => ?_⟩
  by_contra hno
  rw [not_or] at hno
  refine hx ?_
  rw [hmem]
  refine applied_of_not_hits is s.mem (fun i hi' hhit => ?_)
  rcases his i hi' with ⟨g, o, rfl, -, hg⟩ | hP
  · exact hno.2 ⟨g, hg, prologueWrite_hits hhit⟩
  · exact hno.1 (hP x hhit)

theorem endbr_unchanged {m : Mem} {f x : Addr} (h : hasEndbr64 m₀ f = true) (h' : hasEndbr64 m f = true)
    (hx : (x - f).toNat < 4) : m x = m₀ x := by
  have hr : m.read f 4 = m₀.read f 4 := (eq_of_beq h').trans (eq_of_beq h).symm
  have hb : ∀ m' : Mem, (m'.read f 4)[(x - f).toNat]? = some (m' x) := by
    intro m'
    rw [List.getElem?_eq_getElem (by rwa [Mem.length_read]), Mem.getElem_read]
    congr 2
    bv_omega
  exact Option.some.inj ((hb m).symm.trans (hr ▸ hb m₀))

/-- What changes in a patch region does not change in the `endbr64` of the function. -/
theorem changed_in_region {m : Mem} {f x : Addr} (he : hasEndbr64 m f = hasEndbr64 m₀ f) (hx : m x ≠ m₀ x)
    (h : InRegion m₀ f x) : (x - (f - 14)).toNat < 14 ∨ (x - (f + entryBias (hasEndbr64 m₀ f))).toNat < 2 := by
  unfold InRegion at h
  cases h₀ : hasEndbr64 m₀ f with
  | false =>
    rw [h₀] at h
    simp only [patchLen, entryBias, Bool.false_eq_true, if_false] at h ⊢
    bv_omega
  | true =>
    have hfour : ¬ (x - f).toNat < 4 := fun hlt => hx (endbr_unchanged h₀ (he.trans h₀) hlt)
    rw [h₀] at h
    simp only [patchLen, entryBias, if_true] at h ⊢
    bv_omega

theorem toggle_changes (s : State) : Changes m₀ R s (ulpEnableOrDisablePatching s) := by
  unfold ulpEnableOrDisablePatching
  split
  · exact .of_eq rfl rfl
  · split
    · exact .of_eq rfl rfl
    · exact .of_eq rfl rfl

/-! ## A run -/

theorem turns_changes {s₀ : State} (hF : RegionsDisjoint F s₀.mem) (h₀ : s₀.Start) {es : List Event} {s s' : State}
    (h : Turns F (ReferencesIn F R) es s s') (hes : ∀ mem, Event.outside mem ∉ es) : ∀ {enabled : Bool} {r : State},
    ReflTransGen (Round F (ReferencesAvoid F)) s₀ r → Twin enabled s r → Changes s₀.mem R s s' := by
  induction h with
  | nil s => exact fun _ _ => .of_eq rfl rfl
  | @cons e es s u s' turn rest ih =>
    intro enabled r hr ht
    obtain ⟨r', -, hr', ht', -⟩ := turns_twin hF h₀ (fun _ _ h => h.1) (.cons turn (.nil u)) hr ht
    refine Changes.trans ?_ (ih (fun mem hm => hes mem (List.mem_cons_of_mem _ hm)) hr' ht')
    have hi := faithful_of_run hF h₀ hr
    cases turn with
    | @call _ t _ buffer hlen op env ret run noError functions loads tool =>
      cases enabled with
      | true =>
        have hc := call_changes (s := { s with metadataBuffer := buffer })
          (by rw [ht.buffer_eq]; exact hi.buffer buffer) run noError functions loads tool
        exact ⟨hc.roots, hc.bytes⟩
      | false =>
        obtain ⟨-, rfl⟩ := blocked_call (ht.buffer buffer).errorState run
        exact absurd ((ht.buffer buffer).errorState.symm.trans noError) (by decide)
    | @blocked _ t _ disabled buffer op env ret e run tool =>
      obtain ⟨-, rfl⟩ := blocked_call (s := { s with metadataBuffer := buffer }) disabled run
      obtain rfl := interpreted_nothing (by rw [(ht.buffer buffer).queue]; exact hi.queued.holds) tool
      exact .of_eq rfl rfl
    | outside _ mem hm => exact absurd List.mem_cons_self (hes mem)
    | toggle => exact toggle_changes s

/-- **What live patching changes in a process.**  In every run of applies, reverts and toggles, without a step of the
process itself, a byte that differs from the start is one of a reference, of the 14 bytes before a function that has been
patched, or of the two bytes of the NOP at its entry. -/
theorem footprint_bounded {s₀ s : State} (hF : RegionsDisjoint F s₀.mem) (h₀ : s₀.Start) {es : List Event}
    (hrun : Turns F (ReferencesIn F R) es s₀ s) (hes : ∀ mem, Event.outside mem ∉ es) (x : Addr)
    (hx : s.mem x ≠ s₀.mem x) : x ∈ R ∨ ∃ r ∈ s.roots, (x - (r.patchedAddr - 14)).toNat < 14 ∨
      (x - (r.patchedAddr + entryBias (hasEndbr64 s₀.mem r.patchedAddr))).toNat < 2 := by
  obtain ⟨r', -, hr', ht, -⟩ := turns_twin hF h₀ (fun _ _ h => h.1) hrun .refl (.refl h₀.errorState)
  have hi := faithful_of_run hF h₀ hr'
  refine ((turns_changes hF h₀ hrun hes .refl (.refl h₀.errorState)).bytes x hx).imp_right ?_
  rintro ⟨f, hf, hregion⟩
  obtain ⟨r, hr, rfl⟩ := List.mem_map.1 hf
  have hF' : r.patchedAddr ∈ F := hi.functions r (ht.roots ▸ hr)
  rw [ht.mem] at hx
  exact ⟨r, hr, changed_in_region (hi.endbr _ hF') hx hregion⟩

/-- The function is patched, so its NOP changes. -/
theorem footprint_bounded_one : ∃ es s, Turns {0x5000} (ReferencesIn {0x5000} ∅) es demoStart s ∧
    s.mem 0x5000 ≠ demoMem 0x5000 ∧ ∃ r ∈ s.roots, (0x5000 - (r.patchedAddr - 14)).toNat < 14 ∨
      (0x5000 - (r.patchedAddr + entryBias (hasEndbr64 demoMem r.patchedAddr))).toNat < 2 := by
  obtain ⟨s, hs, hr, hm⟩ := @demo_redirect [] (ReferencesIn {0x5000} ∅) (referencesIn_nil rfl)
    (fun r hr => by cases hr) (by decide) (by decide)
  have hx : s.mem 0x5000 ≠ demoMem 0x5000 := by
    rw [hm]
    decide +kernel
  cases hs with
  | @call t _ buffer hlen op env ret run noError functions loads tool =>
    have hrun : Turns {0x5000} (ReferencesIn {0x5000} ∅) [.call buffer op env ret] demoStart s :=
      .cons (.call buffer hlen op env ret run noError functions loads tool) (.nil s)
    refine ⟨_, s, hrun, hx, ?_⟩
    exact (footprint_bounded (demo_disjoint _) demoStart_start hrun (fun mem hm => (by simp at hm)) 0x5000
      hx).resolve_left (Set.notMem_empty _)
  | outside mem h => cases hr

end Footprint
end Libpulp
