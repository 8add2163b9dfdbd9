import Libpulp.Atomic
import Libpulp.Layers
import Libpulp.Redirect
/-!
# Service — libpulp as a store of replaced functions

What libpulp is for, in the terms of `Layers`: an applied patch is a layer that replaces functions and rests on the
patches it depends on.  Every round is a sequence of moves of that store, and the entries of the functions show its values
(`Serves`).  So what a function leads to is a matter of the patches that are applied, not of how they came to be.
-/
namespace Libpulp

open Bytes (Byte Addr Mem cstr)
open Layers (Layer Move Push takeOut below owner)
open Relation (ReflTransGen)

def AppliedPatch.layer (p : AppliedPatch) : Layer PatchId Addr Addr :=
  ⟨p.patchId, p.deps.map (·.depId), p.units.map (fun u => (u.patchedAddr, u.targetAddr))⟩

def State.layers (s : State) : List (Layer PatchId Addr Addr) := s.patches.map (·.layer)

theorem layer_value (p : AppliedPatch) (f : Addr) :
    p.layer.value f = (p.units.reverse.find? (·.patchedAddr = f)).map (·.targetAddr) := by
  unfold Layer.value AppliedPatch.layer
  rw [← List.map_reverse, List.find?_map, Option.map_map]
  rfl

theorem layers_value (s : State) (f : Addr) : Layers.value s.layers f = redirectOf s.patches f := by
  unfold Layers.value State.layers redirectOf
  rw [List.findSome?_map]
  exact congrArg (fun g => s.patches.findSome? g) (funext (fun p => layer_value p f))

theorem layers_names (s : State) : s.layers.map (·.name) = s.patches.map (·.patchId) := by
  rw [State.layers, List.map_map]
  rfl

theorem layers_takeOut (id : PatchId) (s : State) :
    takeOut id s.layers = (s.patches.eraseP (·.patchId == id)).map (·.layer) := by
  rw [takeOut, State.layers, List.eraseP_map]
  refine congrArg (List.map AppliedPatch.layer) (congrArg (fun q => s.patches.eraseP q) (funext (fun p => ?_)))
  exact (beq_eq_decide p.patchId id).symm

/-! ## Rounds are moves -/

theorem Records.layer {env : Env} {ulp : UlpMetadata} {p : AppliedPatch} (h : Records env ulp p) :
    p.layer = ⟨ulp.patchId, ulp.deps.reverse.map (·.depId), ulp.objs.units.map (unitAddrs env ulp)⟩ := by
  rw [AppliedPatch.layer, h.patchId, h.deps, h.units]

theorem Sane.push {env : Env} {s : State} {ulp : UlpMetadata} {p : AppliedPatch} (h : Sane s ulp)
    (hr : Records env ulp p) : Push s.layers (p.layer :: s.layers) := by
  refine .intro p.layer (fun hm => ?_) (fun d hd => ?_)
  · rw [layers_names, hr.layer] at hm
    obtain ⟨q, hq, he⟩ := List.mem_map.1 hm
    exact h.fresh q hq he
  · rw [hr.layer] at hd
    obtain ⟨x, hx, rfl⟩ := List.mem_map.1 hd
    obtain ⟨q, hq, he⟩ := h.deps x (List.mem_reverse.1 hx)
    rw [layers_names]
    exact List.mem_map.2 ⟨q, hq, he⟩

theorem Reverted.move {id : PatchId} {s s' : State} (h : Reverted id s s') (can : ulpCanRevertPatch s id = ENONE) :
    Move s.layers s'.layers := by
  obtain ⟨⟨q, hq, he⟩, hfree⟩ := ulpCanRevertPatch_eq_zero.1 can
  have hl : s'.layers = takeOut id s.layers := by
    rw [layers_takeOut, State.layers, h.patches]
  rw [hl]
  refine .takeOut id ?_ (fun l hl hd => ?_)
  · rw [layers_names]
    exact List.mem_map.2 ⟨q, hq, he⟩
  · obtain ⟨p, hp, rfl⟩ := List.mem_map.1 hl
    obtain ⟨d, hd, hid⟩ := List.mem_map.1 hd
    exact hfree p hp d hd hid

/-- **`load_patch` makes at most one move, and makes it if it returns 0.** -/
theorem Loads.moves {env : Env} {s s' : State} {ret : UlpError} (h : Loads env s ret s') :
    (ret ≠ ENONE ∧ s'.layers = s.layers) ∨ Move s.layers s'.layers := by
  cases h with
  | failed ret b hret => exact Or.inl ⟨hret, rfl⟩
  | applied ulp p parsed sane records fits =>
    have hp : (exitOnError (ulpApplyAllUnits env ulp (s.recorded ulp p))).2.patches = p :: s.patches := by
      rw [exitOnError_patches, (ulpApplyAllUnits_patches env ulp _).1]
      rfl
    have hpush := sane.push records
    rw [show p.layer :: s.layers = (p :: s.patches).map (·.layer) from rfl, ← hp] at hpush
    exact Or.inr (.push hpush)
  | reverted ulp can => exact Or.inr ((ulpRevertPatch_spec ulp.patchId (s.loading ulp)).move can)

theorem Reverts.moves {k : Nat} {s s' : State} (h : Reverts k s s') : ReflTransGen Move s.layers s'.layers := by
  induction h with
  | done s => exact .refl
  | step id can rest ih => exact .head ((ulpRevertPatch_spec id _).move can) ih

theorem Step.moves {s s' : State} (h : Step s s') (ha : Applied s) : ReflTransGen Move s.layers s'.layers := by
  rcases step_cases h ha.metadataRef with h | ⟨env, ret, h⟩ | ⟨k, h, -⟩
  · rw [State.layers, State.layers, h.patches]
  · rcases h.moves with ⟨-, h⟩ | h
    · rw [h]
    · exact .single h
  · exact h.moves

theorem Round.moves {F : Set Addr} {ok : Env → UlpMetadata → Prop} {s s' : State} (h : Round F ok s s')
    (ha : Applied s) : ReflTransGen Move s.layers s'.layers := by
  cases h with
  | call buffer hlen op env ret run noError functions loads tool =>
    have hm := (Operation.step run).moves ⟨ha.metadataRef, ha.ids, ha.deps⟩
    rw [show s'.layers = _ from congrArg (List.map AppliedPatch.layer) (insnqInterpretFromProcess_patches tool)]
    exact hm
  | outside mem h => exact .refl

/-! ## What the entries show -/

/-- **The process serves the layers `ls`**: they are its applied patches, and a function of `F` that was patchable at the
start leads to its value in `ls`, or into its own body if it has none. -/
structure Serves (F : Set Addr) (m₀ : Mem) (s : State) (ls : List (Layer PatchId Addr Addr)) : Prop where
  layers : s.layers = ls
  shows  : ∀ f ∈ F, nopEntry m₀ f = true → Shows s.mem f (Layers.value ls f)

theorem Shows.unique {m : Mem} {f : Addr} {o o' : Option Addr} (h : Shows m f o) (h' : Shows m f o') : o = o' := by
  have hne : ∀ t, Shows m f (some t) → Shows m f none → False := by
    intro t ht hn
    unfold Shows redirectTarget at ht
    unfold Shows nopEntry at hn
    simp only at ht
    split at ht
    · rename_i hc
      simp [hc.1] at hn
    · cases ht
  cases o with
  | none =>
    cases o' with
    | none => rfl
    | some t => exact (hne t h' h).elim
  | some t =>
    cases o' with
    | none => exact (hne t h h').elim
    | some t' => exact Eq.trans (Eq.symm h) h'

theorem Shows.congr_entry {m m' : Mem} {f : Addr} {o : Option Addr} (h : Shows m f o) (h' : Shows m' f o) :
    redirectTarget m f = redirectTarget m' f ∧ nopEntry m f = nopEntry m' f := by
  cases o with
  | none =>
    have hnone : ∀ {n : Mem}, Shows n f none → redirectTarget n f = none := by
      intro n hn
      cases ht : redirectTarget n f with
      | none => rfl
      | some t => cases hn.unique (show Shows n f (some t) from ht)
    exact ⟨(hnone h).trans (hnone h').symm, Eq.trans h (Eq.symm h')⟩
  | some t =>
    have hfalse : ∀ {n : Mem}, Shows n f (some t) → nopEntry n f = false := by
      intro n hn
      rw [Bool.eq_false_iff]
      intro he
      cases hn.unique (show Shows n f none from he)
    exact ⟨Eq.trans h (Eq.symm h'), (hfalse h).trans (hfalse h').symm⟩

section Runs

variable {F : Set Addr} {s₀ s : State} (hF : RegionsDisjoint F s₀.mem) (h₀ : s₀.Start)
  (hrun : ReflTransGen (Round F (ReferencesAvoid F)) s₀ s)

include hF h₀ hrun

theorem serves_of_run : Serves F s₀.mem s s.layers := by
  have hi := faithful_of_run hF h₀ hrun
  refine ⟨rfl, fun f hf hn => ?_⟩
  rw [layers_value, hi.linked.redirectOf]
  exact hi.shows f hf (Or.inl hn)

theorem moves_of_run : ReflTransGen Move [] s.layers := by
  induction hrun with
  | refl =>
    rw [State.layers, h₀.patches]
    exact .refl
  | tail hr hround ih => exact ih.trans (hround.moves (faithful_of_run hF h₀ hr).applied)

end Runs

/-- **libpulp refines the store of replacements.**  At the start the process serves no layers; and from any state of a run
that serves `ls`, every round leads to a state that serves layers reached from `ls` by moves of the store. -/
theorem service_refined {F : Set Addr} {s₀ : State} (hF : RegionsDisjoint F s₀.mem) (h₀ : s₀.Start) :
    Serves F s₀.mem s₀ [] ∧
      ∀ s ls s', ReflTransGen (Round F (ReferencesAvoid F)) s₀ s → Serves F s₀.mem s ls →
        Round F (ReferencesAvoid F) s s' → ∃ ls', ReflTransGen Move ls ls' ∧ Serves F s₀.mem s' ls' := by
  constructor
  · have h := serves_of_run hF h₀ .refl
    rwa [show s₀.layers = [] by rw [State.layers, h₀.patches]; rfl] at h
  · intro s ls s' hrun hs hround
    obtain rfl := hs.layers
    exact ⟨s'.layers, hround.moves (faithful_of_run hF h₀ hrun).applied, serves_of_run hF h₀ (hrun.tail hround)⟩

/-- The round that applies one unit. -/
theorem service_refined_one : ∃ s' ls', Round {0x5000} (ReferencesAvoid {0x5000}) demoStart s' ∧
    ReflTransGen Move [] ls' ∧ Serves {0x5000} demoMem s' ls' ∧ Layers.value ls' 0x5000 = some 0x9000 := by
  obtain ⟨s, hs, hr, -⟩ := @demo_redirect [] (ReferencesAvoid {0x5000}) (fun r hr => by cases hr)
    (fun r hr => by cases hr) (by decide) (by decide)
  obtain ⟨h₀, hstep⟩ := service_refined (demo_disjoint demoMem) demoStart_start
  obtain ⟨ls', hmoves, hserves⟩ := hstep _ _ s .refl h₀ hs
  refine ⟨s, ls', hs, hmoves, hserves, ?_⟩
  rw [← hserves.layers, layers_value]
  exact hr

/-- **What is applied decides what the functions do.**  Two processes whose runs, however different, end with the same
layers have the same entries at all functions that were patchable in both, those of the values of the layers; and these
are the entries of a store in which the layers were pushed one after the other and none was ever taken out. -/
theorem entries_of_layers {F : Set Addr} {s₀ s s₀' s' : State} (hF : RegionsDisjoint F s₀.mem) (h₀ : s₀.Start)
    (hrun : ReflTransGen (Round F (ReferencesAvoid F)) s₀ s) (hF' : RegionsDisjoint F s₀'.mem) (h₀' : s₀'.Start)
    (hrun' : ReflTransGen (Round F (ReferencesAvoid F)) s₀' s') (hls : s.layers = s'.layers) :
    ReflTransGen Push [] s.layers ∧ ∀ f ∈ F, nopEntry s₀.mem f = true → nopEntry s₀'.mem f = true →
      redirectTarget s.mem f = redirectTarget s'.mem f ∧ nopEntry s.mem f = nopEntry s'.mem f ∧
        Shows s.mem f (Layers.value s.layers f) := by
  refine ⟨(Layers.sound_of_moves (moves_of_run hF h₀ hrun)).pushes, fun f hf hn hn' => ?_⟩
  have h := (serves_of_run hF h₀ hrun).shows f hf hn
  have h' := (serves_of_run hF' h₀' hrun').shows f hf hn'
  rw [← hls] at h'
  obtain ⟨htarget, hentry⟩ := h.congr_entry h'
  exact ⟨htarget, hentry, h⟩

/-- The process with the unit applied, and the same after it has written something elsewhere. -/
theorem entries_of_layers_one : ∃ s : State, ReflTransGen Push [] s.layers ∧
    redirectTarget s.mem 0x5000 = redirectTarget (s.mem.write 0x8000 [1]) 0x5000 := by
  obtain ⟨s, hs, -⟩ := @demo_redirect [] (ReferencesAvoid {0x5000}) (fun r hr => by cases hr)
    (fun r hr => by cases hr) (by decide) (by decide)
  have hout : Round {0x5000} (ReferencesAvoid {0x5000}) s { s with mem := s.mem.write 0x8000 [1] } := by
    refine .outside s _ (fun f hf => agreeOn_write (fun x hx => ?_))
    rw [Set.mem_singleton_iff.1 hf] at hx
    simp only [List.length_cons, List.length_nil]
    bv_omega
  obtain ⟨hpush, hsame⟩ := entries_of_layers (demo_disjoint _) demoStart_start (.single hs) (demo_disjoint _)
    demoStart_start (.tail (.single hs) hout) rfl
  exact ⟨s, hpush, (hsame 0x5000 rfl (by decide) (by decide)).1⟩

end Libpulp
