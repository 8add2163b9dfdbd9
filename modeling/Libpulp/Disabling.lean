import Libpulp.Reverse
/-!
# Disabling — live patching switched off and on again in a run (lib/ulp.c: `ulp_enable_or_disable_patching`)

`ulp set_patchable` has libpulp toggle between two error states.  While patching is disabled every apply and revert is
refused, and nothing else depends on the error state: a run with toggles ends like the run without them that leaves out
the calls made in between (`disabling_transparent`), so all that holds of the rounds holds of it.
-/
namespace Libpulp
namespace Disabling

open Bytes (Byte Addr Buf Mem)
open Relation (ReflTransGen)

/-- What happens to a process: the tool calls libpulp, which returns `ret`; the process runs on; libpulp toggles. -/
inductive Event where
  | call (buffer : List Byte) (op : Operation) (env : Env) (ret : UlpError)
  | outside (mem : Mem)
  | toggle

/-- **One turn**: a round, a call while patching is disabled, whatever of it, or a toggle. -/
inductive Turn (F : Set Addr) (ok : Env → UlpMetadata → Prop) : Event → State → State → Prop
  | call {s t s' : State} (buffer : List Byte) (hlen : buffer.length = ulpMetadataBufLen) (op : Operation) (env : Env)
      (ret : UlpError) (run : op.run env { s with metadataBuffer := buffer } = some (ret, t))
      (noError : t.errorState = ENONE)
      (functions : ∀ p ∈ t.patches, ∀ u ∈ p.units, u.patchedAddr ∈ F)
      (loads : ∀ ulp, parseMetadata env { s with metadataBuffer := buffer } = some (.ok ulp) → ok env ulp)
      (tool : insnqInterpretFromProcess t = some (ENONE, s')) : Turn F ok (.call buffer op env ret) s s'
  | blocked {s t s' : State} (disabled : s.errorState = EUSRBLOCKED) (buffer : List Byte) (op : Operation) (env : Env)
      (ret e : UlpError) (run : op.run env { s with metadataBuffer := buffer } = some (ret, t))
      (tool : insnqInterpretFromProcess t = some (e, s')) : Turn F ok (.call buffer op env ret) s s'
  | outside (s : State) (mem : Mem) (h : ∀ f ∈ F, AgreeOn s.mem mem (f - 14) 20) :
      Turn F ok (.outside mem) s { s with mem }
  | toggle (s : State) : Turn F ok .toggle s (ulpEnableOrDisablePatching s)

inductive Turns (F : Set Addr) (ok : Env → UlpMetadata → Prop) : List Event → State → State → Prop
  | nil (s : State) : Turns F ok [] s s
  | cons {e : Event} {es : List Event} {s u s' : State} (turn : Turn F ok e s u) (rest : Turns F ok es u s') :
      Turns F ok (e :: es) s s'

/-- The events without the toggles and the calls made while patching was disabled. -/
def effective : Bool → List Event → List Event
  | _, []                                    => []
  | enabled, .toggle :: es                   => effective (!enabled) es
  | enabled, .outside mem :: es              => .outside mem :: effective enabled es
  | true, .call buffer op env ret :: es      => .call buffer op env ret :: effective true es
  | false, .call _ _ _ _ :: es               => effective false es

/-- What the calls made while patching was disabled returned. -/
def refusals : Bool → List Event → List UlpError
  | _, []                          => []
  | enabled, .toggle :: es         => refusals (!enabled) es
  | enabled, .outside _ :: es      => refusals enabled es
  | true, .call _ _ _ _ :: es      => refusals true es
  | false, .call _ _ _ ret :: es   => ret :: refusals false es

/-- Patching is enabled after the events. -/
def after : Bool → List Event → Bool
  | enabled, []                  => enabled
  | enabled, .toggle :: es       => after (!enabled) es
  | enabled, .outside _ :: es    => after enabled es
  | enabled, .call _ _ _ _ :: es => after enabled es

def stateOf (enabled : Bool) : UlpError := if enabled then ENONE else EUSRBLOCKED

/-- The states are those of one process, in `s` with patching as `enabled` says, in `r` with patching enabled; what the
metadata buffer of `s` holds is left open. -/
structure Twin (enabled : Bool) (s r : State) : Prop where
  noError : r.errorState = ENONE
  eq      : s = { r with errorState := stateOf enabled, metadataBuffer := s.metadataBuffer }

namespace Twin

variable {enabled : Bool} {s r : State}

theorem errorState (h : Twin enabled s r) : s.errorState = stateOf enabled := congrArg State.errorState h.eq

theorem mem (h : Twin enabled s r) : s.mem = r.mem := by rw [h.eq]

theorem queue (h : Twin enabled s r) : s.queue = r.queue := by rw [h.eq]

theorem patches (h : Twin enabled s r) : s.patches = r.patches := by rw [h.eq]

theorem roots (h : Twin enabled s r) : s.roots = r.roots := by rw [h.eq]

theorem layers (h : Twin enabled s r) : s.layers = r.layers := by
  rw [h.eq]
  rfl

theorem refl (h : s.errorState = ENONE) : Twin true s s := by
  refine ⟨h, ?_⟩
  cases s
  cases h
  rfl

/-- With patching enabled and the buffer filled there is no difference. -/
theorem buffer_eq (h : Twin true s r) (buffer : List Byte) :
    { s with metadataBuffer := buffer } = { r with metadataBuffer := buffer } := by
  have he := h.noError
  rw [h.eq]
  cases r
  cases he
  rfl

theorem buffer (h : Twin enabled s r) (buffer : List Byte) : Twin enabled { s with metadataBuffer := buffer } r := by
  refine ⟨h.noError, ?_⟩
  rw [h.eq]

theorem outside (h : Twin enabled s r) (mem : Mem) : Twin enabled { s with mem } { r with mem } := by
  refine ⟨h.noError, ?_⟩
  rw [h.eq]

theorem toggle (h : Twin enabled s r) : Twin (!enabled) (ulpEnableOrDisablePatching s) r := by
  refine ⟨h.noError, ?_⟩
  unfold ulpEnableOrDisablePatching
  cases enabled with
  | true =>
    have he : s.errorState = ENONE := h.errorState
    rw [if_pos he, h.eq]
    rfl
  | false =>
    have he : s.errorState = EUSRBLOCKED := h.errorState
    rw [if_neg (he ▸ by decide), if_pos he, h.eq]
    rfl

end Twin

/-- While patching is disabled a call is refused. -/
theorem blocked_call {op : Operation} {env : Env} {s t : State} {ret : UlpError} (he : s.errorState = EUSRBLOCKED)
    (h : op.run env s = some (ret, t)) : ret = EUSRBLOCKED ∧ t = s := by
  have hr : refused env s = some (EUSRBLOCKED, s) := by
    rw [refused, if_pos (he ▸ by decide), he]
  cases op with
  | applyPatch =>
    simp only [Operation.run, ulpApplyPatch, hr] at h
    cases h
    exact ⟨rfl, rfl⟩
  | revertPatchesFromLib fuel =>
    simp only [Operation.run, ulpRevertPatchesFromLib, hr] at h
    cases h
    exact ⟨rfl, rfl⟩

/-- With nothing queued the tool changes nothing. -/
theorem interpreted_nothing {s s' : State} {e : UlpError} (hq : QueueHolds s.queue [])
    (h : insnqInterpretFromProcess s = some (e, s')) : s' = s := by
  rw [insnqInterpretFromProcess_holds hq] at h
  obtain rfl := (Prod.ext_iff.1 (Option.some.inj h)).2
  have hsize := hq.size
  have hnum := hq.num
  obtain ⟨patches, roots, counter, current, buffer, ref, error, queue, mem⟩ := s
  obtain ⟨version, size, num, code⟩ := queue
  cases hsize
  cases hnum
  rfl

variable {F : Set Addr} {ok : Env → UlpMetadata → Prop} {s₀ : State}

/-- **A run and the run of its effective events** stay twins. -/
theorem turns_twin (hF : RegionsDisjoint F s₀.mem) (h₀ : s₀.Start)
    (hok : ∀ env ulp, ok env ulp → ReferencesAvoid F env ulp) {es : List Event} {s s' : State} (h : Turns F ok es s s') :
    ∀ {enabled : Bool} {r : State}, ReflTransGen (Round F (ReferencesAvoid F)) s₀ r → Twin enabled s r →
    ∃ r', Turns F ok (effective enabled es) r r' ∧ ReflTransGen (Round F (ReferencesAvoid F)) s₀ r' ∧
      Twin (after enabled es) s' r' ∧ ∀ ret ∈ refusals enabled es, ret = EUSRBLOCKED := by
  induction h with
  | nil s => exact fun {enabled r} hr ht => ⟨r, .nil r, hr, ht, fun ret hret => (by cases hret)⟩
  | @cons e es s u s' turn rest ih =>
    intro enabled r hr ht
    have hi := faithful_of_run hF h₀ hr
    cases turn with
    | @call _ t _ buffer hlen op env ret run noError functions loads tool =>
      cases enabled with
      | true =>
        rw [ht.buffer_eq] at run loads
        have hround := hr.tail (.call buffer hlen op env ret run noError functions
          (fun ulp hulp => hok env ulp (loads ulp hulp)) tool)
        have hu := (faithful_of_run hF h₀ hround).queued.noError
        obtain ⟨r', hrun, hr', ht', hret⟩ := ih hround (.refl hu)
        exact ⟨r', .cons (.call buffer hlen op env ret run noError functions loads tool) hrun, hr', ht', hret⟩
      | false =>
        obtain ⟨-, rfl⟩ := blocked_call (ht.buffer buffer).errorState run
        exact absurd ((ht.buffer buffer).errorState.symm.trans noError) (by decide)
    | @blocked _ t _ disabled buffer op env ret e run tool =>
      cases enabled with
      | true => exact absurd (disabled.symm.trans ht.errorState) (by decide)
      | false =>
        obtain ⟨rfl, rfl⟩ := blocked_call (ht.buffer buffer).errorState run
        obtain rfl := interpreted_nothing (by rw [(ht.buffer buffer).queue]; exact hi.queued.holds) tool
        obtain ⟨r', hrun, hr', ht', hret⟩ := ih hr (ht.buffer buffer)
        exact ⟨r', hrun, hr', ht', List.forall_mem_cons.2 ⟨rfl, hret⟩⟩
    | outside _ mem hm =>
      rw [ht.mem] at hm
      obtain ⟨r', hrun, hr', ht', hret⟩ := ih (hr.tail (.outside r mem hm)) (ht.outside mem)
      cases enabled with
      | true => exact ⟨r', .cons (.outside r mem hm) hrun, hr', ht', hret⟩
      | false => exact ⟨r', .cons (.outside r mem hm) hrun, hr', ht', hret⟩
    | toggle =>
      obtain ⟨r', hrun, hr', ht', hret⟩ := ih hr ht.toggle
      cases enabled with
      | true => exact ⟨r', hrun, hr', ht', hret⟩
      | false => exact ⟨r', hrun, hr', ht', hret⟩

/-- **Disabling is transparent.**  However often patching is disabled and enabled in a run from the start, the run ends
like the one with the effective events only, which has no toggle: all of the state is the same but for whether patching
is enabled and what is left in the metadata buffer.  So the functions show the layers that are applied, and all calls
made while patching was disabled returned that the user blocks it. -/
theorem disabling_transparent (hF : RegionsDisjoint F s₀.mem) (h₀ : s₀.Start) {es : List Event} {s : State}
    (hrun : Turns F (ReferencesAvoid F) es s₀ s) :
    (∃ r, Turns F (ReferencesAvoid F) (effective true es) s₀ r ∧ ReflTransGen (Round F (ReferencesAvoid F)) s₀ r ∧
      s = { r with errorState := stateOf (after true es), metadataBuffer := s.metadataBuffer }) ∧
    Serves F s₀.mem s s.layers ∧ ∀ ret ∈ refusals true es, ret = EUSRBLOCKED := by
  obtain ⟨r, hr, hrounds, ht, hret⟩ := turns_twin hF h₀ (fun _ _ h => h) hrun .refl (.refl h₀.errorState)
  refine ⟨⟨r, hr, hrounds, ht.eq⟩, ?_, hret⟩
  have hs := serves_of_run hF h₀ hrounds
  refine ⟨rfl, fun f hf hn => ?_⟩
  rw [ht.mem, ht.layers]
  exact hs.shows f hf hn

theorem demo_patched_turn {ok : Env → UlpMetadata → Prop} (hok : ok demoEnv (demoLoaded 1 [108] [demoUnit] [] [])) :
    ∃ p b, Records demoEnv (demoLoaded 1 [108] [demoUnit] [] []) p ∧
      Turn {0x5000} ok (.call (demoLoading []).metadataBuffer .applyPatch demoEnv ENONE) demoStart (demoPatched p b) := by
  obtain ⟨p, t, b, hp, happ, he, hfun, htool⟩ := demo_patched
  exact ⟨p, b, hp, .call _ demoLoading_fits .applyPatch demoEnv ENONE happ he hfun (demo_loading_ok hok) htool⟩

/-- The process of `demoPatched` with patching disabled, and the patch in its buffer once more. -/
def demoDisabled (p : AppliedPatch) (b : Buf) : State :=
  { demoPatched p b with metadataBuffer := (demoLoading []).metadataBuffer, errorState := EUSRBLOCKED }

/-- A patch is applied, then offered once more while patching is disabled. -/
theorem disabling_transparent_one : ∃ p s, s.patches = [p] ∧ Serves {0x5000} demoMem s s.layers ∧
    redirectTarget s.mem 0x5000 = some 0x9000 ∧
    ∃ r, ReflTransGen (Round {0x5000} (ReferencesAvoid {0x5000})) demoStart r ∧
      s = { r with errorState := ENONE, metadataBuffer := s.metadataBuffer } := by
  obtain ⟨p, b, hp, hcall⟩ := @demo_patched_turn (ReferencesAvoid {0x5000}) (fun r hr => by cases hr)
  have hblocked : ulpApplyPatch demoEnv (demoDisabled p b) = some (EUSRBLOCKED, demoDisabled p b) := rfl
  have htool : insnqInterpretFromProcess (demoDisabled p b) = some (ENONE, demoDisabled p b) :=
    insnqInterpretFromProcess_holds (s := demoDisabled p b) (queueHolds_empty b)
  have hrun : Turns {0x5000} (ReferencesAvoid {0x5000}) [.call (demoLoading []).metadataBuffer .applyPatch demoEnv ENONE,
      .toggle, .call (demoLoading []).metadataBuffer .applyPatch demoEnv EUSRBLOCKED, .toggle] demoStart
      { demoDisabled p b with errorState := ENONE } :=
    .cons hcall (.cons (.toggle _) (.cons (.blocked rfl _ .applyPatch demoEnv EUSRBLOCKED ENONE hblocked htool)
      (.cons (.toggle _) (.nil _))))
  obtain ⟨⟨r, -, hr, he⟩, hs, -⟩ := disabling_transparent (demo_disjoint _) demoStart_start hrun
  have hlayers : State.layers { demoDisabled p b with errorState := ENONE } = [⟨Vector.replicate 32 1, [], [(0x5000, 0x9000)]⟩] := by
    rw [show State.layers { demoDisabled p b with errorState := ENONE } = [p.layer] from rfl, hp.layer]
    rfl
  have hshows := hs.shows 0x5000 rfl (by decide)
  rw [hlayers] at hshows
  exact ⟨p, _, rfl, hs, hshows, r, hr, he⟩

end Disabling
end Libpulp
