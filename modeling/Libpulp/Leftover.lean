import Libpulp.Atomic
import Libpulp.ApplyPatch
/-!
# Leftover — tool processes that die on the way (tools/insn_queue.c, tools/introspection.c)

The queue connects two processes: libpulp fills it in one call, and the tool process that made the call reads it,
carries it out and resets it by two writes, first `size`, then `num_insns`.  The tool may be killed between any two of
these steps.  libpulp detects what is left over at its next call and refuses it, but the tool interprets the queue
whatever that call returned.  A `ToolWorld` numbers the tool processes and the calls and logs what is executed, so that
an instruction is known by the call that queued it and its place in the queue.
-/
namespace Libpulp

open Bytes (Byte Addr Mem Buf)
open Relation (ReflTransGen)

/-- Where the tool stands: it has not been started or is gone, has no operation under way, has had the routine run, is
`k` instructions away from the end of its copy of the queue, has carried out all of them, or has reset the size. -/
inductive Phase where
  | gone
  | idle
  | ran
  | interpreting (q : InsnQueue) (pc : Int) (k : Nat)
  | executed
  | sizeReset

/-- The instruction at `pc` of what the `call`-th call queued, executed by the `tool`-th tool process. -/
structure Executed where
  tool : Nat
  call : Nat
  pc   : Int

/-- `owner` is the call that filled the queue, `refused` the memory at the time of the call when libpulp refused it with
`EINSNQ`. -/
structure ToolWorld where
  target  : State
  phase   : Phase
  tools   : Nat
  calls   : Nat
  owner   : Nat
  log     : List Executed
  refused : Option Mem

/-- The process `s` before any tool was started. -/
def ToolWorld.start (s : State) : ToolWorld :=
  { target := s, phase := .gone, tools := 0, calls := 0, owner := 0, log := [], refused := none }

/-- The world after a call that left `s` behind: a queue with something in it is not touched by the call. -/
def ToolWorld.called (w : ToolWorld) (s : State) (refused : Option Mem) (phase : Phase) : ToolWorld :=
  { w with target := s, phase, calls := w.calls + 1, refused,
           owner := if insnqNotEmpty w.target.queue then w.owner else w.calls + 1 }

/-- The log after the instruction at `pc`; a NOP is no instruction that libpulp queues. -/
def ToolWorld.logged (w : ToolWorld) (q : InsnQueue) (pc : Int) : List Executed :=
  if insnType q.buffer pc.toNat = 0 then w.log else w.log ++ [⟨w.tools, w.owner, pc⟩]

/-- One remote step of a tool process, its end, or the process running on while no operation is under way. -/
inductive ToolStep : ToolWorld → ToolWorld → Prop
  | begin (w : ToolWorld) (h : w.phase = .gone) : ToolStep w { w with phase := .idle, tools := w.tools + 1 }
  | call (w : ToolWorld) (h : w.phase = .idle) (data : List Byte) (op : Operation) (env : Env) (ret : UlpError)
      {s s' : State} (hset : setMetadataBuffer data w.target = some s) (hrun : op.run env s = some (ret, s')) :
      ToolStep w (w.called s'
        (if (Libpulp.refused env s).map Prod.fst = some EINSNQ then some w.target.mem else none) .ran)
  /-- The loop of `revert_all_patches_from_lib` does not end, and the tool gives up. -/
  | timeout (w : ToolWorld) (h : w.phase = .idle) (data : List Byte) (env : Env) {s : State}
      (hset : setMetadataBuffer data w.target = some s)
      (hrun : ulpRevertPatchesFromLib (s.patches.length + 1) env s = none) :
      ToolStep w (w.called (revertAllReached s.libBasename s.patches s) none .idle)
  | read (w : ToolWorld) (h : w.phase = .ran) {q : InsnQueue} (hq : insnqGetFromRemoteProcess w.target.queue = .ok q) :
      ToolStep w { w with phase := .interpreting q 0 q.numInsns.toNat }
  | execute (w : ToolWorld) {q : InsnQueue} {pc pc' : Int} {k : Nat} {mem : Mem}
      (h : w.phase = .interpreting q pc (k + 1)) (hs : insnStep toolHandlers q.buffer pc w.target.mem = .next pc' mem) :
      ToolStep w { w with target := { w.target with mem }, phase := .interpreting q pc' k, log := w.logged q pc }
  | finish (w : ToolWorld) {q : InsnQueue} {pc : Int} (h : w.phase = .interpreting q pc 0) (hpc : pc = q.size)
      (hn : (q.numInsns.toNat : Int) = q.numInsns) : ToolStep w { w with phase := .executed }
  | resetSize (w : ToolWorld) (h : w.phase = .executed) : ToolStep w
      { w with target := { w.target with queue := { w.target.queue with size := 0 } }, phase := .sizeReset }
  | resetNum (w : ToolWorld) (h : w.phase = .sizeReset) : ToolStep w
      { w with target := { w.target with queue := { w.target.queue with numInsns := 0 } }, phase := .idle }
  /-- An early return: the routine is taken for not run, or the queue cannot be read or interpreted. -/
  | leave (w : ToolWorld) (h : w.phase ≠ .gone) : ToolStep w { w with phase := .idle }
  | kill (w : ToolWorld) (h : w.phase ≠ .gone) : ToolStep w { w with phase := .gone }
  | outside (w : ToolWorld) (h : w.phase = .gone ∨ w.phase = .idle) (mem : Mem) :
      ToolStep w { w with target := { w.target with mem }, refused := none }

/-! ## What is asked for -/

/-- No instruction is executed by two tool processes. -/
def ExecutedOnce (w : ToolWorld) : Prop :=
  ∀ e ∈ w.log, ∀ e' ∈ w.log, e.call = e'.call → e.pc = e'.pc → e.tool = e'.tool

/-- An operation that libpulp refused with `EINSNQ` has changed no byte. -/
def RefusedUnchanged (w : ToolWorld) : Prop := ∀ m, w.refused = some m → w.target.mem = m

/-- A step that does not end an operation while the queue has a size: not by a kill, an early return or a timeout. -/
structure CleanStep (w w' : ToolWorld) : Prop where
  step  : ToolStep w w'
  clean : w'.phase = .gone ∨ w'.phase = .idle → w'.target.queue.size = 0

/-! ## The invariant -/

/-- What holds while the tool is at a phase. -/
def Phase.Ok (w : ToolWorld) : Phase → Prop
  | .gone | .idle | .sizeReset => w.target.queue.size = 0
  | .ran                       => w.target.queue.size = 0 ∨ w.refused = none ∧ ∀ e ∈ w.log, e.call ≠ w.owner
  | .interpreting q _ _        =>
    (∀ i, q.buffer i = 0) ∨ w.refused = none ∧ ∀ e ∈ w.log, e.call = w.owner → e.tool = w.tools
  | .executed                  => True

/-- **The invariant of clean runs**: what is about to be executed has not been executed by an earlier tool. -/
structure OnceInv (w : ToolWorld) : Prop where
  owner : w.owner ≤ w.calls
  log   : ∀ e ∈ w.log, e.call ≤ w.owner
  once  : ∀ e ∈ w.log, ∀ e' ∈ w.log, e.call = e'.call → e.tool = e'.tool
  mem   : RefusedUnchanged w
  phase : w.phase.Ok w

theorem OnceInv.init {s : State} (h : s.queue.size = 0) : OnceInv (.start s) :=
  ⟨Nat.le_refl _, fun _ he => (by cases he), fun _ he => (by cases he), fun _ hm => (by cases hm), h⟩

theorem setMetadataBuffer_same {data : List Byte} {s t : State} (h : setMetadataBuffer data s = some t) :
    t.queue = s.queue ∧ t.mem = s.mem := by
  unfold setMetadataBuffer at h
  split at h
  · cases h
  · cases h
    exact ⟨rfl, rfl⟩

/-- A refused call leaves the queue and the memory alone. -/
theorem Operation.run_refused {op : Operation} {env : Env} {s s' t : State} {ret e : UlpError}
    (hg : refused env s = some (e, t)) (h : op.run env s = some (ret, s')) : s'.queue = s.queue ∧ s'.mem = s.mem := by
  obtain ⟨-, hm, hq⟩ := refused_same hg
  have hs : s' = t := by
    cases op <;> simp only [run, ulpApplyPatch, ulpRevertPatchesFromLib, hg] at h <;> cases h <;> rfl
  exact ⟨hs ▸ hq, hs ▸ hm⟩

/-- A call that finds something in the queue is refused. -/
theorem refused_of_notEmpty (env : Env) {s : State} (h : insnqNotEmpty s.queue = true) :
    ∃ e t, refused env s = some (e, t) := by
  by_cases he : s.errorState = ENONE
  · exact ⟨EINSNQ, _, by rw [refused, if_neg (not_not.2 he), if_pos h]⟩
  · exact ⟨s.errorState, s, if_pos he⟩

section
variable {w w' : ToolWorld}

/-- The owner of the queue after a call is an earlier call or this one. -/
theorem OnceInv.called_owner (hi : OnceInv w) (s : State) (refused : Option Mem) (phase : Phase) :
    (w.called s refused phase).owner ≤ (w.called s refused phase).calls ∧
      ∀ e ∈ w.log, e.call ≤ (w.called s refused phase).owner := by
  have how := hi.owner
  refine ⟨?_, fun e he => ?_⟩
  · simp only [ToolWorld.called]
    split <;> omega
  · have := hi.log e he
    simp only [ToolWorld.called]
    split <;> omega

theorem OnceInv.called (hi : OnceInv w) (hz : w.target.queue.size = 0) {data : List Byte} {op : Operation} {env : Env}
    {ret : UlpError} {s s' : State} (hset : setMetadataBuffer data w.target = some s)
    (hrun : op.run env s = some (ret, s')) :
    OnceInv (w.called s' (if (refused env s).map Prod.fst = some EINSNQ then some w.target.mem else none) .ran) := by
  obtain ⟨hq, hm⟩ := setMetadataBuffer_same hset
  have hsame : ∀ {e t}, refused env s = some (e, t) → s'.queue.size = 0 ∧ s'.mem = w.target.mem := by
    intro e t hg
    obtain ⟨hq', hm'⟩ := op.run_refused hg hrun
    rw [hq', hm', hq, hm]
    exact ⟨hz, rfl⟩
  obtain ⟨howner, hlog⟩ := hi.called_owner s'
    (if (refused env s).map Prod.fst = some EINSNQ then some w.target.mem else none) .ran
  refine ⟨howner, hlog, hi.once, ?_, ?_⟩
  · intro m hm'
    simp only [ToolWorld.called] at hm'
    split at hm'
    · rename_i hr
      obtain ⟨⟨e, t⟩, hg, -⟩ := Option.map_eq_some_iff.1 hr
      cases hm'
      exact (hsame hg).2
    · cases hm'
  · cases hg : refused env s with
    | some r => exact Or.inl (hsame hg).1
    | none =>
      have hempty : insnqNotEmpty w.target.queue = false := by
        rw [← hq, ← Bool.not_eq_true]
        intro hne
        obtain ⟨e, t, hg'⟩ := refused_of_notEmpty env hne
        rw [hg] at hg'
        cases hg'
      refine Or.inr ⟨by simp [ToolWorld.called], fun e he => ?_⟩
      have := hi.log e he
      have := hi.owner
      simp only [ToolWorld.called, hempty, Bool.false_eq_true, ↓reduceIte]
      omega

theorem OnceInv.read (hi : OnceInv w) (h : w.phase = .ran) {q : InsnQueue}
    (hq : insnqGetFromRemoteProcess w.target.queue = .ok q) :
    OnceInv { w with phase := .interpreting q 0 q.numInsns.toNat } := by
  refine ⟨hi.owner, hi.log, hi.once, hi.mem, ?_⟩
  have hp := hi.phase
  rw [h] at hp
  rcases hp with hz | ⟨hr, hfresh⟩
  · -- nothing is copied of a queue without a size
    refine Or.inl (fun i => ?_)
    unfold insnqGetFromRemoteProcess at hq
    rw [hz] at hq
    split at hq
    · cases hq
    split at hq
    · cases hq
    · cases hq
      simp
  · exact Or.inr ⟨hr, fun e he hc => absurd hc (hfresh e he)⟩

theorem OnceInv.execute (hi : OnceInv w) {q : InsnQueue} {pc pc' : Int} {k : Nat} {mem : Mem}
    (h : w.phase = .interpreting q pc (k + 1)) (hs : insnStep toolHandlers q.buffer pc w.target.mem = .next pc' mem) :
    OnceInv { w with target := { w.target with mem }, phase := .interpreting q pc' k, log := w.logged q pc } := by
  have hp := hi.phase
  rw [h] at hp
  rcases hp with hzero | ⟨hr, htool⟩
  · have ht : insnType q.buffer pc.toNat = 0 := hzero _
    have hlog : w.logged q pc = w.log := if_pos ht
    have hmem : mem = w.target.mem := by
      unfold insnStep at hs
      split at hs
      · cases hs
      · cases hs
        rfl
    rw [hlog, hmem]
    exact ⟨hi.owner, hi.log, hi.once, hi.mem, Or.inl hzero⟩
  · have hmem : ∀ e ∈ w.logged q pc, e ∈ w.log ∨ e = ⟨w.tools, w.owner, pc⟩ := by
      intro e he
      unfold ToolWorld.logged at he
      split at he
      · exact Or.inl he
      · simpa using he
    have hnew : ∀ e ∈ w.logged q pc, e.call = w.owner → e.tool = w.tools := by
      intro e he hc
      rcases hmem e he with he | rfl
      · exact htool e he hc
      · rfl
    refine ⟨hi.owner, fun e he => ?_, fun e he e' he' hc => ?_, fun m hm => ?_, Or.inr ⟨hr, hnew⟩⟩
    · rcases hmem e he with he | rfl
      · exact hi.log e he
      · exact Nat.le_refl _
    · rcases hmem e he with h₁ | rfl
      · rcases hmem e' he' with h₂ | rfl
        · exact hi.once e h₁ e' h₂ hc
        · exact hnew e he hc
      · exact (hnew e' he' hc.symm).symm
    · rw [hr] at hm
      cases hm

/-- **A clean step keeps the invariant.** -/
theorem CleanStep.inv (h : CleanStep w w') (hi : OnceInv w) : OnceInv w' := by
  obtain ⟨hs, hclean⟩ := h
  have hsame : ∀ {v : ToolWorld}, v.owner = w.owner → v.calls = w.calls → v.log = w.log → v.refused = w.refused →
      v.target.mem = w.target.mem → v.phase.Ok v → OnceInv v := by
    intro v h₁ h₂ h₃ h₄ h₅ hp
    refine ⟨by rw [h₁, h₂]; exact hi.owner, by rw [h₁, h₃]; exact hi.log, by rw [h₃]; exact hi.once, ?_, hp⟩
    intro m hm
    rw [h₅]
    exact hi.mem m (h₄ ▸ hm)
  have hp := hi.phase
  cases hs with
  | begin h =>
    rw [h] at hp
    exact hsame rfl rfl rfl rfl rfl hp
  | call h data op env ret hset hrun =>
    rw [h] at hp
    exact hi.called hp hset hrun
  | timeout h data env hset hrun =>
    obtain ⟨howner, hlog⟩ := hi.called_owner _ none .idle
    exact ⟨howner, hlog, hi.once, fun _ hm => (by cases hm), hclean (Or.inr rfl)⟩
  | read h hq => exact hi.read h hq
  | execute h hs => exact hi.execute h hs
  | finish h hpc hn => exact hsame rfl rfl rfl rfl rfl trivial
  | resetSize h => exact hsame rfl rfl rfl rfl rfl rfl
  | resetNum h =>
    rw [h] at hp
    exact hsame rfl rfl rfl rfl rfl hp
  | leave h => exact hsame rfl rfl rfl rfl rfl (hclean (Or.inr rfl))
  | kill h => exact hsame rfl rfl rfl rfl rfl (hclean (Or.inl rfl))
  | outside h mem =>
    refine ⟨hi.owner, hi.log, hi.once, fun _ hm => (by cases hm), ?_⟩
    rcases h with h | h
    · rw [h] at hp ⊢
      exact hp
    · rw [h] at hp ⊢
      exact hp

end

/-! ## A tool that is left alone -/

theorem interpreting_run {q : InsnQueue} : ∀ (k : Nat) (pc : Int) (w : ToolWorld) (mem : Mem),
    w.phase = .interpreting q pc k → insnqInterpretFrom toolHandlers q k pc w.target.mem = (mem, some ENONE) →
      ∃ w', ReflTransGen ToolStep w w' ∧ w'.phase = .executed ∧ w'.target = { w.target with mem }
  | 0, pc, w, mem, hp, h => by
    rw [insnqInterpretFrom] at h
    obtain ⟨rfl, hret⟩ := Prod.mk.inj h
    split at hret
    · exact absurd (Option.some.inj hret) (by decide : EINSNQ ≠ ENONE)
    rename_i hpc
    split at hret
    · exact absurd (Option.some.inj hret) (by decide : EINSNQ ≠ ENONE)
    rename_i hn
    exact ⟨_, ReflTransGen.single (.finish w hp (not_not.1 hpc) (not_not.1 hn)), rfl, rfl⟩
  | k + 1, pc, w, mem, hp, h => by
    rw [insnqInterpretFrom_succ] at h
    cases hs : insnStep toolHandlers q.buffer pc w.target.mem with
    | next pc' mem' =>
      rw [hs] at h
      obtain ⟨w', hrun, hp', ht⟩ := interpreting_run k pc'
        { w with target := { w.target with mem := mem' }, phase := .interpreting q pc' k, log := w.logged q pc } mem rfl h
      exact ⟨w', ReflTransGen.head (.execute w hp hs) hrun, hp', ht⟩
    | invalid =>
      rw [hs] at h
      exact absurd (Option.some.inj (Prod.mk.inj h).2) (by decide : EINSNQ ≠ ENONE)
    | outside =>
      rw [hs] at h
      cases (Prod.mk.inj h).2

/-- **Without a kill the steps come to what `insnq_interpret_from_process` does.** -/
theorem toolRun_of_interpretFromProcess {w : ToolWorld} {s : State} (hp : w.phase = .ran)
    (h : insnqInterpretFromProcess w.target = some (ENONE, s)) :
    ∃ w', ReflTransGen ToolStep w w' ∧ w'.phase = .idle ∧ w'.target = s := by
  unfold insnqInterpretFromProcess at h
  cases hq : insnqGetFromRemoteProcess w.target.queue with
  | error e =>
    rw [hq] at h
    obtain ⟨rfl, -⟩ := Prod.mk.inj (Option.some.inj h)
    unfold insnqGetFromRemoteProcess at hq
    split at hq
    · exact absurd (Except.error.inj hq) (by decide : EOLDULP ≠ ENONE)
    split at hq
    · exact absurd (Except.error.inj hq) (by decide : EINSNQ ≠ ENONE)
    · cases hq
  | ok q =>
    rw [hq] at h
    simp only at h
    rcases hr : insnqInterpret toolHandlers q w.target.mem with ⟨mem, e⟩
    rw [hr] at h
    cases e with
    | none => cases h
    | some e =>
      simp only at h
      split at h
      · exact absurd (Prod.mk.inj (Option.some.inj h)).1 (by decide : EINSNQ ≠ ENONE)
      rename_i he
      obtain rfl := not_not.1 he
      obtain ⟨-, rfl⟩ := Prod.mk.inj (Option.some.inj h)
      obtain ⟨w', hrun, hp', ht⟩ := interpreting_run q.numInsns.toNat 0
        { w with phase := .interpreting q 0 q.numInsns.toNat } mem rfl hr
      refine ⟨_, ((ReflTransGen.head (.read w hp hq) hrun).tail (.resetSize w' hp')).tail (.resetNum _ rfl), rfl, ?_⟩
      simp only [ht]

/-! ## Every run -/

/-- **Queued instructions are executed at most once, and a refused operation changes nothing**, in every run in which no
operation ends while the queue has a size. -/
theorem executedOnce_of_clean {s : State} {w : ToolWorld} (hs : s.Start) (h : ReflTransGen CleanStep (.start s) w) :
    ExecutedOnce w ∧ RefusedUnchanged w := by
  have hi : OnceInv w := by
    induction h with
    | refl => exact OnceInv.init hs.queue.size
    | tail _ hstep ih => exact hstep.inv ih
  exact ⟨fun e he e' he' hc _ => hi.once e he e' he' hc, hi.mem⟩

/-! ## A patch with one unit -/

/-- The world in which the first tool process has had a patch with one unit applied. -/
def demoRan (t : State) : ToolWorld :=
  { target := { t with metadataRef := none }, phase := .ran, tools := 1, calls := 1, owner := 1, log := [],
    refused := none }

theorem demo_ran : ∃ t, Queued t (demoWrites []) ∧ CleanStep (.start demoStart) { ToolWorld.start demoStart with
      phase := .idle, tools := 1 } ∧
    CleanStep { ToolWorld.start demoStart with phase := .idle, tools := 1 } (demoRan t) := by
  have hfit : (demoMetadata 1 [108] [demoUnit] []).length < ulpMetadataBufLen := by decide
  obtain ⟨p, t, -, hcall, hq, -⟩ := @demo_called [] (fun r hr => by cases hr) (Nat.le_of_lt hfit) (by decide)
  have hset := demo_set (s := demoStart) rfl hfit
  have hstep := ToolStep.call { ToolWorld.start demoStart with phase := .idle, tools := 1 } rfl _ .applyPatch demoEnv ENONE
    hset hcall
  have hg : refused demoEnv (demoLoading []) = none := (demoLoading_ready []).refused
  refine ⟨t, hq, ⟨.begin (.start demoStart) rfl, fun _ => rfl⟩, ?_, fun h => by rcases h with h | h <;> cases h⟩
  convert hstep using 1
  change demoRan t = ToolWorld.called _ _ (if (refused demoEnv (demoLoading [])).map Prod.fst = some EINSNQ then _ else _) _
  rw [hg]
  rfl

theorem executed_first {w : ToolWorld} {i : Insn} (hp : w.phase = .ran) (h : QueueHolds w.target.queue [i]) :
    ∃ q mem, QueueHolds q [i] ∧ CleanStep w { w with phase := .interpreting q 0 1 } ∧
      CleanStep { w with phase := .interpreting q 0 1 }
        { w with target := { w.target with mem }, phase := .interpreting q i.size 0,
                 log := w.log ++ [⟨w.tools, w.owner, 0⟩] } := by
  obtain ⟨q, hq, hh⟩ := insnqGetFromRemoteProcess_holds h
  have hn : q.numInsns.toNat = 1 := by rw [hh.num]; rfl
  obtain ⟨hc, hok, -⟩ := hh.code
  have hfit : 0 + i.size ≤ insnBufferMax := by simpa using hh.fits
  have hs := insnStep_encoded toolHandlers (fun _ _ _ _ => rfl) w.target.mem hfit hok hc
  have ht : insnType q.buffer 0 ≠ 0 := by
    cases i with
    | print s => rw [(print_fields hfit hok hc).1]; decide
    | write a bs => rw [(write_fields hfit hc).1]; decide
  have hread := ToolStep.read w hp hq
  rw [hn] at hread
  have hexec := ToolStep.execute { w with phase := .interpreting q 0 1 } rfl hs
  have hlog : ToolWorld.logged { w with phase := .interpreting q 0 1 } q 0 = w.log ++ [⟨w.tools, w.owner, 0⟩] := if_neg ht
  rw [hlog, Nat.zero_add] at hexec
  exact ⟨q, _, hh, ⟨hread, fun h => by rcases h with h | h <;> cases h⟩,
    ⟨hexec, fun h => by rcases h with h | h <;> cases h⟩⟩

/-- The next tool process runs the routine again, and libpulp refuses. -/
theorem called_again {w : ToolWorld} (hp : w.phase = .idle) (he : w.target.errorState = ENONE)
    (hne : insnqNotEmpty w.target.queue = true) :
    ToolStep w { w with target := { w.target with errorState := EINSNQ }, phase := .ran, calls := w.calls + 1,
                        refused := some w.target.mem } := by
  have hset : setMetadataBuffer [] w.target = some w.target := by
    unfold setMetadataBuffer
    rw [if_neg (by decide)]
    rfl
  have hg : refused demoEnv w.target = some (EINSNQ, { w.target with errorState := EINSNQ }) := by
    rw [refused, if_neg (not_not.2 he), if_pos hne]
  have hrun : Operation.applyPatch.run demoEnv w.target = some (EINSNQ, { w.target with errorState := EINSNQ }) := by
    simp only [Operation.run, ulpApplyPatch, hg]
  have hstep := ToolStep.call w hp [] .applyPatch demoEnv EINSNQ hset hrun
  rw [hg, Option.map_some, if_pos rfl] at hstep
  simp only [ToolWorld.called, hne, ↓reduceIte] at hstep
  exact hstep

/-- The first tool process is killed when it has reset the size of the queue but not the number of instructions: the
next one is refused, finds nothing to execute, and all is as it was. -/
theorem executedOnce_halfReset : ∃ w, ReflTransGen CleanStep (.start demoStart) w ∧ w.tools = 2 ∧ w.log.length = 1 ∧
    w.refused ≠ none ∧ ExecutedOnce w ∧ RefusedUnchanged w := by
  obtain ⟨t, hq, h₁, h₂⟩ := demo_ran
  obtain ⟨q, mem, hh, h₃, h₄⟩ := executed_first (w := demoRan t) rfl hq.holds
  have hrun := (((ReflTransGen.single h₁).tail h₂).tail h₃).tail h₄
  have hn : (q.numInsns.toNat : Int) = q.numInsns := by rw [hh.num]; rfl
  have hsz : ((prologueWrite demoMem 0x5000 (some 0x9000)).size : Int) = q.size := by rw [hh.size]; rfl
  have hrun := hrun.tail ⟨.finish _ rfl hsz hn, fun h => by rcases h with h | h <;> cases h⟩
  have hrun := hrun.tail ⟨.resetSize _ rfl, fun h => by rcases h with h | h <;> cases h⟩
  have hrun := hrun.tail ⟨.kill _ (by simp), fun _ => rfl⟩
  have hrun := hrun.tail ⟨.begin _ rfl, fun _ => rfl⟩
  have hne : insnqNotEmpty { t.queue with size := 0 } = true := by
    have hnum : 0 < t.queue.numInsns := by rw [hq.holds.num]; decide
    simp [insnqNotEmpty, hnum]
  have hrun := hrun.tail ⟨called_again rfl hq.noError hne, fun h => by rcases h with h | h <;> cases h⟩
  obtain ⟨ho, hu⟩ := executedOnce_of_clean demoStart_start hrun
  exact ⟨_, hrun, rfl, rfl, by simp, ho, hu⟩

/-- The first tool process is killed after the WRITE and before it resets the queue: libpulp refuses the next one, which
executes the WRITE again. -/
theorem executed_twice : ¬ ∀ w, ReflTransGen ToolStep (.start demoStart) w → ExecutedOnce w ∧ RefusedUnchanged w := by
  intro hall
  obtain ⟨t, hq, h₁, h₂⟩ := demo_ran
  obtain ⟨q, mem, hh, h₃, h₄⟩ := executed_first (w := demoRan t) rfl hq.holds
  have hrun := (((ReflTransGen.single h₁.step).tail h₂.step).tail h₃.step).tail h₄.step
  have hrun := hrun.tail (.kill _ (by simp))
  have hrun := hrun.tail (.begin _ rfl)
  have hne : insnqNotEmpty t.queue = true := insnqNotEmpty_eq_true hq.holds (by simp [demoWrites])
  have hrun := hrun.tail (called_again rfl hq.noError hne)
  obtain ⟨q', mem', -, h₅, h₆⟩ := executed_first (w := { demoRan t with
    target := { t with metadataRef := none, mem, errorState := EINSNQ }, tools := 2, calls := 2
    log := [⟨1, 1, 0⟩], refused := some mem }) rfl hq.holds
  have hrun := (hrun.tail h₅.step).tail h₆.step
  have htwice := (hall _ hrun).1 ⟨1, 1, 0⟩ (by simp) ⟨2, 1, 0⟩ (by simp [demoRan]) rfl rfl
  cases htwice

end Libpulp
