import Libpulp.State
import Mathlib.Logic.Relation
/-!
# Asunsafe — detecting a busy process (lib/interpose.c, lib/ulp.c)

`flag` counts the calls of the interposed functions in flight: each adds 1 before it calls the real function and takes 1
away after it.  A patch operation tries it as a lock, which also fails while the loader holds one of its own, and gives it
back at once; then it calls the interposed functions itself.  `flag` is an `int`, so it counts modulo 2^32.  All threads
but the hijacked one stand still during a hijacked call.
-/
namespace Libpulp

open Relation (ReflTransGen)

/-- The interposed functions. -/
inductive Interposed where
  | free | malloc | calloc | realloc | valloc | pvalloc | memalign | alignedAlloc | posixMemalign
  | dlopen | dlmopen | dlclose | dladdr | dladdr1 | dlinfo
deriving DecidableEq

/-- Where a hijacked call is: before `__ulp_asunsafe_trylock`, in it after the locks of the loader were found free,
between it and `__ulp_asunsafe_unlock`, sent away with `EAGAIN`, or at work. -/
inductive BusyPhase where
  | entered
  | locksFree
  | locked
  | refused
  | running
deriving DecidableEq

/-- A hijacked call: the thread, the value of `flag` it found, where it is, and the interposed calls it is in itself,
the innermost first. -/
structure HijackedCall where
  tid   : Nat
  found : BitVec 32
  phase : BusyPhase
  own   : List Interposed

/-- `flag`, the interposed calls the threads are in, the last begun first, the locks of the loader, and the hijacked call
if there is one. -/
structure BusyState where
  flag          : BitVec 32
  calls         : List (Nat × Interposed)
  loadLock      : Int
  loadWriteLock : Int
  hijacked      : Option HijackedCall

namespace BusyState

/-- The number of interposed calls in flight. -/
def inFlight (s : BusyState) : Nat := s.calls.length + s.hijacked.elim 0 (·.own.length)

/-- A hijacked call is between `__ulp_asunsafe_trylock` and `__ulp_asunsafe_unlock`. -/
def Locked (s : BusyState) : Prop := ∃ c, s.hijacked = some c ∧ c.phase = .locked

end BusyState

/-- **A step of a thread, or of the hijacked one.** -/
inductive BusyStep : BusyState → BusyState → Prop
  | call (s : BusyState) (h : s.hijacked = none) (tid : Nat) (f : Interposed) :
      BusyStep s { s with flag := s.flag + 1, calls := (tid, f) :: s.calls }
  | ret (s : BusyState) (h : s.hijacked = none) (tid : Nat) (f : Interposed) (a b : List (Nat × Interposed))
      (hc : s.calls = a ++ (tid, f) :: b) (ha : ∀ c ∈ a, c.1 ≠ tid) :
      BusyStep s { s with flag := s.flag - 1, calls := a ++ b }
  | loader (s : BusyState) (h : ∀ c, s.hijacked = some c → c.phase = .running) (loadLock loadWriteLock : Int) :
      BusyStep s { s with loadLock, loadWriteLock }
  | hijack (s : BusyState) (h : s.hijacked = none) (tid : Nat) :
      BusyStep s { s with hijacked := some ⟨tid, s.flag, .entered, []⟩ }
  | hijackOther (s : BusyState) (h : s.hijacked = none) (tid : Nat) :
      BusyStep s { s with hijacked := some ⟨tid, s.flag, .running, []⟩ }
  | locksHeld (s : BusyState) (c : HijackedCall) (h : s.hijacked = some c) (hp : c.phase = .entered) :
      BusyStep s { s with
        hijacked := some { c with phase := if dlLocksHeld s.loadLock s.loadWriteLock then .refused else .locksFree } }
  | busy (s : BusyState) (c : HijackedCall) (h : s.hijacked = some c) (hp : c.phase = .locksFree) (hf : s.flag ≠ 0) :
      BusyStep s { s with hijacked := some { c with phase := .refused } }
  | lock (s : BusyState) (c : HijackedCall) (h : s.hijacked = some c) (hp : c.phase = .locksFree) (hf : s.flag = 0) :
      BusyStep s { s with flag := 1, hijacked := some { c with phase := .locked } }
  | unlock (s : BusyState) (c : HijackedCall) (h : s.hijacked = some c) (hp : c.phase = .locked) :
      BusyStep s { s with flag := s.flag &&& 0, hijacked := some { c with phase := .running } }
  | ownCall (s : BusyState) (c : HijackedCall) (h : s.hijacked = some c) (hp : c.phase = .running) (f : Interposed) :
      BusyStep s { s with flag := s.flag + 1, hijacked := some { c with own := f :: c.own } }
  | ownRet (s : BusyState) (c : HijackedCall) (h : s.hijacked = some c) (hp : c.phase = .running) (f : Interposed)
      (own : List Interposed) (ho : c.own = f :: own) :
      BusyStep s { s with flag := s.flag - 1, hijacked := some { c with own } }
  | finish (s : BusyState) (c : HijackedCall) (h : s.hijacked = some c)
      (hp : c.phase = .entered ∨ c.phase = .refused ∨ c.phase = .running) (ho : c.own = []) :
      BusyStep s { s with hijacked := none }

/-- Nothing in flight, whatever the loader does. -/
def BusyState.Initial (s : BusyState) : Prop := s.flag = 0 ∧ s.calls = [] ∧ s.hijacked = none

/-- **Busy detection is exact**: `flag` is the number of calls in flight unless it is taken as the lock, the lock is had
only if this number is 0 and the loader holds none of its own, and a hijacked call leaves `flag` as it found it. -/
structure BusyExact (s : BusyState) : Prop where
  counts : ¬ s.Locked → s.flag.toInt = s.inFlight
  guards : ∀ t, BusyStep s t → ¬ s.Locked → t.Locked →
    s.inFlight = 0 ∧ dlLocksHeld s.loadLock s.loadWriteLock = false
  leaves : ∀ t c, BusyStep s t → s.hijacked = some c → t.hijacked = none → t.flag = c.found

/-! ## The counter -/

/-- **What holds of a hijacked call.** -/
structure CallInv (s : BusyState) (c : HijackedCall) : Prop where
  flag   : s.flag = if c.phase = .locked then 1 else BitVec.ofNat 32 (s.calls.length + c.own.length)
  zero   : c.phase = .locked → BitVec.ofNat 32 s.calls.length = 0
  found  : c.found = BitVec.ofNat 32 s.calls.length
  own    : c.phase ≠ .running → c.own = []
  loader : c.phase = .locksFree → dlLocksHeld s.loadLock s.loadWriteLock = false

/-- **The invariant**: `flag` counts the calls in flight modulo 2^32. -/
structure BusyInv (s : BusyState) : Prop where
  counts : s.hijacked = none → s.flag = BitVec.ofNat 32 s.calls.length
  call   : ∀ c, s.hijacked = some c → CallInv s c

theorem ofNat_pred (n : Nat) : BitVec.ofNat 32 (n + 1) - 1 = BitVec.ofNat 32 n := by
  rw [BitVec.ofNat_add]
  exact BitVec.add_sub_cancel _ _

theorem BusyInv.of_some {s : BusyState} {c : HijackedCall} (h : s.hijacked = some c) (hc : CallInv s c) : BusyInv s := by
  refine ⟨fun hn => ?_, fun d hd => ?_⟩
  · rw [h] at hn
    cases hn
  · rw [h] at hd
    cases hd
    exact hc

theorem BusyInv.of_none {s : BusyState} (h : s.hijacked = none) (hf : s.flag = BitVec.ofNat 32 s.calls.length) :
    BusyInv s := by
  refine ⟨fun _ => hf, fun d hd => ?_⟩
  rw [h] at hd
  cases hd

/-- A call that neither has the lock nor is about to take it. -/
theorem CallInv.of_free {s : BusyState} {c : HijackedCall} (hl : c.phase ≠ .locked) (hf : c.phase ≠ .locksFree)
    (hflag : s.flag = BitVec.ofNat 32 (s.calls.length + c.own.length)) (hfound : c.found = BitVec.ofNat 32 s.calls.length)
    (hown : c.phase ≠ .running → c.own = []) : CallInv s c := by
  refine ⟨?_, fun hp => absurd hp hl, hfound, hown, fun hp => absurd hp hf⟩
  rw [if_neg hl]
  exact hflag

/-- **Every step keeps the invariant.** -/
theorem BusyInv.step {s t : BusyState} (hi : BusyInv s) (hs : BusyStep s t) : BusyInv t := by
  cases hs with
  | call h tid f =>
    refine .of_none h ?_
    rw [List.length_cons, BitVec.ofNat_add, ← hi.counts h]
    rfl
  | ret h tid f a b hc ha =>
    refine .of_none h ?_
    have hlen : s.calls.length = (a ++ b).length + 1 := by simp [hc]; omega
    rw [hi.counts h, hlen, ofNat_pred]
  | loader h loadLock loadWriteLock =>
    refine ⟨hi.counts, fun c hc => ?_⟩
    have hcall := hi.call c hc
    exact { hcall with loader := fun hp => absurd ((h c hc).symm.trans hp) (by decide) }
  | hijack h tid =>
    exact .of_some rfl (.of_free (by simp) (by simp) (hi.counts h) (hi.counts h) (fun _ => rfl))
  | hijackOther h tid =>
    exact .of_some rfl (.of_free (by simp) (by simp) (hi.counts h) (hi.counts h) (fun _ => rfl))
  | locksHeld c h hp =>
    obtain ⟨hflag, -, hfound, hown, -⟩ := hi.call c h
    rw [hp, if_neg (by decide)] at hflag
    have hown := hown (by rw [hp]; decide)
    refine .of_some rfl ?_
    by_cases hl : dlLocksHeld s.loadLock s.loadWriteLock = true
    · exact .of_free (by simp [hl]) (by simp [hl]) hflag hfound (fun _ => hown)
    · rw [Bool.not_eq_true] at hl
      refine ⟨?_, ?_, hfound, fun _ => hown, fun _ => hl⟩
      · simpa [hl] using hflag
      · exact fun hp => by simp [hl] at hp
  | busy c h hp hf =>
    obtain ⟨hflag, -, hfound, hown, -⟩ := hi.call c h
    rw [hp, if_neg (by decide)] at hflag
    exact .of_some rfl (.of_free (by simp) (by simp) hflag hfound (fun _ => hown (by rw [hp]; decide)))
  | lock c h hp hf =>
    obtain ⟨hflag, -, hfound, hown, -⟩ := hi.call c h
    have hown := hown (by rw [hp]; decide)
    rw [hp, if_neg (by decide), hf, hown, List.length_nil, Nat.add_zero] at hflag
    exact .of_some rfl ⟨rfl, fun _ => hflag.symm, hfound, fun _ => hown, fun hp => nomatch hp⟩
  | unlock c h hp =>
    obtain ⟨-, hzero, hfound, hown, -⟩ := hi.call c h
    have hown := hown (by rw [hp]; decide)
    refine .of_some rfl (.of_free (by simp) (by simp) ?_ hfound (fun _ => hown))
    rw [hown, List.length_nil, Nat.add_zero, hzero hp]
    exact BitVec.and_zero
  | ownCall c h hp f =>
    obtain ⟨hflag, -, hfound, -, -⟩ := hi.call c h
    rw [hp, if_neg (by decide)] at hflag
    refine .of_some rfl (.of_free (by simp [hp]) (by simp [hp]) ?_ hfound (fun h => absurd hp h))
    rw [List.length_cons, ← Nat.add_assoc, BitVec.ofNat_add _ 1, ← hflag]
    rfl
  | ownRet c h hp f own ho =>
    obtain ⟨hflag, -, hfound, -, -⟩ := hi.call c h
    rw [hp, if_neg (by decide), ho, List.length_cons, ← Nat.add_assoc] at hflag
    refine .of_some rfl (.of_free (by simp [hp]) (by simp [hp]) ?_ hfound (fun h => absurd hp h))
    rw [hflag, ofNat_pred]
  | finish c h hp ho =>
    obtain ⟨hflag, -, -, -, -⟩ := hi.call c h
    have hne : c.phase ≠ .locked := by rcases hp with hp | hp | hp <;> rw [hp] <;> decide
    rw [if_neg hne, ho, List.length_nil, Nat.add_zero] at hflag
    exact .of_none rfl hflag

theorem BusyInv.run {s t : BusyState} (hi : s.Initial) (h : ReflTransGen BusyStep s t) : BusyInv t := by
  induction h with
  | refl =>
    obtain ⟨hf, hc, hn⟩ := hi
    exact .of_none hn (by rw [hf, hc]; rfl)
  | tail _ hs ih => exact ih.step hs

/-- Unless it is taken as the lock, `flag` is the number of calls in flight modulo 2^32. -/
theorem BusyInv.flag_eq {s : BusyState} (hi : BusyInv s) (hl : ¬ s.Locked) : s.flag = BitVec.ofNat 32 s.inFlight := by
  unfold BusyState.inFlight
  cases hh : s.hijacked with
  | none => exact hi.counts hh
  | some c =>
    have hflag := (hi.call c hh).flag
    rwa [if_neg (fun hp => hl ⟨c, hh, hp⟩)] at hflag

theorem BusyStep.locks {s t : BusyState} (hs : BusyStep s t) (hn : ¬ s.Locked) (hl : t.Locked) :
    s.flag = 0 ∧ ∃ c, s.hijacked = some c ∧ c.phase = .locksFree := by
  obtain ⟨d, hd, hp⟩ := hl
  cases hs with
  | lock c h hpc hf => exact ⟨hf, c, h, hpc⟩
  | call h => rw [h] at hd; cases hd
  | ret h => rw [h] at hd; cases hd
  | loader => exact absurd ⟨d, hd, hp⟩ hn
  | ownCall c h hpc =>
    cases hd
    exact absurd (hpc.symm.trans hp) (by decide)
  | ownRet c h hpc =>
    cases hd
    exact absurd (hpc.symm.trans hp) (by decide)
  | locksHeld c h hpc =>
    cases hd
    cases hb : dlLocksHeld s.loadLock s.loadWriteLock <;> simp [hb] at hp
  | _ => first | (cases hd; cases hp) | cases hd

theorem BusyStep.ends {s t : BusyState} {c : HijackedCall} (hs : BusyStep s t) (hc : s.hijacked = some c)
    (hn : t.hijacked = none) : t.flag = s.flag ∧ c.phase ≠ .locked ∧ c.own = [] := by
  cases hs with
  | finish d h hp ho =>
    obtain rfl : c = d := Option.some.inj (hc.symm.trans h)
    refine ⟨rfl, ?_, ho⟩
    rcases hp with hp | hp | hp <;> rw [hp] <;> decide
  | call h => rw [h] at hc; cases hc
  | ret h => rw [h] at hc; cases hc
  | loader => rw [hc] at hn; cases hn
  | _ => cases hn

/-- **Busy detection is exact as long as `int` can count the calls in flight.** -/
theorem busyExact_of_run {s t : BusyState} (hi : s.Initial) (h : ReflTransGen BusyStep s t)
    (hlt : t.inFlight < 2 ^ 31) : BusyExact t := by
  have hinv := BusyInv.run hi h
  refine ⟨fun hl => ?_, fun u hs hl hu => ?_, fun u c hs hc hn => ?_⟩
  · rw [hinv.flag_eq hl, BitVec.toInt_ofNat']
    exact Int.bmod_eq_of_le (by omega) (by omega)
  · obtain ⟨hf, c, hc, hp⟩ := hs.locks hl hu
    have hflag := congrArg BitVec.toNat (hinv.flag_eq hl)
    rw [hf, BitVec.toNat_ofNat, Nat.mod_eq_of_lt (by omega)] at hflag
    exact ⟨hflag.symm, (hinv.call c hc).loader hp⟩
  · obtain ⟨hflag, hp, ho⟩ := hs.ends hc hn
    obtain ⟨hf, -, hfound, -, -⟩ := hinv.call c hc
    rw [hflag, hf, if_neg hp, ho, List.length_nil, Nat.add_zero, hfound]

/-- A process at rest. -/
def atRest : BusyState := ⟨0, [], 0, 0, none⟩

/-- A hijacked call about to look at `flag` while another thread is in `malloc`, called by `dlopen`. -/
def busyNested : BusyState := ⟨2, [(1, .malloc), (1, .dlopen)], 0, 0, some ⟨2, 2, .locksFree, []⟩⟩

/-- A hijacked call that has had the lock and is in `malloc` itself, called by `dlopen`. -/
def busyOwn : BusyState := ⟨2, [], 0, 0, some ⟨2, 0, .running, [.malloc, .dlopen]⟩⟩

/-- The first hijacked call is sent away; once the thread is done, another one has the lock and loads its container. -/
theorem busyExact_nested : ReflTransGen BusyStep atRest busyNested ∧ ReflTransGen BusyStep busyNested busyOwn ∧
    BusyExact busyNested ∧ BusyExact busyOwn := by
  have h1 : ReflTransGen BusyStep atRest ⟨1, [(1, .dlopen)], 0, 0, none⟩ := .single (.call atRest rfl 1 .dlopen)
  have h2 : ReflTransGen BusyStep atRest ⟨2, [(1, .malloc), (1, .dlopen)], 0, 0, none⟩ :=
    h1.tail (.call _ rfl 1 .malloc)
  have hnested : ReflTransGen BusyStep atRest busyNested :=
    (h2.tail (.hijack _ rfl 2)).tail (.locksHeld ⟨2, _, 0, 0, _⟩ _ rfl rfl)
  have h3 : ReflTransGen BusyStep busyNested ⟨2, [(1, .malloc), (1, .dlopen)], 0, 0, none⟩ :=
    (ReflTransGen.single (.busy busyNested _ rfl rfl (by decide))).tail (.finish _ _ rfl (Or.inr (Or.inl rfl)) rfl)
  have h4 : ReflTransGen BusyStep busyNested ⟨0, [], 0, 0, none⟩ :=
    (h3.tail (.ret _ rfl 1 .malloc [] [(1, .dlopen)] rfl (fun c hc => by cases hc))).tail
      (.ret _ rfl 1 .dlopen [] [] rfl (fun c hc => by cases hc))
  have h5 : ReflTransGen BusyStep busyNested ⟨1, [], 0, 0, some ⟨2, 0, .locked, []⟩⟩ :=
    ((h4.tail (.hijack _ rfl 2)).tail (.locksHeld ⟨0, [], 0, 0, _⟩ ⟨2, 0, .entered, []⟩ rfl rfl)).tail
      (.lock ⟨0, [], 0, 0, _⟩ ⟨2, 0, .locksFree, []⟩ rfl rfl rfl)
  have h6 : ReflTransGen BusyStep busyNested ⟨0, [], 0, 0, some ⟨2, 0, .running, []⟩⟩ :=
    h5.tail (.unlock ⟨1, [], 0, 0, _⟩ ⟨2, 0, .locked, []⟩ rfl rfl)
  have hown : ReflTransGen BusyStep busyNested busyOwn :=
    (h6.tail (.ownCall ⟨0, [], 0, 0, _⟩ ⟨2, 0, .running, []⟩ rfl rfl .dlopen)).tail
      (.ownCall ⟨1, [], 0, 0, _⟩ ⟨2, 0, .running, [.dlopen]⟩ rfl rfl .malloc)
  exact ⟨hnested, hown, busyExact_of_run ⟨rfl, rfl, rfl⟩ hnested (by decide),
    busyExact_of_run ⟨rfl, rfl, rfl⟩ (hnested.trans hown) (by decide)⟩

theorem calls_run (n : Nat) :
    ∃ calls, calls.length = n ∧ ReflTransGen BusyStep atRest ⟨BitVec.ofNat 32 n, calls, 0, 0, none⟩ := by
  induction n with
  | zero => exact ⟨[], rfl, .refl⟩
  | succ n ih =>
    obtain ⟨calls, hlen, hrun⟩ := ih
    refine ⟨(0, .dlopen) :: calls, by rw [List.length_cons, hlen], ?_⟩
    rw [BitVec.ofNat_add]
    exact hrun.tail (.call _ rfl 0 .dlopen)

/-- **With 2^32 calls in flight the lock is had.** -/
theorem busy_wraps :
    ∃ s t, ReflTransGen BusyStep atRest s ∧ s.inFlight = 2 ^ 32 ∧ BusyStep s t ∧ t.Locked ∧ ¬ BusyExact s := by
  obtain ⟨calls, hlen, hrun⟩ := calls_run (2 ^ 32)
  have h1 : ReflTransGen BusyStep atRest ⟨0, calls, 0, 0, some ⟨0, 0, .entered, []⟩⟩ := hrun.tail (.hijack _ rfl 0)
  have h2 : ReflTransGen BusyStep atRest ⟨0, calls, 0, 0, some ⟨0, 0, .locksFree, []⟩⟩ :=
    h1.tail (.locksHeld ⟨0, calls, 0, 0, _⟩ _ rfl rfl)
  have hlock : BusyStep ⟨0, calls, 0, 0, some ⟨0, 0, .locksFree, []⟩⟩ ⟨1, calls, 0, 0, some ⟨0, 0, .locked, []⟩⟩ :=
    .lock _ ⟨0, 0, .locksFree, []⟩ rfl rfl rfl
  refine ⟨_, _, h2, hlen, hlock, ⟨_, rfl, rfl⟩, fun h => ?_⟩
  have hzero : calls.length = 0 :=
    (h.guards _ hlock (by rintro ⟨c, hc, hp⟩; cases hc; cases hp) ⟨_, rfl, rfl⟩).1
  rw [hlen] at hzero
  cases hzero

end Libpulp
