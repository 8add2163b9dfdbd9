import Libpulp.InsnQueue
import Mathlib.Logic.Relation
/-!
# ProcessList — iterating over the target processes (tools/patches.c, tools/patches.h)

`FOR_EACH_ULP_PROCESS…` reads `/proc` and hands out the processes that pass the filters, have libpulp loaded and could be
initialised.  Without threads each call of `process_list_next` goes on reading; with threads a producer reads and puts
the processes into a queue.  Both hand out `it->last`, the newest process inserted, after every attempt to insert one, so
what they hand out is the same list (`handedOut`) up to its first NULL.  Given a pid, `process_list_begin` inserts that
process and reads no listing; that case is left out.
-/
namespace Libpulp

open Bytes (Byte)
open Relation (ReflTransGen)

/-! ## The listing -/

/-- An entry of `/proc`, with what the system answers about the process: its binary's name and its owner's, whether
libpulp is loaded, and the code `initialize_data_structures` returns. -/
structure ProcEntry where
  dName         : List Byte
  binaryName    : Option (List Byte)
  owner         : BitVec 32
  userName      : Option (List Byte)
  libpulpLoaded : Bool
  initCode      : Int
deriving DecidableEq

/-- What the iterator looks for.  The wildcard is not a number, which would be a pid. -/
structure ListArgs where
  wildcard     : Option (List Byte)
  pattern      : ∀ w ∈ wildcard, isnumber w = false
  userWildcard : Option (List Byte)
  getpid       : Int
  fnmatch      : List Byte → List Byte → Bool

def atoi (str : List Byte) : Int := int32 (strtol str)

namespace ListArgs

variable (a : ListArgs)

/-- `it->target_uid`, as `process_list_begin` sets it. -/
def targetUid : BitVec 32 :=
  match a.userWildcard with
  | some user => if isnumber user then BitVec.ofNat 32 (strtol user) else 0
  | none      => 0

def nameFits (e : ProcEntry) : Bool :=
  match a.wildcard, e.binaryName with
  | some wildcard, some name => a.fnmatch wildcard name
  | _, _                     => true

def userFits (e : ProcEntry) : Bool :=
  match a.userWildcard with
  | none      => true
  | some user =>
    if a.targetUid > 0 then e.owner == a.targetUid
    else if e.owner > 0 then e.userName.all (a.fnmatch user)
    else true

/-- The entry gets as far as `insert_target_process`. -/
def candidate (e : ProcEntry) : Bool :=
  isnumber e.dName && a.nameFits e && a.userFits e && atoi e.dName != a.getpid && e.libpulpLoaded

end ListArgs

def ProcEntry.initialised (e : ProcEntry) : Bool := e.initCode == 0

def insertTargetProcess (e : ProcEntry) (list : List ProcEntry) : List ProcEntry :=
  if e.initialised then e :: list else list

/-! ## Without threads -/

/-- `generate_ulp_list_thread` up to its next return: the process returned, the rest of the listing and `it->last`. -/
def generateUlpList (a : ListArgs) : List ProcEntry → List ProcEntry → Option ProcEntry × List ProcEntry × List ProcEntry
  | [], last      => (none, [], last)
  | e :: es, last =>
    if a.candidate e then ((insertTargetProcess e last).head?, es, insertTargetProcess e last)
    else generateUlpList a es last

/-- The loop: the processes its body sees, `none` if it runs for more than `fuel` rounds. -/
def forEachUlpProcess (a : ListArgs) : Nat → List ProcEntry → List ProcEntry → Option (List ProcEntry)
  | 0, _, _              => none
  | fuel + 1, rest, last =>
    match generateUlpList a rest last with
    | (none, _, _)          => some []
    | (some p, rest, last) => (forEachUlpProcess a fuel rest last).map (p :: ·)

/-! ## With threads -/

def pcqueueLength : Nat := 512

inductive Producer where
  | scanning
  | enqueueing (item : Option ProcEntry)
  | ending
  | done
deriving DecidableEq

inductive Consumer where
  | iterating
  | joining
  | ended
deriving DecidableEq

/-- The two threads and the queue between them. -/
structure Threads where
  entries  : List ProcEntry
  last     : List ProcEntry
  producer : Producer
  queue    : List (Option ProcEntry)
  consumer : Consumer
  seen     : List ProcEntry

def Threads.start (entries : List ProcEntry) : Threads := ⟨entries, [], .scanning, [], .iterating, []⟩

/-- **A step of one of the threads.**  Enqueueing waits while the queue is full, dequeueing while it is empty; after a
NULL the loop ends, once `process_list_end` has joined the producer. -/
inductive ThreadStep (a : ListArgs) : Threads → Threads → Prop
  | skip (s : Threads) (e : ProcEntry) (es : List ProcEntry) (hp : s.producer = .scanning) (he : s.entries = e :: es)
      (hc : a.candidate e = false) : ThreadStep a s { s with entries := es }
  | insert (s : Threads) (e : ProcEntry) (es : List ProcEntry) (hp : s.producer = .scanning) (he : s.entries = e :: es)
      (hc : a.candidate e = true) :
      ThreadStep a s { s with entries := es, last := insertTargetProcess e s.last,
                              producer := .enqueueing (insertTargetProcess e s.last).head? }
  | enqueue (s : Threads) (item : Option ProcEntry) (hp : s.producer = .enqueueing item)
      (hq : s.queue.length < pcqueueLength) :
      ThreadStep a s { s with producer := .scanning, queue := s.queue ++ [item] }
  | closedir (s : Threads) (hp : s.producer = .scanning) (he : s.entries = []) :
      ThreadStep a s { s with producer := .ending }
  | enqueueEnd (s : Threads) (hp : s.producer = .ending) (hq : s.queue.length < pcqueueLength) :
      ThreadStep a s { s with producer := .done, queue := s.queue ++ [none] }
  | next (s : Threads) (p : ProcEntry) (queue : List (Option ProcEntry)) (hc : s.consumer = .iterating)
      (hq : s.queue = some p :: queue) : ThreadStep a s { s with queue, seen := s.seen ++ [p] }
  | stop (s : Threads) (queue : List (Option ProcEntry)) (hc : s.consumer = .iterating) (hq : s.queue = none :: queue) :
      ThreadStep a s { s with queue, consumer := .joining }
  | join (s : Threads) (hc : s.consumer = .joining) (hp : s.producer = .done) :
      ThreadStep a s { s with consumer := .ended }

/-! ## What an iteration promises -/

/-- The processes that match, have libpulp loaded and can be initialised, in the order of the listing. -/
def targets (a : ListArgs) (entries : List ProcEntry) : List ProcEntry :=
  (entries.filter a.candidate).filter ProcEntry.initialised

/-- The loop without threads ends and sees each target once. -/
def Visits (a : ListArgs) (entries : List ProcEntry) : Prop :=
  ∃ fuel, forEachUlpProcess a fuel entries [] = some (targets a entries)

/-- The loop with threads: every run comes to a halt, and only where the loop is over and has seen each target once. -/
def VisitsThreaded (a : ListArgs) (entries : List ProcEntry) : Prop :=
  Acc (fun t s => ThreadStep a s t) (.start entries) ∧
    ∀ s, ReflTransGen (ThreadStep a) (.start entries) s → (∀ t, ¬ ThreadStep a s t) →
      s.consumer = .ended ∧ s.seen = targets a entries

/-! ## What is handed out -/

/-- What the iterator hands out from here on, to the NULL at the end of the listing. -/
def handedOut (a : ListArgs) : List ProcEntry → List ProcEntry → List (Option ProcEntry)
  | [], _         => [none]
  | e :: es, last =>
    if a.candidate e then (insertTargetProcess e last).head? :: handedOut a es (insertTargetProcess e last)
    else handedOut a es last

def untilNull : List (Option ProcEntry) → List ProcEntry
  | some p :: l => p :: untilNull l
  | _           => []

@[simp] theorem untilNull_none (l : List (Option ProcEntry)) : untilNull (none :: l) = [] := rfl

@[simp] theorem untilNull_some (p : ProcEntry) (l : List (Option ProcEntry)) :
    untilNull (some p :: l) = p :: untilNull l := rfl

theorem untilNull_append (l : List (Option ProcEntry)) : ∀ ps : List ProcEntry,
    untilNull (ps.map some ++ none :: l) = ps
  | []      => rfl
  | p :: ps => by simp [untilNull_append l ps]

variable {a : ListArgs}

theorem length_handedOut : ∀ (es last : List ProcEntry), (handedOut a es last).length = (es.filter a.candidate).length + 1
  | [], _         => rfl
  | e :: es, last => by
    rw [handedOut]
    split
    · rename_i h
      rw [List.length_cons, length_handedOut es, List.filter_cons_of_pos h, List.length_cons]
    · rename_i h
      rw [length_handedOut es, List.filter_cons_of_neg h]

theorem none_mem_handedOut : ∀ es last : List ProcEntry, none ∈ handedOut a es last
  | [], _         => List.mem_singleton_self _
  | e :: es, last => by
    rw [handedOut]
    split
    · exact List.mem_cons_of_mem _ (none_mem_handedOut es _)
    · exact none_mem_handedOut es last

/-- As long as every insertion succeeds each candidate is handed out. -/
theorem untilNull_all : ∀ (es last : List ProcEntry), (∀ e ∈ es.filter a.candidate, e.initialised = true) →
    untilNull (handedOut a es last) = es.filter a.candidate
  | [], _, _         => rfl
  | e :: es, last, h => by
    rw [handedOut]
    split
    · rename_i hc
      rw [List.filter_cons_of_pos hc] at h ⊢
      rw [insertTargetProcess, if_pos (h e List.mem_cons_self), List.head?_cons, untilNull_some,
        untilNull_all es _ (fun e' he' => h e' (List.mem_cons_of_mem _ he'))]
    · rename_i hc
      rw [List.filter_cons_of_neg hc] at h ⊢
      exact untilNull_all es last h

/-- Once a process was inserted something is handed out for every candidate. -/
theorem length_untilNull : ∀ (es : List ProcEntry) (p : ProcEntry) (last : List ProcEntry),
    (untilNull (handedOut a es (p :: last))).length = (es.filter a.candidate).length
  | [], _, _         => rfl
  | e :: es, p, last => by
    rw [handedOut]
    split
    · rename_i hc
      rw [List.filter_cons_of_pos hc, List.length_cons, insertTargetProcess]
      split
      · rw [List.head?_cons, untilNull_some, List.length_cons, length_untilNull es e]
      · rw [List.head?_cons, untilNull_some, List.length_cons, length_untilNull es p]
    · rename_i hc
      rw [List.filter_cons_of_neg hc]
      exact length_untilNull es p last

theorem untilNull_inserted (es : List ProcEntry) (p : ProcEntry) (last : List ProcEntry) :
    untilNull (handedOut a es (p :: last)) = targets a es ↔ ∀ e ∈ es.filter a.candidate, e.initialised = true := by
  constructor
  · intro h
    have hlen := length_untilNull es p last (a := a)
    rw [h, targets] at hlen
    exact List.length_filter_eq_length_iff.1 hlen
  · intro h
    rw [untilNull_all es _ h, targets, List.filter_eq_self.2 h]

/-- **What is handed out before the first NULL are the targets** exactly when all candidates can be initialised, or
none. -/
theorem untilNull_eq_targets : ∀ es : List ProcEntry, untilNull (handedOut a es []) = targets a es ↔
    (∀ e ∈ es.filter a.candidate, e.initialised = true) ∨ ∀ e ∈ es.filter a.candidate, e.initialised = false
  | []      => by simp [handedOut, targets]
  | e :: es => by
    rw [handedOut]
    split
    swap
    · rename_i hc
      rw [targets, List.filter_cons_of_neg hc]
      exact untilNull_eq_targets es
    rename_i hc
    rw [targets, List.filter_cons_of_pos hc, insertTargetProcess]
    cases he : e.initialised with
    | true =>
      rw [if_pos rfl, List.head?_cons, untilNull_some, List.filter_cons_of_pos he, List.cons.injEq, ← targets,
        untilNull_inserted]
      simp [he]
    | false =>
      rw [if_neg (by decide), List.head?_nil, untilNull_none, List.filter_cons_of_neg (by simp [he]), eq_comm,
        List.filter_eq_nil_iff]
      simp [he]

/-! ## The loop without threads -/

theorem generateUlpList_spec : ∀ (es last : List ProcEntry),
    (∃ rest last', generateUlpList a es last = (none, rest, last') ∧ untilNull (handedOut a es last) = []) ∨
      ∃ p rest last', generateUlpList a es last = (some p, rest, last') ∧ rest.length < es.length ∧
        untilNull (handedOut a es last) = p :: untilNull (handedOut a rest last')
  | [], last      => Or.inl ⟨[], last, rfl, rfl⟩
  | e :: es, last => by
    rw [generateUlpList, handedOut]
    split
    · cases hl : (insertTargetProcess e last).head? with
      | none => exact Or.inl ⟨_, _, rfl, rfl⟩
      | some p => exact Or.inr ⟨p, es, _, rfl, Nat.lt_succ_self _, rfl⟩
    · rcases generateUlpList_spec es last with h | ⟨p, rest, last', h₁, h₂, h₃⟩
      · exact Or.inl h
      · exact Or.inr ⟨p, rest, last', h₁, Nat.lt_succ_of_lt h₂, h₃⟩

theorem forEachUlpProcess_eq : ∀ (fuel : Nat) (es last : List ProcEntry), es.length < fuel →
    forEachUlpProcess a fuel es last = some (untilNull (handedOut a es last))
  | 0, _, _, h             => by omega
  | fuel + 1, es, last, hf => by
    rw [forEachUlpProcess]
    rcases generateUlpList_spec es last (a := a) with ⟨rest, last', h₁, h₂⟩ | ⟨p, rest, last', h₁, h₂, h₃⟩
    · rw [h₁, h₂]
    · rw [h₁, h₃]
      simp only
      rw [forEachUlpProcess_eq fuel rest last' (by omega), Option.map_some]

theorem forEachUlpProcess_some : ∀ (fuel : Nat) (es last : List ProcEntry) {ps : List ProcEntry},
    forEachUlpProcess a fuel es last = some ps → ps = untilNull (handedOut a es last)
  | 0, _, _, _, h            => by cases h
  | fuel + 1, es, last, ps, h => by
    rw [forEachUlpProcess] at h
    rcases generateUlpList_spec es last (a := a) with ⟨rest, last', h₁, h₂⟩ | ⟨p, rest, last', h₁, h₂, h₃⟩
    · rw [h₁] at h
      rw [h₂]
      exact (Option.some.inj h).symm
    · rw [h₁] at h
      obtain ⟨qs, hqs, rfl⟩ := Option.map_eq_some_iff.1 h
      rw [h₃, forEachUlpProcess_some fuel rest last' hqs]

theorem visits_iff (es : List ProcEntry) : Visits a es ↔ untilNull (handedOut a es []) = targets a es := by
  constructor
  · rintro ⟨fuel, h⟩
    exact (forEachUlpProcess_some fuel es [] h).symm
  · intro h
    exact ⟨es.length + 1, by rw [forEachUlpProcess_eq _ _ _ (Nat.lt_succ_self _), h]⟩

/-! ## The loop with threads -/

namespace Threads

/-- What the producer still has to put into the queue. -/
def pending (a : ListArgs) (s : Threads) : List (Option ProcEntry) :=
  match s.producer with
  | .scanning        => handedOut a s.entries s.last
  | .enqueueing item => item :: handedOut a s.entries s.last
  | .ending          => [none]
  | .done            => []

/-- What the consumer has taken out of it. -/
def taken (s : Threads) : List (Option ProcEntry) :=
  s.seen.map some ++ if s.consumer = .iterating then [] else [none]

/-- Nothing is lost between the threads, and the queue keeps its length. -/
structure Inv (a : ListArgs) (entries : List ProcEntry) (s : Threads) : Prop where
  items : s.taken ++ s.queue ++ s.pending a = handedOut a entries []
  bound : s.queue.length ≤ pcqueueLength
  ended : s.consumer = .ended → s.producer = .done

/-- What is left to do. -/
def measure (s : Threads) : Nat :=
  (match s.producer with
    | .scanning     => 4 * s.entries.length + 3
    | .enqueueing _ => 4 * s.entries.length + 5
    | .ending       => 2
    | .done         => 0) + s.queue.length +
  match s.consumer with
    | .iterating => 2
    | .joining   => 1
    | .ended     => 0

end Threads

theorem threads_start (entries : List ProcEntry) : (Threads.start entries).Inv a entries :=
  ⟨rfl, Nat.zero_le _, fun h => by cases h⟩

theorem ThreadStep.inv {entries : List ProcEntry} {s t : Threads} (h : ThreadStep a s t) (hs : s.Inv a entries) :
    t.Inv a entries := by
  have hi := hs.items
  have hb := hs.bound
  have he := hs.ended
  simp only [Threads.pending, Threads.taken] at hi
  cases h with
  | skip e es hp hes hc =>
    rw [hp, hes] at hi
    simp only [handedOut, hc] at hi
    exact ⟨by simpa [Threads.pending, Threads.taken, hp] using hi, hb, he⟩
  | insert e es hp hes hc =>
    rw [hp, hes] at hi
    simp only [handedOut, hc, if_true] at hi
    exact ⟨by simpa [Threads.pending, Threads.taken] using hi, hb, fun h => by simp [he h] at hp⟩
  | enqueue item hp hq =>
    rw [hp] at hi
    refine ⟨by simpa [Threads.pending, Threads.taken] using hi, ?_, fun h => by simp [he h] at hp⟩
    rw [List.length_append]
    exact hq
  | closedir hp hes =>
    rw [hp, hes] at hi
    exact ⟨by simpa [Threads.pending, Threads.taken, handedOut] using hi, hb, fun h => by simp [he h] at hp⟩
  | enqueueEnd hp hq =>
    rw [hp] at hi
    exact ⟨by simpa [Threads.pending, Threads.taken] using hi, by rw [List.length_append]; exact hq, fun h => rfl⟩
  | next p queue hc hq =>
    rw [hq, hc] at hi
    rw [hq, List.length_cons] at hb
    exact ⟨by simpa [Threads.pending, Threads.taken, hc] using hi, Nat.le_of_succ_le hb,
      fun h => by simp [hc] at h⟩
  | stop queue hc hq =>
    rw [hq, hc] at hi
    rw [hq, List.length_cons] at hb
    exact ⟨by simpa [Threads.pending, Threads.taken] using hi, Nat.le_of_succ_le hb, fun h => by simp at h⟩
  | join hc hp =>
    rw [hc] at hi
    exact ⟨by simpa [Threads.pending, Threads.taken] using hi, hb, fun _ => hp⟩

theorem threads_run {entries : List ProcEntry} {s : Threads} (h : ReflTransGen (ThreadStep a) (.start entries) s) :
    s.Inv a entries := by
  induction h with
  | refl => exact threads_start entries
  | tail _ hstep ih => exact hstep.inv ih

theorem ThreadStep.decreases {s t : Threads} (h : ThreadStep a s t) : t.measure < s.measure := by
  cases h with
  | skip e es hp hes => simp only [Threads.measure, hp, hes, List.length_cons]; omega
  | insert e es hp hes => simp only [Threads.measure, hp, hes, List.length_cons]; omega
  | enqueue item hp => simp only [Threads.measure, hp, List.length_append, List.length_singleton]; omega
  | closedir hp hes => simp only [Threads.measure, hp, hes, List.length_nil]; omega
  | enqueueEnd hp => simp only [Threads.measure, hp, List.length_append, List.length_singleton]; omega
  | next p queue hc hq => simp only [Threads.measure, hq, List.length_cons]; omega
  | stop queue hc hq => simp only [Threads.measure, hc, hq, List.length_cons]; omega
  | join hc hp => simp only [Threads.measure, hc]; omega

theorem threads_acc (s : Threads) : Acc (fun t s => ThreadStep a s t) s :=
  Subrelation.accessible (fun h => h.decreases) (InvImage.accessible Threads.measure (Nat.lt_wfRel.wf.apply s.measure))

/-- **Where a run halts**: at the end of the loop, or in `pthread_join` with the producer waiting at a full queue. -/
theorem threads_halt {entries : List ProcEntry} {s : Threads} (hs : s.Inv a entries) (hstuck : ∀ t, ¬ ThreadStep a s t) :
    s.consumer = .ended ∨ s.consumer = .joining ∧ s.queue.length = pcqueueLength ∧ s.pending a ≠ [] := by
  have hfull : ∀ item, s.producer = .enqueueing item ∨ s.producer = .ending → s.queue.length = pcqueueLength := by
    intro item h
    refine Nat.le_antisymm hs.bound (Nat.le_of_not_lt (fun hlt => ?_))
    rcases h with h | h
    · exact hstuck _ (.enqueue s item h hlt)
    · exact hstuck _ (.enqueueEnd s h hlt)
  have hitems : s.consumer = .iterating → s.queue = [] := by
    intro hc
    cases hq : s.queue with
    | nil => rfl
    | cons item queue =>
      cases item with
      | none => exact absurd (.stop s queue hc hq) (hstuck _)
      | some p => exact absurd (.next s p queue hc hq) (hstuck _)
  cases hp : s.producer with
  | scanning =>
    cases he : s.entries with
    | nil => exact absurd (.closedir s hp he) (hstuck _)
    | cons e es =>
      cases hc : a.candidate e with
      | false => exact absurd (.skip s e es hp he hc) (hstuck _)
      | true => exact absurd (.insert s e es hp he hc) (hstuck _)
  | enqueueing item =>
    have hlen := hfull item (Or.inl hp)
    cases hc : s.consumer with
    | iterating => rw [hitems hc] at hlen; cases hlen
    | joining => exact Or.inr ⟨rfl, hlen, by simp [Threads.pending, hp]⟩
    | ended => exact Or.inl rfl
  | ending =>
    have hlen := hfull none (Or.inr hp)
    cases hc : s.consumer with
    | iterating => rw [hitems hc] at hlen; cases hlen
    | joining => exact Or.inr ⟨rfl, hlen, by simp [Threads.pending, hp]⟩
    | ended => exact Or.inl rfl
  | done =>
    cases hc : s.consumer with
    | iterating =>
      -- everything has been enqueued, and the last of it is a NULL that was not taken
      have hi := hs.items
      simp only [Threads.taken, Threads.pending, hc, hp, hitems hc, if_true, List.append_nil] at hi
      have hnull := none_mem_handedOut entries [] (a := a)
      rw [← hi] at hnull
      simp at hnull
    | joining => exact absurd (.join s hc hp) (hstuck _)
    | ended => exact Or.inl rfl

/-- What the consumer has seen once it met the NULL. -/
theorem threads_seen {entries : List ProcEntry} {s : Threads} (hs : s.Inv a entries) (hc : s.consumer ≠ .iterating) :
    untilNull (handedOut a entries []) = s.seen ∧
      (entries.filter a.candidate).length = s.seen.length + s.queue.length + (s.pending a).length := by
  have hi := hs.items
  rw [Threads.taken, if_neg hc, List.append_assoc, List.append_assoc] at hi
  constructor
  · rw [← hi, List.singleton_append, untilNull_append]
  · have hlen := congrArg List.length hi
    rw [length_handedOut] at hlen
    simp only [List.length_append, List.length_map, List.length_singleton] at hlen
    omega

/-- A run that cannot go on can be found from every state. -/
theorem threads_halts (s : Threads) : ∃ t, ReflTransGen (ThreadStep a) s t ∧ ∀ u, ¬ ThreadStep a t u := by
  induction threads_acc s (a := a) with
  | intro s _ ih =>
    by_cases h : ∃ t, ThreadStep a s t
    · obtain ⟨t, ht⟩ := h
      obtain ⟨u, hu, hstuck⟩ := ih t ht
      exact ⟨u, hu.head ht, hstuck⟩
    · exact ⟨s, .refl, fun t ht => h ⟨t, ht⟩⟩

theorem visitsThreaded_iff (es : List ProcEntry) :
    VisitsThreaded a es ↔ untilNull (handedOut a es []) = targets a es ∧
      (es.filter a.candidate).length ≤ (targets a es).length + pcqueueLength := by
  constructor
  · rintro ⟨-, h⟩
    obtain ⟨s, hrun, hstuck⟩ := threads_halts (a := a) (.start es)
    obtain ⟨hended, hseen⟩ := h s hrun hstuck
    have hs := threads_run hrun
    obtain ⟨h₁, h₂⟩ := threads_seen hs (by rw [hended]; decide)
    refine ⟨h₁.trans hseen, ?_⟩
    have hp : s.pending a = [] := by simp [Threads.pending, hs.ended hended]
    have hb := hs.bound
    rw [hp, hseen, List.length_nil] at h₂
    omega
  · rintro ⟨h₁, h₂⟩
    refine ⟨threads_acc _, fun s hrun hstuck => ?_⟩
    have hs := threads_run hrun
    rcases threads_halt hs hstuck with hended | ⟨hjoin, hfull, hpending⟩
    · exact ⟨hended, (threads_seen hs (by rw [hended]; decide)).1.symm.trans h₁⟩
    · obtain ⟨h₃, h₄⟩ := threads_seen hs (by rw [hjoin]; decide)
      have := List.length_pos_iff.2 hpending
      rw [← h₃, h₁] at h₄
      omega

/-! ## Both -/

/-- **The iteration visits each target exactly once**, with threads and without, exactly when all candidates can be
initialised, or none of at most as many as the queue holds. -/
theorem processList_visits_iff (a : ListArgs) (entries : List ProcEntry) :
    Visits a entries ∧ VisitsThreaded a entries ↔
      (∀ e ∈ entries.filter a.candidate, e.initialised = true) ∨
        (∀ e ∈ entries.filter a.candidate, e.initialised = false) ∧
          (entries.filter a.candidate).length ≤ pcqueueLength := by
  rw [visits_iff, visitsThreaded_iff, untilNull_eq_targets]
  constructor
  · rintro ⟨h | h, -, hlen⟩
    · exact Or.inl h
    · have hnone : targets a entries = [] := List.filter_eq_nil_iff.2 (fun e he => by simp [h e he])
      rw [hnone, List.length_nil, Nat.zero_add] at hlen
      exact Or.inr ⟨h, hlen⟩
  · rintro (h | ⟨h, hlen⟩)
    · refine ⟨Or.inl h, Or.inl h, ?_⟩
      rw [targets, List.filter_eq_self.2 h]
      omega
    · exact ⟨Or.inr h, Or.inr h, by omega⟩

/-- The process with the number given, `code` being what its initialisation returns. -/
def demoProc (pid : Byte) (code : Int) : ProcEntry := ⟨[pid], none, 0, none, true, code⟩

def demoListArgs : ListArgs := ⟨none, fun _ h => (by cases h), none, 9, fun _ _ => true⟩

/-- **A process that cannot be initialised** hides the one after it, or has the one before it visited twice. -/
theorem processList_repeats :
    ¬ Visits demoListArgs [demoProc 50 1, demoProc 51 0] ∧
      forEachUlpProcess demoListArgs 3 [demoProc 50 1, demoProc 51 0] [] = some [] ∧
      forEachUlpProcess demoListArgs 3 [demoProc 50 0, demoProc 51 1] [] = some [demoProc 50 0, demoProc 50 0] ∧
      targets demoListArgs [demoProc 50 0, demoProc 51 1] = [demoProc 50 0] := by
  refine ⟨?_, by decide, by decide, by decide⟩
  rw [visits_iff]
  decide

end Libpulp
