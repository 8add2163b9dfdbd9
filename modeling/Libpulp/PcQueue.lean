import Libpulp.Ring
/-!
# PcQueue — the producer/consumer queue (tools/pcqueue.c, tools/pcqueue.h)

One producer and one consumer share a ring of `n` slots without a lock.  `full` counts the slots the producer may still
fill, `empty` the elements the consumer may still take; each side owns one index.  Every step of the two routines is a
step here, in any order; a `sem_wait` goes on only when its semaphore is not zero.  `queue->elem[queue->head++] = elem`
leaves open whether the index or the slot is written first, so both orders are steps.  `head` and `tail` never exceed
`n`, which is an `int` of the program, so they are natural numbers here.
-/
namespace Libpulp

variable {α : Type}

structure PcQueue (α : Type) where
  n     : Nat
  head  : Nat
  tail  : Nat
  empty : Nat
  full  : Nat
  elem  : Nat → α

/-- `producer_consumer_init`; the slots hold what was in the memory. -/
def producerConsumerInit (n : Nat) (elem : Nat → α) : PcQueue α :=
  { n, head := 0, tail := 0, empty := 0, full := n, elem }

/-- Where the producer is in `producer_consumer_enqueue(queue, e)`. -/
inductive PcProducer (α : Type) where
  | idle
  | waiting (e : α)
  | entered (e : α)
  | stored (e : α)
  | bumped (e : α) (i : Nat)
  | moved (e : α)
  | wrapped (e : α)

/-- Where the consumer is in `producer_consumer_dequeue(queue)`. -/
inductive PcConsumer (α : Type) where
  | idle
  | waiting
  | entered
  | loaded (v : α)
  | bumped (i : Nat)
  | moved (v : α)
  | wrapped (v : α)

structure PcState (α : Type) where
  q        : PcQueue α
  producer : PcProducer α
  consumer : PcConsumer α

/-- What a step shows: an access to a slot, or the end of a call. -/
inductive PcEvent (α : Type) where
  | silent
  | store (i : Nat) (e : α)
  | load (i : Nat) (v : α)
  | enqueued (e : α)
  | dequeued (v : α)

/-- **A step of the producer or of the consumer.** -/
inductive PcStep : PcState α → PcEvent α → PcState α → Prop
  | enqueue (q : PcQueue α) (c : PcConsumer α) (e : α) : PcStep ⟨q, .idle, c⟩ .silent ⟨q, .waiting e, c⟩
  | waitFull (q : PcQueue α) (c : PcConsumer α) (e : α) (h : 0 < q.full) :
      PcStep ⟨q, .waiting e, c⟩ .silent ⟨{ q with full := q.full - 1 }, .entered e, c⟩
  | store (q : PcQueue α) (c : PcConsumer α) (e : α) :
      PcStep ⟨q, .entered e, c⟩ (.store q.head e) ⟨{ q with elem := Function.update q.elem q.head e }, .stored e, c⟩
  | bumpHead (q : PcQueue α) (c : PcConsumer α) (e : α) :
      PcStep ⟨q, .stored e, c⟩ .silent ⟨{ q with head := q.head + 1 }, .moved e, c⟩
  | bumpHeadFirst (q : PcQueue α) (c : PcConsumer α) (e : α) :
      PcStep ⟨q, .entered e, c⟩ .silent ⟨{ q with head := q.head + 1 }, .bumped e q.head, c⟩
  | storeLast (q : PcQueue α) (c : PcConsumer α) (e : α) (i : Nat) :
      PcStep ⟨q, .bumped e i, c⟩ (.store i e) ⟨{ q with elem := Function.update q.elem i e }, .moved e, c⟩
  | wrapHead (q : PcQueue α) (c : PcConsumer α) (e : α) :
      PcStep ⟨q, .moved e, c⟩ .silent ⟨{ q with head := if q.n ≤ q.head then 0 else q.head }, .wrapped e, c⟩
  | postEmpty (q : PcQueue α) (c : PcConsumer α) (e : α) :
      PcStep ⟨q, .wrapped e, c⟩ (.enqueued e) ⟨{ q with empty := q.empty + 1 }, .idle, c⟩
  | dequeue (q : PcQueue α) (p : PcProducer α) : PcStep ⟨q, p, .idle⟩ .silent ⟨q, p, .waiting⟩
  | waitEmpty (q : PcQueue α) (p : PcProducer α) (h : 0 < q.empty) :
      PcStep ⟨q, p, .waiting⟩ .silent ⟨{ q with empty := q.empty - 1 }, p, .entered⟩
  | load (q : PcQueue α) (p : PcProducer α) :
      PcStep ⟨q, p, .entered⟩ (.load q.tail (q.elem q.tail)) ⟨q, p, .loaded (q.elem q.tail)⟩
  | bumpTail (q : PcQueue α) (p : PcProducer α) (v : α) :
      PcStep ⟨q, p, .loaded v⟩ .silent ⟨{ q with tail := q.tail + 1 }, p, .moved v⟩
  | bumpTailFirst (q : PcQueue α) (p : PcProducer α) :
      PcStep ⟨q, p, .entered⟩ .silent ⟨{ q with tail := q.tail + 1 }, p, .bumped q.tail⟩
  | loadLast (q : PcQueue α) (p : PcProducer α) (i : Nat) :
      PcStep ⟨q, p, .bumped i⟩ (.load i (q.elem i)) ⟨q, p, .moved (q.elem i)⟩
  | wrapTail (q : PcQueue α) (p : PcProducer α) (v : α) :
      PcStep ⟨q, p, .moved v⟩ .silent ⟨{ q with tail := if q.n ≤ q.tail then 0 else q.tail }, p, .wrapped v⟩
  | postFull (q : PcQueue α) (p : PcProducer α) (v : α) :
      PcStep ⟨q, p, .wrapped v⟩ (.dequeued v) ⟨{ q with full := q.full + 1 }, p, .idle⟩

/-- A run from `s` with what its steps show, the last step last. -/
inductive PcRun (s : PcState α) : List (PcEvent α) → PcState α → Prop
  | start : PcRun s [] s
  | step {t u : PcState α} {tr : List (PcEvent α)} {ev : PcEvent α} (h : PcRun s tr t) (hs : PcStep t ev u) :
      PcRun s (tr ++ [ev]) u

/-! ## What a run has done -/

@[simp] def PcEvent.stored : PcEvent α → List (Nat × α)
  | .store i e => [(i, e)]
  | _          => []

@[simp] def PcEvent.loaded : PcEvent α → List (Nat × α)
  | .load i v => [(i, v)]
  | _         => []

@[simp] def PcEvent.entered : PcEvent α → List α
  | .enqueued e => [e]
  | _           => []

@[simp] def PcEvent.left : PcEvent α → List α
  | .dequeued v => [v]
  | _           => []

/-- The slots written, with the elements, in order. -/
def stores (tr : List (PcEvent α)) : List (Nat × α) := tr.flatMap PcEvent.stored

/-- The slots read, with the elements, in order. -/
def loads (tr : List (PcEvent α)) : List (Nat × α) := tr.flatMap PcEvent.loaded

/-- The elements of the calls of `producer_consumer_enqueue` that have come to their end, in order. -/
def enqueued (tr : List (PcEvent α)) : List α := tr.flatMap PcEvent.entered

/-- The elements the calls of `producer_consumer_dequeue` have returned, in order. -/
def dequeued (tr : List (PcEvent α)) : List α := tr.flatMap PcEvent.left

/-- Whether the producer is between its two semaphores. -/
def PcProducer.inside : PcProducer α → Nat
  | .idle | .waiting _ => 0
  | _                  => 1

/-- The element stored and not yet announced. -/
def PcProducer.written : PcProducer α → List α
  | .stored e | .moved e | .wrapped e => [e]
  | _                                 => []

/-- Where `head` is when `k` calls have ended. -/
def PcProducer.HeadAt (n k head : Nat) : PcProducer α → Prop
  | .bumped _ i => i = k % n ∧ head = k % n + 1
  | .moved _    => head = k % n + 1
  | .wrapped _  => head = (k + 1) % n
  | _           => head = k % n

def PcConsumer.inside : PcConsumer α → Nat
  | .idle | .waiting => 0
  | _                => 1

/-- The element read and not yet returned. -/
def PcConsumer.taken : PcConsumer α → List α
  | .loaded v | .moved v | .wrapped v => [v]
  | _                                 => []

/-- Where `tail` is when `k` calls have ended. -/
def PcConsumer.TailAt (n k tail : Nat) : PcConsumer α → Prop
  | .bumped i  => i = k % n ∧ tail = k % n + 1
  | .moved _   => tail = k % n + 1
  | .wrapped _ => tail = (k + 1) % n
  | _          => tail = k % n

/-- **The invariant**: the semaphores count the calls that have ended and the one under way, each index follows the calls
of its side, and the slots not read yet are a window on what was stored. -/
structure PcInv (n : Nat) (tr : List (PcEvent α)) (s : PcState α) : Prop where
  size   : s.q.n = n
  full   : s.q.full + (enqueued tr).length + s.producer.inside = n + (dequeued tr).length
  empty  : s.q.empty + (dequeued tr).length + s.consumer.inside = (enqueued tr).length
  stored : (stores tr).map Prod.snd = enqueued tr ++ s.producer.written
  loaded : (loads tr).map Prod.snd = dequeued tr ++ s.consumer.taken
  head   : s.producer.HeadAt n (enqueued tr).length s.q.head
  tail   : s.consumer.TailAt n (dequeued tr).length s.q.tail
  slots  : ∀ k p, (stores tr)[k]? = some p → p.1 = k % n
  window : Ring.Window n s.q.elem ((stores tr).map Prod.snd) (loads tr).length
  fifo   : loads tr <+: stores tr

/-! ## One step -/

variable {n : Nat} {tr : List (PcEvent α)} {s : PcState α}

@[simp] theorem stores_append (a b : List (PcEvent α)) : stores (a ++ b) = stores a ++ stores b := List.flatMap_append

@[simp] theorem loads_append (a b : List (PcEvent α)) : loads (a ++ b) = loads a ++ loads b := List.flatMap_append

@[simp] theorem enqueued_append (a b : List (PcEvent α)) : enqueued (a ++ b) = enqueued a ++ enqueued b :=
  List.flatMap_append

@[simp] theorem dequeued_append (a b : List (PcEvent α)) : dequeued (a ++ b) = dequeued a ++ dequeued b :=
  List.flatMap_append

@[simp] theorem stores_cons (ev : PcEvent α) (tr : List (PcEvent α)) : stores (ev :: tr) = ev.stored ++ stores tr := rfl

@[simp] theorem loads_cons (ev : PcEvent α) (tr : List (PcEvent α)) : loads (ev :: tr) = ev.loaded ++ loads tr := rfl

@[simp] theorem enqueued_cons (ev : PcEvent α) (tr : List (PcEvent α)) :
    enqueued (ev :: tr) = ev.entered ++ enqueued tr := rfl

@[simp] theorem dequeued_cons (ev : PcEvent α) (tr : List (PcEvent α)) :
    dequeued (ev :: tr) = ev.left ++ dequeued tr := rfl

@[simp] theorem stores_nil : stores ([] : List (PcEvent α)) = [] := rfl

@[simp] theorem loads_nil : loads ([] : List (PcEvent α)) = [] := rfl

@[simp] theorem enqueued_nil : enqueued ([] : List (PcEvent α)) = [] := rfl

@[simp] theorem dequeued_nil : dequeued ([] : List (PcEvent α)) = [] := rfl

theorem PcInv.init (n : Nat) (elem : Nat → α) : PcInv n [] ⟨producerConsumerInit n elem, .idle, .idle⟩ where
  size   := rfl
  full   := rfl
  empty  := rfl
  stored := rfl
  loaded := rfl
  head   := (Nat.zero_mod n).symm
  tail   := (Nat.zero_mod n).symm
  slots  := fun k p h => by cases h
  window := Ring.Window.empty n elem
  fifo   := List.prefix_rfl

/-- A step that shows nothing leaves what the run has done. -/
theorem PcInv.silent (h : PcInv n tr s) : PcInv n (tr ++ [.silent]) s := by
  have hs : stores (tr ++ [.silent]) = stores tr := by simp
  have hl : loads (tr ++ [.silent]) = loads tr := by simp
  have he : enqueued (tr ++ [.silent]) = enqueued tr := by simp
  have hd : dequeued (tr ++ [.silent]) = dequeued tr := by simp
  constructor
  case size => exact h.size
  all_goals simp only [hs, hl, he, hd]
  case full => exact h.full
  case empty => exact h.empty
  case stored => exact h.stored
  case loaded => exact h.loaded
  case head => exact h.head
  case tail => exact h.tail
  case slots => exact h.slots
  case window => exact h.window
  case fifo => exact h.fifo

theorem PcInv.stores_length (h : PcInv n tr s) :
    (stores tr).length = (enqueued tr).length + s.producer.written.length := by
  have := congrArg List.length h.stored
  simpa using this

theorem PcInv.loads_length (h : PcInv n tr s) :
    (loads tr).length = (dequeued tr).length + s.consumer.taken.length := by
  have := congrArg List.length h.loaded
  simpa using this

/-- **A store of the producer inside** goes to a slot that was read, or never written. -/
theorem PcInv.store (h : PcInv n tr s) (hin : s.producer.inside = 1) (hw : s.producer.written = []) (e : α) :
    let i := (enqueued tr).length % n
    (∀ k p, (stores tr ++ [(i, e)])[k]? = some p → p.1 = k % n) ∧
      Ring.Window n (Function.update s.q.elem i e) ((stores tr ++ [(i, e)]).map Prod.snd) (loads tr).length := by
  have hlen := h.stores_length
  rw [hw, List.length_nil, Nat.add_zero] at hlen
  refine ⟨fun k p hk => ?_, ?_⟩
  · rcases Nat.lt_or_ge k (stores tr).length with hlt | hge
    · rw [List.getElem?_append_left hlt] at hk
      exact h.slots k p hk
    · rw [List.getElem?_append_right hge, List.getElem?_singleton] at hk
      split at hk
      · obtain rfl : k = (stores tr).length := by omega
        obtain rfl := Option.some.inj hk
        rw [hlen]
      · cases hk
  · have hfull := h.full
    have hloads := h.loads_length
    have hpush := h.window.push (by rw [List.length_map]; omega) e
    rw [List.length_map, hlen] at hpush
    rw [List.map_append, List.map_singleton]
    exact hpush

/-- **A load of the consumer inside** finds the oldest element that was not read. -/
theorem PcInv.load (h : PcInv n tr s) (hin : s.consumer.inside = 1) (hl : s.consumer.taken = []) :
    loads tr ++ [((dequeued tr).length % n, s.q.elem ((dequeued tr).length % n))] <+: stores tr := by
  have hlen := h.loads_length
  rw [hl, List.length_nil, Nat.add_zero] at hlen
  have hlt : (loads tr).length < (stores tr).length := by
    have := h.stores_length
    have := h.empty
    omega
  obtain ⟨p, hp⟩ : ∃ p, (stores tr)[(loads tr).length]? = some p := ⟨_, List.getElem?_eq_getElem hlt⟩
  have hslot : p.1 = (loads tr).length % n := h.slots _ _ hp
  have helem : s.q.elem ((loads tr).length % n) = p.2 := by
    apply h.window _ _ le_rfl
    rw [List.getElem?_map, hp]
    rfl
  rw [← hlen, helem, ← hslot]
  rw [List.prefix_iff_eq_take, List.length_append, List.length_singleton, List.take_add_one, hp,
    ← List.prefix_iff_eq_take.1 h.fifo]
  rfl

theorem PcInv.wrote {q : PcQueue α} {p p' : PcProducer α} {c : PcConsumer α} {e : α} {i : Nat} (h : PcInv n tr ⟨q, p, c⟩)
    (hi : i = (enqueued tr).length % n) (hin : p.inside = 1) (hw : p.written = []) (hin' : p'.inside = 1)
    (hw' : p'.written = [e]) (hh : p'.HeadAt n (enqueued tr).length q.head) :
    PcInv n (tr ++ [.store i e]) ⟨{ q with elem := Function.update q.elem i e }, p', c⟩ := by
  subst hi
  obtain ⟨hslots, hwin⟩ := h.store hin hw e
  have hst := h.stored
  rw [hw, List.append_nil] at hst
  have hfull := h.full
  constructor
  case size => exact h.size
  all_goals
    simp only [stores_append, stores_cons, stores_nil, PcEvent.stored, loads_append, loads_cons, loads_nil,
      PcEvent.loaded, enqueued_append, enqueued_cons, enqueued_nil, PcEvent.entered, dequeued_append, dequeued_cons,
      dequeued_nil, PcEvent.left, List.append_nil]
  case full => rw [hin']; rw [hin] at hfull; exact hfull
  case empty => exact h.empty
  case stored => rw [List.map_append, hst, hw']; rfl
  case loaded => exact h.loaded
  case head => exact hh
  case tail => exact h.tail
  case slots => exact hslots
  case window => exact hwin
  case fifo => exact h.fifo.trans (List.prefix_append _ _)

theorem PcInv.took {q : PcQueue α} {p : PcProducer α} {c c' : PcConsumer α} {i : Nat} (h : PcInv n tr ⟨q, p, c⟩)
    (hi : i = (dequeued tr).length % n) (hin : c.inside = 1) (hl : c.taken = []) (hin' : c'.inside = 1)
    (hl' : c'.taken = [q.elem i]) (ht : c'.TailAt n (dequeued tr).length q.tail) :
    PcInv n (tr ++ [.load i (q.elem i)]) ⟨q, p, c'⟩ := by
  subst hi
  have hfifo := h.load hin hl
  have hld := h.loaded
  rw [hl, List.append_nil] at hld
  have hempty := h.empty
  constructor
  case size => exact h.size
  all_goals
    simp only [stores_append, stores_cons, stores_nil, PcEvent.stored, loads_append, loads_cons, loads_nil,
      PcEvent.loaded, enqueued_append, enqueued_cons, enqueued_nil, PcEvent.entered, dequeued_append, dequeued_cons,
      dequeued_nil, PcEvent.left, List.append_nil]
  case full => exact h.full
  case empty => rw [hin']; rw [hin] at hempty; exact hempty
  case stored => exact h.stored
  case loaded => rw [List.map_append, hld, hl']; rfl
  case head => exact h.head
  case tail => exact ht
  case slots => exact h.slots
  case window => rw [List.length_append, List.length_singleton]; exact h.window.pop
  case fifo => exact hfifo

/-- **Every step keeps the invariant.** -/
theorem PcInv.step (hn : 0 < n) {ev : PcEvent α} {t : PcState α} (h : PcInv n tr s) (hs : PcStep s ev t) :
    PcInv n (tr ++ [ev]) t := by
  have hfull := h.full
  have hempty := h.empty
  have hhead := h.head
  have htail := h.tail
  have hst := h.stored
  have hld := h.loaded
  cases hs with
  | enqueue q c e => exact { h.silent with }
  | waitFull q c e hpos =>
    simp only [PcProducer.inside] at hfull
    exact { h.silent with full := by simp [PcProducer.inside]; omega }
  | store q c e => exact h.wrote hhead rfl rfl rfl rfl hhead
  | bumpHead q c e =>
    exact { h.silent with head := by simpa [PcProducer.HeadAt] using hhead }
  | bumpHeadFirst q c e =>
    exact { h.silent with head := by simpa [PcProducer.HeadAt] using hhead }
  | storeLast q c e i =>
    obtain ⟨hi, hhead⟩ := hhead
    exact h.wrote hi rfl rfl rfl rfl hhead
  | wrapHead q c e =>
    refine { h.silent with head := ?_ }
    have hq : q.n = n := h.size
    simp only [PcProducer.HeadAt] at hhead
    simp [PcProducer.HeadAt, hhead, hq, Ring.wrap_succ hn]
  | postEmpty q c e =>
    simp only [PcProducer.inside, PcProducer.written] at hfull hst hempty
    constructor
    case size => exact h.size
    case full => simp [PcProducer.inside]; omega
    case empty => simp; omega
    case stored => simpa [PcProducer.written] using hst
    case loaded => simpa using hld
    case head => simpa [PcProducer.HeadAt] using hhead
    case tail => simpa using htail
    case slots => simpa using h.slots
    case window => simpa using h.window
    case fifo => simpa using h.fifo
  | dequeue q p => exact { h.silent with }
  | waitEmpty q p hpos =>
    simp only [PcConsumer.inside] at hempty
    exact { h.silent with empty := by simp [PcConsumer.inside]; omega }
  | load q p => exact h.took htail rfl rfl rfl rfl htail
  | bumpTail q p v =>
    exact { h.silent with tail := by simpa [PcConsumer.TailAt] using htail }
  | bumpTailFirst q p =>
    exact { h.silent with tail := by simpa [PcConsumer.TailAt] using htail }
  | loadLast q p i =>
    obtain ⟨hi, htail⟩ := htail
    exact h.took hi rfl rfl rfl rfl htail
  | wrapTail q p v =>
    refine { h.silent with tail := ?_ }
    have hq : q.n = n := h.size
    simp only [PcConsumer.TailAt] at htail
    simp [PcConsumer.TailAt, htail, hq, Ring.wrap_succ hn]
  | postFull q p v =>
    simp only [PcConsumer.inside, PcConsumer.taken] at hempty hld hfull
    constructor
    case size => exact h.size
    case full => simp; omega
    case empty => simp [PcConsumer.inside]; omega
    case stored => simpa using hst
    case loaded => simpa [PcConsumer.taken] using hld
    case head => simpa using hhead
    case tail => simpa [PcConsumer.TailAt] using htail
    case slots => simpa using h.slots
    case window => simpa using h.window
    case fifo => simpa using h.fifo

/-! ## A whole run -/

variable {elem : Nat → α}

theorem PcInv.run (hn : 0 < n) (h : PcRun ⟨producerConsumerInit n elem, .idle, .idle⟩ tr s) : PcInv n tr s := by
  induction h with
  | start => exact PcInv.init n elem
  | step _ hs ih => exact ih.step hn hs

theorem PcRun.before {s₀ : PcState α} {ev : PcEvent α} (h : PcRun s₀ (tr ++ [ev]) s) : ∃ t, PcRun s₀ tr t := by
  generalize htr : tr ++ [ev] = l at h
  cases h with
  | start => simp at htr
  | step h hs =>
    obtain ⟨rfl, -⟩ := List.append_inj' htr rfl
    exact ⟨_, h⟩

theorem PcRun.beginning {s₀ : PcState α} {a b : List (PcEvent α)} (h : PcRun s₀ (a ++ b) s) : ∃ t, PcRun s₀ a t := by
  induction b using List.reverseRecOn generalizing s with
  | nil => exact ⟨s, by simpa using h⟩
  | append_singleton b ev ih =>
    rw [← List.append_assoc] at h
    obtain ⟨t, ht⟩ := h.before
    exact ih ht

/-- **At most `n` elements are in the queue.** -/
theorem PcInv.stores_le (h : PcInv n tr s) : (stores tr).length ≤ (loads tr).length + n := by
  have hin : s.producer.written.length ≤ s.producer.inside := by
    cases s.producer <;> simp [PcProducer.written, PcProducer.inside]
  have := h.stores_length
  have := h.loads_length
  have := h.full
  omega

theorem PcInv.dequeued_prefix (h : PcInv n tr s) : dequeued tr <+: enqueued tr := by
  have hp : dequeued tr <+: enqueued tr ++ s.producer.written := by
    rw [← h.stored]
    refine List.IsPrefix.trans ?_ (h.fifo.map Prod.snd)
    rw [h.loaded]
    exact List.prefix_append _ _
  apply List.prefix_of_prefix_length_le hp (List.prefix_append _ _)
  have := h.empty
  omega

theorem mem_loads {i : Nat} {v : α} (h : (i, v) ∈ loads tr) : .load i v ∈ tr := by
  obtain ⟨ev, hev, hp⟩ := List.mem_flatMap.1 h
  cases ev <;> simp_all

/-- **A slot is read between two stores into it**, and what is read is what was stored. -/
theorem PcRun.load_between (hn : 0 < n) {a b : List (PcEvent α)} {i : Nat} {e e' : α}
    (h : PcRun ⟨producerConsumerInit n elem, .idle, .idle⟩ (a ++ .store i e :: (b ++ [.store i e'])) s) :
    .load i e ∈ b := by
  have hinv := PcInv.run hn h
  obtain ⟨t, ha⟩ := h.beginning
  have hfifo := hinv.fifo
  have hle := hinv.stores_le
  have hlea := (PcInv.run hn ha).fifo.length_le
  have hst : stores (a ++ .store i e :: (b ++ [.store i e'])) = stores a ++ (i, e) :: (stores b ++ [(i, e')]) := by simp
  have hld : loads (a ++ .store i e :: (b ++ [.store i e'])) = loads a ++ loads b := by simp
  have hfirst : (stores a ++ (i, e) :: (stores b ++ [(i, e')]))[(stores a).length]? = some (i, e) := by simp
  have hsecond : (stores a ++ (i, e) :: (stores b ++ [(i, e')]))[(stores a).length + ((stores b).length + 1)]? =
      some (i, e') := by
    rw [List.getElem?_append_right (by omega)]
    simp
  -- the two stores are a whole turn apart, so the first element was read; it was not yet at the first store
  have hi : i = (stores a).length % n := hinv.slots _ _ (hst ▸ hfirst)
  have hi' : i = ((stores a).length + ((stores b).length + 1)) % n := hinv.slots _ (i, e') (hst ▸ hsecond)
  have hturn := Ring.turn_le (by omega) (hi.symm.trans hi')
  rw [hst, hld] at hle hfifo
  simp only [List.length_append, List.length_cons, List.length_nil] at hle
  obtain ⟨rest, hrest⟩ := hfifo
  rw [← hrest, List.getElem?_append_left (by rw [List.length_append]; omega),
    List.getElem?_append_right hlea] at hfirst
  exact mem_loads (List.mem_of_getElem? hfirst)

/-- A slot the run accesses. -/
def PcEvent.Accesses (i : Nat) : PcEvent α → Prop
  | .store j _ | .load j _ => i = j
  | _                      => False

theorem PcInv.accesses_lt (hn : 0 < n) (h : PcInv n tr s) {ev : PcEvent α} {i : Nat} (hev : ev ∈ tr)
    (hi : ev.Accesses i) : i < n := by
  have hlt : ∀ p ∈ stores tr, p.1 < n := by
    intro p hp
    obtain ⟨k, hk⟩ := List.mem_iff_getElem?.1 hp
    rw [h.slots k p hk]
    exact Nat.mod_lt k hn
  cases ev with
  | store j e =>
    obtain rfl : i = j := hi
    exact hlt _ (List.mem_flatMap.2 ⟨_, hev, List.mem_singleton_self _⟩)
  | load j v =>
    obtain rfl : i = j := hi
    exact hlt _ (h.fifo.subset (List.mem_flatMap.2 ⟨_, hev, List.mem_singleton_self _⟩))
  | _ => exact hi.elim

/-- **The queue is a bounded FIFO**: in every interleaving what is dequeued is a beginning of what is enqueued, at most
`n` elements are stored and not read, between two stores into one slot the first element is read, and every access is to
a slot of the queue. -/
theorem pcqueue_fifo (hn : 1 ≤ n) (h : PcRun ⟨producerConsumerInit n elem, .idle, .idle⟩ tr s) :
    dequeued tr <+: enqueued tr ∧ (stores tr).length ≤ (loads tr).length + n ∧
      (∀ a b c i e e', tr = a ++ .store i e :: (b ++ .store i e' :: c) → .load i e ∈ b) ∧
      ∀ ev ∈ tr, ∀ i, ev.Accesses i → i < n := by
  have hinv := PcInv.run hn h
  refine ⟨hinv.dequeued_prefix, hinv.stores_le, fun a b c i e e' htr => ?_,
    fun ev hev i hi => hinv.accesses_lt hn hev hi⟩
  have htr' : tr = a ++ .store i e :: (b ++ [.store i e']) ++ c := by rw [htr]; simp
  rw [htr'] at h
  obtain ⟨t, ht⟩ := h.beginning
  exact ht.load_between hn

/-- Three elements through two slots: the second is stored while the first is taken, the third goes to the slot of the
first. -/
theorem pcqueue_fifo_wraps : ∃ tr s, PcRun ⟨producerConsumerInit 2 (fun _ => 0), .idle, .idle⟩ tr s ∧
    stores tr = [(0, 7), (1, 8), (0, 9)] ∧ dequeued tr = [7, 8] ∧ dequeued tr <+: enqueued tr := by
  have h1 := ((PcRun.start.step (.enqueue (producerConsumerInit 2 (fun _ => 0)) .idle 7)).step
    (.waitFull _ _ _ Nat.two_pos)).step (.store _ _ _)
  have h2 := ((h1.step (.bumpHead _ _ _)).step (.wrapHead _ _ _)).step (.postEmpty _ _ _)
  -- both sides at once
  have h3 := (((h2.step (.enqueue _ _ 8)).step (.dequeue _ _)).step (.waitFull _ _ _ Nat.one_pos)).step
    (.waitEmpty _ _ Nat.one_pos)
  have h4 := (((h3.step (.bumpHeadFirst _ _ _)).step (.load _ _)).step (.storeLast _ _ _ _)).step (.bumpTail _ _ _)
  have h5 := (((h4.step (.wrapHead _ _ _)).step (.postEmpty _ _ _)).step (.wrapTail _ _ _)).step (.postFull _ _ _)
  -- the slots begin again
  have h6 := ((h5.step (.enqueue _ _ 9)).step (.waitFull _ _ _ Nat.one_pos)).step (.store _ _ _)
  have h7 := ((h6.step (.bumpHead _ _ _)).step (.wrapHead _ _ _)).step (.postEmpty _ _ _)
  have h8 := ((h7.step (.dequeue _ _)).step (.waitEmpty _ _ Nat.two_pos)).step (.bumpTailFirst _ _)
  have h9 := ((h8.step (.loadLast _ _ _)).step (.wrapTail _ _ _)).step (.postFull _ _ _)
  exact ⟨_, _, h9, rfl, rfl, (pcqueue_fifo (by decide) h9).1⟩

end Libpulp
