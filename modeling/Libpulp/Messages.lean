import Libpulp.Introspect
import Libpulp.MsgTotal
/-!
# Messages — the log of a process, written and shown (lib/msg_queue.c, tools/messages.c)

Each warning of libpulp is two messages, the time and the text.  `ulp messages` copies the whole queue out of the process
and prints it: the last of these messages, whole, and all of them as long as they fit together (`log_shown`).
-/
namespace Libpulp
namespace Messages

open Bytes (Byte Addr Buf Mem toLE ofLE)
open Fuel (Settles)
open Introspect (readMemory_settles)
open Listing (read_field)

/-! ## Writing -/

/-- A call of `ulp_warn` or `ulp_debug`: what `strftime` makes of the time, nothing if it fails, and the expanded
format. -/
structure Call where
  timestamp : List Byte
  text      : List Byte

/-- `ulp_warn` and `ulp_debug`.  A text that `vsnprintf` cuts off is pushed with its whole length, so it is too long. -/
def ulpWarn (fuel : Nat) (q : MsgQueue) (c : Call) : Option MsgQueue :=
  (if c.timestamp ≠ [] then msgqStrpush fuel q c.timestamp else some q).bind (fun q => msgqStrpush fuel q c.text)

/-! ## Showing -/

/-- `get_msgq_address`, from the queues of the libpulp object and of those behind it in the list of objects. -/
def getMsgqAddress (queues : List Addr) : Addr := (queues.find? (· ≠ 0)).getD 0

def sizeofMsgQueue : Nat := msgqBufferMax + 12

/-- `struct msg_queue` in a buffer. -/
def msgqOf (b : Buf) : MsgQueue :=
  ⟨b, ofLE (b.read msgqBufferMax 4), ofLE (b.read (msgqBufferMax + 4) 4), int32 (ofLE (b.read (msgqBufferMax + 8) 4))⟩

/-- `print_message_buffer`: what it returns, and what it prints of the queue. -/
def printMessageBuffer (t : ReadState.Target) (queues : List Addr) (detach : Int) (fuel : Nat) :
    Option (Int × List Byte) :=
  let msgqAddr := getMsgqAddress queues
  if msgqAddr = 0 then some (1, [])
  else if t.attach ≠ 0 then some (1, [])
  else
    (t.readMemory sizeofMsgQueue msgqAddr (fun _ => 0) fuel).map (fun (ret, buf) =>
      if detach ≠ 0 then (1, []) else if 0 < ret then (1, []) else (ret, msgqPrint (msgqOf buf)))

/-! ## What is logged -/

/-- A call that comes back: C strings, the time in its buffer of 32, and a text whose size is an `int` and not that of the
ring. -/
structure Call.Loggable (c : Call) : Prop where
  timestamp : (0 : Byte) ∉ c.timestamp ∧ c.timestamp.length < 32
  text      : (0 : Byte) ∉ c.text ∧ c.text.length + 1 < 2 ^ 31 ∧ c.text.length + 1 ≠ msgqBufferMax

/-- The messages of a call: an empty text is none, and one that does not fit in the ring is not taken. -/
def Call.messages (c : Call) : List (List Byte) :=
  [c.timestamp, c.text].filter (fun m => m ≠ [] ∧ m.length + 1 ≤ msgqBufferMax)

/-- The space that the longest message takes. -/
def longest (ms : List (List Byte)) : Nat := (ms.map (fun m => m.length + 1)).foldr max 0

theorem le_longest : ∀ {ms : List (List Byte)} {m : List Byte}, m ∈ ms → m.length + 1 ≤ longest ms
  | [], _, h      => (by cases h)
  | n :: ms, m, h => by
    rw [longest, List.map_cons, List.foldr_cons]
    rcases List.mem_cons.1 h with rfl | h
    · exact Nat.le_max_left _ _
    · exact Nat.le_trans (le_longest h) (Nat.le_max_right _ _)

/-- What is not a message is not pushed. -/
theorem msgqStrpush_filter {fuel : Nat} (q : MsgQueue) (m : List Byte) :
    msgqStrpush fuel q m =
      ([m].filter (fun m => m ≠ [] ∧ m.length + 1 ≤ msgqBufferMax)).foldlM (msgqStrpush fuel) q := by
  by_cases h : m ≠ [] ∧ m.length + 1 ≤ msgqBufferMax
  · rw [List.filter_cons_of_pos (by simpa using h), List.filter_nil, List.foldlM_cons]
    exact (bind_pure _).symm
  · rw [List.filter_cons_of_neg (by simpa using h), List.filter_nil, rejected_eq]
    · rfl
    · rw [not_and_or, not_ne_iff, Nat.not_le] at h
      exact h

theorem ulpWarn_eq (fuel : Nat) (q : MsgQueue) (c : Call) :
    ulpWarn fuel q c = c.messages.foldlM (msgqStrpush fuel) q := by
  have htime : (if c.timestamp ≠ [] then msgqStrpush fuel q c.timestamp else some q) =
      msgqStrpush fuel q c.timestamp := by
    split
    · rfl
    · rename_i h
      exact (rejected_eq (Or.inl (not_ne_iff.1 h))).symm
  rw [ulpWarn, htime, Call.messages, show [c.timestamp, c.text] = [c.timestamp] ++ [c.text] from rfl, List.filter_append,
    List.foldlM_append, ← msgqStrpush_filter]
  exact Option.bind_congr (fun q' _ => msgqStrpush_filter q' c.text)

theorem ulpWarn_run (fuel : Nat) : ∀ (calls : List Call) (q : MsgQueue),
    calls.foldlM (ulpWarn fuel) q = (calls.flatMap Call.messages).foldlM (msgqStrpush fuel) q
  | [], _         => rfl
  | c :: calls, q => by
    rw [List.foldlM_cons, List.flatMap_cons, List.foldlM_append, ulpWarn_eq]
    exact Option.bind_congr (fun q' _ => ulpWarn_run fuel calls q')

theorem Call.Loggable.pushable {c : Call} (h : c.Loggable) : ∀ m ∈ c.messages, Pushable m := by
  intro m hm
  obtain ⟨hmem, hfit⟩ := List.mem_filter.1 hm
  obtain ⟨hne, hsize⟩ := of_decide_eq_true hfit
  have hmax : msgqBufferMax = 2097152 := rfl
  rcases List.mem_cons.1 hmem with rfl | hmem
  · have hlen := h.timestamp.2
    exact ⟨⟨hne, h.timestamp.1⟩, by omega⟩
  · obtain rfl := List.mem_singleton.1 hmem
    have hlen := h.text.2.2
    exact ⟨⟨hne, h.text.1⟩, by omega⟩

/-- As long as all messages fit together, they stay in a row from the beginning on. -/
theorem run_straight (fuel : Nat) : ∀ (msgs : List (List Byte)) {q : MsgQueue} {live : List (List Byte)},
    Straight q.buffer 0 q.top q.distance live → q.bottom = 0 → (∀ m ∈ msgs, IsMsg m) →
    msgsSize (live ++ msgs) < msgqBufferMax →
    ∃ q', msgs.foldlM (msgqStrpush (fuel + 1)) q = some q' ∧ Straight q'.buffer 0 q'.top q'.distance (live ++ msgs) ∧
      q'.bottom = 0
  | [], q, live, h, hb, _, _          => ⟨q, rfl, by rwa [List.append_nil], hb⟩
  | m :: msgs, q, live, h, hb, hm, hs => by
    have htop := h.top
    rw [msgsSize_append, msgsSize_cons] at hs
    have hdrop : dropOldest q.buffer (m.length + 1) (fuel + 1) q.bottom q.distance = some (q.bottom, q.distance) :=
      hb ▸ dropOldest_straight h (by omega) fuel
    have hpush := msgqStrpush_eq (hm m List.mem_cons_self) (by omega) (by rw [if_neg (by omega)]) hdrop
    rw [Nat.mod_eq_of_lt (by omega)] at hpush
    obtain ⟨q', hrun, hq', hb'⟩ := run_straight fuel msgs
      (q := ⟨q.buffer.write q.top (m ++ [0]), q.top + (m.length + 1), q.bottom, q.distance + (m.length + 1)⟩)
      (h.snoc m) hb (fun n hn => hm n (List.mem_cons_of_mem _ hn)) (by
        rw [List.append_assoc, msgsSize_append, List.singleton_append, msgsSize_cons]
        exact hs)
    refine ⟨q', ?_, by rwa [List.append_assoc] at hq', hb'⟩
    rw [List.foldlM_cons, hpush]
    exact hrun

/-! ## What is shown -/

/-- The queue lies in the memory of the process. -/
structure QueueAt (m : Mem) (a : Addr) (q : MsgQueue) : Prop where
  buffer   : m.read a msgqBufferMax = q.buffer.read 0 msgqBufferMax
  top      : m.read (a + BitVec.ofNat 64 msgqBufferMax) 4 = toLE 4 q.top
  bottom   : m.read (a + BitVec.ofNat 64 (msgqBufferMax + 4)) 4 = toLE 4 q.bottom
  distance : m.read (a + BitVec.ofNat 64 (msgqBufferMax + 8)) 4 = toLE 4 q.distance.toNat

theorem msgqChars_congr {b b' : Buf} (h : ∀ i < msgqBufferMax, b i = b' i) : ∀ (d bottom : Nat),
    bottom < msgqBufferMax → msgqChars b bottom d = msgqChars b' bottom d
  | 0, _, _          => rfl
  | d + 1, bottom, hb => by
    rw [msgqChars, msgqChars, h bottom hb, msgqChars_congr h d _ (Nat.mod_lt _ (by decide))]

theorem msgqPrint_read {m : Mem} {a : Addr} {q : MsgQueue} (h : QueueAt m a q) (hr : q.InRange) (b : Buf) :
    msgqPrint (msgqOf (b.write 0 (m.read a sizeofMsgQueue))) = msgqPrint q := by
  have hmax : msgqBufferMax = 2097152 := rfl
  have hb := hr.bottom
  have hd := hr.distance
  have hn := hr.nonneg
  have hfield : ∀ o n, o + n ≤ sizeofMsgQueue →
      (b.write 0 (m.read a sizeofMsgQueue)).read o n = m.read (a + BitVec.ofNat 64 o) n := fun o n ho =>
    read_field b m a ho
  have hbottom : (msgqOf (b.write 0 (m.read a sizeofMsgQueue))).bottom = q.bottom := by
    refine (congrArg ofLE ((hfield (msgqBufferMax + 4) 4 ?_).trans h.bottom)).trans (Bytes.ofLE_toLE_of_lt (by omega))
    decide
  have hdistance : (msgqOf (b.write 0 (m.read a sizeofMsgQueue))).distance = q.distance := by
    have hle : ofLE ((b.write 0 (m.read a sizeofMsgQueue)).read (msgqBufferMax + 8) 4) = q.distance.toNat :=
      (congrArg ofLE ((hfield (msgqBufferMax + 8) 4 (by decide)).trans h.distance)).trans
        (Bytes.ofLE_toLE_of_lt (by omega))
    simp only [msgqOf]
    rw [hle, Int.toNat_of_nonneg hn]
    exact int32_of_range (by omega) (by omega)
  have hbuffer : ∀ i < msgqBufferMax, (msgqOf (b.write 0 (m.read a sizeofMsgQueue))).buffer i = q.buffer i := by
    have hread := hfield 0 msgqBufferMax (by decide)
    rw [show a + BitVec.ofNat 64 0 = a from BitVec.add_zero a, h.buffer] at hread
    intro i hi
    have hget := congrArg (fun l : List Byte => l[i]?) hread
    simp only [Buf.read, List.getElem?_map, List.getElem?_range hi, Option.map_some, Option.some.injEq,
      Nat.zero_add] at hget
    exact hget
  rw [msgqPrint, msgqPrint, hbottom, hdistance, msgqChars_congr hbuffer _ _ hb]

theorem holds_of_straight {q : MsgQueue} {live : List (List Byte)} (h : Straight q.buffer 0 q.top q.distance live)
    (hb : q.bottom = 0) (hm : ∀ m ∈ live, IsMsg m) (hs : msgsSize live < msgqBufferMax) : Holds q live := by
  have htop := h.top
  rw [Nat.zero_add] at htop
  refine ⟨hm, htop ▸ hs, fun hl => ⟨?_, hb⟩, fun hne => ?_, Or.inl (hb ▸ h)⟩
  · rw [htop, hl]
    rfl
  · cases live with
    | nil => exact absurd htop hne
    | cons m live => exact laid_head h.laid (hm m List.mem_cons_self)

theorem printMessageBuffer_fails {t : ReadState.Target} {queues : List Addr} {detach : Int}
    (h : getMsgqAddress queues = 0 ∨ t.attach ≠ 0) : printMessageBuffer t queues detach = fun _ => some (1, []) := by
  funext fuel
  unfold printMessageBuffer
  rcases h with h | h <;> simp [h]

theorem printMessageBuffer_detach {t : ReadState.Target} {queues : List Addr} {detach : Int} (hd : detach ≠ 0)
    {fuel : Nat} {r : Int × List Byte} (h : printMessageBuffer t queues detach fuel = some r) : r = (1, []) := by
  unfold printMessageBuffer at h
  simp only [if_pos hd] at h
  split at h
  · exact (Option.some.inj h).symm
  · split at h
    · exact (Option.some.inj h).symm
    · obtain ⟨-, -, h⟩ := Option.map_eq_some_iff.1 h
      exact h.symm

/-- **The log of a process is what `ulp messages` shows.**  However libpulp warns, every call comes back, and the tool
prints the last messages, one or more, whole and in order: all of them as long as they fit in the ring together, and as
many as fill it up to two of the longest if some are lost.  It prints nothing and fails if it does not find the queue or
cannot attach or detach. -/
theorem log_shown (calls : List Call) (hcalls : ∀ c ∈ calls, c.Loggable) (fuel : Nat) (hfuel : msgqBufferMax + 1 ≤ fuel) :
    ∃ q shown, calls.foldlM (ulpWarn fuel) msgqInit = some q ∧ shown <:+ calls.flatMap Call.messages ∧
      (calls.flatMap Call.messages ≠ [] → shown ≠ []) ∧
      (msgsSize (calls.flatMap Call.messages) < msgqBufferMax → shown = calls.flatMap Call.messages) ∧
      (shown = calls.flatMap Call.messages ∨
        msgqBufferMax ≤ msgsSize shown + 2 * longest (calls.flatMap Call.messages)) ∧
      ∀ (t : ReadState.Target) (queues : List Addr) (detach : Int),
        (getMsgqAddress queues = 0 ∨ t.attach ≠ 0 → Settles (printMessageBuffer t queues detach) (1, [])) ∧
        (detach ≠ 0 → ∀ fuel r, printMessageBuffer t queues detach fuel = some r → r = (1, [])) ∧
        (getMsgqAddress queues ≠ 0 → t.attach = 0 → QueueAt t.mem (getMsgqAddress queues) q →
          t.processVmReadv (getMsgqAddress queues) sizeofMsgQueue = .ok sizeofMsgQueue →
          Settles (printMessageBuffer t queues detach) (if detach = 0 then (0, shown.flatten) else (1, []))) := by
  have hpush : ∀ m ∈ calls.flatMap Call.messages, Pushable m := by
    intro m hm
    obtain ⟨c, hc, hm⟩ := List.mem_flatMap.1 hm
    exact (hcalls c hc).pushable m hm
  obtain ⟨q, hrun, live, hq, hsuf, hne, hall, hlost⟩ : ∃ q, calls.foldlM (ulpWarn fuel) msgqInit = some q ∧
      ∃ live, Holds q live ∧ live <:+ calls.flatMap Call.messages ∧ (calls.flatMap Call.messages ≠ [] → live ≠ []) ∧
        (msgsSize (calls.flatMap Call.messages) < msgqBufferMax → live = calls.flatMap Call.messages) ∧
        (live = calls.flatMap Call.messages ∨
          msgqBufferMax ≤ msgsSize live + 2 * longest (calls.flatMap Call.messages)) := by
    rw [ulpWarn_run]
    by_cases hfit : msgsSize (calls.flatMap Call.messages) < msgqBufferMax
    · obtain ⟨f, rfl⟩ : ∃ f, fuel = f + 1 := ⟨fuel - 1, by omega⟩
      have hinit : Straight msgqInit.buffer 0 msgqInit.top msgqInit.distance [] := ⟨trivial, rfl, rfl⟩
      obtain ⟨q, hrun, hs, hb⟩ := run_straight f (calls.flatMap Call.messages) hinit rfl (fun m hm => (hpush m hm).1) hfit
      exact ⟨q, hrun, _, holds_of_straight hs hb (fun m hm => (hpush m hm).1) hfit, List.suffix_rfl, id, fun _ => rfl,
        Or.inl rfl⟩
    · obtain ⟨q, live, hrun, hq, hsuf, hne, hkept⟩ := msgqStrpush_run_keeps hfuel _ holds_init (Int.natCast_nonneg _)
        (fun m hm => le_longest hm) hpush
      exact ⟨q, hrun, live, hq, hsuf, hne, fun h => absurd h hfit, hkept⟩
  refine ⟨q, live, hrun, hsuf, hne, hall, hlost, fun t queues detach => ⟨fun h => ?_, fun hd fuel r h => ?_,
    fun ha hattach hat hread => ?_⟩⟩
  · rw [printMessageBuffer_fails h]
    exact Settles.const _
  · exact printMessageBuffer_detach hd h
  · have hprint := (readMemory_settles hread (by decide) (fun _ => 0)).map (fun (ret, buf) =>
      if detach ≠ 0 then ((1 : Int), []) else if 0 < ret then (1, []) else (ret, msgqPrint (msgqOf buf)))
    simp only [msgqPrint_read hat hq.inRange, msgqPrint_holds hq, Int.lt_irrefl, if_false] at hprint
    unfold printMessageBuffer
    simp only [ha, hattach, ne_eq, not_true_eq_false, if_false]
    by_cases hd : detach = 0
    · simp only [hd, ne_eq, not_true_eq_false, if_false, if_true] at hprint ⊢
      exact hprint
    · simp only [hd, ne_eq, not_false_eq_true, if_true, if_false] at hprint ⊢
      exact hprint

/-- The bytes of a queue. -/
def queueByte (q : MsgQueue) (i : Nat) : Byte :=
  if i < msgqBufferMax then q.buffer i
  else (toLE 4 q.top ++ (toLE 4 q.bottom ++ toLE 4 q.distance.toNat)).getD (i - msgqBufferMax) 0

theorem read_offset (f : Nat → Byte) (a : Addr) {o n : Nat} (h : o + n ≤ 2 ^ 64) :
    Mem.read (fun x => f (x - a).toNat) (a + BitVec.ofNat 64 o) n = (List.range n).map (fun i => f (o + i)) := by
  refine List.ext_getElem (by simp) (fun i hi _ => ?_)
  rw [Mem.length_read] at hi
  rw [Mem.getElem_read, List.getElem_map, List.getElem_range, BitVec.add_assoc, ← BitVec.ofNat_add,
    Mem.sub_ofNat_toNat a (by omega)]

theorem queueAt_placed (a : Addr) (q : MsgQueue) : QueueAt (fun x => queueByte q (x - a).toNat) a q := by
  have hfield : ∀ k n, k + 4 ≤ 12 →
      (∀ i < 4, (toLE 4 q.top ++ (toLE 4 q.bottom ++ toLE 4 q.distance.toNat))[k + i]? = (toLE 4 n)[i]?) →
      Mem.read (fun x => queueByte q (x - a).toNat) (a + BitVec.ofNat 64 (msgqBufferMax + k)) 4 = toLE 4 n := by
    intro k n hk h
    rw [read_offset _ _ (by rw [msgqBufferMax]; omega)]
    refine (List.map_congr_left (fun i hi => ?_)).trans (Bytes.map_range_getD (toLE 4 n))
    rw [queueByte, if_neg (by omega), Nat.add_assoc, Nat.add_sub_cancel_left, List.getD_eq_getElem?_getD,
      h i (List.mem_range.1 hi), List.getD_eq_getElem?_getD]
  refine ⟨?_, hfield 0 _ (by decide) (fun i hi => ?_), hfield 4 _ (by decide) (fun i hi => ?_),
    hfield 8 _ (by decide) (fun i hi => ?_)⟩
  · have h := read_offset (queueByte q) a (o := 0) (n := msgqBufferMax) (by decide)
    rw [show a + BitVec.ofNat 64 0 = a from BitVec.add_zero a] at h
    refine h.trans (List.map_congr_left (fun i hi => ?_))
    rw [queueByte, Nat.zero_add, if_pos (List.mem_range.1 hi)]
  · rw [Nat.zero_add, List.getElem?_append_left (by simpa using hi)]
  · rw [List.getElem?_append_right (by simp), List.getElem?_append_left (by simp; omega), Bytes.length_toLE,
      Nat.add_sub_cancel_left]
  · rw [List.getElem?_append_right (by simp; omega), List.getElem?_append_right (by simp; omega), Bytes.length_toLE,
      Bytes.length_toLE, show 8 + i - 4 - 4 = i by omega]

/-- A call with the text `hi`, and the process with the queue at `0x1000`. -/
theorem log_shown_one : ∃ q, [(⟨[116], [104, 105]⟩ : Call)].foldlM (ulpWarn (msgqBufferMax + 1)) msgqInit = some q ∧
    Settles (printMessageBuffer ⟨fun x => queueByte q (x - 0x1000).toNat, fun _ n => .ok n, fun _ => 0, fun _ => true, 0⟩
      [0x1000] 0) (0, [116, 104, 105]) := by
  have hcalls : ∀ c ∈ [(⟨[116], [104, 105]⟩ : Call)], c.Loggable := by
    intro c hc
    obtain rfl := List.mem_singleton.1 hc
    exact ⟨by decide, by decide⟩
  obtain ⟨q, shown, hrun, -, -, hall, -, hshow⟩ := log_shown _ hcalls (msgqBufferMax + 1) (Nat.le_refl _)
  obtain rfl := hall (by decide)
  exact ⟨q, hrun, (hshow _ [0x1000] 0).2.2 (by decide) rfl (queueAt_placed 0x1000 q) rfl⟩

end Messages
end Libpulp
