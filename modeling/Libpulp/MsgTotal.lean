import Libpulp.MsgQueue
import Libpulp.Fuel
/-!
# MsgTotal — pushing a message of any size that is accepted (lib/msg_queue.c)

`msgq_strpush` refuses what is larger than the ring, but its loop makes room only for less than the ring.  A message of
exactly that size clears the ring while it waits for a byte that is not NUL, or is written over the place it is read from;
every smaller one comes back with the queue in order and can be read back whole (`pushTotal_iff`).
-/
namespace Libpulp

open Bytes (Byte Buf)
open Fuel (Steady Returns)

/-! ## Accesses -/

/-- What the inner loop of `msgq_strpush` reads of the ring, as offsets and lengths. -/
def skipNulsReads (b : Buf) : Nat → Nat → List (Nat × Nat)
  | 0, _             => []
  | fuel + 1, bottom =>
    (bottom, 1) :: if b bottom = 0 then skipNulsReads b fuel ((bottom + 1) % msgqBufferMax) else []

/-- What the outer loop reads of the ring; a string without an end goes past it. -/
def dropOldestReads (b : Buf) (msgSize : Nat) : Nat → Nat → Int → List (Nat × Nat)
  | 0, _, _                    => []
  | fuel + 1, bottom, distance =>
    if msgqBufferMax ≤ sizeT (distance + msgSize) then
      match bufString b (msgqBufferMax - bottom) bottom with
      | none   => [(bottom, msgqBufferMax + 1)]
      | some s =>
        (bottom, s.length + 1) :: skipNulsReads b (msgqBufferMax + 1) ((bottom + (s.length + 1)) % msgqBufferMax) ++
          match skipNuls b (msgqBufferMax + 1) ((bottom + (s.length + 1)) % msgqBufferMax) (s.length + 1) with
          | none                  => []
          | some (bottom, travel) => dropOldestReads b msgSize fuel bottom (distance - travel)
    else []

/-- Every access of `msgq_strpush` to the ring: the `memset`, the loops and the `memcpy`. -/
def msgqStrpushAccesses (fuel : Nat) (q : MsgQueue) (msg : List Byte) : List (Nat × Nat) :=
  let msgSize := msg.length + 1
  if msg = [] ∨ msgqBufferMax < msgSize then []
  else if msgqBufferMax ≤ q.top + msgSize then
    (q.top, msgqBufferMax - q.top) ::
      dropOldestReads (q.buffer.write q.top (List.replicate (msgqBufferMax - q.top) 0)) msgSize fuel q.bottom
        (q.distance + (msgqBufferMax - q.top)) ++ [(0, msgSize)]
  else dropOldestReads q.buffer msgSize fuel q.bottom q.distance ++ [(q.top, msgSize)]

/-- The access stays in the ring. -/
def InRing (a : Nat × Nat) : Prop := a.1 + a.2 ≤ msgqBufferMax

theorem skipNulsReads_inRing (b : Buf) : ∀ (fuel bottom : Nat), bottom < msgqBufferMax →
    ∀ a ∈ skipNulsReads b fuel bottom, InRing a
  | 0, _, _, a, ha               => by cases ha
  | fuel + 1, bottom, hb, a, ha => by
    rw [skipNulsReads, List.mem_cons] at ha
    rcases ha with rfl | ha
    · exact hb
    · split at ha
      · exact skipNulsReads_inRing b fuel _ (Nat.mod_lt _ (by decide)) a ha
      · cases ha

theorem skipNuls_lt (b : Buf) : ∀ (fuel bottom : Nat) (t : Int) {r : Nat × Int}, bottom < msgqBufferMax →
    skipNuls b fuel bottom t = some r → r.1 < msgqBufferMax
  | 0, _, _, _, _, h                => by cases h
  | fuel + 1, bottom, t, r, hb, h => by
    rw [skipNuls] at h
    split at h
    · exact skipNuls_lt b fuel _ _ (Nat.mod_lt _ (by decide)) h
    · cases h
      exact hb

/-- **A loop that comes back stayed in the ring.** -/
theorem dropOldestReads_inRing {b : Buf} {size : Nat} : ∀ (fuel bottom : Nat) (distance : Int) {r : Nat × Int},
    bottom < msgqBufferMax → dropOldest b size fuel bottom distance = some r →
      ∀ a ∈ dropOldestReads b size fuel bottom distance, InRing a
  | 0, _, _, _, _, h, _, _                    => by cases h
  | fuel + 1, bottom, distance, r, hb, h, a, ha => by
    rw [dropOldest] at h
    rw [dropOldestReads] at ha
    split at h
    swap
    · rename_i hlt
      rw [if_neg hlt] at ha
      cases ha
    rename_i hge
    rw [if_pos hge] at ha
    obtain ⟨s, hs, h⟩ := Option.bind_eq_some_iff.1 h
    obtain ⟨⟨bottom', travel⟩, hskip, h⟩ := Option.bind_eq_some_iff.1 h
    have hpos : (bottom + (s.length + 1)) % msgqBufferMax < msgqBufferMax := Nat.mod_lt _ (by decide)
    simp only [hs, hskip, List.cons_append, List.mem_cons, List.mem_append] at ha
    rcases ha with rfl | ha | ha
    · have := length_bufString b hs
      unfold InRing
      omega
    · exact skipNulsReads_inRing b _ _ hpos a ha
    · exact dropOldestReads_inRing fuel bottom' (distance - travel) (skipNuls_lt b _ _ _ hpos hskip) h a ha

/-- **A push that comes back stayed in the ring.** -/
theorem msgqStrpushAccesses_inRing {fuel : Nat} {q q' : MsgQueue} {m : List Byte} (ht : q.top < msgqBufferMax)
    (hb : q.bottom < msgqBufferMax) (h : msgqStrpush fuel q m = some q') :
    ∀ a ∈ msgqStrpushAccesses fuel q m, InRing a := by
  unfold msgqStrpush at h
  unfold msgqStrpushAccesses
  simp only at h ⊢
  split at h
  · rename_i hr
    rw [if_pos hr]
    intro a ha
    cases ha
  rename_i hr
  rw [if_neg hr]
  rw [not_or, Nat.not_lt] at hr
  obtain ⟨r, hdrop, -⟩ := Option.map_eq_some_iff.1 h
  intro a ha
  by_cases hw : msgqBufferMax ≤ q.top + (m.length + 1)
  · rw [if_pos hw] at hdrop ha
    simp only [List.cons_append, List.mem_cons, List.mem_append, List.not_mem_nil, or_false] at ha
    rcases ha with rfl | ha | rfl
    · unfold InRing
      omega
    · exact dropOldestReads_inRing fuel _ _ hb hdrop a ha
    · unfold InRing
      omega
  · rw [if_neg hw] at hdrop ha
    simp only [List.mem_append, List.mem_cons, List.not_mem_nil, or_false] at ha
    rcases ha with ha | rfl
    · exact dropOldestReads_inRing fuel _ _ hb hdrop a ha
    · unfold InRing
      omega

/-! ## More rounds -/

theorem steady_dropOldest (b : Buf) (size bottom : Nat) (distance : Int) :
    Steady (fun fuel => dropOldest b size fuel bottom distance) := by
  intro n m a hnm h
  induction n generalizing m bottom distance with
  | zero => cases h
  | succ n ih =>
    obtain ⟨k, rfl⟩ : ∃ k, m = k + 1 := ⟨m - 1, by omega⟩
    simp only [dropOldest] at h ⊢
    split at h
    · rename_i hge
      rw [if_pos hge]
      obtain ⟨s, hs, h⟩ := Option.bind_eq_some_iff.1 h
      obtain ⟨r, hr, h⟩ := Option.bind_eq_some_iff.1 h
      exact Option.bind_eq_some_iff.2 ⟨s, hs, Option.bind_eq_some_iff.2 ⟨r, hr, ih _ _ k (by omega) h⟩⟩
    · rename_i hlt
      rwa [if_neg hlt]

theorem steady_msgqStrpush (q : MsgQueue) (m : List Byte) : Steady (fun fuel => msgqStrpush fuel q m) := by
  unfold msgqStrpush
  simp only
  split
  · exact Steady.const _
  · apply Steady.map
    exact steady_dropOldest _ _ _ _

/-! ## What a push promises -/

/-- The positions of the queue fit together. -/
structure MsgQueue.InRange (q : MsgQueue) : Prop where
  top      : q.top < msgqBufferMax
  bottom   : q.bottom < msgqBufferMax
  nonneg   : 0 ≤ q.distance
  distance : q.distance ≤ msgqBufferMax
  meet     : ((q.bottom : Int) + q.distance) % msgqBufferMax = (q.top : Int) % msgqBufferMax

/-- **What pushing a message promises**: it comes back, with the positions in range and every access in the ring, and
what is read from the bottom on ends with the message. -/
def PushTotal (q : MsgQueue) (m : List Byte) : Prop :=
  ∃ fuel q', msgqStrpush fuel q m = some q' ∧ q'.InRange ∧ (∀ a ∈ msgqStrpushAccesses fuel q m, InRing a) ∧
    m ++ [0] <:+ msgqChars q'.buffer q'.bottom q'.distance.toNat

/-- The queues that pushes of messages with `P` lead to. -/
inductive PushReach (P : List Byte → Prop) : MsgQueue → Prop where
  | init : PushReach P msgqInit
  | push {q q' : MsgQueue} {m : List Byte} {fuel : Nat} (hq : PushReach P q) (hm : (0 : Byte) ∉ m) (hP : P m)
      (h : msgqStrpush fuel q m = some q') : PushReach P q'

theorem Holds.inRange {q : MsgQueue} {live : List (List Byte)} (h : Holds q live) : q.InRange := by
  have hmax : msgqBufferMax = 2097152 := rfl
  have ht := h.top
  rcases h.shape with hs | ⟨older, newer, -, -, hw, hlt⟩
  · have h₁ := hs.top
    have h₂ := hs.distance
    exact ⟨ht, by omega, by omega, by omega, by congr 1; omega⟩
  · have h₁ := hw.top
    have h₂ := hw.distance
    have h₃ := hw.fits
    refine ⟨ht, by omega, by omega, by omega, ?_⟩
    rw [show (q.bottom : Int) + q.distance = q.top + msgqBufferMax by omega, Int.add_emod_right]

theorem Holds.msgsSize_le {q : MsgQueue} {live : List (List Byte)} (h : Holds q live) : msgsSize live ≤ msgqBufferMax := by
  have ht := h.top
  rcases h.shape with hs | ⟨older, newer, rfl, -, hw, hlt⟩
  · have := hs.top
    omega
  · have h₁ := hw.top
    have h₂ := hw.fits
    rw [msgsSize_append]
    omega

theorem length_msgqChars (b : Buf) : ∀ (d bottom : Nat), (msgqChars b bottom d).length = d
  | 0, _     => rfl
  | d + 1, o => by rw [msgqChars, List.length_cons, length_msgqChars b d]

theorem suffix_flatMap {ms : List (List Byte)} {m : List Byte} (h : ms.getLast? = some m) :
    m ++ [0] <:+ ms.flatMap (· ++ [0]) := by
  obtain ⟨ns, rfl⟩ := List.getLast?_eq_some_iff.1 h
  rw [List.flatMap_append, List.flatMap_cons, List.flatMap_nil, List.append_nil]
  exact List.suffix_append _ _

theorem Holds.readBack {q : MsgQueue} {live : List (List Byte)} {m : List Byte} (h : Holds q (live ++ [m])) :
    m ++ [0] <:+ msgqChars q.buffer q.bottom q.distance.toNat := by
  have ht := h.top
  rcases h.shape with hs | ⟨older, newer, happ, hnew, hw, hlt⟩
  · have hb := hs.top
    rw [hs.distance, Int.toNat_natCast, ← Nat.add_zero (msgsSize _), msgqChars_straight _ _ _ _ (by omega) (by omega),
      msgqChars, List.append_nil, laid_read hs.laid]
    exact suffix_flatMap List.getLast?_concat
  · have hlast : newer.getLast? = some m := by
      have := congrArg List.getLast? happ
      rwa [List.getLast?_concat, List.getLast?_append_of_ne_nil _ hnew, eq_comm] at this
    have hfits := hw.fits
    have htop := hw.top
    have hdist : q.distance.toNat = (msgqBufferMax - q.bottom) + (msgsSize newer + 0) := by
      rw [hw.distance]
      omega
    rw [hdist, msgqChars_straight _ _ _ _ (by omega) (by omega), show q.bottom + (msgqBufferMax - q.bottom) =
      msgqBufferMax by omega, Nat.mod_self, msgqChars_straight _ _ _ _ (by omega) (by decide), msgqChars, List.append_nil,
      laid_read hw.laidNewer]
    exact (suffix_flatMap hlast).trans (List.suffix_append _ _)

/-! ## Below the size of the ring -/

theorem rejected_eq {fuel : Nat} {q : MsgQueue} {m : List Byte} (h : m = [] ∨ msgqBufferMax < m.length + 1) :
    msgqStrpush fuel q m = some q := by
  rw [msgqStrpush, if_pos h]

/-- **Every queue reached without a message of the size of the ring holds messages.** -/
theorem PushReach.holds {q : MsgQueue} (h : PushReach (fun n => n.length + 1 ≠ msgqBufferMax) q) :
    ∃ live, Holds q live := by
  induction h with
  | init => exact ⟨[], holds_init⟩
  | @push q q' m fuel _ hm hP h ih =>
    obtain ⟨live, hl⟩ := ih
    by_cases hr : m = [] ∨ msgqBufferMax < m.length + 1
    · rw [rejected_eq hr] at h
      obtain rfl := Option.some.inj h
      exact ⟨live, hl⟩
    · rw [not_or] at hr
      obtain ⟨q₁, live₁, h₁, -, hq₁⟩ := msgqStrpush_holds hl ⟨hr.1, hm⟩ (by omega) (Nat.le_refl (msgqBufferMax + 1))
      obtain rfl : q' = q₁ := Returns.unique (steady_msgqStrpush q m) ⟨fuel, h⟩ ⟨_, h₁⟩
      exact ⟨_, hq₁⟩

theorem pushTotal_of_lt {q : MsgQueue} {live : List (List Byte)} {m : List Byte} (h : Holds q live) (hm : IsMsg m)
    (hs : m.length + 1 < msgqBufferMax) : PushTotal q m := by
  obtain ⟨q', live', hpush, -, hq'⟩ := msgqStrpush_holds h hm (by omega) (Nat.le_refl (msgqBufferMax + 1))
  exact ⟨_, q', hpush, hq'.inRange, msgqStrpushAccesses_inRing h.top h.inRange.bottom hpush, hq'.readBack⟩

/-! ## At the size of the ring -/

theorem dropOldest_exit {b : Buf} {size : Nat} : ∀ (fuel bottom : Nat) (distance : Int) {r : Nat × Int},
    dropOldest b size fuel bottom distance = some r → sizeT (r.2 + size) < msgqBufferMax
  | 0, _, _, _, h                      => by cases h
  | fuel + 1, bottom, distance, r, h => by
    rw [dropOldest] at h
    split at h
    · obtain ⟨s, -, h⟩ := Option.bind_eq_some_iff.1 h
      obtain ⟨⟨bottom', travel⟩, -, h⟩ := Option.bind_eq_some_iff.1 h
      exact dropOldest_exit fuel _ _ h
    · rename_i hlt
      cases h
      exact Nat.lt_of_not_le hlt

/-- **Less than the ring is left to read after any push that comes back**, so a message of its size is not. -/
theorem not_pushTotal_of_eq {q : MsgQueue} {m : List Byte} (hm : m ≠ []) (hs : m.length + 1 = msgqBufferMax) :
    ¬ PushTotal q m := by
  rintro ⟨fuel, q', hpush, hr, -, hread⟩
  unfold msgqStrpush at hpush
  simp only at hpush
  rw [if_neg (by simp only [hm, false_or]; omega)] at hpush
  obtain ⟨⟨bottom, distance⟩, hdrop, rfl⟩ := Option.map_eq_some_iff.1 hpush
  have hexit := dropOldest_exit fuel _ _ hdrop
  have hlen := hread.length_le
  have h₁ := hr.nonneg
  have h₂ := hr.distance
  have hmax : msgqBufferMax = 2097152 := rfl
  rw [length_msgqChars, List.length_append, List.length_singleton] at hlen
  simp only [sizeT] at hexit h₁ h₂ hlen
  omega

/-- **Which messages `msgq_strpush` is total on**: in a queue that was only given messages smaller or larger than the
ring, exactly those that are smaller, of all it accepts. -/
theorem pushTotal_iff (q : MsgQueue) (hq : PushReach (fun n => n.length + 1 ≠ msgqBufferMax) q) (m : List Byte)
    (hm : IsMsg m) (hs : m.length + 1 ≤ msgqBufferMax) : PushTotal q m ↔ m.length + 1 < msgqBufferMax := by
  obtain ⟨live, h⟩ := hq.holds
  refine ⟨fun ht => ?_, pushTotal_of_lt h hm⟩
  by_contra hlt
  exact not_pushTotal_of_eq hm.1 (by omega) ht

theorem exists_isMsg {n : Nat} (h : n ≠ 0) : ∃ m : List Byte, IsMsg m ∧ m.length = n :=
  ⟨List.replicate n 97, ⟨fun h0 => h ((List.replicate_eq_nil_iff _).1 h0),
    fun h0 => absurd (List.eq_of_mem_replicate h0) (by decide)⟩, List.length_replicate⟩

/-- A message of three quarters of the ring pushes out another one. -/
theorem pushTotal_iff_evicts : ∃ m q q', m.length = 1500000 ∧ msgqStrpush (msgqBufferMax + 1) msgqInit m = some q ∧
    msgqPrint q = m ∧ (PushTotal q m ↔ m.length + 1 < msgqBufferMax) ∧
    msgqStrpush (msgqBufferMax + 1) q m = some q' ∧ msgqPrint q' = m := by
  have hmax : msgqBufferMax = 2097152 := rfl
  obtain ⟨m, hmsg, hlen⟩ := @exists_isMsg 1500000 (by decide)
  obtain ⟨q, live, hq, hlive, hholds⟩ := msgqStrpush_holds holds_init hmsg (by omega) (Nat.le_refl _)
  obtain rfl := List.suffix_nil.1 hlive
  obtain ⟨q', live', hq', hlive', hholds'⟩ := msgqStrpush_holds hholds hmsg (by omega) (Nat.le_refl _)
  have hevicts : live' = [] := by
    rcases List.suffix_cons_iff.1 hlive' with rfl | h
    · have := hholds'.msgsSize_le
      simp only [msgsSize_append, msgsSize_cons, msgsSize_nil] at this
      omega
    · exact List.suffix_nil.1 h
  subst hevicts
  refine ⟨m, q, q', hlen, hq, ?_, pushTotal_iff q (.push .init hmsg.2 (by omega) hq) m hmsg (by omega), hq', ?_⟩
  · simpa using msgqPrint_holds hholds
  · simpa using msgqPrint_holds hholds'

/-- The loop that waits for a byte other than NUL has no end in an empty ring. -/
theorem skipNuls_empty : ∀ (fuel bottom : Nat) (t : Int), skipNuls (fun _ => 0) fuel bottom t = none
  | 0, _, _              => rfl
  | fuel + 1, bottom, t => by
    rw [skipNuls, if_pos rfl]
    exact skipNuls_empty fuel _ _

/-- **A message of the size of the ring hangs on the empty queue.** -/
theorem msgqStrpush_hangs (fuel : Nat) {m : List Byte} (hm : m ≠ []) (hs : m.length + 1 = msgqBufferMax) :
    msgqStrpush fuel msgqInit m = none := by
  have hz : Buf.write (fun _ => 0) 0 (List.replicate msgqBufferMax 0) = fun _ => 0 := by
    funext i
    unfold Buf.write
    rw [if_pos (Nat.zero_le i), List.getElem?_replicate]
    split <;> rfl
  have hdrop : dropOldest (fun _ => 0) (m.length + 1) fuel 0 msgqBufferMax = none := by
    cases fuel with
    | zero => rfl
    | succ fuel =>
      have hstr : bufString (fun _ => 0) (msgqBufferMax - 0) 0 = some [] :=
        bufString_read _ [] _ 0 (by simp) (by decide) rfl
      rw [dropOldest, hs, if_pos (by decide), hstr, Option.bind_eq_bind, Option.bind_some, skipNuls_empty]
      rfl
  rw [msgqStrpush, if_neg (by simp only [hm, false_or]; omega), hs]
  simp only [msgqInit, Nat.zero_add, le_refl, if_true, Nat.sub_zero, hz, Int.natCast_zero, Int.zero_add, Int.sub_zero]
  rw [hs] at hdrop
  rw [hdrop]
  rfl

theorem push_hangs : ¬ ∀ q : MsgQueue, PushReach (fun _ => True) q → ∀ m : List Byte, IsMsg m →
    m.length + 1 ≤ msgqBufferMax → PushTotal q m := by
  intro h
  have hlen : (List.replicate (msgqBufferMax - 1) (1 : Byte)).length + 1 = msgqBufferMax := by
    rw [List.length_replicate]
    rfl
  have hne : List.replicate (msgqBufferMax - 1) (1 : Byte) ≠ [] := by
    rw [Ne, List.replicate_eq_nil_iff]
    decide
  obtain ⟨fuel, q', hpush, -⟩ := h msgqInit .init (List.replicate (msgqBufferMax - 1) 1)
    ⟨hne, fun h0 => absurd (List.eq_of_mem_replicate h0) (by decide)⟩ (Nat.le_of_eq hlen)
  rw [msgqStrpush_hangs fuel hne hlen] at hpush
  cases hpush

end Libpulp
