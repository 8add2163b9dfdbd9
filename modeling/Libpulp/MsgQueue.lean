import Libpulp.InsnQueue
/-!
# MsgQueue — the message queue (include/msg_queue.h, lib/msg_queue.c, tools/messages.c)

libpulp keeps its messages in a ring of fixed size, each a NUL-terminated string that never crosses the end of the
buffer: one that would is written at the beginning, and the rest of the buffer is filled with NULs.  `Straight` and
`Wrapped` are the two shapes the messages still in the ring can have; dropping the oldest ones leads from the second to
the first.
-/
namespace Libpulp

open Bytes (Byte Buf)

def msgqBufferMax : Nat := 2 * 1024 * 1024

structure MsgQueue where
  buffer   : Buf
  top      : Nat
  bottom   : Nat
  distance : Int

def msgqInit : MsgQueue := ⟨fun _ => 0, 0, 0, 0⟩

/-- The inner loop of `msgq_strpush` over a run of NULs, for at most `fuel` rounds; `none` if it goes on. -/
def skipNuls (b : Buf) : Nat → Nat → Int → Option (Nat × Int)
  | 0, _, _                   => none
  | fuel + 1, bottom, travel =>
    if b bottom = 0 then skipNuls b fuel ((bottom + 1) % msgqBufferMax) (travel + 1) else some (bottom, travel)

/-- The outer loop of `msgq_strpush`, which drops the oldest message until there is enough space.  A run of NULs longer
than the ring has no end; `none` also when the string at the bottom has none in the buffer. -/
def dropOldest (b : Buf) (msgSize : Nat) : Nat → Nat → Int → Option (Nat × Int)
  | 0, _, _                     => none
  | fuel + 1, bottom, distance =>
    if msgqBufferMax ≤ sizeT (distance + msgSize) then do
      let s ← bufString b (msgqBufferMax - bottom) bottom
      let (bottom, travel) ← skipNuls b (msgqBufferMax + 1) ((bottom + (s.length + 1)) % msgqBufferMax) (s.length + 1)
      dropOldest b msgSize fuel bottom (distance - travel)
    else some (bottom, distance)

/-- `msgq_strpush(msg, strlen(msg) + 1)`; `none` if it does not come back. -/
def msgqStrpush (fuel : Nat) (q : MsgQueue) (msg : List Byte) : Option MsgQueue :=
  let msgSize := msg.length + 1
  if msg = [] ∨ msgqBufferMax < msgSize then some q
  else
    let (buffer, top, distance) :=
      if msgqBufferMax ≤ q.top + msgSize then
        (q.buffer.write q.top (List.replicate (msgqBufferMax - q.top) 0), 0, q.distance + (msgqBufferMax - q.top))
      else (q.buffer, q.top, q.distance)
    (dropOldest buffer msgSize fuel q.bottom distance).map (fun (bottom, distance) =>
      { buffer := buffer.write top (msg ++ [0]), top := (top + msgSize) % msgqBufferMax, bottom
        distance := distance + msgSize })

/-- The characters `msgq_print` puts out. -/
def msgqChars (b : Buf) : Nat → Nat → List Byte
  | _, 0                 => []
  | bottom, distance + 1 => b bottom :: msgqChars b ((bottom + 1) % msgqBufferMax) distance

/-- `msgq_print` on a terminal, where a NUL shows nothing. -/
def msgqPrint (q : MsgQueue) : List Byte := (msgqChars q.buffer q.bottom q.distance.toNat).filter (· ≠ 0)

/-! ## Messages in a buffer -/

/-- A message that can be pushed: not empty, a C string. -/
def IsMsg (m : List Byte) : Prop := m ≠ [] ∧ (0 : Byte) ∉ m

/-- The messages lie one behind the other from `o` on. -/
def Laid (b : Buf) : Nat → List (List Byte) → Prop
  | _, []      => True
  | o, m :: ms => b.read o (m.length + 1) = m ++ [0] ∧ Laid b (o + (m.length + 1)) ms

def msgsSize (ms : List (List Byte)) : Nat := (ms.map (fun m => m.length + 1)).sum

@[simp] theorem msgsSize_nil : msgsSize [] = 0 := rfl

@[simp] theorem msgsSize_cons (m : List Byte) (ms : List (List Byte)) :
    msgsSize (m :: ms) = m.length + 1 + msgsSize ms := by simp [msgsSize]

@[simp] theorem msgsSize_append (ms ns : List (List Byte)) : msgsSize (ms ++ ns) = msgsSize ms + msgsSize ns := by
  simp [msgsSize]

theorem length_le_msgsSize : ∀ ms : List (List Byte), ms.length ≤ msgsSize ms
  | []      => Nat.le_refl _
  | m :: ms => by
    have := length_le_msgsSize ms
    rw [msgsSize_cons, List.length_cons]
    omega

theorem laid_append (b : Buf) : ∀ (ms ns : List (List Byte)) (o : Nat),
    Laid b o (ms ++ ns) ↔ Laid b o ms ∧ Laid b (o + msgsSize ms) ns
  | [], ns, o      => by simp [Laid]
  | m :: ms, ns, o => by
    rw [List.cons_append, Laid, Laid, laid_append b ms ns, msgsSize_cons, and_assoc, Nat.add_assoc o]

theorem laid_write {b : Buf} {e : Nat} {bs : List Byte} : ∀ (ms : List (List Byte)) (o : Nat),
    o + msgsSize ms ≤ e ∨ e + bs.length ≤ o → Laid b o ms → Laid (b.write e bs) o ms
  | [], _, _, _          => trivial
  | m :: ms, o, hd, h => by
    rw [msgsSize_cons] at hd
    refine ⟨?_, laid_write ms _ (by omega) h.2⟩
    rw [← h.1]
    refine Buf.read_congr (fun i hi => ?_)
    rcases hd with hd | hd
    · exact Buf.write_before bs (by omega)
    · exact Buf.write_after (by omega)

theorem laid_single {b : Buf} {o : Nat} {m : List Byte} : Laid (b.write o (m ++ [0])) o [m] := by
  refine ⟨?_, trivial⟩
  have := Buf.read_write_self b o (m ++ [0])
  rwa [List.length_append, List.length_singleton] at this

theorem laid_head {b : Buf} {o : Nat} {m : List Byte} {ms : List (List Byte)} (h : Laid b o (m :: ms)) (hm : IsMsg m) :
    b o ≠ 0 := by
  obtain ⟨x, m', rfl⟩ := List.exists_cons_of_ne_nil hm.1
  have h1 := congrArg List.head? h.1
  simp only [Buf.read, List.length_cons, List.range_succ_eq_map, List.map_cons, List.head?_cons, Nat.add_zero,
    List.cons_append, Option.some.injEq] at h1
  rw [h1]
  exact fun e => hm.2 (e ▸ List.mem_cons_self)

theorem laid_string {b : Buf} {o k : Nat} {m : List Byte} {ms : List (List Byte)} (h : Laid b o (m :: ms)) (hm : IsMsg m)
    (hk : m.length < k) : bufString b k o = some m := bufString_read b m k o hm.2 hk h.1

theorem laid_read {b : Buf} : ∀ {ms : List (List Byte)} {o : Nat}, Laid b o ms →
    b.read o (msgsSize ms) = ms.flatMap (· ++ [0])
  | [], _, _      => rfl
  | m :: ms, o, h => by
    rw [msgsSize_cons, Buf.read_add, h.1, laid_read h.2, List.flatMap_cons]

theorem filter_msgs : ∀ {ms : List (List Byte)}, (∀ m ∈ ms, IsMsg m) →
    (ms.flatMap (· ++ [0])).filter (· ≠ 0) = ms.flatten
  | [], _      => rfl
  | m :: ms, h => by
    have hm : m.filter (· ≠ 0) = m := List.filter_eq_self.2 (fun x hx => by
      have hx0 : x ≠ 0 := fun e => (h m List.mem_cons_self).2 (e ▸ hx)
      simpa using hx0)
    rw [List.flatMap_cons, List.filter_append, List.filter_append, hm,
      filter_msgs (fun n hn => h n (List.mem_cons_of_mem _ hn)), List.flatten_cons]
    simp

/-! ## The loops -/

/-- The bytes from `o` to the end of the ring are NULs. -/
def NulsFrom (b : Buf) (o : Nat) : Prop := ∀ i, o ≤ i → i < msgqBufferMax → b i = 0

theorem skipNuls_stop {b : Buf} {o : Nat} (h : b o ≠ 0) (fuel : Nat) (t : Int) :
    skipNuls b (fuel + 1) o t = some (o, t) := by rw [skipNuls, if_neg h]

/-- A run of NULs up to the end leads to the beginning. -/
theorem skipNuls_nuls {b : Buf} (h0 : b 0 ≠ 0) : ∀ (k o fuel : Nat) (t : Int), o + k = msgqBufferMax → NulsFrom b o →
    k < fuel → skipNuls b fuel (o % msgqBufferMax) t = some (0, t + k)
  | _, _, 0, _, _, _, hf            => by omega
  | 0, o, fuel + 1, t, ho, _, _     => by
    rw [show o = msgqBufferMax by omega, Nat.mod_self, skipNuls_stop h0]
    simp
  | k + 1, o, fuel + 1, t, ho, hn, hf => by
    have hlt : o % msgqBufferMax = o := Nat.mod_eq_of_lt (by omega)
    rw [hlt, skipNuls, if_pos (hn o (Nat.le_refl _) (by omega)),
      skipNuls_nuls h0 k (o + 1) fuel (t + 1) (by omega) (fun i hi => hn i (by omega)) (by omega)]
    push_cast
    congr 2
    omega

/-- The messages lie in a row, up to the top. -/
structure Straight (b : Buf) (bottom top : Nat) (distance : Int) (ms : List (List Byte)) : Prop where
  laid     : Laid b bottom ms
  top      : top = bottom + msgsSize ms
  distance : distance = msgsSize ms

/-- The older messages lie before the end of the ring, followed by NULs, the newer ones at the beginning. -/
structure Wrapped (b : Buf) (bottom top : Nat) (distance : Int) (older newer : List (List Byte)) : Prop where
  laidOlder : Laid b bottom older
  nonempty  : older ≠ []
  fits      : bottom + msgsSize older < msgqBufferMax
  nuls      : NulsFrom b (bottom + msgsSize older)
  laidNewer : Laid b 0 newer
  top       : top = msgsSize newer
  distance  : distance = (msgqBufferMax : Int) - bottom + msgsSize newer

theorem dropOldest_straight {b : Buf} {bottom top : Nat} {distance : Int} {ms : List (List Byte)} {size : Nat}
    (h : Straight b bottom top distance ms) (hfit : top + size < msgqBufferMax) (fuel : Nat) :
    dropOldest b size (fuel + 1) bottom distance = some (bottom, distance) := by
  have hmax : msgqBufferMax = 2097152 := rfl
  have htop := h.top
  rw [dropOldest, if_neg]
  rw [h.distance, sizeT]
  omega

/-- **Dropping the oldest messages** leaves a shorter list of older ones, or none and the newer ones in a row; with the
last one dropped there was not enough space. -/
theorem dropOldest_wrapped {b : Buf} {top size : Nat} {newer : List (List Byte)} (h0 : b 0 ≠ 0)
    (hfit : top + size < msgqBufferMax) : ∀ (older : List (List Byte)) (bottom : Nat) (distance : Int) (fuel : Nat),
      Wrapped b bottom top distance older newer → (∀ m ∈ older, IsMsg m) → older.length < fuel →
      ∃ bottom' distance', dropOldest b size fuel bottom distance = some (bottom', distance') ∧
        (Straight b bottom' top distance' newer ∧ bottom' = 0 ∧ (∃ d ∈ older, (msgqBufferMax : Int) ≤
            distance' + (msgqBufferMax - (bottom + msgsSize older)) + (d.length + 1) + size) ∨
          ∃ older', older' <:+ older ∧ Wrapped b bottom' top distance' older' newer ∧
            distance' + size < (msgqBufferMax : Int) ∧ bottom' + msgsSize older' = bottom + msgsSize older ∧
            (older' = older ∨ ∃ d ∈ older, (msgqBufferMax : Int) ≤ distance' + (d.length + 1) + size))
  | _, _, _, 0, _, _, hf                       => by omega
  | [], bottom, distance, fuel + 1, h, _, _    => absurd rfl h.nonempty
  | m :: older, bottom, distance, fuel + 1, h, hm, hf => by
    have hmax : msgqBufferMax = 2097152 := rfl
    have hfits := h.fits
    rw [msgsSize_cons] at hfits
    have hd := h.distance
    have htop := h.top
    have hmsg := hm m List.mem_cons_self
    have hnuls := h.nuls
    rw [msgsSize_cons, ← Nat.add_assoc] at hnuls
    rw [dropOldest]
    split
    swap
    · rename_i hlt
      refine ⟨bottom, distance, rfl, Or.inr ⟨m :: older, List.suffix_rfl, h, ?_, rfl, Or.inl rfl⟩⟩
      rw [hd, sizeT] at hlt
      omega
    rename_i hge
    rw [hd, sizeT] at hge
    rw [laid_string h.laidOlder hmsg (by omega)]
    simp only [Option.bind_eq_bind, Option.bind_some]
    cases older with
    | nil =>
      -- the last of the older messages: over the NULs to the beginning
      rw [msgsSize_nil, Nat.add_zero] at hnuls hfits
      rw [skipNuls_nuls h0 (msgqBufferMax - (bottom + (m.length + 1))) _ _ _ (by omega) hnuls (by omega), Option.bind_some]
      have hs : Straight b 0 top (distance - ((m.length : Int) + 1 +
          ((msgqBufferMax - (bottom + (m.length + 1)) : Nat) : Int))) newer :=
        ⟨h.laidNewer, by omega, by rw [hd]; omega⟩
      obtain ⟨f, rfl⟩ : ∃ f, fuel = f + 1 := ⟨fuel - 1, by simp at hf; omega⟩
      refine ⟨0, _, dropOldest_straight hs hfit f, Or.inl ⟨hs, rfl, m, List.mem_cons_self, ?_⟩⟩
      rw [msgsSize_cons, msgsSize_nil, hd]
      omega
    | cons n older =>
      have hn := hm n (List.mem_cons_of_mem _ List.mem_cons_self)
      have hlaid : Laid b (bottom + (m.length + 1)) (n :: older) := h.laidOlder.2
      have hpos : bottom + (m.length + 1) < msgqBufferMax := by
        rw [msgsSize_cons] at hfits
        omega
      rw [Nat.mod_eq_of_lt hpos, skipNuls_stop (laid_head hlaid hn), Option.bind_some]
      have hw : Wrapped b (bottom + (m.length + 1)) top (distance - ((m.length : Int) + 1)) (n :: older) newer :=
        ⟨hlaid, by simp, by omega, hnuls, h.laidNewer, htop, by rw [hd]; push_cast; omega⟩
      obtain ⟨bottom', distance', h₁, h₂⟩ := dropOldest_wrapped h0 hfit (n :: older) _ _ fuel hw
        (fun x hx => hm x (List.mem_cons_of_mem _ hx)) (by simpa using hf)
      have hend : bottom + (m.length + 1) + msgsSize (n :: older) = bottom + msgsSize (m :: n :: older) := by
        rw [msgsSize_cons (m := m)]
        omega
      rcases h₂ with ⟨hs, hb, d, hdm, hspace⟩ | ⟨older', h₃, hw', h₄, h₅, h₆⟩
      · refine ⟨bottom', distance', h₁, Or.inl ⟨hs, hb, d, List.mem_cons_of_mem _ hdm, ?_⟩⟩
        omega
      · refine ⟨bottom', distance', h₁,
          Or.inr ⟨older', h₃.trans (List.suffix_cons _ _), hw', h₄, h₅.trans hend, Or.inr ?_⟩⟩
        rcases h₆ with rfl | ⟨d, hdm, hspace⟩
        · refine ⟨m, List.mem_cons_self, ?_⟩
          rw [hw'.distance]
          omega
        · exact ⟨d, List.mem_cons_of_mem _ hdm, hspace⟩

/-! ## Pushing a message -/

/-- The queue holds exactly the messages `live`, the oldest at its bottom. -/
structure Holds (q : MsgQueue) (live : List (List Byte)) : Prop where
  msgs  : ∀ m ∈ live, IsMsg m
  top   : q.top < msgqBufferMax
  empty : live = [] → q.top = 0 ∧ q.bottom = 0
  head  : q.top ≠ 0 → q.buffer 0 ≠ 0
  shape : Straight q.buffer q.bottom q.top q.distance live ∨
    ∃ older newer, live = older ++ newer ∧ newer ≠ [] ∧ Wrapped q.buffer q.bottom q.top q.distance older newer ∧
      q.top < q.bottom

theorem holds_init : Holds msgqInit [] := by
  refine ⟨by simp, by decide, fun _ => ⟨rfl, rfl⟩, fun h => absurd rfl h, Or.inl ⟨trivial, rfl, rfl⟩⟩

theorem Straight.snoc {b : Buf} {bottom top : Nat} {distance : Int} {ms : List (List Byte)}
    (h : Straight b bottom top distance ms) (m : List Byte) :
    Straight (b.write top (m ++ [0])) bottom (top + (m.length + 1)) (distance + (m.length + 1)) (ms ++ [m]) := by
  refine ⟨(laid_append _ _ _ _).2 ⟨laid_write ms _ (Or.inl (Nat.le_of_eq h.top.symm)) h.laid, ?_⟩, ?_, ?_⟩
  · rw [← h.top]
    exact laid_single
  · rw [msgsSize_append, msgsSize_cons, msgsSize_nil, h.top]
    omega
  · rw [msgsSize_append, msgsSize_cons, msgsSize_nil, h.distance]
    push_cast
    omega

theorem Wrapped.snoc {b : Buf} {bottom top : Nat} {distance : Int} {older newer : List (List Byte)}
    (h : Wrapped b bottom top distance older newer) {m : List Byte} (hfit : top + (m.length + 1) < bottom) :
    Wrapped (b.write top (m ++ [0])) bottom (top + (m.length + 1)) (distance + (m.length + 1)) older (newer ++ [m]) := by
  have hlen : (m ++ [(0 : Byte)]).length = m.length + 1 := by simp
  refine ⟨laid_write older _ (Or.inr (by omega)) h.laidOlder, h.nonempty, h.fits, fun i h₁ h₂ => ?_,
    (laid_append _ _ _ _).2 ⟨laid_write newer _ (Or.inl ?_) h.laidNewer, ?_⟩, ?_, ?_⟩
  · rw [Buf.write_after (by omega)]
    exact h.nuls i h₁ h₂
  · rw [h.top, Nat.zero_add]
  · rw [Nat.zero_add, ← h.top]
    exact laid_single
  · rw [msgsSize_append, msgsSize_cons, msgsSize_nil, h.top]
  · rw [msgsSize_append, msgsSize_cons, msgsSize_nil, h.distance]
    push_cast
    omega

/-- The first character of the ring, after a write at the top. -/
theorem write_head {b : Buf} {top : Nat} {m : List Byte} (hm : IsMsg m) (h : top ≠ 0 → b 0 ≠ 0) :
    b.write top (m ++ [0]) 0 ≠ 0 := by
  by_cases ht : top = 0
  · subst ht
    exact laid_head laid_single hm
  · rw [Buf.write_before _ (Nat.pos_of_ne_zero ht)]
    exact h ht

/-- What is left once there is enough space, and what it is after the write. -/
theorem dropOldest_holds {b : Buf} {bottom top fuel : Nat} {distance : Int} {older newer : List (List Byte)}
    {m : List Byte} (hm : IsMsg m) (h0 : b 0 ≠ 0) (hfit : top + (m.length + 1) < msgqBufferMax)
    (h : Wrapped b bottom top distance older newer) (hmsgs : ∀ n ∈ older ++ newer, IsMsg n)
    (hf : older.length < fuel) :
    ∃ bottom' distance' live, dropOldest b (m.length + 1) fuel bottom distance = some (bottom', distance') ∧
      live <:+ older ++ newer ∧
      Holds ⟨b.write top (m ++ [0]), (top + (m.length + 1)) % msgqBufferMax, bottom', distance' + (m.length + 1)⟩
        (live ++ [m]) ∧
      distance' ≤ msgsSize live + (msgqBufferMax - (bottom + msgsSize older)) ∧
      (live = older ++ newer ∨ ∃ d ∈ older, (msgqBufferMax : Int) ≤
        msgsSize live + (msgqBufferMax - (bottom + msgsSize older)) + (d.length + 1) + (m.length + 1)) := by
  obtain ⟨bottom', distance', hdrop, hshape⟩ := dropOldest_wrapped h0 hfit older bottom distance fuel h
    (fun n hn => hmsgs n (List.mem_append_left _ hn)) hf
  have hfits := h.fits
  rcases hshape with ⟨hs, rfl, d, hdm, hspace⟩ | ⟨older', hsuf, hw, hlt, hend, hdropped⟩
  · have hd := hs.distance
    refine ⟨0, distance', newer, hdrop, List.suffix_append _ _, ⟨?_, ?_, by simp, fun _ => write_head hm (fun _ => h0),
      ?_⟩, by omega, Or.inr ⟨d, hdm, by push_cast at hspace; omega⟩⟩
    · intro n hn
      rcases List.mem_append.1 hn with hn | hn
      · exact hmsgs n (List.mem_append_right _ hn)
      · exact List.mem_singleton.1 hn ▸ hm
    · exact Nat.mod_lt _ (by decide)
    · rw [Nat.mod_eq_of_lt hfit]
      exact Or.inl (hs.snoc m)
  · obtain ⟨dropped, rfl⟩ := hsuf
    have hspace : top + (m.length + 1) < bottom' := by
      have h₁ := hw.distance
      have h₂ := hw.top
      push_cast at hlt
      omega
    have hd := hw.distance
    refine ⟨bottom', distance', older' ++ newer, hdrop, ⟨dropped, by simp⟩, ⟨?_, Nat.mod_lt _ (by decide), by simp,
      fun _ => write_head hm (fun _ => h0), ?_⟩, ?_, hdropped.imp (congrArg (· ++ newer)) ?_⟩
    · intro n hn
      rcases List.mem_append.1 hn with hn | hn
      · exact hmsgs n (by simpa [or_assoc] using Or.inr (List.mem_append.1 hn))
      · exact List.mem_singleton.1 hn ▸ hm
    · rw [Nat.mod_eq_of_lt hfit]
      exact Or.inr ⟨older', newer ++ [m], by simp, by simp, hw.snoc hspace, hspace⟩
    · rw [msgsSize_append]
      omega
    · rintro ⟨d, hdm, hd'⟩
      refine ⟨d, hdm, ?_⟩
      rw [msgsSize_append]
      push_cast at hd'
      omega

theorem nulsFrom_fill (b : Buf) (top : Nat) : NulsFrom (b.write top (List.replicate (msgqBufferMax - top) 0)) top := by
  intro i h₁ h₂
  rw [Buf.write, if_pos h₁, List.getElem?_replicate, if_pos (by omega), Option.getD_some]

/-- The space before the end is filled with NULs, and the messages in a row become the older ones. -/
theorem Straight.wrap {b : Buf} {bottom top : Nat} {distance : Int} {ms : List (List Byte)}
    (h : Straight b bottom top distance ms) (hms : ms ≠ []) (htop : top < msgqBufferMax) :
    Wrapped (b.write top (List.replicate (msgqBufferMax - top) 0)) bottom 0 (distance + (msgqBufferMax - top)) ms [] := by
  refine ⟨laid_write ms _ (Or.inl (Nat.le_of_eq h.top.symm)) h.laid, hms, ?_, ?_, trivial, rfl, ?_⟩
  · exact h.top ▸ htop
  · rw [← h.top]
    exact nulsFrom_fill b top
  · rw [h.distance, h.top, msgsSize_nil]
    push_cast
    omega

/-- The older messages are cleared in place: the first round goes over them to the newer ones. -/
theorem dropOldest_cleared {b : Buf} {bottom top size : Nat} {older newer : List (List Byte)} {distance : Int}
    (h : Wrapped b bottom top distance older newer) (h0 : b 0 ≠ 0) (hlt : top < bottom) (hnew : newer ≠ [])
    (hsize : size < msgqBufferMax) (fuel : Nat) :
    Wrapped (b.write top (List.replicate (msgqBufferMax - top) 0)) 0 0 msgqBufferMax newer [] ∧
      dropOldest (b.write top (List.replicate (msgqBufferMax - top) 0)) size (fuel + 1) bottom
          (distance + (msgqBufferMax - top)) =
        dropOldest (b.write top (List.replicate (msgqBufferMax - top) 0)) size fuel 0 msgqBufferMax := by
  have hmax : msgqBufferMax = 2097152 := rfl
  have hfits := h.fits
  have htop := h.top
  have hd := h.distance
  have htop0 : top ≠ 0 := by
    obtain ⟨n, ns, rfl⟩ := List.exists_cons_of_ne_nil hnew
    rw [h.top, msgsSize_cons]
    omega
  have hnuls := nulsFrom_fill b top
  have hw : Straight b 0 top (msgsSize newer) newer := ⟨h.laidNewer, by omega, rfl⟩
  have hwrap := hw.wrap hnew (by omega)
  have h0' : b.write top (List.replicate (msgqBufferMax - top) 0) 0 ≠ 0 := by
    rwa [Buf.write_before _ (Nat.pos_of_ne_zero htop0)]
  rw [show (msgsSize newer : Int) + (msgqBufferMax - top) = msgqBufferMax by omega] at hwrap
  refine ⟨hwrap, ?_⟩
  generalize b.write top (List.replicate (msgqBufferMax - top) 0) = b' at hnuls h0' ⊢
  obtain ⟨k, hk⟩ : ∃ k, msgqBufferMax - bottom = k + 1 := ⟨msgqBufferMax - bottom - 1, by omega⟩
  -- the string at the bottom is empty now
  have hstr : bufString b' (msgqBufferMax - bottom) bottom = some [] := by
    rw [hk, bufString, if_pos (hnuls bottom (Nat.le_of_lt hlt) (by omega))]
  have hskip := skipNuls_nuls h0' k (bottom + 1) (msgqBufferMax + 1) ((0 : Nat) + 1) (by omega)
    (fun i hi => hnuls i (by omega)) (by omega)
  rw [dropOldest, if_pos (by rw [hd, sizeT]; omega), hstr]
  simp only [Option.bind_eq_bind, Option.bind_some, List.length_nil, Nat.zero_add]
  rw [hskip, Option.bind_some]
  congr 1
  rw [hd]
  omega

theorem msgqStrpush_eq {fuel : Nat} {q : MsgQueue} {m : List Byte} {b : Buf} {top bottom' : Nat}
    {distance distance' : Int} (hm : IsMsg m) (hsize : m.length + 1 < msgqBufferMax)
    (hb : (b, top, distance) = if msgqBufferMax ≤ q.top + (m.length + 1) then
        (q.buffer.write q.top (List.replicate (msgqBufferMax - q.top) 0), 0,
          q.distance + ((msgqBufferMax : Int) - q.top))
      else (q.buffer, q.top, q.distance))
    (h : dropOldest b (m.length + 1) fuel q.bottom distance = some (bottom', distance')) :
    msgqStrpush fuel q m = some ⟨b.write top (m ++ [0]), (top + (m.length + 1)) % msgqBufferMax, bottom',
      distance' + (m.length + 1)⟩ := by
  rw [msgqStrpush, if_neg (by simp only [hm.1, false_or]; omega), ← hb]
  simp only [h, Option.map_some]
  push_cast
  rfl

/-- **A push** drops messages from the front and adds its own at the end.  With messages no longer than `M`, at most `M`
NULs are in the way, and it drops none unless the ring is full up to two messages of that length. -/
theorem msgqStrpush_keeps {fuel M : Nat} {q : MsgQueue} {live : List (List Byte)} {m : List Byte} (h : Holds q live)
    (hm : IsMsg m) (hsize : m.length + 1 ≤ msgqBufferMax - 1) (hfuel : msgqBufferMax + 1 ≤ fuel)
    (hwaste : q.distance ≤ msgsSize live + M) (hM : m.length + 1 ≤ M) (hlive : ∀ n ∈ live, n.length + 1 ≤ M) :
    ∃ q' live', msgqStrpush fuel q m = some q' ∧ live' <:+ live ∧ Holds q' (live' ++ [m]) ∧
      q'.distance ≤ msgsSize (live' ++ [m]) + M ∧
      (live' = live ∨ msgqBufferMax ≤ msgsSize (live' ++ [m]) + 2 * M) := by
  have hmax : msgqBufferMax = 2097152 := rfl
  have htop := h.top
  have hlt : m.length + 1 < msgqBufferMax := by omega
  obtain ⟨f, rfl⟩ : ∃ f, fuel = f + 1 := ⟨fuel - 1, by omega⟩
  have hsum : ∀ l : List (List Byte), msgsSize (l ++ [m]) = msgsSize l + (m.length + 1) := by simp
  by_cases hfit : msgqBufferMax ≤ q.top + (m.length + 1)
  · have hne : q.top ≠ 0 := by omega
    have h0 := h.head hne
    have h0' : q.buffer.write q.top (List.replicate (msgqBufferMax - q.top) 0) 0 ≠ 0 := by
      rwa [Buf.write_before _ (Nat.pos_of_ne_zero hne)]
    rcases h.shape with hs | ⟨older, newer, rfl, hnew, hw, hpos⟩
    · have hne' : live ≠ [] := fun e => hne (h.empty e).1
      have hw := hs.wrap hne' htop
      have htop' := hs.top
      have hlen : live.length < f + 1 := by
        have h₁ := length_le_msgsSize live
        omega
      obtain ⟨bottom', distance', live', hdrop, hsuf, hq, hd, hkept⟩ := dropOldest_holds hm h0' (by omega) hw
        (by rw [List.append_nil]; exact h.msgs) hlen
      rw [List.append_nil] at hsuf hkept
      refine ⟨_, live', msgqStrpush_eq hm hlt (by rw [if_pos hfit]) hdrop, hsuf, hq, ?_, hkept.imp_right ?_⟩
      · rw [hsum]
        push_cast
        omega
      · rintro ⟨d, hdm, hd'⟩
        have := hlive d hdm
        rw [hsum]
        omega
    · obtain ⟨hw', hround⟩ := dropOldest_cleared hw h0 hpos hnew hlt f
      have htop' := hw.top
      have hlen : newer.length < f := by
        have h₁ := length_le_msgsSize newer
        omega
      obtain ⟨bottom', distance', live', hdrop, hsuf, hq, hd, hkept⟩ := dropOldest_holds hm h0' (by omega) hw'
        (fun n hn => h.msgs n (by simpa using Or.inr hn)) hlen
      rw [List.append_nil] at hsuf hkept
      refine ⟨_, live', msgqStrpush_eq hm hlt (by rw [if_pos hfit]) (hround.trans hdrop),
        hsuf.trans (List.suffix_append _ _), hq, ?_, Or.inr ?_⟩
      · rw [hsum]
        push_cast at hd ⊢
        omega
      · rw [hsum]
        rcases hkept with rfl | ⟨d, hdm, hd'⟩
        · omega
        · have := hlive d (List.mem_append_right _ hdm)
          push_cast at hd'
          omega
  · rcases h.shape with hs | ⟨older, newer, rfl, hnew, hw, hpos⟩
    · have hdrop : dropOldest q.buffer (m.length + 1) (f + 1) q.bottom q.distance = some (q.bottom, q.distance) :=
        dropOldest_straight hs (by omega) f
      refine ⟨_, live, msgqStrpush_eq hm hlt (by rw [if_neg hfit]) hdrop, List.suffix_rfl, ⟨?_, Nat.mod_lt _ (by decide),
        by simp, fun _ => write_head hm h.head, ?_⟩, ?_, Or.inl rfl⟩
      · intro n hn
        rcases List.mem_append.1 hn with hn | hn
        · exact h.msgs n hn
        · exact List.mem_singleton.1 hn ▸ hm
      · rw [Nat.mod_eq_of_lt (by omega)]
        exact Or.inl (hs.snoc m)
      · rw [hsum]
        push_cast
        omega
    · have hne : q.top ≠ 0 := by
        obtain ⟨n, ns, rfl⟩ := List.exists_cons_of_ne_nil hnew
        rw [hw.top, msgsSize_cons]
        omega
      have hfits := hw.fits
      have hlen : older.length < f + 1 := by
        have h₁ := length_le_msgsSize older
        omega
      -- the NULs that are in the way are those of the last time the messages came to the end
      have hnuls : (msgqBufferMax : Int) - (q.bottom + msgsSize older) ≤ M := by
        rw [hw.distance, msgsSize_append] at hwaste
        push_cast at hwaste
        omega
      obtain ⟨bottom', distance', live', hdrop, hsuf, hq, hd, hkept⟩ :=
        dropOldest_holds hm (h.head hne) (by omega) hw h.msgs hlen
      refine ⟨_, live', msgqStrpush_eq hm hlt (by rw [if_neg hfit]) hdrop, hsuf, hq, ?_, hkept.imp_right ?_⟩
      · rw [hsum]
        push_cast
        omega
      · rintro ⟨d, hdm, hd'⟩
        have := hlive d (List.mem_append_left _ hdm)
        rw [hsum]
        omega

theorem length_lt_msgsSize : ∀ {ms : List (List Byte)} {m : List Byte}, m ∈ ms → m.length + 1 ≤ msgsSize ms
  | [], _, h      => (by cases h)
  | n :: ms, m, h => by
    rw [msgsSize_cons]
    rcases List.mem_cons.1 h with rfl | h
    · omega
    · have := length_lt_msgsSize h
      omega

theorem msgqStrpush_holds {fuel : Nat} {q : MsgQueue} {live : List (List Byte)} {m : List Byte} (h : Holds q live)
    (hm : IsMsg m) (hsize : m.length + 1 ≤ msgqBufferMax - 1) (hfuel : msgqBufferMax + 1 ≤ fuel) :
    ∃ q' live', msgqStrpush fuel q m = some q' ∧ live' <:+ live ∧ Holds q' (live' ++ [m]) := by
  obtain ⟨q', live', hpush, hsuf, hq, -⟩ := msgqStrpush_keeps
    (M := q.distance.toNat + (m.length + 1) + msgsSize live) h hm hsize hfuel (by omega) (by omega) (fun n hn => by
      have := length_lt_msgsSize hn
      omega)
  exact ⟨q', live', hpush, hsuf, hq⟩

/-! ## Printing -/

theorem msgqChars_straight (b : Buf) : ∀ (k o d : Nat), o + k ≤ msgqBufferMax → o < msgqBufferMax →
    msgqChars b o (k + d) = b.read o k ++ msgqChars b ((o + k) % msgqBufferMax) d
  | 0, o, d, _, h     => by
    rw [Nat.zero_add, Nat.add_zero, Nat.mod_eq_of_lt h]
    rfl
  | k + 1, o, d, h, _ => by
    have hread : b.read o (k + 1) = b o :: b.read (o + 1) k := by
      rw [Nat.add_comm, Buf.read_add]
      rfl
    rw [show k + 1 + d = k + d + 1 by omega, msgqChars, hread, List.cons_append]
    by_cases hk : k = 0
    · subst hk
      rw [Nat.zero_add]
      rfl
    · rw [Nat.mod_eq_of_lt (by omega : o + 1 < msgqBufferMax), msgqChars_straight b k (o + 1) d (by omega) (by omega),
        show o + 1 + k = o + (k + 1) by omega]

theorem read_nuls {b : Buf} {o : Nat} (h : NulsFrom b o) : (b.read o (msgqBufferMax - o)).filter (· ≠ 0) = [] := by
  refine List.filter_eq_nil_iff.2 (fun x hx => ?_)
  simp only [Buf.read, List.mem_map, List.mem_range] at hx
  obtain ⟨i, hi, rfl⟩ := hx
  simp [h (o + i) (by omega) (by omega)]

theorem filter_read {b : Buf} {o : Nat} {ms : List (List Byte)} (h : Laid b o ms) (hm : ∀ m ∈ ms, IsMsg m) :
    (b.read o (msgsSize ms)).filter (· ≠ 0) = ms.flatten := by rw [laid_read h, filter_msgs hm]

theorem msgqPrint_holds {q : MsgQueue} {live : List (List Byte)} (h : Holds q live) : msgqPrint q = live.flatten := by
  have htop := h.top
  unfold msgqPrint
  rcases h.shape with hs | ⟨older, newer, rfl, hnew, hw, hpos⟩
  · have hb := hs.top
    rw [hs.distance, Int.toNat_natCast, ← Nat.add_zero (msgsSize live),
      msgqChars_straight _ _ _ _ (by omega) (by omega), msgqChars, List.append_nil, filter_read hs.laid h.msgs]
  · have hfits := hw.fits
    have ht := hw.top
    have hdist : q.distance.toNat =
        msgsSize older + ((msgqBufferMax - (q.bottom + msgsSize older)) + (msgsSize newer + 0)) := by
      rw [hw.distance]
      omega
    rw [hdist, msgqChars_straight _ _ _ _ (by omega) (by omega), Nat.mod_eq_of_lt hfits,
      msgqChars_straight _ _ _ _ (by omega) hfits, show q.bottom + msgsSize older +
        (msgqBufferMax - (q.bottom + msgsSize older)) = msgqBufferMax by omega, Nat.mod_self,
      msgqChars_straight _ _ _ _ (by omega) (by decide), msgqChars, List.append_nil, List.filter_append,
      List.filter_append, read_nuls hw.nuls, filter_read hw.laidOlder (fun m hm => h.msgs m (by simp [hm])),
      filter_read hw.laidNewer (fun m hm => h.msgs m (by simp [hm])), List.nil_append, List.flatten_append]

/-! ## Any sequence of messages -/

/-- The messages that can be in the queue. -/
def Pushable (m : List Byte) : Prop := IsMsg m ∧ m.length + 1 ≤ msgqBufferMax - 1

/-- **What a run of pushes keeps**: the last messages, and it loses none before the ring is full up to two of them. -/
theorem msgqStrpush_run_keeps {fuel M : Nat} (hfuel : msgqBufferMax + 1 ≤ fuel) : ∀ (msgs : List (List Byte))
    {q : MsgQueue} {live : List (List Byte)}, Holds q live → q.distance ≤ msgsSize live + M →
    (∀ m ∈ live ++ msgs, m.length + 1 ≤ M) → (∀ m ∈ msgs, Pushable m) →
    ∃ q' live', msgs.foldlM (msgqStrpush fuel) q = some q' ∧ Holds q' live' ∧ live' <:+ live ++ msgs ∧
      (live ++ msgs ≠ [] → live' ≠ []) ∧ (live' = live ++ msgs ∨ msgqBufferMax ≤ msgsSize live' + 2 * M)
  | [], q, live, h, _, _, _               => ⟨q, live, rfl, h, by simp, by simp, by simp⟩
  | m :: msgs, q, live, h, hwaste, hM, hm => by
    obtain ⟨hmsg, hsize⟩ := hm m List.mem_cons_self
    obtain ⟨q₁, live₁, hpush, ⟨dropped, rfl⟩, h₁, hwaste₁, hkept⟩ := msgqStrpush_keeps h hmsg hsize hfuel hwaste
      (hM m (List.mem_append_right _ List.mem_cons_self)) (fun n hn => hM n (List.mem_append_left _ hn))
    obtain ⟨q', live', hrun, h', hsuf, hne, hkept'⟩ := msgqStrpush_run_keeps hfuel msgs h₁ hwaste₁
      (fun n hn => hM n (by
        rw [List.append_assoc, List.mem_append] at hn
        exact List.mem_append.2 (hn.imp_left (List.mem_append_right _))))
      (fun n hn => hm n (List.mem_cons_of_mem _ hn))
    refine ⟨q', live', ?_, h', hsuf.trans ⟨dropped, by simp⟩, fun _ => hne (by simp), ?_⟩
    · rw [List.foldlM_cons, hpush]
      exact hrun
    rcases hkept' with rfl | hfull'
    · rcases hkept with hall | hfull
      · exact Or.inl (by rw [← hall, List.append_assoc, List.singleton_append])
      · refine Or.inr ?_
        rw [msgsSize_append]
        omega
    · exact Or.inr hfull'

theorem msgqStrpush_run {fuel : Nat} (hfuel : msgqBufferMax + 1 ≤ fuel) (msgs : List (List Byte)) {q : MsgQueue}
    {live : List (List Byte)} (h : Holds q live) (hm : ∀ m ∈ msgs, Pushable m) :
    ∃ q' live', msgs.foldlM (msgqStrpush fuel) q = some q' ∧ Holds q' live' ∧ live' <:+ live ++ msgs ∧
      (live ++ msgs ≠ [] → live' ≠ []) := by
  obtain ⟨q', live', hrun, hq, hsuf, hne, -⟩ := msgqStrpush_run_keeps
    (M := q.distance.toNat + msgsSize (live ++ msgs)) hfuel msgs h (by omega) (fun m hm => by
      have := length_lt_msgsSize hm
      omega) hm
  exact ⟨q', live', hrun, hq, hsuf, hne⟩

/-- **The queue keeps the last messages.**  Whatever messages are pushed into the empty queue, every push comes back, and
what is printed then are the last ones, one or more, whole and in order. -/
theorem msgq_keeps_last (msgs : List (List Byte)) (fuel : Nat) (hmsgs : ∀ m ∈ msgs, Pushable m)
    (hfuel : msgqBufferMax + 1 ≤ fuel) :
    ∃ q, msgs.foldlM (msgqStrpush fuel) msgqInit = some q ∧
      (msgs ≠ [] → ∃ k, 1 ≤ k ∧ k ≤ msgs.length ∧ msgqPrint q = (msgs.drop (msgs.length - k)).flatten) := by
  obtain ⟨q, live, hrun, hq, hsuf, hne⟩ := msgqStrpush_run hfuel msgs holds_init hmsgs
  rw [List.nil_append] at hsuf hne
  refine ⟨q, hrun, fun hm => ⟨live.length, List.length_pos_iff.2 (hne hm), hsuf.length_le, ?_⟩⟩
  rw [← List.suffix_iff_eq_drop.1 hsuf]
  exact msgqPrint_holds hq

theorem msgq_keeps_last_two : ∃ q,
    [[104, 105], [106]].foldlM (msgqStrpush (msgqBufferMax + 1)) msgqInit = some q ∧
      ([[104, 105], [106]] ≠ ([] : List (List Byte)) →
        ∃ k, 1 ≤ k ∧ k ≤ 2 ∧ msgqPrint q = ([[104, 105], [106]].drop (2 - k)).flatten) :=
  msgq_keeps_last [[104, 105], [106]] (msgqBufferMax + 1)
    (by simp [Pushable, IsMsg, msgqBufferMax]) (Nat.le_refl _)

end Libpulp
