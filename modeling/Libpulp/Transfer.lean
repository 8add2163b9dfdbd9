import Libpulp.Bytes
/-!
# Transfer — the tool's remote reads and writes (tools/ptrace.c)

`read_memory`, `read_long` and `write_bytes` are one loop around `process_vm_readv` and `process_vm_writev`: it adds up the
byte counts of the calls until they are `n`.  The two vectors are set up once and never advanced, so each call starts over
at the first byte.  What the kernel answers is a parameter, call by call: a count or `errno`.
-/
namespace Libpulp
namespace Transfer

open Bytes (Byte Addr Mem Buf)

inductive Direction where
  | read
  | write
deriving DecidableEq

/-- The local memory from the buffer on, the memory of the other process, and the positions moved so far: position `i`
is the byte `i` of the buffer on this side and the one at `addr + i` on the other. -/
structure Xfer where
  buf   : Buf
  mem   : Mem
  moved : List Nat

/-- One call that moves `k` bytes. -/
def Xfer.call (addr : Addr) (k : Nat) (x : Xfer) : Direction → Xfer
  | .read  => { x with buf := x.buf.write 0 (x.mem.read addr k), moved := x.moved ++ List.range k }
  | .write => { x with mem := x.mem.write addr (x.buf.read 0 k), moved := x.moved ++ List.range k }

/-- The loop from its call number `i` on, with `acc` bytes counted; `none` when the fuel runs out. -/
def transferLoop (d : Direction) (n : Nat) (addr : Addr) (outcomes : Nat → Except Int Nat) :
    Nat → Nat → Nat → Xfer → Option (Int × Xfer)
  | 0, _, _, _          => none
  | fuel + 1, i, acc, x =>
    match outcomes i with
    | .error errno => some (errno, x)
    | .ok ret      =>
      if (acc + ret) % 2 ^ 64 = n then some (0, x.call addr ret d)
      else transferLoop d n addr outcomes fuel (i + 1) ((acc + ret) % 2 ^ 64) (x.call addr ret d)

def sizeofLong : Nat := 8

def readMemory (len : Nat) (addr : Addr) (outcomes : Nat → Except Int Nat) (fuel : Nat) (x : Xfer) :
    Option (Int × Xfer) :=
  transferLoop .read len addr outcomes fuel 0 0 x

def readLong (addr : Addr) (outcomes : Nat → Except Int Nat) (fuel : Nat) (x : Xfer) : Option (Int × Xfer) :=
  transferLoop .read sizeofLong addr outcomes fuel 0 0 x

def writeBytes (n : Nat) (addr : Addr) (outcomes : Nat → Except Int Nat) (fuel : Nat) (x : Xfer) :
    Option (Int × Xfer) :=
  transferLoop .write n addr outcomes fuel 0 0 x

/-! ## The calls -/

def count : Except Int Nat → Nat
  | .error _ => 0
  | .ok k    => k

/-- The bytes counted by the first `m` calls. -/
def total (outcomes : Nat → Except Int Nat) : Nat → Nat
  | 0     => 0
  | m + 1 => total outcomes m + count (outcomes m)

/-- What the first `m` calls do. -/
def after (d : Direction) (addr : Addr) (outcomes : Nat → Except Int Nat) (x : Xfer) : Nat → Xfer
  | 0     => x
  | m + 1 => (after d addr outcomes x m).call addr (count (outcomes m)) d

/-- The call succeeds and the counts so far do not make `n`, so that the loop goes on. -/
def GoesOn (n : Nat) (outcomes : Nat → Except Int Nat) (i : Nat) : Prop :=
  (∃ k, outcomes i = .ok k) ∧ total outcomes (i + 1) % 2 ^ 64 ≠ n

variable {d : Direction} {n : Nat} {addr : Addr} {outcomes : Nat → Except Int Nat} {x : Xfer}

theorem transferLoop_goesOn (fuel : Nat) : ∀ m : Nat, (∀ j < m, GoesOn n outcomes j) →
    transferLoop d n addr outcomes (fuel + m) 0 0 x =
      transferLoop d n addr outcomes fuel m (total outcomes m % 2 ^ 64) (after d addr outcomes x m)
  | 0, _     => rfl
  | m + 1, h => by
    obtain ⟨⟨k, hk⟩, hne⟩ := h m (Nat.lt_succ_self m)
    have htotal : total outcomes (m + 1) = total outcomes m + k := by rw [total, hk, count]
    have hacc : (total outcomes m % 2 ^ 64 + k) % 2 ^ 64 = total outcomes (m + 1) % 2 ^ 64 := by omega
    rw [show fuel + (m + 1) = fuel + 1 + m by omega,
      transferLoop_goesOn (fuel + 1) m (fun j hj => h j (Nat.lt_succ_of_lt hj)), transferLoop, hk]
    simp only [hacc]
    rw [if_neg hne, after, hk, count]

theorem transferLoop_error {i fuel : Nat} {errno : Int} (h : ∀ j < i, GoesOn n outcomes j)
    (he : outcomes i = .error errno) :
    transferLoop d n addr outcomes (fuel + 1 + i) 0 0 x = some (errno, after d addr outcomes x i) := by
  rw [transferLoop_goesOn (fuel + 1) i h, transferLoop, he]

theorem transferLoop_done {i k fuel : Nat} (h : ∀ j < i, GoesOn n outcomes j) (hk : outcomes i = .ok k)
    (ht : total outcomes (i + 1) % 2 ^ 64 = n) :
    transferLoop d n addr outcomes (fuel + 1 + i) 0 0 x = some (0, after d addr outcomes x (i + 1)) := by
  have htotal : total outcomes (i + 1) = total outcomes i + k := by rw [total, hk, count]
  have hacc : (total outcomes i % 2 ^ 64 + k) % 2 ^ 64 = n := by omega
  rw [transferLoop_goesOn (fuel + 1) i h, transferLoop, hk]
  simp only
  rw [if_pos hacc, after, hk, count]

/-- **A loop that returns has a call at which it does not go on.** -/
theorem transferLoop_returns {fuel : Nat} {r : Int × Xfer} (h : transferLoop d n addr outcomes fuel 0 0 x = some r) :
    ∃ i, (∀ j < i, GoesOn n outcomes j) ∧
      ((∃ errno, outcomes i = .error errno ∧ r = (errno, after d addr outcomes x i)) ∨
        (∃ k, outcomes i = .ok k) ∧ total outcomes (i + 1) % 2 ^ 64 = n ∧ r = (0, after d addr outcomes x (i + 1))) := by
  classical
  by_cases hall : ∀ j < fuel, GoesOn n outcomes j
  · have hrun := @transferLoop_goesOn d n addr outcomes x 0 fuel hall
    rw [Nat.zero_add, h, transferLoop] at hrun
    cases hrun
  · -- the first call at which the loop does not go on
    obtain ⟨j, hj, hstop⟩ : ∃ j < fuel, ¬ GoesOn n outcomes j := by simpa using hall
    have hex : ∃ j, ¬ GoesOn n outcomes j := ⟨j, hstop⟩
    have hbefore : ∀ j < Nat.find hex, GoesOn n outcomes j := fun j hj => not_not.1 (Nat.find_min hex hj)
    have hlt : Nat.find hex < fuel := Nat.lt_of_le_of_lt (Nat.find_min' hex hstop) hj
    have hnot := Nat.find_spec hex
    generalize Nat.find hex = i at hbefore hlt hnot
    obtain ⟨f, rfl⟩ : ∃ f, fuel = f + 1 + i := ⟨fuel - 1 - i, by omega⟩
    refine ⟨i, hbefore, ?_⟩
    cases hout : outcomes i with
    | error errno =>
      rw [transferLoop_error hbefore hout] at h
      exact Or.inl ⟨errno, rfl, (Option.some.inj h).symm⟩
    | ok k =>
      have ht : total outcomes (i + 1) % 2 ^ 64 = n := by
        by_contra hne
        exact hnot ⟨⟨k, hout⟩, hne⟩
      rw [transferLoop_done hbefore hout ht] at h
      exact Or.inr ⟨⟨k, rfl⟩, ht, (Option.some.inj h).symm⟩

theorem transferLoop_mono : ∀ {fuel fuel' i acc : Nat} {x : Xfer} {r : Int × Xfer}, fuel ≤ fuel' →
    transferLoop d n addr outcomes fuel i acc x = some r → transferLoop d n addr outcomes fuel' i acc x = some r
  | 0, _, _, _, _, _, _, h                   => by cases h
  | fuel + 1, fuel', i, acc, x, r, hle, h => by
    obtain ⟨f, rfl⟩ : ∃ f, fuel' = f + 1 := ⟨fuel' - 1, by omega⟩
    rw [transferLoop] at h ⊢
    cases hout : outcomes i with
    | error errno =>
      rw [hout] at h
      exact h
    | ok ret =>
      rw [hout] at h
      simp only at h ⊢
      by_cases hn : (acc + ret) % 2 ^ 64 = n
      · rw [if_pos hn] at h ⊢
        exact h
      · rw [if_neg hn] at h ⊢
        exact transferLoop_mono (by omega) h

/-! ## The bytes -/

/-- What the kernel may answer to a request for `n` bytes. -/
def Admissible (n : Nat) (outcomes : Nat → Except Int Nat) : Prop :=
  ∀ i, match outcomes i with
    | .error errno => errno ≠ 0
    | .ok k        => 1 ≤ k ∧ k ≤ n

/-- Every position moved so far is one of the buffer's and holds the same byte on both sides. -/
def Xfer.Placed (n : Nat) (addr : Addr) (x : Xfer) : Prop :=
  ∀ i ∈ x.moved, i < n ∧ x.buf i = x.mem (addr + BitVec.ofNat 64 i)

theorem call_moved (k : Nat) (x : Xfer) (d : Direction) : (x.call addr k d).moved = x.moved ++ List.range k := by
  cases d <;> rfl

theorem call_placed (hn : n < 2 ^ 64) {k : Nat} (hk : k ≤ n) (hx : x.Placed n addr) (d : Direction) :
    (x.call addr k d).Placed n addr := by
  intro i hi
  have hin : i < n ∧ (i < k ∨ x.buf i = x.mem (addr + BitVec.ofNat 64 i)) := by
    rw [call_moved, List.mem_append, List.mem_range] at hi
    rcases hi with hold | hnew
    · exact ⟨(hx i hold).1, Or.inr (hx i hold).2⟩
    · exact ⟨by omega, Or.inl hnew⟩
  refine ⟨hin.1, ?_⟩
  by_cases hik : i < k
  · cases d with
    | read =>
      have hlen : i < (x.mem.read addr k).length := by simpa using hik
      simp only [Xfer.call, Buf.write, Nat.zero_le, if_true, Nat.sub_zero, List.getElem?_eq_getElem hlen,
        Option.getD_some, Bytes.Mem.getElem_read]
    | write =>
      have hlen : i < (x.buf.read 0 k).length := by simpa using hik
      simp only [Xfer.call]
      rw [Bytes.Mem.write_inside hlen (by omega)]
      simp [Bytes.Buf.read]
  · have hsame := hin.2.resolve_left hik
    cases d with
    | read =>
      simp only [Xfer.call]
      rw [Bytes.Buf.write_after (by simpa using hik), hsame]
    | write =>
      simp only [Xfer.call]
      rw [Bytes.Mem.write_outside (by rw [Bytes.Mem.sub_ofNat_toNat _ (by omega)]; simpa using hik), hsame]

theorem count_le (h : Admissible n outcomes) (i : Nat) : count (outcomes i) ≤ n := by
  have hi := h i
  cases hout : outcomes i with
  | error errno => exact Nat.zero_le n
  | ok k =>
    rw [hout] at hi
    exact hi.2

theorem after_placed (hn : n < 2 ^ 64) (h : Admissible n outcomes) (hx : x.Placed n addr) :
    ∀ m : Nat, (after d addr outcomes x m).Placed n addr
  | 0     => hx
  | m + 1 => call_placed hn (count_le h m) (after_placed hn h hx m) d

/-- A position is moved by a call that moves at least so many bytes. -/
theorem mem_after_moved {i : Nat} : ∀ m : Nat,
    i ∈ (after d addr outcomes x m).moved ↔ i ∈ x.moved ∨ ∃ j < m, i < count (outcomes j)
  | 0     => by simp [after]
  | m + 1 => by
    rw [after, call_moved, List.mem_append, mem_after_moved m, List.mem_range]
    constructor
    · rintro ((hx | ⟨j, hj, hi⟩) | hi)
      · exact Or.inl hx
      · exact Or.inr ⟨j, Nat.lt_succ_of_lt hj, hi⟩
      · exact Or.inr ⟨m, Nat.lt_succ_self m, hi⟩
    · rintro (hx | ⟨j, hj, hi⟩)
      · exact Or.inl (Or.inl hx)
      · rcases Nat.lt_succ_iff_lt_or_eq.1 hj with hlt | rfl
        · exact Or.inl (Or.inr ⟨j, hlt, hi⟩)
        · exact Or.inr hi

theorem after_source : ∀ m : Nat,
    (d = .read → (after d addr outcomes x m).mem = x.mem) ∧ (d = .write → (after d addr outcomes x m).buf = x.buf)
  | 0     => ⟨fun _ => rfl, fun _ => rfl⟩
  | m + 1 => by
    obtain ⟨hr, hw⟩ := @after_source m
    constructor
    · rintro rfl
      exact hr rfl
    · rintro rfl
      exact hw rfl

/-! ## The three functions -/

inductive Call where
  | readMemory (len : Nat)
  | readLong
  | writeBytes (n : Nat)

namespace Call

def length : Call → Nat
  | readMemory len => len
  | readLong       => sizeofLong
  | writeBytes n   => n

def direction : Call → Direction
  | readMemory _ => .read
  | readLong     => .read
  | writeBytes _ => .write

def run (addr : Addr) (outcomes : Nat → Except Int Nat) (fuel : Nat) (x : Xfer) : Call → Option (Int × Xfer)
  | readMemory len => Transfer.readMemory len addr outcomes fuel x
  | readLong       => Transfer.readLong addr outcomes fuel x
  | writeBytes n   => Transfer.writeBytes n addr outcomes fuel x

theorem run_eq (c : Call) (fuel : Nat) :
    c.run addr outcomes fuel x = transferLoop c.direction c.length addr outcomes fuel 0 0 x := by
  cases c <;> rfl

/-- **The call returns, stays within the buffer, and returns 0 only if it has moved every byte of the source to its own
position.** -/
def Sound (addr : Addr) (outcomes : Nat → Except Int Nat) (c : Call) : Prop :=
  ∀ (buf : Buf) (mem : Mem), ∃ fuel ret x', c.run addr outcomes fuel ⟨buf, mem, []⟩ = some (ret, x') ∧
    (∀ i ∈ x'.moved, i < c.length) ∧
    (ret = 0 → ∀ i < c.length, i ∈ x'.moved ∧
      (c.direction = .read → x'.buf i = mem (addr + BitVec.ofNat 64 i)) ∧
      (c.direction = .write → x'.mem (addr + BitVec.ofNat 64 i) = buf i))

end Call

/-- A call fails before the counts make `n`, modulo the size of the counter; or they make `n` at some call, and one of the
calls up to it has moved all `n` bytes. -/
def EndsWhole (n : Nat) (outcomes : Nat → Except Int Nat) : Prop :=
  ∃ i, (∀ j < i, GoesOn n outcomes j) ∧
    ((∃ errno, outcomes i = .error errno) ∨
      (∃ k, outcomes i = .ok k) ∧ total outcomes (i + 1) % 2 ^ 64 = n ∧ ∃ j ≤ i, outcomes j = .ok n)

theorem count_eq_iff (hn : 0 < n) (o : Except Int Nat) : count o = n ↔ o = .ok n := by
  cases o with
  | error errno =>
    refine ⟨fun h => ?_, fun h => by cases h⟩
    rw [count] at h
    omega
  | ok k => simp [count]

theorem sound_endsWhole {c : Call} (hpos : 1 ≤ c.length) (h : Admissible c.length outcomes)
    (hs : c.Sound addr outcomes) : EndsWhole c.length outcomes := by
  obtain ⟨fuel, ret, x', hrun, -, hret⟩ := hs (fun _ => 0) (fun _ => 0)
  rw [Call.run_eq] at hrun
  obtain ⟨i, hbefore, hstop⟩ := transferLoop_returns hrun
  rcases hstop with ⟨errno, he, -⟩ | ⟨hok, ht, hr⟩
  · exact ⟨i, hbefore, Or.inl ⟨errno, he⟩⟩
  · obtain ⟨rfl, rfl⟩ := Prod.mk.inj hr
    -- the last byte has been moved, by a call that moved all of them
    have hlast := (hret rfl (c.length - 1) (by omega)).1
    rw [mem_after_moved] at hlast
    obtain ⟨j, hj, hlt⟩ := hlast.resolve_left (List.not_mem_nil)
    have hle := count_le h j
    exact ⟨i, hbefore, Or.inr ⟨hok, ht, j, by omega, (count_eq_iff (by omega) _).1 (by omega)⟩⟩

theorem endsWhole_sound {c : Call} (hlen : c.length < 2 ^ 64) (h : Admissible c.length outcomes)
    (he : EndsWhole c.length outcomes) : c.Sound addr outcomes := by
  obtain ⟨i, hbefore, hstop⟩ := he
  intro buf mem
  have hplaced : ∀ m, (after c.direction addr outcomes ⟨buf, mem, []⟩ m).Placed c.length addr :=
    after_placed hlen h (fun i hi => absurd hi (List.not_mem_nil))
  rcases hstop with ⟨errno, herr⟩ | ⟨⟨k, hk⟩, ht, j, hj, hall⟩
  · have hne : errno ≠ 0 := by
      have hi := h i
      rw [herr] at hi
      exact hi
    refine ⟨0 + 1 + i, errno, _, ?_, fun m hm => (hplaced i m hm).1, fun h0 => absurd h0 hne⟩
    rw [Call.run_eq, transferLoop_error hbefore herr]
  · refine ⟨0 + 1 + i, 0, _, ?_, fun m hm => (hplaced (i + 1) m hm).1, fun _ m hm => ?_⟩
    · rw [Call.run_eq, transferLoop_done hbefore hk ht]
    · have hmoved : m ∈ (after c.direction addr outcomes ⟨buf, mem, []⟩ (i + 1)).moved := by
        rw [mem_after_moved]
        exact Or.inr ⟨j, by omega, by rw [hall, count]; exact hm⟩
      have hsame := (hplaced (i + 1) m hmoved).2
      obtain ⟨hr, hw⟩ := @after_source c.direction addr outcomes ⟨buf, mem, []⟩ (i + 1)
      refine ⟨hmoved, fun hd => ?_, fun hd => ?_⟩
      · rw [hsame, hr hd]
      · rw [← hsame, hw hd]

/-- **Partial transfers are handled only if a call fails before the counts make `n`, or a single call moves everything.** -/
theorem transfer_sound_iff (c : Call) (addr : Addr) (outcomes : Nat → Except Int Nat) (hpos : 1 ≤ c.length)
    (hlen : c.length < 2 ^ 64) (h : Admissible c.length outcomes) :
    c.Sound addr outcomes ↔ EndsWhole c.length outcomes :=
  ⟨sound_endsWhole hpos h, endsWhole_sound hlen h⟩

/-- A transfer of all bytes at once, and one of three of eleven bytes before the call that fails. -/
theorem transfer_sound_partial : Call.readLong.Sound 0x1000 (fun _ => .ok 8) ∧
    (Call.writeBytes 11).Sound 0x1000 (fun i => if i = 0 then .ok 3 else .error 14) := by
  have hlong : Admissible Call.readLong.length (fun _ => .ok 8) := fun _ => ⟨by decide, Nat.le_refl 8⟩
  have heleven : Admissible (Call.writeBytes 11).length (fun i => if i = 0 then .ok 3 else .error 14) := by
    intro i
    cases i with
    | zero   => exact ⟨by decide, (by decide : 3 ≤ 11)⟩
    | succ i => exact (by decide : (14 : Int) ≠ 0)
  constructor
  · refine (transfer_sound_iff .readLong 0x1000 (fun _ => .ok 8) (by decide) (by decide) hlong).2 ⟨0, ?_, Or.inr ?_⟩
    · intro j hj
      exact absurd hj (Nat.not_lt_zero j)
    · exact ⟨⟨8, rfl⟩, by decide, 0, Nat.le_refl 0, rfl⟩
  · refine (transfer_sound_iff (.writeBytes 11) 0x1000 _ (by decide) (by decide) heleven).2 ⟨1, ?_, Or.inl ⟨14, rfl⟩⟩
    intro j hj
    obtain rfl : j = 0 := by omega
    exact ⟨⟨3, rfl⟩, by decide⟩

/-- Two calls that each move the first of two bytes count as a complete transfer. -/
theorem partial_transfer_unsound :
    ¬ ∀ (c : Call) (addr : Addr) (outcomes : Nat → Except Int Nat), 1 ≤ c.length → c.length < 2 ^ 64 →
      Admissible c.length outcomes → c.Sound addr outcomes := by
  intro hall
  have h : Admissible (Call.readMemory 2).length (fun _ => .ok 1) := fun _ => ⟨Nat.le_refl 1, by decide⟩
  obtain ⟨i, -, hstop⟩ := sound_endsWhole (by decide) h (hall (.readMemory 2) 0x1000 _ (by decide) (by decide) h)
  rcases hstop with ⟨errno, he⟩ | ⟨-, -, j, -, hj⟩
  · cases he
  · cases hj

end Transfer
end Libpulp
