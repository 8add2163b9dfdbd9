import Libpulp.Tool
/-!
# Interpret — where the queue interpreter looks and where it stops (common/insn_queue.c, lib/insn_queue.c)

`insnStep` is one round of the loop of `insnq_interpret`.  On a queue that libpulp filled the rounds follow the
instructions that were inserted (`encodes_iff`).  Nothing else keeps the program counter on instructions: what a failed
WRITE returns is added to it (`failedWrite_stopped_iff`), and a queue from another process says itself how far each
instruction reaches (`interpretsInside_iff`).
-/
namespace Libpulp

open Bytes (Byte Addr Mem Buf toLE ofLE)

/-- The program counters at which the loop looks at an instruction, in order. -/
def insnqVisits {σ : Type} (h : InsnHandlers σ) (b : Buf) : Nat → Int → σ → List Int
  | 0, _, _       => []
  | k + 1, pc, st => pc :: match insnStep h b pc st with
    | .next pc' st' => insnqVisits h b k pc' st'
    | _             => []

/-- The program counter at which the loop stops. -/
def insnqStop {σ : Type} (h : InsnHandlers σ) (b : Buf) : Nat → Int → σ → Int
  | 0, pc, _      => pc
  | k + 1, pc, st => match insnStep h b pc st with
    | .next pc' st' => insnqStop h b k pc' st'
    | _             => pc

/-- The number of instructions the loop interprets. -/
def insnqExecuted {σ : Type} (h : InsnHandlers σ) (b : Buf) : Nat → Int → σ → Nat
  | 0, _, _       => 0
  | k + 1, pc, st => match insnStep h b pc st with
    | .next pc' st' => insnqExecuted h b k pc' st' + 1
    | _             => 0

/-- What is read of the buffer for the instruction at `pc`, as offsets and lengths: the opcode, then the size and the
string of a PRINT, or the size, the length, the address and the bytes of a WRITE.  A string without an end goes past the
buffer. -/
def insnReads (b : Buf) (pc : Int) : List (Int × Nat) :=
  (pc, 1) ::
    if insnType b pc.toNat = 1 then
      [(pc + 1, 3), (pc + 4, (bufString b (insnBufferMax - (pc.toNat + 4)) (pc.toNat + 4)).elim insnBufferMax
        List.length + 1)]
    else if insnType b pc.toNat = 2 then [(pc + 1, 3), (pc + 4, 12), (pc + 16, insnN b pc.toNat)]
    else []

/-- The bytes lie in the first `size` of the buffer. -/
def Inside (size : Int) (r : Int × Nat) : Prop := 0 ≤ r.1 ∧ r.1 + r.2 ≤ size

/-- Everything the loop reads lies in the first `size` bytes. -/
def ReadsInside {σ : Type} (h : InsnHandlers σ) (b : Buf) (size : Int) (k : Nat) (pc : Int) (st : σ) : Prop :=
  ∀ p ∈ insnqVisits h b k pc st, ∀ r ∈ insnReads b p, Inside size r

theorem readsInside_next {σ : Type} {h : InsnHandlers σ} {b : Buf} {size : Int} {k : Nat} {pc pc' : Int} {st st' : σ}
    (hs : insnStep h b pc st = .next pc' st') : ReadsInside h b size (k + 1) pc st ↔
      (∀ r ∈ insnReads b pc, Inside size r) ∧ ReadsInside h b size k pc' st' := by
  simp only [ReadsInside, insnqVisits, hs, List.forall_mem_cons]

theorem readsInside_invalid {σ : Type} {h : InsnHandlers σ} {b : Buf} {size : Int} {k : Nat} {pc : Int} {st : σ}
    (hs : insnStep h b pc st = .invalid) : ReadsInside h b size (k + 1) pc st ↔ ∀ r ∈ insnReads b pc, Inside size r := by
  simp only [ReadsInside, insnqVisits, hs, List.forall_mem_cons, List.not_mem_nil, false_imp_iff, implies_true, and_true]

/-! ## Queues that libpulp filled -/

/-- A sequence of insertions: the queue after them and the instructions that were accepted. -/
def insertAll : InsnQueue → List Insn → InsnQueue × List Insn
  | q, []      => (q, [])
  | q, i :: is => match insnqInsert q i with
    | none    => insertAll q is
    | some q' => ((insertAll q' is).1, i :: (insertAll q' is).2)

/-- The queue grew by one instruction, the bytes before it as they were. -/
structure Appends (q q' : InsnQueue) : Prop where
  num    : q'.numInsns = q.numInsns + 1
  size   : q.size < q'.size
  before : ∀ j : Nat, (j : Int) < q.size → q'.buffer j = q.buffer j

/-- **What inserting and interpreting promise** for a sequence of insertions into an empty queue: each is refused, the
queue as before, or appends; and with every WRITE succeeding the interpreter does exactly what was accepted, in order,
stops at the size of the queue, has read nothing beyond it and returns 0. -/
structure Encodes (b : Buf) (calls : List Insn) : Prop where
  insert : ∀ before i after, calls = before ++ i :: after →
    insnqInsert (insertAll ⟨insnqCurrVersion, 0, 0, b⟩ before).1 i = none ∨
      ∃ q', insnqInsert (insertAll ⟨insnqCurrVersion, 0, 0, b⟩ before).1 i = some q' ∧
        Appends (insertAll ⟨insnqCurrVersion, 0, 0, b⟩ before).1 q'
  decode : ∀ {σ : Type} (h : InsnHandlers σ), (∀ a bs k st, (h.write a bs k st).2 = k) → ∀ st : σ,
    insnqInterpret h (insertAll ⟨insnqCurrVersion, 0, 0, b⟩ calls).1 st =
        ((insertAll ⟨insnqCurrVersion, 0, 0, b⟩ calls).2.foldl (Insn.exec h) st, some ENONE) ∧
      insnqStop h (insertAll ⟨insnqCurrVersion, 0, 0, b⟩ calls).1.buffer
        (insertAll ⟨insnqCurrVersion, 0, 0, b⟩ calls).1.numInsns.toNat 0 st =
          (insertAll ⟨insnqCurrVersion, 0, 0, b⟩ calls).1.size ∧
      ReadsInside h (insertAll ⟨insnqCurrVersion, 0, 0, b⟩ calls).1.buffer
        (insertAll ⟨insnqCurrVersion, 0, 0, b⟩ calls).1.size
        (insertAll ⟨insnqCurrVersion, 0, 0, b⟩ calls).1.numInsns.toNat 0 st

/-- No string has a length that does not fit in an `int` but, once it is cut, in what is left of the queue. -/
def Untruncated (q : InsnQueue) (calls : List Insn) : Prop := ∀ before s after, calls = before ++ .print s :: after →
  s.length + 1 < 2 ^ 31 ∨ ¬ CutFits (insertAll q before).1 s

theorem insertAll_append : ∀ (is js : List Insn) (q : InsnQueue),
    insertAll q (is ++ js) = ((insertAll (insertAll q is).1 js).1, (insertAll q is).2 ++ (insertAll (insertAll q is).1 js).2)
  | [], js, q      => rfl
  | i :: is, js, q => by
    rw [List.cons_append, insertAll, insertAll]
    cases insnqInsert q i with
    | none => exact insertAll_append is js q
    | some q' =>
      simp only [insertAll_append is js q', List.cons_append]

theorem insertAll_holds : ∀ (calls : List Insn) {q : InsnQueue} {is : List Insn}, QueueHolds q is →
    (∀ i ∈ calls, i.Arg) → Untruncated q calls → QueueHolds (insertAll q calls).1 (is ++ (insertAll q calls).2)
  | [], q, is, h, _, _           => by rw [insertAll, List.append_nil]; exact h
  | i :: calls, q, is, h, ha, hu => by
    have hi := ha i List.mem_cons_self
    have ha' : ∀ j ∈ calls, j.Arg := fun j hj => ha j (List.mem_cons_of_mem _ hj)
    rw [insertAll]
    cases hq : insnqInsert q i with
    | none =>
      refine insertAll_holds calls h ha' (fun before s after e => ?_)
      have := hu (i :: before) s after (by rw [e]; rfl)
      rwa [insertAll, hq] at this
    | some q' =>
      have hp : ∀ s, i = .print s → s.length + 1 < 2 ^ 31 := fun s e =>
        (hu [] s calls (by rw [e]; rfl)).resolve_right (fun hn => by
          have hnone : insnqInsert q i = none := e ▸ insnqInsertPrint_eq_none.2 hn
          rw [hq] at hnone
          cases hnone)
      obtain ⟨q'', hq'', hh⟩ := (insnqInsert_spec h hi hp).resolve_left (by rw [hq]; simp)
      obtain rfl : q' = q'' := Option.some.inj (hq.symm.trans hq'')
      have := insertAll_holds calls hh ha' (fun before s after e => by
        have := hu (i :: before) s after (by rw [e]; rfl)
        rwa [insertAll, hq] at this)
      rwa [List.append_assoc, List.singleton_append] at this

theorem insnReads_encoded {b : Buf} {o : Nat} {i : Insn} (hfit : o + i.size ≤ insnBufferMax) (hi : i.Ok)
    (hc : b.read o i.code.length = i.code) : ∀ r ∈ insnReads b o, Inside ((o + i.size : Nat) : Int) r := by
  have hmax : insnBufferMax = 2097152 := rfl
  unfold insnReads Inside
  rw [Int.toNat_natCast]
  cases i with
  | print s =>
    obtain ⟨ht, -, hstr⟩ := print_fields hfit hi hc
    rw [ht, hstr]
    simp only [Insn.size, if_true, Option.elim_some, List.forall_mem_cons, List.not_mem_nil, false_imp_iff,
      implies_true, and_true]
    omega
  | write a bs =>
    obtain ⟨ht, -, hn, -, -⟩ := write_fields hfit hc
    rw [ht, hn, if_neg (by decide), if_pos rfl]
    simp only [Insn.size, List.forall_mem_cons, List.not_mem_nil, false_imp_iff, implies_true, and_true]
    omega

theorem Inside.mono {size size' : Int} {r : Int × Nat} (h : Inside size r) (hle : size ≤ size') : Inside size' r :=
  ⟨h.1, Int.le_trans h.2 hle⟩

/-- The rounds of the loop over encoded instructions. -/
theorem encoded_rounds {σ : Type} (h : InsnHandlers σ) (hok : ∀ a bs k st, (h.write a bs k st).2 = k) {b : Buf}
    {size : Nat} (hsize : size ≤ insnBufferMax) : ∀ (is : List Insn) (o : Nat) (st : σ), o + insnsSize is ≤ size →
      Encoded b o is → insnqStop h b is.length o st = ((o + insnsSize is : Nat) : Int) ∧
        ReadsInside h b size is.length o st
  | [], o, st, _, _                    => ⟨by simp [insnqStop], fun p hp => by cases hp⟩
  | i :: is, o, st, hfit, ⟨hc, hi, he⟩ => by
    rw [insnsSize_cons] at hfit
    have hstep := insnStep_encoded h hok st (by omega) hi hc
    obtain ⟨h₁, h₂⟩ := encoded_rounds h hok hsize is (o + i.size) (i.exec h st) (by omega) he
    refine ⟨?_, ?_⟩
    · rw [List.length_cons, insnqStop, hstep, insnsSize_cons]
      simp only
      rw [h₁, Nat.add_assoc]
    · rw [List.length_cons, readsInside_next hstep]
      exact ⟨fun r hr => (insnReads_encoded (by omega) hi hc r hr).mono (by omega), h₂⟩

theorem QueueHolds.appends {q q' : InsnQueue} {is : List Insn} {i : Insn} (h : QueueHolds q is)
    (h' : QueueHolds q' (is ++ [i])) (hins : insnqInsert q i = some q') : Appends q q' := by
  have h4 := Nat.le_trans i.four_le_length_code i.length_code_le
  refine ⟨?_, ?_, fun j hj => ?_⟩
  · rw [h'.num, h.num, List.length_append, List.length_singleton]
    push_cast
    rfl
  · rw [h'.size, h.size, insnsSize_append, insnsSize_cons, insnsSize_nil]
    omega
  · cases i with
    | print s => exact insnqInsertPrint_before hins hj
    | write a bs => exact insnqInsertWrite_before hins hj

/-- Writes down what is done. -/
def logHandlers : InsnHandlers (List Insn) :=
  { print := fun s log => log ++ [.print s]
    write := fun a bs size log => (log ++ [.write a bs], size) }

theorem foldl_exec_log : ∀ (is log : List Insn), is.foldl (Insn.exec logHandlers) log = log ++ is
  | [], log      => by rw [List.foldl_nil, List.append_nil]
  | i :: is, log => by
    rw [List.foldl_cons, foldl_exec_log is]
    cases i <;> simp [Insn.exec, logHandlers]

theorem log_step {b : Buf} {pc pc' : Int} {log log' : List Insn} (h : insnStep logHandlers b pc log = .next pc' log')
    (hl : ∀ s, .print s ∈ log → s.length < insnBufferMax) : ∀ s, .print s ∈ log' → s.length < insnBufferMax := by
  unfold insnStep at h
  split at h
  · cases h
  split at h
  · cases h
    exact hl
  split at h
  · cases hs : bufString b (insnBufferMax - (pc.toNat + 4)) (pc.toNat + 4) with
    | none => rw [hs] at h; cases h
    | some t =>
      rw [hs] at h
      cases h
      intro s hm
      rcases List.mem_append.1 hm with hm | hm
      · exact hl s hm
      · cases List.mem_singleton.1 hm
        have := length_bufString b hs
        omega
  split at h
  · split at h
    · cases h
    · cases h
      intro s hm
      rcases List.mem_append.1 hm with hm | hm
      · exact hl s hm
      · cases List.mem_singleton.1 hm
  · cases h

theorem log_run (q : InsnQueue) : ∀ (k : Nat) (pc : Int) (log : List Insn),
    (∀ s, .print s ∈ log → s.length < insnBufferMax) →
      ∀ s, .print s ∈ (insnqInterpretFrom logHandlers q k pc log).1 → s.length < insnBufferMax
  | 0, _, _, h       => h
  | k + 1, pc, log, h => by
    rw [insnqInterpretFrom_succ]
    cases hs : insnStep logHandlers q.buffer pc log with
    | next pc' log' => exact log_run q k pc' log' (log_step hs h)
    | invalid => exact h
    | outside => exact h

theorem Encodes.untruncated {b : Buf} {calls : List Insn} (he : Encodes b calls) :
    Untruncated ⟨insnqCurrVersion, 0, 0, b⟩ calls := by
  intro before s after e
  by_contra hn
  rw [not_or] at hn
  have hmem : .print s ∈ (insertAll ⟨insnqCurrVersion, 0, 0, b⟩ calls).2 := by
    rw [e, insertAll_append, insertAll]
    cases hq : insnqInsert (insertAll ⟨insnqCurrVersion, 0, 0, b⟩ before).1 (.print s) with
    | none => exact absurd (insnqInsertPrint_eq_none.1 hq) hn.2
    | some q' => simp
  -- what was accepted is what the log has, and the log has no string longer than the buffer
  obtain ⟨hrun, -⟩ := he.decode logHandlers (fun _ _ _ _ => rfl) []
  rw [foldl_exec_log, List.nil_append, insnqInterpret] at hrun
  have hlog := log_run (insertAll ⟨insnqCurrVersion, 0, 0, b⟩ calls).1
    (insertAll ⟨insnqCurrVersion, 0, 0, b⟩ calls).1.numInsns.toNat 0 [] (fun s hs => by cases hs) s
    (by rw [hrun]; exact hmem)
  have hmax : insnBufferMax = 2097152 := rfl
  omega

/-- **Exactly when the queue gives back what was inserted**: no string whose length does not fit in an `int` gets past
the size check. -/
theorem encodes_iff (b : Buf) {calls : List Insn} (ha : ∀ i ∈ calls, i.Arg) :
    Encodes b calls ↔ Untruncated ⟨insnqCurrVersion, 0, 0, b⟩ calls := by
  refine ⟨Encodes.untruncated, fun hu => ?_⟩
  have hholds := insertAll_holds calls (queueHolds_empty b) ha hu
  rw [List.nil_append] at hholds
  refine ⟨fun before i after e => ?_, fun h hok st => ⟨insnqInterpret_holds h hok hholds st, ?_⟩⟩
  · have hpre := insertAll_holds before (queueHolds_empty b) (fun j hj => ha j (by rw [e]; simp [hj]))
      (fun pre s post e' => hu pre s (post ++ i :: after) (by rw [e, e']; simp))
    rw [List.nil_append] at hpre
    by_cases hnone : insnqInsert (insertAll ⟨insnqCurrVersion, 0, 0, b⟩ before).1 i = none
    · exact Or.inl hnone
    · obtain ⟨q', hq', hh⟩ := (insnqInsert_spec hpre (ha i (by rw [e]; simp)) (fun s hs =>
        (hu before s after (by rw [e, hs])).resolve_right (fun hn =>
          hnone (hs ▸ insnqInsertPrint_eq_none.2 hn)))).resolve_left hnone
      exact Or.inr ⟨q', hq', hpre.appends hh hq'⟩
  · have hnum : (insertAll ⟨insnqCurrVersion, 0, 0, b⟩ calls).1.numInsns.toNat =
        (insertAll ⟨insnqCurrVersion, 0, 0, b⟩ calls).2.length := by rw [hholds.num]; rfl
    obtain ⟨h₁, h₂⟩ := encoded_rounds h hok hholds.fits _ 0 st (by rw [Nat.zero_add]) hholds.code
    rw [Nat.zero_add] at h₁
    rw [hnum, hholds.size]
    exact ⟨h₁, h₂⟩

/-- A string and three bytes. -/
theorem encodes_two : Encodes (fun _ => 0) [.print [104, 105], .write 0x1000 [1, 2, 3]] := by
  refine (encodes_iff _ (fun i hi => ?_)).2 (fun before s after e => Or.inl ?_)
  · rcases List.mem_cons.1 hi with rfl | hi
    · exact (by decide : (0 : Byte) ∉ [104, 105])
    · cases List.mem_singleton.1 hi
      exact (by decide : [(1 : Byte), 2, 3].length < 2 ^ 31)
  · have hm : Insn.print s ∈ [Insn.print [104, 105], .write 0x1000 [1, 2, 3]] := by rw [e]; simp
    rcases List.mem_cons.1 hm with hs | hm
    · cases hs
      decide
    · cases List.mem_singleton.1 hm

/-- **A string of `2^32 - 1` bytes is accepted, but not what is printed.** -/
theorem encodes_truncated : ¬ ∀ (b : Buf) (calls : List Insn), (∀ i ∈ calls, i.Arg) → Encodes b calls := by
  intro hall
  have hlen : (List.replicate (2 ^ 32 - 1) (120 : Byte)).length + 1 = 2 ^ 32 := by
    rw [List.length_replicate]
    decide
  have harg : (0 : Byte) ∉ List.replicate (2 ^ 32 - 1) (120 : Byte) := fun h =>
    absurd (List.eq_of_mem_replicate h) (by decide)
  generalize List.replicate (2 ^ 32 - 1) (120 : Byte) = s at hlen harg
  have ha : ∀ i ∈ [Insn.print s], i.Arg := fun i hi => by
    cases List.mem_singleton.1 hi
    exact harg
  rcases (hall (fun _ => 0) [.print s] ha).untruncated [] s [] rfl with h | h
  · omega
  · exact insnqInsertPrint_wraps rfl hlen (insnqInsertPrint_eq_none.2 h)

/-! ## WRITEs that fail -/

/-- The effects of PRINT and WRITE where a WRITE may fail, with what `insn_interpret_write` then returns. -/
structure WriteAttempts (σ : Type) where
  print   : List Byte → σ → σ
  attempt : Addr → List Byte → σ → σ × Option Int

def WriteAttempts.handlers {σ : Type} (a : WriteAttempts σ) : InsnHandlers σ :=
  { print := a.print
    write := fun addr bytes size st => ((a.attempt addr bytes st).1, (a.attempt addr bytes st).2.getD size) }

/-- `write_bytes_ptrace` where the request for the word at an address may fail. -/
def pokeLongsUntil (ok : Addr → Bool) : Nat → List Byte → Addr → Mem → Mem × Bool
  | 0, buf, addr, m     =>
    if buf = [] then (m, true)
    else if ok addr then (m.write addr (buf ++ (m.read addr 8).drop buf.length), true)
    else (m, false)
  | k + 1, buf, addr, m =>
    if ok addr then pokeLongsUntil ok k (buf.drop 8) (addr + 8) (m.write addr (buf.take 8)) else (m, false)

/-- The tool's `insn_interpret_write` returns -1 when it fails. -/
def toolAttempts (ok : Addr → Bool) : WriteAttempts Mem :=
  { print := fun _ m => m
    attempt := fun addr bytes m =>
      let r := pokeLongsUntil ok (bytes.length / 8) bytes addr m
      (r.1, if r.2 then none else some (-1)) }

/-- What the library's `insn_interpret_write` asks about pages: `memory_protection_get`, `none` for -1, whether `mprotect`
sets a protection, and `errno`. -/
structure Protection where
  pageSize            : Addr
  memoryProtectionGet : Addr → Option Nat
  mprotect            : Addr → Nat → Bool
  errno               : Int

/-- The pages that hold the bytes. -/
def Protection.pages (p : Protection) (addr : Addr) (n : Nat) : List Addr :=
  let page1 := addr - addr % p.pageSize
  let pagen := (addr + BitVec.ofNat 64 n) - (addr + BitVec.ofNat 64 n) % p.pageSize
  (List.range (1 + ((pagen - page1) / p.pageSize).toNat)).map (fun i => page1 + BitVec.ofNat 64 i * p.pageSize)

/-- The library's `insn_interpret_write` returns `errno` when it fails, the last time after the bytes were written;
`PROT_WRITE` is 2. -/
def libraryAttempts (p : Protection) : WriteAttempts Mem :=
  { print := fun _ m => m
    attempt := fun addr bytes m =>
      let pages := p.pages addr bytes.length
      let prot := fun page => (p.memoryProtectionGet page).getD 0
      if pages.any (fun page => (p.memoryProtectionGet page).isNone) then (m, some p.errno)
      else if pages.any (fun page => !p.mprotect page (prot page ||| 2)) then (m, some p.errno)
      else if pages.any (fun page => !p.mprotect page (prot page)) then (m.write addr bytes, some p.errno)
      else (m.write addr bytes, none) }

/-- The program counter and the state after `i` instructions. -/
def insnqAfter {σ : Type} (h : InsnHandlers σ) (b : Buf) : Nat → Int → σ → Option (Int × σ)
  | 0, pc, st     => some (pc, st)
  | i + 1, pc, st => match insnStep h b pc st with
    | .next pc' st' => insnqAfter h b i pc' st'
    | _             => none

/-- The instruction at `pc` is a WRITE that fails and returns `e`. -/
structure FailsAt {σ : Type} (a : WriteAttempts σ) (b : Buf) (pc : Int) (st : σ) (e : Int) : Prop where
  nonneg : 0 ≤ pc
  write  : insnType b pc.toNat = 2
  fits   : pc.toNat + 16 + insnN b pc.toNat ≤ insnBufferMax
  fails  : (a.attempt (insnAddress b pc.toNat) (insnBytes b pc.toNat) st).2 = some e

/-- The interpreter returns an error after it interpreted `n` instructions. -/
def StoppedAfter {σ : Type} (h : InsnHandlers σ) (q : InsnQueue) (st : σ) (n : Nat) : Prop :=
  (∃ c, (insnqInterpret h q st).2 = some c ∧ c ≠ ENONE) ∧ insnqExecuted h q.buffer q.numInsns.toNat 0 st = n

/-- `ulp_insn_valid` of the byte at `pc`. -/
def ulpInsnValid (b : Buf) (pc : Int) : Prop :=
  insnType b pc.toNat = 0 ∨ insnType b pc.toNat = 1 ∨ insnType b pc.toNat = 2

theorem FailsAt.step {σ : Type} {a : WriteAttempts σ} {b : Buf} {pc : Int} {st : σ} {e : Int} (h : FailsAt a b pc st e) :
    insnStep a.handlers b pc st =
      .next (int32 (pc + e)) (a.attempt (insnAddress b pc.toNat) (insnBytes b pc.toNat) st).1 := by
  rw [insnStep_write h.nonneg h.write h.fits]
  simp only [WriteAttempts.handlers, h.fails, Option.getD_some]

theorem insnStep_eq_invalid {σ : Type} {h : InsnHandlers σ} {b : Buf} {pc : Int} {st : σ} :
    insnStep h b pc st = .invalid ↔ 0 ≤ pc ∧ pc < insnBufferMax ∧ ¬ ulpInsnValid b pc := by
  unfold insnStep ulpInsnValid
  split
  · rename_i ho
    refine ⟨fun h => (by cases h), fun h => ?_⟩
    omega
  rename_i ho
  split
  · rename_i h0
    exact ⟨fun h => (by cases h), fun h => absurd (Or.inl h0) h.2.2⟩
  rename_i h0
  split
  · rename_i h1
    refine ⟨fun h => ?_, fun h => absurd (Or.inr (Or.inl h1)) h.2.2⟩
    cases hs : bufString b (insnBufferMax - (pc.toNat + 4)) (pc.toNat + 4) with
    | none => rw [hs] at h; cases h
    | some s => rw [hs] at h; cases h
  rename_i h1
  split
  · rename_i h2
    refine ⟨fun h => ?_, fun h => absurd (Or.inr (Or.inr h2)) h.2.2⟩
    split at h <;> cases h
  · rename_i h2
    refine ⟨fun _ => ⟨by omega, by omega, fun h => ?_⟩, fun _ => rfl⟩
    rcases h with h | h | h
    · exact h0 h
    · exact h1 h
    · exact h2 h

theorem insnqAfter_interpret {σ : Type} {h : InsnHandlers σ} {q : InsnQueue} : ∀ {i k : Nat} {pc pc' : Int} {st st' : σ},
    insnqAfter h q.buffer i pc st = some (pc', st') →
      insnqInterpretFrom h q (i + k) pc st = insnqInterpretFrom h q k pc' st' ∧
      insnqExecuted h q.buffer (i + k) pc st = insnqExecuted h q.buffer k pc' st' + i
  | 0, k, pc, pc', st, st', ha     => by
    obtain ⟨rfl, rfl⟩ := Prod.mk.inj (Option.some.inj ha)
    rw [Nat.zero_add]
    exact ⟨rfl, rfl⟩
  | i + 1, k, pc, pc', st, st', ha => by
    rw [insnqAfter] at ha
    rw [Nat.add_right_comm, insnqInterpretFrom_succ, insnqExecuted]
    cases hs : insnStep h q.buffer pc st with
    | next pc₁ st₁ =>
      rw [hs] at ha
      obtain ⟨h₁, h₂⟩ := insnqAfter_interpret (k := k) ha
      exact ⟨h₁, by simp only [h₂]; omega⟩
    | invalid => rw [hs] at ha; cases ha
    | outside => rw [hs] at ha; cases ha

/-- **Exactly when a failed WRITE stops the interpreter**: it is the last instruction and what it returned does not take
the program counter to the end of the queue, or the program counter lands in the buffer on a byte that is no opcode. -/
theorem failedWrite_stopped_iff {σ : Type} (a : WriteAttempts σ) (q : InsnQueue) (st₀ st : σ) {i : Nat} {pc e : Int}
    (hi : (i : Int) < q.numInsns) (ha : insnqAfter a.handlers q.buffer i 0 st₀ = some (pc, st))
    (hf : FailsAt a q.buffer pc st e) :
    StoppedAfter a.handlers q st₀ (i + 1) ↔
      (i + 1 : Int) = q.numInsns ∧ int32 (pc + e) ≠ q.size ∨
      (i + 1 : Int) < q.numInsns ∧ 0 ≤ int32 (pc + e) ∧ int32 (pc + e) < insnBufferMax ∧
        ¬ ulpInsnValid q.buffer (int32 (pc + e)) := by
  obtain ⟨k, hk⟩ : ∃ k, q.numInsns.toNat = i + (k + 1) := ⟨q.numInsns.toNat - i - 1, by omega⟩
  obtain ⟨h₁, h₂⟩ := insnqAfter_interpret (k := k + 1) ha
  rw [StoppedAfter, insnqInterpret, hk, h₁, h₂, insnqInterpretFrom_succ, insnqExecuted, hf.step]
  simp only
  cases k with
  | zero =>
    have hnum : (q.numInsns.toNat : Int) = q.numInsns := by omega
    have hexec : insnqExecuted a.handlers q.buffer 0 (int32 (pc + e))
        (a.attempt (insnAddress q.buffer pc.toNat) (insnBytes q.buffer pc.toNat) st).1 + 1 + i = i + 1 := by
      rw [insnqExecuted]
      omega
    rw [insnqInterpretFrom, hnum, if_neg (not_not.2 rfl)]
    simp only [Option.some.injEq, exists_eq_left', hexec, and_true]
    constructor
    · intro h
      refine Or.inl ⟨by omega, fun he => h ?_⟩
      rw [if_neg (not_not.2 he)]
    · rintro (⟨-, hne⟩ | ⟨hlt, -⟩)
      · rw [if_pos hne]
        decide
      · omega
  | succ k =>
    have hne : ¬ (i + 1 : Int) = q.numInsns := by omega
    have hlt : (i + 1 : Int) < q.numInsns := by omega
    simp only [hne, false_and, false_or, hlt, true_and]
    rw [← @insnStep_eq_invalid σ a.handlers q.buffer (int32 (pc + e))
      (a.attempt (insnAddress q.buffer pc.toNat) (insnBytes q.buffer pc.toNat) st).1, insnqInterpretFrom_succ,
      insnqExecuted]
    cases hs : insnStep a.handlers q.buffer (int32 (pc + e))
        (a.attempt (insnAddress q.buffer pc.toNat) (insnBytes q.buffer pc.toNat) st).1 with
    | next pc' st' =>
      refine ⟨fun h => ?_, fun h => by cases h⟩
      have := h.2
      simp only at this
      omega
    | invalid =>
      refine ⟨fun _ => rfl, fun _ => ⟨⟨EINSNQ, rfl, by decide⟩, ?_⟩⟩
      simp only
      omega
    | outside =>
      refine ⟨fun h => ?_, fun h => by cases h⟩
      obtain ⟨c, hc, -⟩ := h.1
      cases hc

/-- One byte for each of three addresses. -/
def threeWrites : List Insn := [.write 0x1000 [1], .write 0x2000 [2], .write 0x3000 [3]]

def threeQueue : InsnQueue :=
  ⟨insnqCurrVersion, 3, 72, fun j => (threeWrites.flatMap (fun i => i.code ++ List.replicate 7 0)).getD j 0⟩

theorem threeQueue_holds : QueueHolds threeQueue threeWrites :=
  ⟨rfl, rfl, rfl, by decide, ⟨by decide, trivial, by decide, trivial, by decide, trivial, trivial⟩⟩

/-- The last of three fails. -/
theorem failedWrite_stopped_last : ∃ m, FailsAt (toolAttempts (· ≠ 0x3000)) threeQueue.buffer 48 m (-1) ∧
    StoppedAfter (toolAttempts (· ≠ 0x3000)).handlers threeQueue (fun _ => 0) 3 := by
  have ha : ∃ m, insnqAfter (toolAttempts (· ≠ 0x3000)).handlers threeQueue.buffer 2 0 (fun _ => 0) = some (48, m) :=
    ⟨_, rfl⟩
  obtain ⟨m, ha⟩ := ha
  have hf : FailsAt (toolAttempts (· ≠ 0x3000)) threeQueue.buffer 48 m (-1) := ⟨by decide, by decide, by decide, rfl⟩
  exact ⟨m, hf, (failedWrite_stopped_iff _ _ _ _ (by decide) ha hf).2 (Or.inl ⟨by decide, by decide⟩)⟩

/-- **A failed WRITE does not stop the interpreter**: the second of three fails, and the padding before it is interpreted
as a NOP. -/
theorem failedWrite_goes_on : ¬ ∀ (q : InsnQueue) (is : List Insn) (ok : Addr → Bool) (m₀ m : Mem) (i : Nat) (pc : Int),
    QueueHolds q is → (i : Int) < q.numInsns → insnqAfter (toolAttempts ok).handlers q.buffer i 0 m₀ = some (pc, m) →
    FailsAt (toolAttempts ok) q.buffer pc m (-1) → StoppedAfter (toolAttempts ok).handlers q m₀ (i + 1) := by
  intro hall
  have ha : ∃ m, insnqAfter (toolAttempts (· ≠ 0x2000)).handlers threeQueue.buffer 1 0 (fun _ => 0) = some (24, m) :=
    ⟨_, rfl⟩
  obtain ⟨m, ha⟩ := ha
  obtain ⟨-, hexec⟩ := hall threeQueue threeWrites (· ≠ 0x2000) (fun _ => 0) m 1 24 threeQueue_holds (by decide) ha
    ⟨by decide, by decide, by decide, rfl⟩
  exact absurd hexec (by decide)

/-! ## Queues of another process -/

/-- A WRITE gives its size, or -1 if it fails.  Without bytes `write_bytes_ptrace` makes no request that could fail. -/
def InsnHandlers.WritesOrFails {σ : Type} (h : InsnHandlers σ) : Prop :=
  ∀ a bs k st, (h.write a bs k st).2 = k ∨ bs ≠ [] ∧ (h.write a bs k st).2 = -1

/-- **The interpreter comes to an end without a look beyond the size of the queue**, whichever WRITEs fail. -/
def InterpretsInside (q : InsnQueue) : Prop :=
  ∀ {σ : Type} (h : InsnHandlers σ), h.WritesOrFails → ∀ st : σ,
    (∃ c, (insnqInterpret h q st).2 = some c) ∧ ReadsInside h q.buffer q.size q.numInsns.toNat 0 st

/-- The next `k` instructions from `pc` on start and end within `size`: a string has its NUL and a WRITE its bytes there.
After a WRITE that fails, which takes a byte to write, the next one is taken from the byte before it. -/
def Contained (b : Buf) (size : Int) : Nat → Int → Prop
  | 0, _      => True
  | k + 1, pc => 0 ≤ pc ∧ pc < size ∧
    (insnType b pc.toNat = 0 → Contained b size k (pc + 4)) ∧
    (insnType b pc.toNat = 1 → (∃ j : Nat, pc.toNat + 4 ≤ j ∧ (j : Int) < size ∧ b j = 0) ∧
      Contained b size k (pc + insnSize b pc.toNat)) ∧
    (insnType b pc.toNat = 2 → pc + 16 + insnN b pc.toNat ≤ size ∧
      Contained b size k (pc + insnSize b pc.toNat) ∧ (insnN b pc.toNat ≠ 0 → Contained b size k (pc - 1)))

theorem insnBytes_ne_nil {b : Buf} {pc : Nat} : insnBytes b pc ≠ [] ↔ insnN b pc ≠ 0 := by
  rw [insnBytes, ne_eq, ← List.length_eq_zero_iff, Buf.length_read]

theorem insnSize_range (b : Buf) (pc : Nat) : -2 ^ 23 ≤ insnSize b pc ∧ insnSize b pc < 2 ^ 23 := by
  unfold insnSize
  have h₁ := Int.le_bmod (x := (ofLE (b.read (pc + 1) 3) : Int)) (m := 2 ^ 24) (by decide)
  have h₂ := Int.bmod_lt (x := (ofLE (b.read (pc + 1) 3) : Int)) (m := 2 ^ 24) (by decide)
  constructor
  · refine Int.le_trans (by decide) h₁
  · exact Int.lt_of_lt_of_le h₂ (by decide)

theorem bufString_ends (b : Buf) : ∀ {k o j : Nat}, o ≤ j → j < o + k → b j = 0 →
    ∃ s, bufString b k o = some s ∧ o + s.length ≤ j
  | 0, o, j, h₁, h₂, _     => by omega
  | k + 1, o, j, h₁, h₂, h => by
    rw [bufString]
    split
    · exact ⟨[], rfl, h₁⟩
    · rename_i hne
      have hlt : o ≠ j := fun e => hne (e ▸ h)
      obtain ⟨s, hs, hle⟩ := bufString_ends b (k := k) (o := o + 1) (by omega) (by omega) h
      exact ⟨b o :: s, by rw [hs]; rfl, by rw [List.length_cons]; omega⟩

theorem bufString_nul (b : Buf) : ∀ {k o : Nat} {s : List Byte}, bufString b k o = some s → b (o + s.length) = 0
  | 0, _, _, h     => by cases h
  | k + 1, o, s, h => by
    rw [bufString] at h
    split at h
    · rename_i h0
      obtain rfl := Option.some.inj h
      exact h0
    · obtain ⟨t, ht, rfl⟩ := Option.map_eq_some_iff.1 h
      have := bufString_nul b ht
      rwa [List.length_cons, Nat.add_comm t.length 1, ← Nat.add_assoc]

theorem contained_inside {σ : Type} {h : InsnHandlers σ} (hw : h.WritesOrFails) {q : InsnQueue}
    (hsize : q.size ≤ insnBufferMax) : ∀ (k : Nat) (pc : Int) (st : σ), Contained q.buffer q.size k pc →
      (∃ c, (insnqInterpretFrom h q k pc st).2 = some c) ∧ ReadsInside h q.buffer q.size k pc st
  | 0, pc, st, _      => ⟨⟨_, rfl⟩, fun p hp => by cases hp⟩
  | k + 1, pc, st, hc => by
    have hmax : insnBufferMax = 2097152 := rfl
    obtain ⟨h₀, hlt, hnop, hprint, hwrite⟩ := hc
    have hr := insnSize_range q.buffer pc.toNat
    -- what is read here is inside, and the loop goes on where `Contained` does
    have hgo : ∀ {pc' : Int} {st' : σ}, insnStep h q.buffer pc st = .next pc' st' →
        (∀ r ∈ insnReads q.buffer pc, Inside q.size r) → Contained q.buffer q.size k pc' →
        (∃ c, (insnqInterpretFrom h q (k + 1) pc st).2 = some c) ∧ ReadsInside h q.buffer q.size (k + 1) pc st := by
      intro pc' st' hs hreads hc'
      obtain ⟨h₁, h₂⟩ := contained_inside hw hsize k pc' st' hc'
      rw [insnqInterpretFrom_succ, readsInside_next hs, hs]
      exact ⟨h₁, hreads, h₂⟩
    by_cases t0 : insnType q.buffer pc.toNat = 0
    · refine @hgo (pc + 4) st ?_ ?_ (hnop t0)
      · rw [insnStep_nop h₀ (by omega) t0, int32_of_range (by omega) (by omega)]
      · rw [insnReads, t0, if_neg (by decide), if_neg (by decide)]
        simp only [List.forall_mem_cons, List.not_mem_nil, false_imp_iff, implies_true, and_true, Inside]
        omega
    by_cases t1 : insnType q.buffer pc.toNat = 1
    · obtain ⟨⟨j, hj₁, hj₂, hj₃⟩, hc'⟩ := hprint t1
      obtain ⟨s, hs, hle⟩ := bufString_ends q.buffer (k := insnBufferMax - (pc.toNat + 4)) hj₁ (by omega) hj₃
      refine @hgo (pc + insnSize q.buffer pc.toNat) (h.print s st) ?_ ?_ hc'
      · rw [insnStep_print h₀ (by omega) t1 hs, int32_of_range (by omega) (by omega)]
      · rw [insnReads, if_pos t1, hs]
        simp only [List.forall_mem_cons, List.not_mem_nil, false_imp_iff, implies_true, and_true, Inside,
          Option.elim_some]
        omega
    by_cases t2 : insnType q.buffer pc.toNat = 2
    · obtain ⟨hn, hok, hfail⟩ := hwrite t2
      refine hgo (insnStep_write h₀ t2 (by omega)) ?_ ?_
      · rw [insnReads, if_neg t1, if_pos t2]
        simp only [List.forall_mem_cons, List.not_mem_nil, false_imp_iff, implies_true, and_true, Inside]
        omega
      · rcases hw (insnAddress q.buffer pc.toNat) (insnBytes q.buffer pc.toNat) (insnSize q.buffer pc.toNat) st with e | ⟨hne, e⟩
        · rw [e, int32_of_range (by omega) (by omega)]
          exact hok
        · rw [e, int32_of_range (by omega) (by omega)]
          exact hfail (insnBytes_ne_nil.1 hne)
    · have hs : insnStep h q.buffer pc st = .invalid :=
        insnStep_eq_invalid.2 ⟨h₀, by omega, fun hv => hv.elim t0 (fun hv => hv.elim t1 t2)⟩
      rw [insnqInterpretFrom_succ, readsInside_invalid hs, hs]
      refine ⟨⟨_, rfl⟩, ?_⟩
      rw [insnReads, if_neg t1, if_neg t2]
      simp only [List.forall_mem_cons, List.not_mem_nil, false_imp_iff, implies_true, and_true, Inside]
      omega

/-- WRITEs that can fail do so as the list says. -/
def oracleHandlers : InsnHandlers (List Bool) :=
  { print := fun _ l => l
    write := fun _ bs size l => (l.tail, if bs ≠ [] ∧ l.headD false = true then -1 else size) }

theorem oracleHandlers_writes : oracleHandlers.WritesOrFails := by
  intro a bs k l
  simp only [oracleHandlers]
  split
  · rename_i h
    exact Or.inr ⟨h.1, rfl⟩
  · exact Or.inl rfl

theorem inside_contained {q : InsnQueue} (hsize : q.size ≤ insnBufferMax) : ∀ (k : Nat) (pc : Int),
    (∀ l, ReadsInside oracleHandlers q.buffer q.size k pc l) → Contained q.buffer q.size k pc
  | 0, _, _      => trivial
  | k + 1, pc, h => by
    have hmax : insnBufferMax = 2097152 := rfl
    have hr := insnSize_range q.buffer pc.toNat
    have hreads : ∀ r ∈ insnReads q.buffer pc, Inside q.size r := h [] pc List.mem_cons_self
    have hop : Inside q.size (pc, 1) := hreads _ List.mem_cons_self
    simp only [Inside] at hop
    have hgo : ∀ {pc' : Int}, (∀ l', ∃ l, insnStep oracleHandlers q.buffer pc l = .next pc' l') →
        Contained q.buffer q.size k pc' := fun hs => inside_contained hsize k _ (fun l' => by
      obtain ⟨l, hl⟩ := hs l'
      exact ((readsInside_next hl).1 (h l)).2)
    refine ⟨hop.1, by omega, fun t0 => hgo (fun l => ⟨l, ?_⟩), fun t1 => ?_, fun t2 => ?_⟩
    · rw [insnStep_nop hop.1 (by omega) t0, int32_of_range (by omega) (by omega)]
    · rw [insnReads, if_pos t1] at hreads
      have hstr := hreads _ (List.mem_cons_of_mem _ (List.mem_cons_of_mem _ List.mem_cons_self))
      simp only [Inside] at hstr
      cases hs : bufString q.buffer (insnBufferMax - (pc.toNat + 4)) (pc.toNat + 4) with
      | none =>
        rw [hs, Option.elim_none] at hstr
        omega
      | some s =>
        rw [hs, Option.elim_some] at hstr
        refine ⟨⟨pc.toNat + 4 + s.length, by omega, by omega, bufString_nul q.buffer hs⟩, hgo (fun l => ⟨l, ?_⟩)⟩
        rw [insnStep_print hop.1 (by omega) t1 hs, int32_of_range (by omega) (by omega)]
        rfl
    · have t1 : insnType q.buffer pc.toNat ≠ 1 := by rw [t2]; decide
      rw [insnReads, if_neg t1, if_pos t2] at hreads
      have hn := hreads (pc + 16, insnN q.buffer pc.toNat) (by simp)
      simp only [Inside] at hn
      have hstep : ∀ l, insnStep oracleHandlers q.buffer pc l =
          .next (int32 (pc + if insnBytes q.buffer pc.toNat ≠ [] ∧ l.headD false = true then -1
            else insnSize q.buffer pc.toNat)) l.tail := fun l => insnStep_write hop.1 t2 (by omega)
      refine ⟨by omega, hgo (fun l => ⟨false :: l, ?_⟩), fun hne => hgo (fun l => ⟨true :: l, ?_⟩)⟩
      · rw [hstep, if_neg (fun h => Bool.false_ne_true h.2), int32_of_range (by omega) (by omega)]
        rfl
      · rw [hstep, if_pos ⟨insnBytes_ne_nil.2 hne, rfl⟩, int32_of_range (by omega) (by omega)]
        rfl

theorem insnqGetFromRemoteProcess_size {r q : InsnQueue} (h : insnqGetFromRemoteProcess r = .ok q)
    (hint : int32 r.size = r.size) : q.size ≤ insnBufferMax := by
  have hmax : insnBufferMax = 2097152 := rfl
  obtain ⟨k, hk, h₁, h₂⟩ := int32_cases r.size
  unfold insnqGetFromRemoteProcess at h
  split at h
  · cases h
  split at h
  · cases h
  · cases h
    change r.size ≤ _
    omega

/-- **Exactly when a queue from another process is interpreted safely**, once it has passed the checks; its size is a C
`int`. -/
theorem interpretsInside_iff {r q : InsnQueue} (hint : int32 r.size = r.size) (hget : insnqGetFromRemoteProcess r = .ok q) :
    InterpretsInside q ↔ Contained q.buffer q.size q.numInsns.toNat 0 := by
  have hsize := insnqGetFromRemoteProcess_size hget hint
  exact ⟨fun h => inside_contained hsize _ _ (fun l => (h oracleHandlers oracleHandlers_writes l).2),
    fun hc σ h hw st => contained_inside hw hsize _ _ st hc⟩

/-- A string, then a byte for an address. -/
def printWriteQueue : InsnQueue :=
  ⟨insnqCurrVersion, 2, 32, fun j => ((Insn.print [97]).code ++ List.replicate 2 0 ++ (Insn.write 0x1000 [1]).code).getD j 0⟩

theorem interpretsInside_two : ∃ q, insnqGetFromRemoteProcess printWriteQueue = .ok q ∧ InterpretsInside q := by
  refine ⟨_, rfl, (interpretsInside_iff (r := printWriteQueue) (by decide) rfl).2 ?_⟩
  refine ⟨by decide, by decide, fun h => absurd h (by decide), fun _ => ⟨⟨5, by decide, by decide, by decide⟩, ?_⟩,
    fun h => absurd h (by decide)⟩
  exact ⟨by decide, by decide, fun h => absurd h (by decide), fun h => absurd h (by decide),
    fun _ => ⟨by decide, trivial, fun _ => trivial⟩⟩

/-- A WRITE that claims one byte more than the queue has. -/
def hostileQueue : InsnQueue :=
  ⟨insnqCurrVersion, 1, 16, fun j => (insnBase 2 16 ++ toLE 4 1 ++ toLE 8 0x1000).getD j 0⟩

/-- **The checks do not keep the interpreter inside the queue.** -/
theorem interpretsInside_hostile : ¬ ∀ r q : InsnQueue, int32 r.size = r.size → insnqGetFromRemoteProcess r = .ok q →
    InterpretsInside q := by
  intro hall
  obtain ⟨-, hreads⟩ := hall hostileQueue _ (by decide) rfl oracleHandlers oracleHandlers_writes []
  have h := hreads 0 List.mem_cons_self (16, 1) (by decide)
  exact absurd h.2 (by decide)

end Libpulp
