import Libpulp.Tool
/-!
# PokeFootprint — what `write_bytes_ptrace` may change when requests fail (tools/ptrace.c)

The bytes are written a word at a time.  For what is left over, the word in the process is read, merged and written
back, so bytes behind the range are stored again with what they held.  Any request may fail in the end, and one that
fails to write a word may have written its first bytes.
-/
namespace Libpulp

open Bytes (Byte Addr Mem)

/-- What comes of the `k`-th request: `none` when it succeeds, else the bytes of its word that were written. -/
abbrev PokeOutcomes := Nat → Option Nat

/-- `PTRACE_POKEDATA`, and whether `errno` is 0 after it. -/
def pokeData (outcome : Option Nat) (addr : Addr) (word : List Byte) (m : Mem) : Mem × Bool :=
  match outcome with
  | none   => (m.write addr word, true)
  | some n => (m.write addr (word.take n), false)

/-- `write_bytes_ptrace` with `longs` words to go, from the `k`-th request on; `true` for a return value of 0. -/
def writeBytesRequests (outcome : PokeOutcomes) : Nat → Nat → List Byte → Addr → Mem → Mem × Bool
  | 0, k, buf, addr, m         =>
    if buf = [] then (m, true)
    else
      match outcome k with
      | some _ => (m, false)
      | none   => pokeData (outcome (k + 1)) addr (buf ++ (m.read addr 8).drop buf.length) m
  | longs + 1, k, buf, addr, m =>
    let r := pokeData (outcome k) addr (buf.take 8) m
    if r.2 then writeBytesRequests outcome longs (k + 1) (buf.drop 8) (addr + 8) r.1 else r

/-- `write_bytes_ptrace`. -/
def writeBytesPtraceWith (outcome : PokeOutcomes) (buf : List Byte) (addr : Addr) (m : Mem) : Mem × Bool :=
  writeBytesRequests outcome (buf.length / 8) 0 buf addr m

/-- The two memories agree outside of the `n` bytes at `addr`. -/
def SameOutside (addr : Addr) (n : Nat) (m m' : Mem) : Prop := ∀ x : Addr, n ≤ (x - addr).toNat → m' x = m x

/-! ## One word -/

theorem sameOutside_write {addr : Addr} {n : Nat} {m : Mem} {bs : List Byte} (h : bs.length ≤ n) :
    SameOutside addr n m (m.write addr bs) := fun _ hx => Mem.write_outside (Nat.le_trans h hx)

/-- A first part of a word that is merged with what is there changes nothing behind the bytes merged in. -/
theorem sameOutside_merge {addr : Addr} {m : Mem} {buf : List Byte} (n : Nat) :
    SameOutside addr buf.length m (m.write addr ((buf ++ (m.read addr 8).drop buf.length).take n)) := by
  intro x hx
  have hword := congrFun (write_merge m addr buf) x
  rw [Mem.write_outside hx] at hword
  unfold Mem.write at hword ⊢
  rw [List.getElem?_take]
  split
  · exact hword
  · rfl

/-! ## All of them -/

theorem SameOutside.words {addr : Addr} {n : Nat} {m m' : Mem} {bs : List Byte} (hbs : bs.length = 8) (hn : 8 ≤ n)
    (h : SameOutside (addr + 8) (n - 8) (m.write addr bs) m') : SameOutside addr n m m' := by
  intro x hx
  have hx8 : n - 8 ≤ (x - (addr + 8)).toNat := by bv_omega
  rw [h x hx8]
  exact Mem.write_outside (by omega)

theorem writeBytesRequests_outside (outcome : PokeOutcomes) : ∀ (longs k : Nat) (buf : List Byte) (addr : Addr) (m : Mem),
    buf.length / 8 = longs → SameOutside addr buf.length m (writeBytesRequests outcome longs k buf addr m).1
  | 0, k, buf, addr, m, _         => by
    unfold writeBytesRequests
    split
    · exact fun _ _ => rfl
    · cases outcome k with
      | some n => exact fun _ _ => rfl
      | none =>
        cases outcome (k + 1) with
        | some n => exact sameOutside_merge n
        | none =>
          intro x hx
          have := congrFun (write_merge m addr buf) x
          rw [Mem.write_outside hx] at this
          exact this
  | longs + 1, k, buf, addr, m, hl => by
    have htake : (buf.take 8).length = 8 := by
      rw [List.length_take]
      omega
    unfold writeBytesRequests
    cases outcome k with
    | some n =>
      refine sameOutside_write ?_
      rw [List.length_take, htake]
      omega
    | none =>
      have ih := writeBytesRequests_outside outcome longs (k + 1) (buf.drop 8) (addr + 8) (m.write addr (buf.take 8))
        (by rw [List.length_drop]; omega)
      rw [List.length_drop] at ih
      exact ih.words htake (by omega)

theorem writeBytesRequests_done (outcome : PokeOutcomes) : ∀ (longs k : Nat) (buf : List Byte) (addr : Addr) (m : Mem),
    buf.length / 8 = longs → buf.length < 2 ^ 64 → (writeBytesRequests outcome longs k buf addr m).2 = true →
      (writeBytesRequests outcome longs k buf addr m).1 = m.write addr buf
  | 0, k, buf, addr, m, _, _, h          => by
    unfold writeBytesRequests at h ⊢
    split
    · rename_i hnil
      rw [hnil, write_nil]
    · rename_i hne
      rw [if_neg hne] at h
      cases hpeek : outcome k with
      | some n =>
        rw [hpeek] at h
        cases h
      | none =>
        rw [hpeek] at h
        cases hpoke : outcome (k + 1) with
        | some n =>
          rw [hpoke] at h
          cases h
        | none => exact write_merge m addr buf
  | longs + 1, k, buf, addr, m, hl, hlt, h => by
    have htake : (buf.take 8).length = 8 := by
      rw [List.length_take]
      omega
    unfold writeBytesRequests at h ⊢
    cases hpoke : outcome k with
    | some n =>
      rw [hpoke] at h
      cases h
    | none =>
      rw [hpoke] at h
      have ih := writeBytesRequests_done outcome longs (k + 1) (buf.drop 8) (addr + 8) (m.write addr (buf.take 8))
        (by rw [List.length_drop]; omega) (by rw [List.length_drop]; omega) h
      have happ := Mem.write_append m addr (buf.take 8) (buf.drop 8) (by rw [htake, List.length_drop]; omega)
      rw [htake, List.take_append_drop] at happ
      exact ih.trans happ

/-- **`write_bytes_ptrace` has an exact footprint**, whichever requests fail. -/
theorem writeBytesPtrace_footprint (outcome : PokeOutcomes) (buf : List Byte) (addr : Addr) (m : Mem)
    (hn : buf.length < 2 ^ 64) :
    ((writeBytesPtraceWith outcome buf addr m).2 = true →
      (writeBytesPtraceWith outcome buf addr m).1.read addr buf.length = buf) ∧
    SameOutside addr buf.length m (writeBytesPtraceWith outcome buf addr m).1 := by
  refine ⟨fun h => ?_, writeBytesRequests_outside outcome _ 0 buf addr m rfl⟩
  unfold writeBytesPtraceWith
  rw [writeBytesRequests_done outcome _ 0 buf addr m rfl hn h]
  exact Mem.read_write_self m addr buf (Nat.le_of_lt hn)

/-- Eleven bytes, the last three merged into a word; and the same when that word is not written. -/
theorem writeBytesPtrace_footprint_tail :
    (writeBytesPtraceWith (fun _ => none) (List.replicate 11 1) 0x1000 (fun _ => 7)).1.read 0x1000 11 =
      List.replicate 11 1 ∧
    SameOutside 0x1000 11 (fun _ => 7)
      (writeBytesPtraceWith (fun _ => none) (List.replicate 11 1) 0x1000 (fun _ => 7)).1 ∧
    SameOutside 0x1000 11 (fun _ => 7)
      (writeBytesPtraceWith (fun k => if k = 2 then some 3 else none) (List.replicate 11 1) 0x1000 (fun _ => 7)).1 ∧
    (writeBytesPtraceWith (fun k => if k = 2 then some 3 else none) (List.replicate 11 1) 0x1000 (fun _ => 7)).2 =
      false := by
  obtain ⟨hread, houtside⟩ :=
    writeBytesPtrace_footprint (fun _ => none) (List.replicate 11 1) 0x1000 (fun _ => 7) (by decide)
  exact ⟨hread rfl, houtside,
    (writeBytesPtrace_footprint _ (List.replicate 11 1) 0x1000 (fun _ => 7) (by decide)).2, by decide⟩

end Libpulp
