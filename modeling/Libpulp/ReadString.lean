import Libpulp.ReadState
/-!
# ReadString — remote strings read word by word (tools/ptrace.c)

`read_string` stores eight bytes at a time into a buffer that it doubles, and stops with the first word that `hasbytezero`
says has a zero byte.  The bit trick is exact (`hasbytezero_iff`), so the last word read is the one with the string's NUL
(`readString_exact`).  `ReadState.readString` is this loop with the buffer left out (`readString_eq`).  Memory of the tool
is always there: `malloc` and `realloc` are not looked at.
-/
namespace Libpulp
namespace ReadString

open Bytes (Byte Addr Mem Buf toLE ofLE addrOfLE cstr)
open ReadState (Target hasbytezero)

/-- Where `read_string` stands: the next address, the index `i`, the words `string` has room for, what is in it, and the
addresses of the words asked for. -/
structure Reading where
  addr          : Addr
  i             : Nat
  bufferWordLen : Nat
  string        : Buf
  asked         : List Addr

inductive Outcome where
  | outside                                      -- `string[i]` is behind the buffer
  | failed (asked : List Addr)
  | returned (string : Buf) (asked : List Addr)

/-- Grow the buffer if the string won't fit in it. -/
def Reading.grow (s : Reading) : Reading :=
  if s.i ≥ s.bufferWordLen then { s with bufferWordLen := s.bufferWordLen * 2 } else s

/-- `read_long(&string[i], pid, addr)`, with what it leaves of the word. -/
def Reading.store (s : Reading) (word : Buf) : Reading :=
  { s with string := s.string.write (8 * s.i) (word.read 0 8), asked := s.asked ++ [s.addr] }

/-- To the next word. -/
def Reading.next (s : Reading) : Reading := { s with addr := s.addr + 8, i := s.i + 1 }

def readStringLoop (t : Target) : Nat → Reading → Option Outcome
  | 0, _        => none
  | fuel + 1, s =>
    if s.grow.bufferWordLen ≤ s.grow.i then some .outside
    else
      (t.readLong s.grow.addr fuel).bind (fun (ret, word) =>
        let s := s.grow.store word
        if ret ≠ 0 then some (.failed s.asked)
        else if hasbytezero (addrOfLE (s.string.read (8 * s.i) 8)) then some (.returned s.string s.asked)
        else readStringLoop t fuel s.next)

def readString (t : Target) (addr : Addr) (fuel : Nat) : Option Outcome := readStringLoop t fuel ⟨addr, 0, 8, t.fresh, []⟩

/-! ## Zero bytes -/

/-- The bit trick on `n` bytes, in arithmetic: no borrow passes a byte before the first zero byte. -/
def zeroBits (n x : Nat) : Nat :=
  (x + (256 ^ n - ofLE (List.replicate n 1))) % 256 ^ n &&& (256 ^ n - 1 - x) &&& ofLE (List.replicate n 128)

theorem land_byte (a b x y : Nat) (ha : a < 256) (hb : b < 256) :
    (a + 256 * x) &&& (b + 256 * y) = (a &&& b) + 256 * (x &&& y) := by
  have hmod : ((a + 256 * x) &&& (b + 256 * y)) % 2 ^ 8 = a &&& b := by
    rw [Nat.and_mod_two_pow]
    congr 1 <;> omega
  have hdiv : ((a + 256 * x) &&& (b + 256 * y)) / 2 ^ 8 = x &&& y := by
    rw [Nat.and_div_two_pow]
    congr 1 <;> omega
  omega

theorem ofLE_replicate_lt (n : Nat) (b : Byte) : ofLE (List.replicate n b) < 256 ^ n := by
  have := Bytes.ofLE_lt (List.replicate n b)
  rwa [List.length_replicate] at this

/-- A byte that is not zero leaves no bit and no borrow. -/
theorem zeroBits_succ_of_ne (n b x : Nat) (hb : b < 256) (h0 : b ≠ 0) (hx : x < 256 ^ n) :
    zeroBits (n + 1) (b + 256 * x) = 256 * zeroBits n x := by
  have hones := ofLE_replicate_lt n 1
  have hpow : 256 ^ (n + 1) = 256 * 256 ^ n := Nat.pow_succ'
  have h1 : ofLE (List.replicate (n + 1) (1 : Byte)) = 1 + 256 * ofLE (List.replicate n (1 : Byte)) := rfl
  have h128 : ofLE (List.replicate (n + 1) (128 : Byte)) = 128 + 256 * ofLE (List.replicate n (128 : Byte)) := rfl
  have hsub : (b + 256 * x + (256 ^ (n + 1) - ofLE (List.replicate (n + 1) (1 : Byte)))) % 256 ^ (n + 1) =
      (b - 1) + 256 * ((x + (256 ^ n - ofLE (List.replicate n (1 : Byte)))) % 256 ^ n) := by
    have hdigits : ∀ y, (b - 1 + 256 * y) % 256 = b - 1 ∧ (b - 1 + 256 * y) / 256 = y := by omega
    rw [h1, hpow, show b + 256 * x + (256 * 256 ^ n - (1 + 256 * ofLE (List.replicate n (1 : Byte)))) =
      (b - 1) + 256 * (x + (256 ^ n - ofLE (List.replicate n (1 : Byte)))) by omega, Nat.mod_mul,
      (hdigits _).1, (hdigits _).2]
  have hnot : 256 ^ (n + 1) - 1 - (b + 256 * x) = (255 - b) + 256 * (256 ^ n - 1 - x) := by omega
  have hbit : ∀ c < 256, c ≠ 0 → (c - 1) &&& (255 - c) &&& 128 = 0 := by decide +kernel
  unfold zeroBits
  rw [hsub, hnot, h128, land_byte _ _ _ _ (by omega) (by omega),
    land_byte _ _ _ _ (Nat.lt_of_le_of_lt Nat.and_le_left (by omega)) (by omega), hbit b hb h0]
  omega

theorem zeroBits_succ_zero (n x : Nat) (hx : x < 256 ^ n) : zeroBits (n + 1) (256 * x) ≠ 0 := by
  have hones := ofLE_replicate_lt n 1
  have hpow : 256 ^ (n + 1) = 256 * 256 ^ n := Nat.pow_succ'
  have h1 : ofLE (List.replicate (n + 1) (1 : Byte)) = 1 + 256 * ofLE (List.replicate n (1 : Byte)) := rfl
  have h128 : ofLE (List.replicate (n + 1) (128 : Byte)) = 128 + 256 * ofLE (List.replicate n (128 : Byte)) := rfl
  intro h
  have hlow : zeroBits (n + 1) (256 * x) % 2 ^ 8 = 128 := by
    unfold zeroBits
    rw [Nat.and_mod_two_pow, Nat.and_mod_two_pow, h1, h128, hpow]
    have ha : (256 * x + (256 * 256 ^ n - (1 + 256 * ofLE (List.replicate n (1 : Byte))))) % (256 * 256 ^ n) % 2 ^ 8 =
        255 := by
      rw [Nat.mod_mul]
      omega
    have hb : (256 * 256 ^ n - 1 - 256 * x) % 2 ^ 8 = 255 := by omega
    have hc : (128 + 256 * ofLE (List.replicate n (128 : Byte))) % 2 ^ 8 = 128 := by omega
    rw [ha, hb, hc]
    decide
  rw [h] at hlow
  omega

theorem zeroBits_ne_zero : ∀ bs : List Byte, zeroBits bs.length (ofLE bs) ≠ 0 ↔ 0 ∈ bs
  | []      => by simp [zeroBits, ofLE]
  | b :: bs => by
    have hlt := Bytes.ofLE_lt bs
    have hb : b.toNat < 256 := UInt8.toNat_lt b
    rw [List.length_cons, ofLE, List.mem_cons]
    by_cases h0 : b = 0
    · subst h0
      rw [show (0 : Byte).toNat + 256 * ofLE bs = 256 * ofLE bs by simp]
      exact ⟨fun _ => Or.inl rfl, fun _ => zeroBits_succ_zero _ _ hlt⟩
    · have hne : b.toNat ≠ 0 := fun h => h0 (UInt8.toNat_inj.1 h)
      rw [zeroBits_succ_of_ne _ _ _ hb hne hlt, ← zeroBits_ne_zero bs]
      constructor
      · intro h
        exact Or.inr (by omega)
      · rintro (h | h)
        · exact absurd h.symm h0
        · omega

/-- **`hasbytezero` is true exactly when one of the eight bytes is zero.** -/
theorem hasbytezero_iff (l : BitVec 64) : hasbytezero l = true ↔ 0 ∈ toLE 8 l.toNat := by
  have hl : l.toNat < 256 ^ 8 := l.isLt
  have hlen : (toLE 8 l.toNat).length = 8 := Bytes.length_toLE 8 _
  have hbits : ((l - 0x0101010101010101#64) &&& ~~~l &&& 0x8080808080808080#64).toNat = zeroBits 8 l.toNat := by
    have hone : (0x0101010101010101#64).toNat = ofLE (List.replicate 8 1) := by decide +kernel
    have h128 : (0x8080808080808080#64).toNat = ofLE (List.replicate 8 128) := by decide +kernel
    rw [BitVec.toNat_and, BitVec.toNat_and, BitVec.toNat_sub, BitVec.toNat_not, hone, h128, Nat.add_comm]
    rfl
  have hz := zeroBits_ne_zero (toLE 8 l.toNat)
  rw [hlen, Bytes.ofLE_toLE_of_lt hl] at hz
  rw [← hz, ← hbits, hasbytezero, bne_iff_ne, ne_eq, ne_eq, BitVec.toNat_eq]
  rfl

theorem hasbytezero_addrOfLE {bs : List Byte} (h : bs.length = 8) : hasbytezero (addrOfLE bs) = true ↔ 0 ∈ bs := by
  have hlt := Bytes.ofLE_lt bs
  rw [h] at hlt
  have hword : (addrOfLE bs).toNat = ofLE bs := by
    unfold addrOfLE
    rw [BitVec.toNat_ofNat]
    exact Nat.mod_eq_of_lt hlt
  have hbytes := Bytes.toLE_ofLE bs
  rw [h] at hbytes
  rw [hasbytezero_iff, hword, hbytes]

/-! ## The loop -/

variable {t : Target} {addr : Addr}

/-- The eight bytes from an address on can be read. -/
def WordReadable (t : Target) (a : Addr) : Prop := t.processVmReadv a 8 = .ok 8

theorem readLong_of_readable {a : Addr} (h : WordReadable t a) :
    ∃ word, (∀ fuel, t.readLong a (fuel + 1) = some (0, word)) ∧ word.read 0 8 = t.mem.read a 8 := by
  refine ⟨t.fresh.write 0 (t.mem.read a 8), fun fuel => ?_, ?_⟩
  · have hcall : t.processVmReadv a Transfer.sizeofLong = .ok 8 := h
    unfold Target.readLong Transfer.readLong Transfer.transferLoop
    rw [hcall]
    rfl
  · have hself := Buf.read_write_self t.fresh 0 (t.mem.read a 8)
    rwa [Mem.length_read] at hself

/-- There is room for the words stored, and they are the ones asked for. -/
structure Fits (s : Reading) : Prop where
  room    : 0 < s.bufferWordLen
  upTo    : s.i ≤ s.bufferWordLen
  counted : s.asked.length = s.i

theorem Fits.start (addr : Addr) (string : Buf) : Fits ⟨addr, 0, 8, string, []⟩ := ⟨Nat.succ_pos 7, Nat.zero_le 8, rfl⟩

theorem Fits.grow {s : Reading} (h : Fits s) : Fits s.grow ∧ s.grow.i < s.grow.bufferWordLen := by
  have := h.room
  have := h.upTo
  unfold Reading.grow
  split
  · exact ⟨⟨by simp only; omega, by simp only; omega, h.counted⟩, by simp only; omega⟩
  · exact ⟨h, by omega⟩

theorem Fits.next {s : Reading} (h : Fits s) (hroom : s.i < s.bufferWordLen) (word : Buf) : Fits (s.store word).next := by
  refine ⟨h.room, hroom, ?_⟩
  simp only [Reading.next, Reading.store]
  rw [List.length_append, h.counted]
  rfl

/-- **Nothing is written behind the buffer**, whatever the memory. -/
theorem readStringLoop_inside (t : Target) : ∀ (fuel : Nat) (s : Reading), Fits s →
    readStringLoop t fuel s ≠ some .outside
  | 0, _, _        => by simp [readStringLoop]
  | fuel + 1, s, h => by
    obtain ⟨hfits, hlt⟩ := h.grow
    unfold readStringLoop
    rw [if_neg (Nat.not_le_of_lt hlt)]
    intro hout
    obtain ⟨⟨ret, word⟩, -, hrest⟩ := Option.bind_eq_some_iff.1 hout
    have hnext := hfits.next hlt word
    simp only at hrest
    split at hrest
    · cases hrest
    · split at hrest
      · cases hrest
      · exact readStringLoop_inside t fuel _ hnext hrest

/-- The words that `read_string` hands out. -/
def Outcome.words : Outcome → Option (List Byte)
  | outside               => none
  | failed _              => none
  | returned string asked => some (string.read 0 (8 * asked.length))

theorem readStringFrom_eq (t : Target) : ∀ (fuel : Nat) (s : Reading), Fits s →
    ReadState.readStringFrom t fuel s.addr (s.string.read 0 (8 * s.i)) = (readStringLoop t fuel s).map Outcome.words
  | 0, _, _        => rfl
  | fuel + 1, s, h => by
    obtain ⟨hfits, hlt⟩ := h.grow
    have hsame : s.grow.addr = s.addr ∧ s.grow.i = s.i ∧ s.grow.string = s.string := by
      unfold Reading.grow
      split <;> exact ⟨rfl, rfl, rfl⟩
    rw [← hsame.1, ← hsame.2.1, ← hsame.2.2, readStringLoop, if_neg (Nat.not_le_of_lt hlt), ReadState.readStringFrom]
    generalize s.grow = s at hfits hlt
    cases hread : t.readLong s.addr fuel with
    | none   => rfl
    | some r =>
      obtain ⟨ret, word⟩ := r
      have hself := Buf.read_write_self s.string (8 * s.i) (word.read 0 8)
      rw [Buf.length_read] at hself
      have hword : (s.store word).string.read (8 * (s.store word).i) 8 = word.read 0 8 := hself
      have hnext : (s.store word).next.string.read 0 (8 * (s.store word).next.i) =
          s.string.read 0 (8 * s.i) ++ word.read 0 8 := by
        simp only [Reading.next, Reading.store]
        rw [Nat.mul_succ, Buf.read_add, Nat.zero_add, hself, Buf.read_write_before _ (by omega)]
      rw [Option.bind_some, Option.bind_some]
      simp only
      rw [hword]
      split
      · rfl
      · split
        · have hcount := (hfits.next hlt word).counted
          simp only [Option.map_some, Outcome.words]
          rw [← hnext, ← hcount]
          rfl
        · rw [← hnext]
          exact readStringFrom_eq t fuel _ (hfits.next hlt word)

/-- **The loop without its buffer is the same loop.** -/
theorem readString_eq (t : Target) (addr : Addr) (fuel : Nat) :
    ReadState.readString t addr fuel = (readString t addr fuel).map Outcome.words :=
  readStringFrom_eq t fuel _ (Fits.start addr t.fresh)

/-- **The words read so far**: they are the memory's from `addr` on, and those asked for. -/
structure Along (t : Target) (addr : Addr) (s : Reading) : Prop extends Fits s where
  here   : s.addr = addr + BitVec.ofNat 64 (8 * s.i)
  stored : s.string.read 0 (8 * s.i) = t.mem.read addr (8 * s.i)
  asked  : s.asked = (List.range s.i).map (fun j => addr + BitVec.ofNat 64 (8 * j))

theorem Along.grow {s : Reading} (h : Along t addr s) : Along t addr s.grow := by
  refine ⟨h.toFits.grow.1, ?_, ?_, ?_⟩
  · unfold Reading.grow
    split
    · exact h.here
    · exact h.here
  · unfold Reading.grow
    split
    · exact h.stored
    · exact h.stored
  · unfold Reading.grow
    split
    · exact h.asked
    · exact h.asked

theorem Along.store {s : Reading} (h : Along t addr s) (hroom : s.i < s.bufferWordLen) {word : Buf}
    (hword : word.read 0 8 = t.mem.read s.addr 8) : Along t addr (s.store word).next := by
  refine ⟨h.toFits.next hroom word, ?_, ?_, ?_⟩
  · simp only [Reading.next, Reading.store, h.here]
    rw [Nat.mul_succ, BitVec.ofNat_add, BitVec.add_assoc]
    rfl
  · simp only [Reading.next, Reading.store]
    have hself := Buf.read_write_self s.string (8 * s.i) (word.read 0 8)
    rw [Buf.length_read] at hself
    rw [Nat.mul_succ, Buf.read_add, Nat.zero_add, hself, Buf.read_write_before _ (by omega), h.stored, hword, h.here,
      Mem.read_add]
  · simp only [Reading.next, Reading.store]
    rw [List.range_succ, List.map_append, h.asked, h.here]
    rfl

theorem readStringLoop_step {s : Reading} (h : Along t addr s) (hr : WordReadable t s.addr) :
    ∃ s', Along t addr s' ∧ s'.i = s.i + 1 ∧ ∀ fuel, readStringLoop t (fuel + 2) s =
      if (0 : Byte) ∈ t.mem.read s.addr 8 then some (.returned s'.string s'.asked)
      else readStringLoop t (fuel + 1) s' := by
  have haddr : s.grow.addr = s.addr := by
    unfold Reading.grow
    split <;> rfl
  have hi : s.grow.i = s.i := by
    unfold Reading.grow
    split <;> rfl
  have hlt := h.toFits.grow.2
  rw [← haddr] at hr
  obtain ⟨word, hread, hword⟩ := readLong_of_readable hr
  have hnext : (s.grow.store word).next.i = s.i + 1 := by simp only [Reading.next, Reading.store, hi]
  refine ⟨(s.grow.store word).next, h.grow.store hlt hword, hnext, fun fuel => ?_⟩
  have hself := Buf.read_write_self s.grow.string (8 * s.grow.i) (word.read 0 8)
  rw [Buf.length_read] at hself
  have hzero : hasbytezero (addrOfLE ((s.grow.store word).string.read (8 * (s.grow.store word).i) 8)) = true ↔
      (0 : Byte) ∈ t.mem.read s.addr 8 := by
    rw [show (s.grow.store word).string.read (8 * (s.grow.store word).i) 8 = word.read 0 8 from hself,
      hasbytezero_addrOfLE (Buf.length_read _ _ _), hword, haddr]
  rw [readStringLoop, if_neg (Nat.not_le_of_lt hlt), hread fuel, Option.bind_some]
  simp only [ne_eq, not_true_eq_false, if_false]
  by_cases hz : (0 : Byte) ∈ t.mem.read s.addr 8
  · rw [if_pos (hzero.2 hz), if_pos hz]
    rfl
  · rw [if_neg (fun hn => hz (hzero.1 hn)), if_neg hz]

theorem mem_read_iff (m : Mem) (a : Addr) (n : Nat) :
    (0 : Byte) ∈ m.read a n ↔ ∃ i < n, m (a + BitVec.ofNat 64 i) = 0 := by
  rw [List.mem_iff_getElem]
  constructor
  · rintro ⟨i, hi, h⟩
    rw [Mem.getElem_read] at h
    exact ⟨i, by rwa [Mem.length_read] at hi, h⟩
  · rintro ⟨i, hi, h⟩
    exact ⟨i, by rwa [Mem.length_read], by rw [Mem.getElem_read, h]⟩

/-- The word `j` has a NUL if the string ends in it, and none if it ends later. -/
theorem nul_mem_word {k j : Nat} (hk : t.mem (addr + BitVec.ofNat 64 k) = 0)
    (hfirst : ∀ i < k, t.mem (addr + BitVec.ofNat 64 i) ≠ 0) (hj : j ≤ k / 8) :
    (0 : Byte) ∈ t.mem.read (addr + BitVec.ofNat 64 (8 * j)) 8 ↔ j = k / 8 := by
  rw [mem_read_iff]
  constructor
  · rintro ⟨i, hi, h⟩
    rw [BitVec.add_assoc, ← BitVec.ofNat_add] at h
    by_contra hne
    exact hfirst (8 * j + i) (by omega) h
  · rintro rfl
    refine ⟨k % 8, Nat.mod_lt _ (by decide), ?_⟩
    rw [BitVec.add_assoc, ← BitVec.ofNat_add, Nat.div_add_mod, hk]

/-- The rest of a string: `d` words before the last one. -/
theorem readStringLoop_exact {k : Nat} (hk : t.mem (addr + BitVec.ofNat 64 k) = 0)
    (hfirst : ∀ i < k, t.mem (addr + BitVec.ofNat 64 i) ≠ 0)
    (hr : ∀ j ≤ k / 8, WordReadable t (addr + BitVec.ofNat 64 (8 * j))) :
    ∀ (d : Nat) (s : Reading), Along t addr s → s.i + d = k / 8 →
      ∃ s', Along t addr s' ∧ s'.i = k / 8 + 1 ∧
        ∀ fuel, readStringLoop t (fuel + d + 2) s = some (.returned s'.string s'.asked)
  | 0, s, h, hd     => by
    have hread : WordReadable t s.addr := by
      rw [h.here]
      exact hr s.i (by omega)
    obtain ⟨s', h', hi, hstep⟩ := readStringLoop_step h hread
    have hlast : (0 : Byte) ∈ t.mem.read s.addr 8 := by
      rw [h.here]
      exact (nul_mem_word hk hfirst (by omega)).2 hd
    refine ⟨s', h', by omega, fun fuel => ?_⟩
    have := hstep fuel
    rwa [if_pos hlast] at this
  | d + 1, s, h, hd => by
    have hread : WordReadable t s.addr := by
      rw [h.here]
      exact hr s.i (by omega)
    obtain ⟨s', h', hi, hstep⟩ := readStringLoop_step h hread
    have hlater : ¬ (0 : Byte) ∈ t.mem.read s.addr 8 := by
      rw [h.here]
      intro hmem
      have := (nul_mem_word hk hfirst (by omega)).1 hmem
      omega
    obtain ⟨s'', h'', hi'', hrest⟩ := readStringLoop_exact hk hfirst hr d s' h' (by omega)
    refine ⟨s'', h'', hi'', fun fuel => ?_⟩
    have := hstep (fuel + d + 1)
    rw [if_neg hlater] at this
    exact this.trans (hrest fuel)

theorem cstr_read {k n : Nat} (hk : t.mem (addr + BitVec.ofNat 64 k) = 0)
    (hfirst : ∀ i < k, t.mem (addr + BitVec.ofNat 64 i) ≠ 0) (hn : k < n) :
    cstr (t.mem.read addr n) = t.mem.read addr k := by
  obtain ⟨r, rfl⟩ : ∃ r, n = k + (1 + r) := ⟨n - k - 1, by omega⟩
  have hno : (0 : Byte) ∉ t.mem.read addr k := by
    rw [mem_read_iff]
    rintro ⟨i, hi, h⟩
    exact hfirst i hi h
  rw [Mem.read_add, Nat.add_comm 1 r, Mem.read, hk, Bytes.cstr_of_noNul hno]

/-- The buffer returned is the whole words of the string. -/
theorem readString_returned {k : Nat} (hk : t.mem (addr + BitVec.ofNat 64 k) = 0)
    (hfirst : ∀ i < k, t.mem (addr + BitVec.ofNat 64 i) ≠ 0)
    (hr : ∀ j ≤ k / 8, WordReadable t (addr + BitVec.ofNat 64 (8 * j))) : ∃ string : Buf,
      (∀ fuel ≥ k / 8 + 2, readString t addr fuel =
        some (.returned string ((List.range (k / 8 + 1)).map (fun j => addr + BitVec.ofNat 64 (8 * j))))) ∧
      string.read 0 (8 * (k / 8 + 1)) = t.mem.read addr (8 * (k / 8 + 1)) := by
  have hstart : Along t addr ⟨addr, 0, 8, t.fresh, []⟩ :=
    ⟨Fits.start addr t.fresh, (BitVec.add_zero addr).symm, rfl, rfl⟩
  obtain ⟨s, hs, hi, hrun⟩ := readStringLoop_exact hk hfirst hr (k / 8) _ hstart (Nat.zero_add _)
  refine ⟨s.string, fun fuel hf => ?_, hi ▸ hs.stored⟩
  have := hrun (fuel - (k / 8 + 2))
  rw [show fuel - (k / 8 + 2) + k / 8 + 2 = fuel by omega, hs.asked, hi] at this
  exact this

theorem readString_words {k : Nat} (hk : t.mem (addr + BitVec.ofNat 64 k) = 0)
    (hfirst : ∀ i < k, t.mem (addr + BitVec.ofNat 64 i) ≠ 0)
    (hr : ∀ j ≤ k / 8, WordReadable t (addr + BitVec.ofNat 64 (8 * j))) (fuel : Nat) (hf : k / 8 + 2 ≤ fuel) :
    ∃ words, ReadState.readString t addr fuel = some (some words) ∧ cstr words = t.mem.read addr k := by
  obtain ⟨string, hrun, hstored⟩ := readString_returned hk hfirst hr
  refine ⟨string.read 0 (8 * (k / 8 + 1)), ?_, ?_⟩
  · rw [readString_eq, hrun fuel hf, Option.map_some, Outcome.words, List.length_map, List.length_range]
  · rw [hstored]
    exact cstr_read hk hfirst (by omega)

/-- **Reading a remote string is exact.**  If the first NUL at or after `addr` is `k` bytes behind it and the words up to
the one that holds it can be read, `read_string` asks for these words and no other and returns the string at `addr`.  It
never writes behind its buffer, and `hasbytezero` is true of the words with a zero byte. -/
theorem readString_exact (t : Target) (addr : Addr) (k : Nat) (hk : t.mem (addr + BitVec.ofNat 64 k) = 0)
    (hfirst : ∀ i < k, t.mem (addr + BitVec.ofNat 64 i) ≠ 0)
    (hr : ∀ j ≤ k / 8, WordReadable t (addr + BitVec.ofNat 64 (8 * j))) :
    (∃ string : Buf, (∀ fuel ≥ k / 8 + 2, readString t addr fuel =
        some (.returned string ((List.range (k / 8 + 1)).map (fun j => addr + BitVec.ofNat 64 (8 * j))))) ∧
      string.read 0 (k + 1) = t.mem.read addr (k + 1) ∧ cstr (string.read 0 (8 * (k / 8 + 1))) = t.mem.read addr k) ∧
    (∀ (t : Target) (addr : Addr) (fuel : Nat), readString t addr fuel ≠ some .outside) ∧
    ∀ l : BitVec 64, hasbytezero l = true ↔ 0 ∈ toLE 8 l.toNat := by
  obtain ⟨string, hrun, hstored⟩ := readString_returned hk hfirst hr
  refine ⟨⟨string, hrun, ?_, ?_⟩, fun t addr fuel => ?_, hasbytezero_iff⟩
  · obtain ⟨r, hrest⟩ : ∃ r, 8 * (k / 8 + 1) = k + 1 + r := ⟨8 * (k / 8 + 1) - (k + 1), by omega⟩
    rw [hrest, Buf.read_add, Mem.read_add] at hstored
    exact (List.append_inj hstored (by simp)).1
  · rw [hstored]
    exact cstr_read hk hfirst (by omega)
  · exact readStringLoop_inside t fuel _ (Fits.start addr t.fresh)

/-- A memory that holds `libpulp.so`, in two words. -/
theorem readString_exact_libpulp : let t : Target := ⟨Mem.write (fun _ => 7) 16 (".libpulp.so".toUTF8.toList ++ [0]),
      fun _ n => .ok n, fun _ => 0, fun _ => true, 0⟩
    ∃ string : Buf, (∀ fuel ≥ 3, readString t 17 fuel = some (.returned string [17, 25])) ∧
      string.read 0 11 = t.mem.read 17 11 ∧ cstr (string.read 0 16) = t.mem.read 17 10 := by
  intro t
  have h := (readString_exact t 17 10 (by decide +kernel) (by decide +kernel) (fun _ _ => rfl)).1
  exact h

end ReadString
end Libpulp
