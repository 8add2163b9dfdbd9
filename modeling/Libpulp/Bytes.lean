import Mathlib.Data.List.Basic
import Mathlib.Data.BitVec
/-!
# Bytes — little-endian words, byte buffers and a byte-addressed memory

General facts, used by every module that reads or writes a binary layout.  Words are encoded least significant byte
first (`toLE`, `ofLE`).  A memory (`Mem`) maps 64-bit addresses to bytes, and a region `[a, a + n)` is taken modulo
`2^64`: an address `x` lies in it when `(x - a).toNat < n`.  A buffer (`Buf`) is the same with natural offsets.
-/
namespace Bytes

abbrev Byte := UInt8
abbrev Addr := BitVec 64

/-! ## Little-endian words -/

/-- The `w` little-endian bytes of `n`; what does not fit is dropped. -/
def toLE : Nat → Nat → List Byte
  | 0, _     => []
  | w + 1, n => UInt8.ofNat n :: toLE w (n / 256)

def ofLE : List Byte → Nat
  | []      => 0
  | b :: bs => b.toNat + 256 * ofLE bs

@[simp] theorem length_toLE : ∀ (w n : Nat), (toLE w n).length = w
  | 0, _     => rfl
  | w + 1, n => by rw [toLE, List.length_cons, length_toLE w]

theorem ofLE_toLE : ∀ (w n : Nat), ofLE (toLE w n) = n % 256 ^ w
  | 0, n     => by simp [toLE, ofLE, Nat.mod_one]
  | w + 1, n => by
    have hb : (UInt8.ofNat n).toNat = n % 256 := UInt8.toNat_ofNat'
    rw [toLE, ofLE, ofLE_toLE w, hb, Nat.pow_succ', Nat.mod_mul (a := 256)]

theorem ofLE_toLE_of_lt {w n : Nat} (h : n < 256 ^ w) : ofLE (toLE w n) = n := by
  rw [ofLE_toLE, Nat.mod_eq_of_lt h]

theorem ofLE_lt : ∀ bs : List Byte, ofLE bs < 256 ^ bs.length
  | []      => by simp [ofLE]
  | b :: bs => by
    have hb : b.toNat < 256 := UInt8.toNat_lt b
    have := ofLE_lt bs
    rw [ofLE, List.length_cons, Nat.pow_succ']
    omega

theorem toLE_ofLE : ∀ bs : List Byte, toLE bs.length (ofLE bs) = bs
  | []      => rfl
  | b :: bs => by
    have hb : b.toNat < 256 := UInt8.toNat_lt b
    have hd : (b.toNat + 256 * ofLE bs) / 256 = ofLE bs := by omega
    have hm : UInt8.ofNat (b.toNat + 256 * ofLE bs) = b := by
      rw [← UInt8.toNat_inj, UInt8.toNat_ofNat']
      omega
    rw [List.length_cons, ofLE, toLE, hd, hm, toLE_ofLE bs]

/-- The address a little-endian 8-byte field holds. -/
def addrOfLE (bs : List Byte) : Addr := BitVec.ofNat 64 (ofLE bs)

@[simp] theorem addrOfLE_toLE (a : Addr) : addrOfLE (toLE 8 a.toNat) = a := by
  have ha : a.toNat < 256 ^ 8 := a.isLt
  unfold addrOfLE
  rw [ofLE_toLE_of_lt ha, BitVec.ofNat_toNat, BitVec.setWidth_eq]

theorem map_range_getD (l : List Byte) : (List.range l.length).map (fun i => l.getD i 0) = l := by
  apply List.ext_getElem
  · rw [List.length_map, List.length_range]
  · intro i h₁ h₂
    simp [List.getD_eq_getElem?_getD, h₂]

/-! ## C strings -/

/-- The C string a buffer holds: its bytes up to the first NUL. -/
def cstr (b : List Byte) : List Byte := b.takeWhile (· != 0)

theorem cstr_of_noNul {s : List Byte} (h : (0 : Byte) ∉ s) (t : List Byte) : cstr (s ++ 0 :: t) = s := by
  unfold cstr
  rw [List.takeWhile_append_of_pos (fun x hx => by
    have : x ≠ 0 := fun h0 => h (h0 ▸ hx)
    simpa using this)]
  simp

theorem noNul_cstr (b : List Byte) : (0 : Byte) ∉ cstr b := by
  intro h
  have := List.all_eq_true.1 (List.all_takeWhile (p := (· != (0 : Byte))) (l := b)) 0 h
  simp at this

/-! ## Memory -/

abbrev Mem := Addr → Byte

namespace Mem

def read (m : Mem) (a : Addr) : Nat → List Byte
  | 0     => []
  | n + 1 => m a :: read m (a + 1) n

def write (m : Mem) (a : Addr) (bs : List Byte) : Mem := fun x => (bs[(x - a).toNat]?).getD (m x)

@[simp] theorem length_read (m : Mem) : ∀ (n : Nat) (a : Addr), (read m a n).length = n
  | 0, _     => rfl
  | n + 1, a => by rw [read, List.length_cons, length_read m n]

theorem add_ofNat_succ (a : Addr) (i : Nat) : a + BitVec.ofNat 64 (i + 1) = a + 1 + BitVec.ofNat 64 i := by
  rw [Nat.add_comm i 1, BitVec.ofNat_add, ← BitVec.add_assoc]
  rfl

theorem getElem_read (m : Mem) : ∀ (n : Nat) (a : Addr) (i : Nat) (h : i < (read m a n).length),
    (read m a n)[i] = m (a + BitVec.ofNat 64 i)
  | 0, _, _, h     => absurd h (by simp [read])
  | n + 1, a, 0, _ => by simp [read]
  | n + 1, a, i + 1, h => by
    simp only [read, List.getElem_cons_succ]
    rw [getElem_read m n (a + 1) i, add_ofNat_succ]

theorem read_congr {m m' : Mem} {a : Addr} {n : Nat}
    (h : ∀ i < n, m (a + BitVec.ofNat 64 i) = m' (a + BitVec.ofNat 64 i)) : read m a n = read m' a n := by
  refine List.ext_getElem (by simp) (fun i hi _ => ?_)
  rw [length_read] at hi
  rw [getElem_read, getElem_read, h i hi]

theorem read_add (m : Mem) (k : Nat) : ∀ (n : Nat) (a : Addr),
    read m a (n + k) = read m a n ++ read m (a + BitVec.ofNat 64 n) k
  | 0, a     => by simp [read]
  | n + 1, a => by
    rw [Nat.succ_add, read, read, read_add m k n (a + 1), add_ofNat_succ, List.cons_append]

/-- If memory holds `xs ++ ys` from `a` on, it holds `xs` at `a` and `ys` right after. -/
theorem read_eq_append {m : Mem} {a : Addr} {n : Nat} {xs ys : List Byte} (h : read m a n = xs ++ ys) :
    read m a xs.length = xs ∧ read m (a + BitVec.ofNat 64 xs.length) (n - xs.length) = ys := by
  have hn : n = xs.length + (n - xs.length) := by
    have := congrArg List.length h
    rw [length_read, List.length_append] at this
    omega
  rw [hn, read_add] at h
  exact List.append_inj h (by simp)

theorem sub_ofNat_toNat (a : Addr) {i : Nat} (hi : i < 2 ^ 64) : (a + BitVec.ofNat 64 i - a).toNat = i := by
  rw [BitVec.add_comm, BitVec.add_sub_cancel, BitVec.toNat_ofNat, Nat.mod_eq_of_lt hi]

/-- A write leaves every address outside its region alone. -/
theorem write_outside {m : Mem} {a x : Addr} {bs : List Byte} (h : bs.length ≤ (x - a).toNat) :
    write m a bs x = m x := by
  unfold write
  rw [List.getElem?_eq_none h, Option.getD_none]

theorem write_inside {m : Mem} {a : Addr} {bs : List Byte} {i : Nat} (hi : i < bs.length) (h : i < 2 ^ 64) :
    write m a bs (a + BitVec.ofNat 64 i) = bs[i] := by
  unfold write
  rw [sub_ofNat_toNat a h, List.getElem?_eq_getElem hi, Option.getD_some]

theorem read_write_self (m : Mem) (a : Addr) (bs : List Byte) (h : bs.length ≤ 2 ^ 64) :
    read (write m a bs) a bs.length = bs := by
  refine List.ext_getElem (by simp) (fun i hi hi' => ?_)
  rw [getElem_read, write_inside hi' (by omega)]

/-- Two regions share no address. -/
def Disj (a : Addr) (n : Nat) (b : Addr) (k : Nat) : Prop := ∀ x : Addr, (x - a).toNat < n → k ≤ (x - b).toNat

theorem Disj.symm {a b : Addr} {n k : Nat} (h : Disj a n b k) : Disj b k a n := fun x hx =>
  Nat.le_of_not_lt (fun hx' => Nat.not_le_of_lt hx (h x hx'))

theorem Disj.mono {a b : Addr} {n n' k k' : Nat} (h : Disj a n b k) (hn : n' ≤ n) (hk : k' ≤ k) : Disj a n' b k' :=
  fun x hx => Nat.le_trans hk (h x (Nat.lt_of_lt_of_le hx hn))

/-- The region `[b, b + k)` lies in `[a, a + n)`. -/
def Sub (b : Addr) (k : Nat) (a : Addr) (n : Nat) : Prop := ∀ x : Addr, (x - b).toNat < k → (x - a).toNat < n

theorem Disj.sub {a b c : Addr} {n k j : Nat} (h : Disj a n b k) (hs : Sub c j b k) : Disj a n c j := fun x hx =>
  Nat.le_of_not_lt (fun hx' => Nat.not_lt_of_le (h x hx) (hs x hx'))

theorem read_write_disj {m : Mem} {a b : Addr} {n : Nat} {bs : List Byte} (h : Disj a n b bs.length)
    (hn : n ≤ 2 ^ 64) : read (write m b bs) a n = read m a n :=
  read_congr (fun i hi => write_outside (h _ (by rw [sub_ofNat_toNat a (by omega)]; exact hi)))

/-- Writing two adjacent pieces one after the other is writing them at once. -/
theorem write_append (m : Mem) (a : Addr) (xs ys : List Byte) (h : xs.length + ys.length ≤ 2 ^ 64) :
    write (write m a xs) (a + BitVec.ofNat 64 xs.length) ys = write m a (xs ++ ys) := by
  funext x
  unfold write
  by_cases hx : (x - a).toNat < xs.length
  · rw [List.getElem?_append_left hx]
    have : ys.length ≤ (x - (a + BitVec.ofNat 64 xs.length)).toNat := by bv_omega
    rw [List.getElem?_eq_none this, Option.getD_none]
  · rw [List.getElem?_append_right (by omega)]
    have hsub : (x - (a + BitVec.ofNat 64 xs.length)).toNat = (x - a).toNat - xs.length := by bv_omega
    rw [hsub, List.getElem?_eq_none (l := xs) (by omega), Option.getD_none]

end Mem

/-! ## Buffers -/

abbrev Buf := Nat → Byte

namespace Buf

def read (b : Buf) (o n : Nat) : List Byte := (List.range n).map (fun i => b (o + i))

def write (b : Buf) (o : Nat) (bs : List Byte) : Buf := fun i => if o ≤ i then (bs[i - o]?).getD (b i) else b i

@[simp] theorem length_read (b : Buf) (o n : Nat) : (read b o n).length = n := by simp [read]

theorem write_before {b : Buf} {o i : Nat} (bs : List Byte) (h : i < o) : write b o bs i = b i := by
  unfold write
  rw [if_neg (by omega)]

theorem write_after {b : Buf} {o i : Nat} {bs : List Byte} (h : o + bs.length ≤ i) : write b o bs i = b i := by
  unfold write
  rw [if_pos (by omega), List.getElem?_eq_none (by omega), Option.getD_none]

theorem read_congr {b b' : Buf} {o n : Nat} (h : ∀ i < n, b (o + i) = b' (o + i)) : read b o n = read b' o n :=
  List.map_congr_left (fun i hi => h i (List.mem_range.1 hi))

theorem read_add (b : Buf) (o n k : Nat) : read b o (n + k) = read b o n ++ read b (o + n) k := by
  unfold read
  rw [List.range_add, List.map_append, List.map_map]
  simp [Function.comp_def, Nat.add_assoc]

theorem read_eq_append {b : Buf} {o n : Nat} {xs ys : List Byte} (h : read b o n = xs ++ ys) :
    read b o xs.length = xs ∧ read b (o + xs.length) (n - xs.length) = ys := by
  have hn : n = xs.length + (n - xs.length) := by
    have := congrArg List.length h
    rw [length_read, List.length_append] at this
    omega
  rw [hn, read_add] at h
  exact List.append_inj h (by simp)

theorem read_write_self (b : Buf) (o : Nat) (bs : List Byte) : read (write b o bs) o bs.length = bs := by
  refine List.ext_getElem (by simp) (fun i hi hi' => ?_)
  simp only [read, List.getElem_map, List.getElem_range, write]
  rw [if_pos (by omega), Nat.add_sub_cancel_left, List.getElem?_eq_getElem hi', Option.getD_some]

theorem read_write_before {b : Buf} {o o' n : Nat} (bs : List Byte) (h : o' + n ≤ o) :
    read (write b o bs) o' n = read b o' n :=
  read_congr (fun _ hi => write_before bs (by omega))

end Buf
end Bytes
