import Libpulp.Extract
/-!
# Maps — the protection of a page (lib/insn_queue.c)

libpulp learns the protection of a page from `/proc/self/maps`, one line for each mapping.  The lines are text that the
kernel prints (`mapsLine`) and `memory_protection_get` parses again from a buffer of `LINE_MAX` bytes.  For a page it
finds what its mapping says, unless the file cannot be read that far or a line up to there does not fit
(`memoryProtectionGet_eq_some`); one line that is too long hides all mappings behind it.
-/
namespace Libpulp

open Bytes (Byte Addr)

def lineMax : Nat := 2048

/-- `0x` is skipped when a digit follows it. -/
def skipHexPrefix : List Byte → List Byte
  | 48 :: x :: d :: t => if (x = 120 ∨ x = 88) ∧ (hexValue d).isSome then d :: t else 48 :: x :: d :: t
  | cs                => cs

/-- `strtoul(str, &end, 16)`: the value and what `end` points to. -/
def strtoulHex (str : List Byte) : Nat × List Byte :=
  let cs := str.dropWhile isspace
  let neg := cs.head? = some 45
  let cs := skipHexPrefix (if cs.head? = some 43 ∨ neg then cs.tail else cs)
  let ds := cs.takeWhile (fun c => (hexValue c).isSome)
  let value := ds.foldl (fun n c => 16 * n + (hexValue c).getD 0) 0
  if ds = [] then (0, str)
  else (if 2 ^ 64 ≤ value then 2 ^ 64 - 1 else if neg then (2 ^ 64 - value) % 2 ^ 64 else value, cs.drop ds.length)

/-! ## What the kernel prints -/

/-- A mapping: its addresses, whether it can be read, written and executed, and the rest of its line. -/
structure Vma where
  start   : Addr
  finish  : Addr
  read    : Bool
  write   : Bool
  execute : Bool
  rest    : List Byte
deriving DecidableEq

/-- `PROT_READ`, `PROT_WRITE` and `PROT_EXEC` are 1, 2 and 4. -/
def Vma.prot (v : Vma) : Nat :=
  (if v.read then 1 else 0) ||| (if v.write then 2 else 0) ||| (if v.execute then 4 else 0)

def Vma.contains (v : Vma) (addr : Addr) : Bool := v.start ≤ addr && addr < v.finish

/-- The last `w` hexadecimal digits of a number. -/
def hexFixed : Nat → Nat → List Byte
  | 0, _     => []
  | w + 1, n => hexFixed w (n / 16) ++ [hexDigit (n % 16)]

/-- `%08lx`. -/
def hexLong (a : Addr) : List Byte := hexFixed (((List.range' 8 9).find? (fun w => a.toNat < 16 ^ w)).getD 16) a.toNat

/-- A line of `/proc/self/maps`, without the newline that ends it. -/
def mapsLine (v : Vma) : List Byte :=
  hexLong v.start ++ 45 :: (hexLong v.finish ++ 32 :: (if v.read then 114 else 45) :: (if v.write then 119 else 45) ::
    (if v.execute then 120 else 45) :: v.rest)

/-! ## What libpulp reads -/

/-- How reading `/proc/self/maps` goes: whether it can be opened, and the number of lines before a `read` fails. -/
structure MapsAccess where
  opens     : Bool
  failsLine : Option Nat

/-- `read_line` of a line that can be read: the bytes it returns, `none` for -1.  The newline stays in the buffer. -/
def readLine (line : List Byte) (buf : List Byte) : Option (Nat × List Byte) :=
  if lineMax ≤ line.length then none else some (line.length, line ++ 10 :: buf.drop (line.length + 1))

/-- The loop of `memory_protection_get` over the lines left, `failsLine` counted from the next; `none` for -1. -/
def protectionFrom (addr : Addr) : Option Nat → List Byte → List (List Byte) → Option Nat
  | _, _, []                      => none
  | failsLine, buf, line :: lines =>
    if failsLine = some 0 then none
    else
      match readLine line buf with
      | none            => none
      | some (len, buf) =>
        if len = 0 then none
        else
          let r₁ := strtoulHex buf
          let r₂ := strtoulHex r₁.2.tail
          if addr.toNat < r₁.1 ∨ r₂.1 ≤ addr.toNat then protectionFrom addr (failsLine.map (· - 1)) buf lines
          else
            some ((if r₂.2.getD 1 0 = 114 then 1 else 0) ||| (if r₂.2.getD 2 0 = 119 then 2 else 0) |||
              (if r₂.2.getD 3 0 = 120 then 4 else 0))

/-- `memory_protection_get`, with what the buffer held before. -/
def memoryProtectionGet (access : MapsAccess) (stale : List Byte) (lines : List (List Byte)) (addr : Addr) : Option Nat :=
  if access.opens then protectionFrom addr access.failsLine stale lines else none

/-! ## Reading what was printed -/

theorem hexFixed_digits : ∀ (w n : Nat), ∀ c ∈ hexFixed w n, ∃ d < 16, c = hexDigit d
  | 0, _, c, hc     => by cases hc
  | w + 1, n, c, hc => by
    rw [hexFixed, List.mem_append, List.mem_singleton] at hc
    rcases hc with hc | rfl
    · exact hexFixed_digits w (n / 16) c hc
    · exact ⟨n % 16, by omega, rfl⟩

@[simp] theorem length_hexFixed : ∀ (w n : Nat), (hexFixed w n).length = w
  | 0, _     => rfl
  | w + 1, n => by rw [hexFixed, List.length_append, length_hexFixed w, List.length_singleton]

theorem hexFixed_value : ∀ (w n : Nat),
    (hexFixed w n).foldl (fun n c => 16 * n + (hexValue c).getD 0) 0 = n % 16 ^ w
  | 0, n     => by rw [pow_zero, Nat.mod_one]; rfl
  | w + 1, n => by
    have hd := (hexDigit_spec (n % 16) (by omega)).1
    rw [hexFixed, List.foldl_append, hexFixed_value w, List.foldl_cons, List.foldl_nil, hd, Option.getD_some,
      Nat.pow_succ', Nat.mod_mul, Nat.add_comm]

theorem skipHexPrefix_of_ne {c x : Byte} (h : x ≠ 120 ∧ x ≠ 88) (t : List Byte) :
    skipHexPrefix (c :: x :: t) = c :: x :: t := by
  unfold skipHexPrefix
  split
  · rename_i heq
    simp only [List.cons.injEq] at heq
    obtain ⟨rfl, rfl, rfl⟩ := heq
    rw [if_neg (by simp [h.1, h.2])]
  · rfl

/-- **What `strtoul` makes of printed digits.** -/
theorem strtoulHex_hexFixed {w n : Nat} (hw : 2 ≤ w) (hn : n < 16 ^ w) (hlt : n < 2 ^ 64) {c : Byte} (rest : List Byte)
    (hc : hexValue c = none) : strtoulHex (hexFixed w n ++ c :: rest) = (n, c :: rest) := by
  have hdig := hexFixed_digits w n
  have hlen := length_hexFixed w n
  have hval := hexFixed_value w n
  rw [Nat.mod_eq_of_lt hn] at hval
  generalize hexFixed w n = ds at hdig hlen hval
  obtain ⟨d₁, d₂, ds, rfl⟩ : ∃ d₁ d₂ ds', ds = d₁ :: d₂ :: ds' := by
    rcases ds with _ | ⟨d₁, _ | ⟨d₂, ds⟩⟩
    · simp at hlen; omega
    · simp at hlen; omega
    · exact ⟨d₁, d₂, ds, rfl⟩
  have hall : ∀ c ∈ d₁ :: d₂ :: ds, (hexValue c).isSome = true := fun c hc => by
    obtain ⟨d, hd, rfl⟩ := hdig c hc
    rw [(hexDigit_spec d hd).1]
    rfl
  obtain ⟨d, hd, rfl⟩ := hdig d₁ List.mem_cons_self
  obtain ⟨-, hspace, hplus, hminus, -⟩ := hexDigit_spec d hd
  have hx : d₂ ≠ 120 ∧ d₂ ≠ 88 := by
    obtain ⟨e, he, rfl⟩ := hdig d₂ (by simp)
    exact (by decide : ∀ e < 16, hexDigit e ≠ 120 ∧ hexDigit e ≠ 88) e he
  have htake : (hexDigit d :: d₂ :: ds ++ c :: rest).takeWhile (fun c => (hexValue c).isSome) =
      hexDigit d :: d₂ :: ds := by
    rw [List.takeWhile_append_of_pos hall, List.takeWhile_cons, hc]
    simp
  have hdrop : (hexDigit d :: d₂ :: ds ++ c :: rest).dropWhile isspace = hexDigit d :: d₂ :: (ds ++ c :: rest) := by
    rw [List.cons_append, List.dropWhile_cons_of_neg (by rw [hspace]; decide)]
    rfl
  have hneg : (hexDigit d :: d₂ :: ds ++ c :: rest).head? ≠ some 45 := by simp [hminus]
  have hplus' : (hexDigit d :: d₂ :: ds ++ c :: rest).head? ≠ some 43 := by simp [hplus]
  unfold strtoulHex
  rw [hdrop, show hexDigit d :: d₂ :: (ds ++ c :: rest) = hexDigit d :: d₂ :: ds ++ c :: rest from rfl]
  simp only [hneg, hplus', or_self, if_false]
  rw [show hexDigit d :: d₂ :: ds ++ c :: rest = hexDigit d :: d₂ :: (ds ++ c :: rest) from rfl, skipHexPrefix_of_ne hx,
    show hexDigit d :: d₂ :: (ds ++ c :: rest) = hexDigit d :: d₂ :: ds ++ c :: rest from rfl, htake, hval,
    if_neg (by simp), if_neg (by omega), List.drop_left]

theorem hexLong_eq (a : Addr) : ∃ w, 2 ≤ w ∧ a.toNat < 16 ^ w ∧ hexLong a = hexFixed w a.toNat := by
  unfold hexLong
  cases hf : (List.range' 8 9).find? (fun w => a.toNat < 16 ^ w) with
  | none => exact ⟨16, by decide, a.isLt, rfl⟩
  | some w =>
    have hw := List.mem_range'_1.1 (List.mem_of_find?_eq_some hf)
    exact ⟨w, by omega, by simpa using List.find?_some hf, rfl⟩

theorem strtoulHex_hexLong (a : Addr) {c : Byte} (rest : List Byte) (hc : hexValue c = none) :
    strtoulHex (hexLong a ++ c :: rest) = (a.toNat, c :: rest) := by
  obtain ⟨w, hw, hlt, he⟩ := hexLong_eq a
  rw [he]
  exact strtoulHex_hexFixed hw hlt a.isLt rest hc

/-- **The addresses and the protection of a line are those of its mapping.** -/
theorem strtoulHex_mapsLine (v : Vma) (t : List Byte) :
    strtoulHex (mapsLine v ++ t) = (v.start.toNat, 45 :: (hexLong v.finish ++ 32 :: (if v.read then 114 else 45) ::
        (if v.write then 119 else 45) :: (if v.execute then 120 else 45) :: (v.rest ++ t))) ∧
      strtoulHex (strtoulHex (mapsLine v ++ t)).2.tail = (v.finish.toNat, 32 :: (if v.read then 114 else 45) ::
        (if v.write then 119 else 45) :: (if v.execute then 120 else 45) :: (v.rest ++ t)) := by
  have h₁ : strtoulHex (mapsLine v ++ t) = (v.start.toNat, 45 :: (hexLong v.finish ++ 32 ::
      (if v.read then 114 else 45) :: (if v.write then 119 else 45) :: (if v.execute then 120 else 45) ::
        (v.rest ++ t))) := by
    unfold mapsLine
    simp only [List.append_assoc, List.cons_append]
    exact strtoulHex_hexLong v.start _ (by decide)
  refine ⟨h₁, ?_⟩
  rw [h₁, List.tail_cons]
  exact strtoulHex_hexLong v.finish _ (by decide)

theorem mapsLine_ne_nil (v : Vma) : (mapsLine v).length ≠ 0 := by simp [mapsLine]

/-- The mapping of an address is found: the file is opened, no `read` fails before its line is read, and that line and
all lines before it are shorter than the buffer. -/
def Found (access : MapsAccess) (vmas : List Vma) (addr : Addr) : Prop :=
  access.opens = true ∧ ∃ before v after, vmas = before ++ v :: after ∧ v.contains addr = true ∧
    (∀ u ∈ before, u.contains addr = false) ∧ (∀ u ∈ before ++ [v], (mapsLine u).length < lineMax) ∧
      ∀ k, access.failsLine = some k → before.length < k

/-- The protection of the mapping with the address, if there is one. -/
def protOf (vmas : List Vma) (addr : Addr) : Option Nat := (vmas.find? (fun v => v.contains addr)).map Vma.prot

theorem protectionFrom_cons (addr : Addr) (failsLine : Option Nat) (buf : List Byte) (v : Vma)
    (lines : List (List Byte)) :
    protectionFrom addr failsLine buf (mapsLine v :: lines) =
      if failsLine = some 0 ∨ lineMax ≤ (mapsLine v).length then none
      else if v.contains addr then some v.prot
      else
        protectionFrom addr (failsLine.map (· - 1)) (mapsLine v ++ 10 :: buf.drop ((mapsLine v).length + 1)) lines := by
  rw [protectionFrom, readLine]
  by_cases hf : failsLine = some 0
  · rw [if_pos hf, if_pos (Or.inl hf)]
  by_cases hl : lineMax ≤ (mapsLine v).length
  · rw [if_neg hf, if_pos hl, if_pos (Or.inr hl)]
  obtain ⟨h₁, h₂⟩ := strtoulHex_mapsLine v (10 :: buf.drop ((mapsLine v).length + 1))
  rw [if_neg hf, if_neg hl, if_neg (not_or.2 ⟨hf, hl⟩)]
  simp only [if_neg (mapsLine_ne_nil v), h₂]
  rw [h₁]
  have hc : v.contains addr = true ↔ ¬ (addr.toNat < v.start.toNat ∨ v.finish.toNat ≤ addr.toNat) := by
    simp only [Vma.contains, Bool.and_eq_true, decide_eq_true_eq, BitVec.le_def, BitVec.lt_def]
    omega
  by_cases hin : v.contains addr = true
  · rw [if_pos hin, if_neg (hc.1 hin)]
    cases hr : v.read <;> cases hw : v.write <;> cases hx : v.execute <;> simp [Vma.prot, hr, hw, hx]
  · rw [if_neg hin, if_pos (by rw [hc] at hin; exact not_not.1 hin)]

theorem protectionFrom_found (addr : Addr) : ∀ (before : List Vma) (v : Vma) (after : List Vma) (failsLine : Option Nat)
    (buf : List Byte), v.contains addr = true → (∀ u ∈ before, u.contains addr = false) →
      (∀ u ∈ before ++ [v], (mapsLine u).length < lineMax) → (∀ k, failsLine = some k → before.length < k) →
        protectionFrom addr failsLine buf ((before ++ v :: after).map mapsLine) = some v.prot
  | [], v, after, failsLine, buf, hv, _, hl, hk => by
    have h0 : failsLine ≠ some 0 := fun h => absurd (hk 0 h) (by simp)
    have hlv := hl v (by simp)
    rw [List.nil_append, List.map_cons, protectionFrom_cons, if_neg (not_or.2 ⟨h0, by omega⟩), if_pos hv]
  | u :: before, v, after, failsLine, buf, hv, hn, hl, hk => by
    have h0 : failsLine ≠ some 0 := fun h => absurd (hk 0 h) (by simp)
    have hlu := hl u (by simp)
    rw [List.cons_append, List.map_cons, protectionFrom_cons, if_neg (not_or.2 ⟨h0, by omega⟩),
      if_neg (by rw [hn u List.mem_cons_self]; decide)]
    refine protectionFrom_found addr before v after _ _ hv (fun w hw => hn w (List.mem_cons_of_mem _ hw))
      (fun w hw => hl w (List.mem_cons_of_mem _ hw)) (fun k h => ?_)
    obtain ⟨j, hj, rfl⟩ := Option.map_eq_some_iff.1 h
    have := hk j hj
    rw [List.length_cons] at this
    omega

theorem found_of_protectionFrom (addr : Addr) : ∀ (vmas : List Vma) (failsLine : Option Nat) (buf : List Byte) (p : Nat),
    protectionFrom addr failsLine buf (vmas.map mapsLine) = some p →
      ∃ before v after, vmas = before ++ v :: after ∧ v.contains addr = true ∧
        (∀ u ∈ before, u.contains addr = false) ∧ (∀ u ∈ before ++ [v], (mapsLine u).length < lineMax) ∧
          ∀ k, failsLine = some k → before.length < k
  | [], _, _, _, h               => by cases h
  | v :: vs, failsLine, buf, p, h => by
    rw [List.map_cons, protectionFrom_cons] at h
    split at h
    · cases h
    rename_i hne
    rw [not_or, Nat.not_le] at hne
    split at h
    · rename_i hv
      refine ⟨[], v, vs, rfl, hv, by simp, by simpa using hne.2, fun k hk => ?_⟩
      have h0 : k ≠ 0 := fun h0 => hne.1 (h0 ▸ hk)
      exact Nat.pos_of_ne_zero h0
    · rename_i hv
      obtain ⟨before, w, after, rfl, hw, hn, hl, hk⟩ := found_of_protectionFrom addr vs _ _ p h
      refine ⟨v :: before, w, after, rfl, hw, ?_, ?_, fun k hf => ?_⟩
      · exact List.forall_mem_cons.2 ⟨by simpa using hv, hn⟩
      · exact List.forall_mem_cons.2 ⟨hne.2, hl⟩
      · have h0 : k ≠ 0 := fun h0 => hne.1 (h0 ▸ hf)
        have := hk (k - 1) (by rw [hf]; rfl)
        rw [List.length_cons]
        omega

theorem protOf_append {before after : List Vma} {v : Vma} {addr : Addr} (hv : v.contains addr = true)
    (hn : ∀ u ∈ before, u.contains addr = false) : protOf (before ++ v :: after) addr = some v.prot := by
  have hnone : before.find? (fun u => u.contains addr) = none := List.find?_eq_none.2 (fun u hu => by
    rw [hn u hu]
    decide)
  have hfirst : (v :: after).find? (fun u => u.contains addr) = some v := List.find?_cons_of_pos hv
  unfold protOf
  rw [List.find?_append, hnone, Option.none_or, hfirst, Option.map_some]

theorem Found.protOf_ne_none {access : MapsAccess} {vmas : List Vma} {addr : Addr} (h : Found access vmas addr) :
    protOf vmas addr ≠ none := by
  obtain ⟨-, before, v, after, rfl, hv, hn, -⟩ := h
  rw [protOf_append hv hn]
  exact Option.some_ne_none _

/-- **`memory_protection_get` answers when the mapping is found, and with its protection.** -/
theorem memoryProtectionGet_eq_some {access : MapsAccess} {stale : List Byte} {vmas : List Vma} {addr : Addr} {p : Nat} :
    memoryProtectionGet access stale (vmas.map mapsLine) addr = some p ↔
      Found access vmas addr ∧ protOf vmas addr = some p := by
  unfold memoryProtectionGet Found
  by_cases ho : access.opens = true
  · rw [if_pos ho]
    constructor
    · intro h
      obtain ⟨before, v, after, rfl, hv, hn, hl, hk⟩ := found_of_protectionFrom addr vmas _ _ p h
      rw [protectionFrom_found addr before v after _ _ hv hn hl hk] at h
      exact ⟨⟨ho, before, v, after, rfl, hv, hn, hl, hk⟩, (protOf_append hv hn).trans h⟩
    · rintro ⟨⟨-, before, v, after, rfl, hv, hn, hl, hk⟩, hp⟩
      rw [protOf_append hv hn] at hp
      rw [protectionFrom_found addr before v after _ _ hv hn hl hk, hp]
  · rw [if_neg ho]
    exact ⟨fun h => (by cases h), fun h => absurd h.1.1 ho⟩

/-! ## The answer for any listing -/

/-- **`memory_protection_get` is right if and only if no mapping has the address or the lines up to that of its mapping
fit the buffer.** -/
theorem memoryProtectionGet_right_iff (stale : List Byte) (vmas : List Vma) (addr : Addr) :
    memoryProtectionGet ⟨true, none⟩ stale (vmas.map mapsLine) addr = protOf vmas addr ↔
      protOf vmas addr = none ∨ Found ⟨true, none⟩ vmas addr := by
  cases hp : protOf vmas addr with
  | none =>
    refine ⟨fun _ => Or.inl rfl, fun _ => ?_⟩
    apply Option.eq_none_iff_forall_ne_some.2
    intro p h
    have := (memoryProtectionGet_eq_some.1 h).2
    rw [hp] at this
    cases this
  | some p =>
    rw [memoryProtectionGet_eq_some, hp]
    simp

/-- `p 00000000 08:01 7 /aaa…`, with 2048 letters. -/
def longRest : List Byte :=
  [112, 32, 48, 48, 48, 48, 48, 48, 48, 48, 32, 48, 56, 58, 48, 49, 32, 55, 32, 47] ++
    List.replicate 2048 97

/-- A mapping with a long path, and one of no file behind it. -/
def longMapping : List Vma :=
  [⟨0x1000, 0x2000, true, false, false, longRest⟩,
   ⟨0x3000, 0x4000, true, false, true, [112, 32, 48, 48, 48, 48, 48, 48, 48, 48, 32, 48, 48, 58, 48, 48, 32, 48, 32]⟩]

/-- A path of half of `PATH_MAX` hides the mapping behind it. -/
theorem long_line_hides : ¬ ∀ (stale : List Byte) (vmas : List Vma) (addr : Addr),
    memoryProtectionGet ⟨true, none⟩ stale (vmas.map mapsLine) addr = protOf vmas addr := by
  intro h
  have hright := h [] longMapping 0x3000
  have hp : protOf longMapping 0x3000 = some 5 := rfl
  have hlong : lineMax ≤ (mapsLine ⟨0x1000, 0x2000, true, false, false, longRest⟩).length := by
    unfold mapsLine lineMax longRest
    simp only [List.length_append, List.length_cons, List.length_replicate]
    omega
  have hnone : memoryProtectionGet ⟨true, none⟩ [] (longMapping.map mapsLine) 0x3000 = none := by
    unfold memoryProtectionGet longMapping
    rw [if_pos rfl, List.map_cons, protectionFrom_cons, if_pos (Or.inr hlong)]
  rw [hnone, hp] at hright
  cases hright

end Libpulp
