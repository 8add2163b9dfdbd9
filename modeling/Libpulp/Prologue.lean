import Libpulp.Tool
/-!
# Prologue — what the queued writes do to function entries

`Shows m f o`: the bytes at `f` redirect to `t` (`o = some t`) or fall into the body (`o = none`).  A prologue write for
`f` makes `f` show what it was written for, and the writes for other functions leave that alone when the patch regions
are disjoint: the bytes `f` is judged by lie in its own region, save two that could make a function without `endbr64`
look like one with it, and what can be written there is the start of another function's padding.
-/
namespace Libpulp

open Bytes (Byte Addr Mem toLE addrOfLE addrOfLE_toLE length_toLE)

/-- What the entry of a function shows. -/
def Shows (m : Mem) (f : Addr) : Option Addr → Prop
  | some t => redirectTarget m f = some t
  | none   => nopEntry m f = true

/-! ## The function itself -/

theorem patchedPrologue_eq (e : Bool) (t : Addr) : patchedPrologue e t =
    [0xff, 0x25, 0, 0, 0, 0] ++ (toLE 8 t.toNat ++ ((if e then insnEndbr64 else []) ++
      [0xeb, if e then 0xec else 0xf0])) := by
  cases e <;> rfl

theorem redirectTarget_of {m : Mem} {f t : Addr} {e : Bool} (he : hasEndbr64 m f = e)
    (h0 : m (f + entryBias e) = 0xeb) (h1 : m (f + entryBias e + 1) = if e then 0xec else 0xf0)
    (hj : m.read (f - 14) 6 = [0xff, 0x25, 0, 0, 0, 0]) (ht : m.read (f - 8) 8 = toLE 8 t.toNat) :
    redirectTarget m f = some t := by
  have hback : f + entryBias e + 2 + rel8 (m (f + entryBias e + 1)) = f - 14 := by
    rw [h1]
    cases e with
    | false =>
      have hr : rel8 0xf0 = 0xfffffffffffffff0 := by decide
      simp only [entryBias, Bool.false_eq_true, if_false, hr]
      bv_omega
    | true =>
      have hr : rel8 0xec = 0xffffffffffffffec := by decide
      simp only [entryBias, if_true, hr]
      bv_omega
  unfold redirectTarget
  simp only [he]
  rw [if_pos ⟨h0, hback, hj⟩, ht, addrOfLE_toLE]

theorem bytes_of_read {m : Mem} {a : Addr} {x y : Byte} (h : m.read a 2 = [x, y]) : m a = x ∧ m (a + 1) = y := by
  simpa [Mem.read] using h

/-- **A patched prologue leads to the new function.** -/
theorem patched_redirects (m : Mem) (f t : Addr) (e : Bool) :
    hasEndbr64 (m.write (f - 14) (patchedPrologue e t)) f = e ∧
      redirectTarget (m.write (f - 14) (patchedPrologue e t)) f = some t := by
  have hlen : (patchedPrologue e t).length ≤ 2 ^ 64 := by rw [length_patchedPrologue]; split <;> decide
  have h := Mem.read_write_self m (f - 14) (patchedPrologue e t) hlen
  generalize m.write (f - 14) (patchedPrologue e t) = m' at h ⊢
  nth_rewrite 2 [patchedPrologue_eq] at h
  obtain ⟨h₁, h⟩ := Mem.read_eq_append h
  obtain ⟨h₂, h⟩ := Mem.read_eq_append h
  obtain ⟨h₃, h₄⟩ := Mem.read_eq_append h
  have a₂ : f - 14 + BitVec.ofNat 64 6 = f - 8 := by bv_omega
  have a₃ : f - 8 + BitVec.ofNat 64 8 = f := by bv_omega
  simp only [List.length_cons, List.length_nil, Nat.zero_add, Nat.reduceAdd, length_toLE, a₂, a₃,
    length_patchedPrologue] at h₁ h₂ h₃ h₄
  cases e with
  | false =>
    obtain ⟨h0, h1⟩ := bytes_of_read (show m'.read f 2 = [0xeb, 0xf0] by simpa using h₄)
    have he : hasEndbr64 m' f = false := by simp [hasEndbr64, Mem.read, insnEndbr64, h0]
    exact ⟨he, redirectTarget_of he (by simpa [entryBias] using h0) (by simpa [entryBias] using h1) h₁ h₂⟩
  | true =>
    have he : hasEndbr64 m' f = true := by simpa [hasEndbr64, insnEndbr64] using h₃
    obtain ⟨h0, h1⟩ := bytes_of_read (show m'.read (f + 4) 2 = [0xeb, 0xec] by simpa [insnEndbr64] using h₄)
    exact ⟨he, redirectTarget_of he h0 h1 h₁ h₂⟩

/-- **An unpatched prologue falls through.** -/
theorem unpatched_nop (m : Mem) (f : Addr) (e : Bool) (he : hasEndbr64 m f = e) :
    hasEndbr64 (m.write (f + entryBias e) insnNop2) f = e ∧ nopEntry (m.write (f + entryBias e) insnNop2) f = true := by
  obtain ⟨h0, h1⟩ := bytes_of_read (Mem.read_write_self m (f + entryBias e) insnNop2 (by decide))
  have he' : hasEndbr64 (m.write (f + entryBias e) insnNop2) f = e := by
    cases e with
    | false =>
      have h0' : m.write f insnNop2 f = 0x66 := by simpa [entryBias] using h0
      simp [hasEndbr64, Mem.read, insnEndbr64, entryBias, h0']
    | true =>
      have hd : Mem.Disj f 4 (f + 4) insnNop2.length := fun x hx => by
        simp only [insnNop2, List.length_cons, List.length_nil]
        bv_omega
      unfold hasEndbr64 at he ⊢
      rw [entryBias, if_pos rfl, Mem.read_write_disj hd (by decide), he]
  refine ⟨he', ?_⟩
  unfold nopEntry
  simp only [he']
  rw [h0, h1]
  rfl

/-! ## Other functions -/

/-- The length of the patch region, which starts 14 bytes before the entry. -/
def patchLen (endbr : Bool) : Nat := if endbr then 20 else 16

/-- The two memories agree on `[a, a + n)`. -/
def AgreeOn (m m' : Mem) (a : Addr) (n : Nat) : Prop := ∀ x : Addr, (x - a).toNat < n → m' x = m x

theorem AgreeOn.mono {m m' : Mem} {a : Addr} {n k : Nat} (h : AgreeOn m m' a n) (hk : k ≤ n) : AgreeOn m m' a k :=
  fun x hx => h x (Nat.lt_of_lt_of_le hx hk)

theorem AgreeOn.read {m m' : Mem} {a b : Addr} {n k : Nat} (h : AgreeOn m m' a n) (hs : Mem.Sub b k a n)
    (hk : k ≤ 2 ^ 64) : m'.read b k = m.read b k :=
  Mem.read_congr (fun i hi => h _ (hs _ (by rw [Mem.sub_ofNat_toNat b (by omega)]; exact hi)))

theorem AgreeOn.refl (m : Mem) (a : Addr) (n : Nat) : AgreeOn m m a n := fun _ _ => rfl

theorem AgreeOn.trans {m m' m'' : Mem} {a : Addr} {n : Nat} (h : AgreeOn m m' a n) (h' : AgreeOn m' m'' a n) :
    AgreeOn m m'' a n := fun x hx => (h' x hx).trans (h x hx)

theorem agreeOn_write {m : Mem} {a b : Addr} {n : Nat} {bs : List Byte} (h : Mem.Disj a n b bs.length) :
    AgreeOn m (m.write b bs) a n := fun x hx => Mem.write_outside (h x hx)

/-- What an entry shows is decided by its patch region and by whether it starts with `endbr64`. -/
theorem Shows.congr {m m' : Mem} {f : Addr} {o : Option Addr} (he : hasEndbr64 m' f = hasEndbr64 m f)
    (h : AgreeOn m m' (f - 14) (patchLen (hasEndbr64 m f))) (hs : Shows m f o) : Shows m' f o := by
  have h0 : m' (f + entryBias (hasEndbr64 m f)) = m (f + entryBias (hasEndbr64 m f)) := by
    apply h _
    cases hasEndbr64 m f <;> simp only [entryBias, patchLen, Bool.false_eq_true, if_false, if_true] <;> bv_omega
  have h1 : m' (f + entryBias (hasEndbr64 m f) + 1) = m (f + entryBias (hasEndbr64 m f) + 1) := by
    apply h _
    cases hasEndbr64 m f <;> simp only [entryBias, patchLen, Bool.false_eq_true, if_false, if_true] <;> bv_omega
  have h16 : AgreeOn m m' (f - 14) 16 := h.mono (by unfold patchLen; split <;> omega)
  have hj : m'.read (f - 14) 6 = m.read (f - 14) 6 := h16.read (fun x hx => by omega) (by decide)
  have ht : m'.read (f - 8) 8 = m.read (f - 8) 8 := h16.read (fun x hx => by bv_omega) (by decide)
  cases o with
  | none =>
    unfold Shows nopEntry at *
    simp only [he, h0, h1] at *
    exact hs
  | some t =>
    unfold Shows redirectTarget at *
    simp only [he, h0, h1, hj, ht] at *
    exact hs

theorem hasEndbr64_congr {m m' : Mem} {f : Addr} (h : AgreeOn m m' f 4) : hasEndbr64 m' f = hasEndbr64 m f := by
  unfold hasEndbr64
  rw [h.read (fun x hx => hx) (by decide)]

theorem hasEndbr64_iff {m : Mem} {f : Addr} :
    hasEndbr64 m f = true ↔ m f = 0xf3 ∧ m (f + 1) = 0x0f ∧ m (f + 1 + 1) = 0x1e ∧ m (f + 1 + 1 + 1) = 0xfa := by
  simp [hasEndbr64, Mem.read, insnEndbr64]

/-- A patched prologue elsewhere does not make an `endbr64` appear. -/
theorem hasEndbr64_patched_other {m : Mem} {f g t : Addr} {e : Bool} (hf : hasEndbr64 m f = false)
    (hd : Mem.Disj (f - 14) 16 (g - 14) (patchLen e)) :
    hasEndbr64 (m.write (g - 14) (patchedPrologue e t)) f = false := by
  have hlen : (patchedPrologue e t).length = patchLen e := length_patchedPrologue e t
  have hfirst : m.write (g - 14) (patchedPrologue e t) (g - 14) = 0xff := by
    simp [Mem.write, patchedPrologue_eq]
  have hout : ∀ x : Addr, patchLen e ≤ (x - (g - 14)).toNat → m.write (g - 14) (patchedPrologue e t) x = m x :=
    fun x hx => Mem.write_outside (by rw [hlen]; exact hx)
  have hpos : 0 < patchLen e := by unfold patchLen; split <;> decide
  rw [Bool.eq_false_iff] at hf ⊢
  intro h
  obtain ⟨h0, h1, h2, h3⟩ := hasEndbr64_iff.1 h
  generalize patchLen e = n at *
  have d0 : n ≤ (f - (g - 14)).toNat := hd f (by bv_omega)
  have d1 : n ≤ (f + 1 - (g - 14)).toNat := hd (f + 1) (by bv_omega)
  -- the region could only start at one of the two bytes after these
  have d2 : n ≤ (f + 1 + 1 - (g - 14)).toNat := by
    by_contra hlt
    have : f + 1 + 1 = g - 14 := by bv_omega
    rw [this, hfirst] at h2
    exact absurd h2 (by decide)
  have d3 : n ≤ (f + 1 + 1 + 1 - (g - 14)).toNat := by
    by_contra hlt
    have : f + 1 + 1 + 1 = g - 14 := by bv_omega
    rw [this, hfirst] at h3
    exact absurd h3 (by decide)
  rw [hout _ d0] at h0
  rw [hout _ d1] at h1
  rw [hout _ d2] at h2
  rw [hout _ d3] at h3
  exact hf (hasEndbr64_iff.2 ⟨h0, h1, h2, h3⟩)

/-- Nor does the NOP of an unpatched one, which lies at the far end of its region. -/
theorem agreeOn_unpatched_other {m : Mem} {f g : Addr} {e : Bool} (hd : Mem.Disj (f - 14) 16 (g - 14) (patchLen e)) :
    AgreeOn m (m.write (g + entryBias e) insnNop2) f 4 := by
  refine agreeOn_write (fun x hx => ?_)
  by_contra hlt
  have hn : (x - (g + entryBias e)).toNat < 2 := by simpa [insnNop2] using hlt
  have := hd f (by bv_omega)
  cases e <;> simp only [entryBias, patchLen, Bool.false_eq_true, if_false, if_true] at hn this <;> bv_omega

/-! ## A list of writes -/

section Writes

variable (F : Set Addr) (m₀ : Mem)

/-- The patch regions of distinct functions of `F` are disjoint, in the memory `m₀`. -/
def RegionsDisjoint : Prop := ∀ f ∈ F, ∀ g ∈ F, f ≠ g →
  Mem.Disj (f - 14) (patchLen (hasEndbr64 m₀ f)) (g - 14) (patchLen (hasEndbr64 m₀ g))

/-- The functions of `F` that start with `endbr64` are those that did in `m₀`. -/
def SameEndbr (m : Mem) : Prop := ∀ f ∈ F, hasEndbr64 m f = hasEndbr64 m₀ f

/-- The write stays clear of the padding and of the first six bytes of every function of `F`: the region of a function
without `endbr64` ends four bytes before, but libpulp looks at two of these to see that there is none. -/
def Avoids (a : Addr) (n : Nat) : Prop := ∀ f ∈ F, Mem.Disj (f - 14) 20 a n

variable {F m₀}

theorem prologueWrite_endbr {m m' : Mem} {f : Addr} (h : hasEndbr64 m f = hasEndbr64 m' f) (o : Option Addr) :
    prologueWrite m f o = prologueWrite m' f o := by
  cases o <;> simp only [prologueWrite, h]

theorem prologueWrite_self {m : Mem} {f : Addr} (hm : hasEndbr64 m f = hasEndbr64 m₀ f) (o : Option Addr) :
    hasEndbr64 ((prologueWrite m₀ f o).applyTo m) f = hasEndbr64 m₀ f ∧ Shows ((prologueWrite m₀ f o).applyTo m) f o := by
  cases o with
  | none => exact unpatched_nop m f _ hm
  | some t => exact patched_redirects m f t _

theorem nop_sub_patch (g : Addr) (e : Bool) : Mem.Sub (g + entryBias e) insnNop2.length (g - 14) (patchLen e) := by
  intro x hx
  have hn : (x - (g + entryBias e)).toNat < 2 := hx
  cases e <;> simp only [entryBias, patchLen, Bool.false_eq_true, if_false, if_true] at hn ⊢ <;> bv_omega

theorem prologueWrite_agree (hF : RegionsDisjoint F m₀) (m : Mem) {f g : Addr} (hf : f ∈ F) (hg : g ∈ F) (hfg : f ≠ g)
    (o : Option Addr) : AgreeOn m ((prologueWrite m₀ g o).applyTo m) (f - 14) (patchLen (hasEndbr64 m₀ f)) := by
  have hd := hF f hf g hg hfg
  cases o with
  | none => exact agreeOn_write (hd.sub (nop_sub_patch g _))
  | some t => exact agreeOn_write (by rw [length_patchedPrologue]; exact hd)

theorem prologueWrite_other (hF : RegionsDisjoint F m₀) {m : Mem} {f g : Addr} (hf : f ∈ F) (hg : g ∈ F) (hfg : f ≠ g)
    (hm : hasEndbr64 m f = hasEndbr64 m₀ f) (o : Option Addr) :
    hasEndbr64 ((prologueWrite m₀ g o).applyTo m) f = hasEndbr64 m₀ f ∧
      ∀ o', Shows m f o' → Shows ((prologueWrite m₀ g o).applyTo m) f o' := by
  have hd16 : Mem.Disj (f - 14) 16 (g - 14) (patchLen (hasEndbr64 m₀ g)) :=
    (hF f hf g hg hfg).mono (by unfold patchLen; split <;> omega) (Nat.le_refl _)
  have hagree := prologueWrite_agree hF m hf hg hfg o
  have he : hasEndbr64 ((prologueWrite m₀ g o).applyTo m) f = hasEndbr64 m₀ f := by
    cases hef : hasEndbr64 m₀ f with
    | true =>
      rw [hef] at hm hagree
      rw [← hm]
      exact hasEndbr64_congr (fun x hx => hagree x (by
        simp only [patchLen, if_true]
        bv_omega))
    | false =>
      rw [hef] at hm
      cases o with
      | none => rw [← hm]; exact hasEndbr64_congr (agreeOn_unpatched_other hd16)
      | some t => exact hasEndbr64_patched_other hm hd16
  refine ⟨he, fun o' hs => hs.congr (he.trans hm.symm) ?_⟩
  rw [hm]
  exact hagree

theorem avoids_same {a : Addr} {bs : List Byte} (ha : Avoids F a bs.length) {m : Mem} {f : Addr} (hf : f ∈ F) :
    hasEndbr64 (m.write a bs) f = hasEndbr64 m f ∧ ∀ o, Shows m f o → Shows (m.write a bs) f o := by
  have hagree : AgreeOn m (m.write a bs) (f - 14) 20 := agreeOn_write (ha f hf)
  have he : hasEndbr64 (m.write a bs) f = hasEndbr64 m f :=
    hasEndbr64_congr (fun x hx => hagree x (by bv_omega))
  exact ⟨he, fun o hs => hs.congr he (hagree.mono (by unfold patchLen; split <;> omega))⟩

/-- What `f` shows after the prologue writes `ps`, if it showed `o` before. -/
def shownAfter (ps : List (Addr × Option Addr)) (f : Addr) (o : Option Addr) : Option Addr :=
  ps.foldl (fun o p => if p.1 = f then p.2 else o) o

theorem shownAfter_append (ps qs : List (Addr × Option Addr)) (f : Addr) (o : Option Addr) :
    shownAfter (ps ++ qs) f o = shownAfter qs f (shownAfter ps f o) := List.foldl_append

/-- **After a list of prologue writes every function shows the last one written for it.** -/
theorem prologueWrites_shows (hF : RegionsDisjoint F m₀) : ∀ (ps : List (Addr × Option Addr)) (m : Mem),
    (∀ p ∈ ps, p.1 ∈ F) → SameEndbr F m₀ m →
      SameEndbr F m₀ ((ps.map (fun p => prologueWrite m₀ p.1 p.2)).foldl Insn.applyTo m) ∧
      ∀ f ∈ F, ∀ o, Shows m f o ∨ f ∈ ps.map Prod.fst →
        Shows ((ps.map (fun p => prologueWrite m₀ p.1 p.2)).foldl Insn.applyTo m) f (shownAfter ps f o)
  | [], m, _, hm       => ⟨hm, fun f _ o h => h.resolve_right (by simp)⟩
  | p :: ps, m, hps, hm => by
    have hp := hps p List.mem_cons_self
    have hm' : SameEndbr F m₀ ((prologueWrite m₀ p.1 p.2).applyTo m) := fun f hf => by
      by_cases hfp : f = p.1
      · rw [hfp]
        exact (prologueWrite_self (hm p.1 hp) p.2).1
      · exact (prologueWrite_other hF hf hp hfp (hm f hf) p.2).1
    obtain ⟨h₁, h₂⟩ := prologueWrites_shows hF ps _ (fun q hq => hps q (List.mem_cons_of_mem _ hq)) hm'
    refine ⟨h₁, fun f hf o ho => ?_⟩
    have hstep : Shows ((prologueWrite m₀ p.1 p.2).applyTo m) f (if p.1 = f then p.2 else o) ∨ f ∈ ps.map Prod.fst := by
      by_cases hfp : f = p.1
      · subst hfp
        rw [if_pos rfl]
        exact Or.inl (prologueWrite_self (hm p.1 hp) p.2).2
      · rw [if_neg (fun e => hfp e.symm)]
        rcases ho with ho | ho
        · exact Or.inl ((prologueWrite_other hF hf hp hfp (hm f hf) p.2).2 o ho)
        · exact Or.inr ((List.mem_cons.1 ho).resolve_left hfp)
    exact h₂ f hf _ hstep

/-- The patch region of a function is left alone by the writes for others and by those that avoid it. -/
theorem writes_agree (hF : RegionsDisjoint F m₀) {f : Addr} (hf : f ∈ F) : ∀ (is : List Insn) (m : Mem),
    (∀ i ∈ is, (∃ g o, i = prologueWrite m₀ g o ∧ g ∈ F ∧ f ≠ g) ∨ ∃ a bs, i = .write a bs ∧ Avoids F a bs.length) →
      AgreeOn m (is.foldl Insn.applyTo m) (f - 14) (patchLen (hasEndbr64 m₀ f))
  | [], m, _      => .refl m _ _
  | i :: is, m, h => by
    refine AgreeOn.trans ?_ (writes_agree hF hf is (i.applyTo m) (fun j hj => h j (List.mem_cons_of_mem _ hj)))
    rcases h i List.mem_cons_self with ⟨g, o, rfl, hg, hfg⟩ | ⟨a, bs, rfl, ha⟩
    · exact prologueWrite_agree hF m hf hg hfg o
    · exact (agreeOn_write (ha f hf)).mono (by unfold patchLen; split <;> omega)

theorem avoiding_same : ∀ (is : List Insn) (m : Mem), (∀ i ∈ is, ∃ a bs, i = .write a bs ∧ Avoids F a bs.length) →
    ∀ f ∈ F, hasEndbr64 (is.foldl Insn.applyTo m) f = hasEndbr64 m f ∧
      ∀ o, Shows m f o → Shows (is.foldl Insn.applyTo m) f o
  | [], _, _, _, _      => ⟨rfl, fun _ h => h⟩
  | i :: is, m, h, f, hf => by
    obtain ⟨a, bs, rfl, ha⟩ := h i List.mem_cons_self
    obtain ⟨h₁, h₂⟩ := avoids_same ha (m := m) hf
    obtain ⟨h₃, h₄⟩ := avoiding_same is (m.write a bs) (fun j hj => h j (List.mem_cons_of_mem _ hj)) f hf
    exact ⟨h₃.trans h₁, fun o ho => h₄ o (h₂ o ho)⟩

end Writes

theorem Shows.livepatchable {m : Mem} {f : Addr} {o : Option Addr} (h : Shows m f o) : livepatchable m f = true := by
  cases o with
  | none =>
    unfold Shows nopEntry at h
    unfold Libpulp.livepatchable
    simp only [h, Bool.or_true]
  | some t =>
    unfold Shows redirectTarget at h
    simp only at h
    split at h
    · rename_i hc
      unfold Libpulp.livepatchable
      simp [hc.1]
    · cases h

end Libpulp
