import Libpulp.Ops
/-!
# Writes — what an operation queues

`Wrote ws s s'`: the operation from `s` to `s'` appended the instructions `ws` to the queue, unless the queue got full
and libpulp is in an error state.  It composes, so the writes of a loop are those of its rounds one after the other.
-/
namespace Libpulp

open Bytes (Byte Addr Mem cstr)

structure Wrote (ws : List Insn) (s s' : State) : Prop where
  mem     : s'.mem = s.mem
  noError : s'.errorState = ENONE → s.errorState = ENONE
  queued  : ∀ is, Queued s is → s'.errorState = ENONE → Queued s' (is ++ ws)
  fits    : ∀ is, Queued s is → insnsSize (is ++ ws) ≤ insnBufferMax → s'.errorState = ENONE

namespace Wrote

theorem refl (s : State) : Wrote [] s s :=
  ⟨rfl, id, fun is h _ => by rwa [List.append_nil], fun _ h _ => h.noError⟩

theorem trans {ws ws' : List Insn} {s t u : State} (h : Wrote ws s t) (h' : Wrote ws' t u) :
    Wrote (ws ++ ws') s u := by
  refine ⟨h'.mem.trans h.mem, fun he => h.noError (h'.noError he), fun is hq he => ?_, fun is hq hf => ?_⟩
  · rw [← List.append_assoc]
    exact h'.queued _ (h.queued is hq (h'.noError he)) he
  · rw [← List.append_assoc] at hf
    have hf' : insnsSize (is ++ ws) ≤ insnBufferMax := by
      rw [insnsSize_append] at hf
      omega
    exact h'.fits _ (h.queued is hq (h.fits is hq hf')) hf

/-- Changes that leave the queue, the error state and memory alone do not matter. -/
theorem congr {ws : List Insn} {s s' t t' : State} (h : Wrote ws s s') (hm : t.mem = s.mem) (hq : t.queue = s.queue)
    (he : t.errorState = s.errorState) (hm' : t'.mem = s'.mem) (hq' : t'.queue = s'.queue)
    (he' : t'.errorState = s'.errorState) : Wrote ws t t' := by
  refine ⟨by rw [hm', h.mem, hm], fun e => ?_, fun is hqd e => ?_, fun is hqd hf => ?_⟩
  · rw [he]; exact h.noError (he' ▸ e)
  · obtain ⟨h₁, h₂⟩ := h.queued is ⟨he ▸ hqd.noError, hq ▸ hqd.holds⟩ (he' ▸ e)
    exact ⟨e, hq'.symm ▸ h₂⟩
  · rw [he']
    exact h.fits is ⟨he ▸ hqd.noError, hq ▸ hqd.holds⟩ hf

end Wrote

theorem memwrite_wrote (dest : Addr) (src : List Byte) (s : State) (hlen : src.length < 2 ^ 30) :
    Wrote [.write dest src] s (memwrite dest src s) := by
  refine ⟨(memwrite_same dest src s).mem, fun he => (memwrite_same dest src s).noError he, fun is hq he => ?_,
    fun is hq hf => ?_⟩
  · rcases memwrite_spec hq dest src hlen with h | h
    · exact h
    · exact absurd (h.symm.trans he) (by decide)
  · exact (memwrite_queued hq dest src hlen (by simpa using hf)).noError

/-! ## Prologues -/

/-- The write that makes the function at `f` lead to the new function, or back to its own body. -/
def prologueWrite (mem : Mem) (f : Addr) : Option Addr → Insn
  | some t => .write (f - BitVec.ofNat 64 preNopsLen) (patchedPrologue (hasEndbr64 mem f) t)
  | none   => .write (f + entryBias (hasEndbr64 mem f)) insnNop2

theorem length_patchedPrologue (endbr : Bool) (t : Addr) :
    (patchedPrologue endbr t).length = if endbr then 20 else 16 := by
  cases endbr <;> simp [patchedPrologue, ulpPrologue, ulpPrologueEndbr64, ulpDataOffset]

theorem prologueWrite_size_le (mem : Mem) (f : Addr) (o : Option Addr) : (prologueWrite mem f o).size ≤ 40 := by
  cases o with
  | none => simp [prologueWrite, Insn.size, insnNop2]
  | some t =>
    simp only [prologueWrite, Insn.size, length_patchedPrologue]
    split <;> omega

theorem ulpPatchAddr_wrote {f t : Addr} {s : State} (hl : livepatchable s.mem f = true) (enable : Bool) :
    Wrote [prologueWrite s.mem f (if enable then some t else none)] s (ulpPatchAddr f t enable s).2 := by
  have hlen : (patchedPrologue (hasEndbr64 s.mem f) t).length < 2 ^ 30 := by
    rw [length_patchedPrologue]
    split <;> decide
  unfold ulpPatchAddr
  rw [hl]
  cases enable with
  | true => exact memwrite_wrote _ _ s hlen
  | false => exact memwrite_wrote _ _ s (by decide)

theorem updatePrologue_wrote {f : Addr} {s : State} (hl : livepatchable s.mem f = true) (o : Option Detour) :
    Wrote [prologueWrite s.mem f (o.map (·.targetAddr))] s (updatePrologue f o s) := by
  cases o with
  | none => exact ulpPatchAddr_wrote hl false
  | some d => exact ulpPatchAddr_wrote hl true

/-! ## Applying -/

theorem applyUnit_wrote {env : Env} {ulp : UlpMetadata} {j : Nat} {unit : UlpUnit} {s : State}
    (hret : (applyUnit env ulp j unit s).1 = ENONE) :
    Wrote [prologueWrite s.mem (unitAddrs env ulp unit).1 (some (unitAddrs env ulp unit).2)] s
      (applyUnit env ulp j unit s).2 := by
  obtain ⟨-, -, hl, h⟩ := applyUnit_eq env ulp j unit s hret
  rw [h]
  have hw : Wrote [prologueWrite s.mem (unitAddrs env ulp unit).1 (some (unitAddrs env ulp unit).2)]
      (s.withDetour ulp.patchId (unitAddrs env ulp unit)) _ :=
    ulpPatchAddr_wrote (s := s.withDetour ulp.patchId (unitAddrs env ulp unit)) hl true
  exact hw.congr rfl rfl rfl rfl rfl rfl

theorem applyUnit_failed {env : Env} {ulp : UlpMetadata} {j : Nat} {unit : UlpUnit} {s : State}
    (hret : (applyUnit env ulp j unit s).1 ≠ ENONE) : Wrote [] s (applyUnit env ulp j unit s).2 := by
  revert hret
  unfold applyUnit
  simp only
  split
  · exact fun _ => .refl s
  split
  · exact fun _ => .refl s
  cases hr : getOrPushRoot env j (unitAddrs env ulp unit).1 s with
  | none => exact fun _ => .refl s
  | some t =>
    have ht : Wrote [] s t := by
      obtain ⟨roots, counter, rfl⟩ := getOrPushRoot_same hr
      exact (Wrote.refl s).congr rfl rfl rfl rfl rfl rfl
    simp only
    split
    · exact fun _ => ht
    · intro hret
      unfold ulpPatchAddr at hret ⊢
      split
      · exact ht.congr rfl rfl rfl rfl rfl rfl
      · rename_i hl
        rw [if_neg hl] at hret
        exact absurd rfl hret

/-- **A loop that stops at the first failure queues the writes of the items before it.** -/
theorem untilError_wrote {α : Type} {f : Nat → α → State → UlpError × State} {m : Mem} {w : α → Insn}
    (hok : ∀ j x s, s.mem = m → (f j x s).1 = ENONE → Wrote [w x] s (f j x s).2)
    (hno : ∀ j x s, s.mem = m → (f j x s).1 ≠ ENONE → Wrote [] s (f j x s).2) : ∀ (xs : List α) (j : Nat) (s : State),
      s.mem = m → ∃ k, Wrote ((xs.take k).map w) s (untilError f j xs s).2 ∧
        ((untilError f j xs s).1 = ENONE → k = xs.length) ∧
        ((untilError f j xs s).1 ≠ ENONE → ∃ x t, xs[k]? = some x ∧ t.mem = m ∧ (f (j + k) x t).1 ≠ ENONE)
  | [], _, s, _       => ⟨0, .refl s, fun _ => rfl, fun h => absurd rfl h⟩
  | x :: xs, j, s, hm => by
    rw [untilError]
    split
    · rename_i hne
      exact ⟨0, hno j x s hm hne, fun h => absurd h hne, fun _ => ⟨x, s, rfl, hm, hne⟩⟩
    · rename_i he
      have hx := hok j x s hm (not_not.1 he)
      obtain ⟨k, hk, hk₁, hk₂⟩ := untilError_wrote hok hno xs (j + 1) (f j x s).2 (hx.mem.trans hm)
      refine ⟨k + 1, hx.trans hk, fun h => congrArg (· + 1) (hk₁ h), fun h => ?_⟩
      obtain ⟨y, t, hy, ht, hfail⟩ := hk₂ h
      exact ⟨y, t, hy, ht, by rwa [Nat.add_right_comm] at hfail⟩

/-- The write of a unit. -/
def unitWrite (env : Env) (ulp : UlpMetadata) (mem : Mem) (unit : UlpUnit) : Insn :=
  prologueWrite mem (unitAddrs env ulp unit).1 (some (unitAddrs env ulp unit).2)

/-- The write of a reference. -/
def referenceWrite (env : Env) (ulp : UlpMetadata) (ref : UlpReference) : Insn :=
  .write (referenceAddr env ulp ((env.dlinfo ulp.soHandler).getD 0) ref)
    (referenceBytes (env.getLoadedLibraryBaseAddr (getBasename (cstr ulp.objs.name)))
      (env.getLoadedLibraryTlsIndex (getBasename (cstr ulp.objs.name))) ref)

theorem length_referenceBytes_le (targetBase : Addr) (tlsIdx : Int) (ref : UlpReference) :
    (referenceBytes targetBase tlsIdx ref).length ≤ 16 := by
  unfold referenceBytes
  split <;> simp

theorem applyReferences_wrote (env : Env) (ulp : UlpMetadata) (s : State) :
    ∃ k, Wrote ((ulp.refs.take k).map (referenceWrite env ulp)) s (applyReferences env ulp s).2 ∧
      ((applyReferences env ulp s).1 = ENONE → k = ulp.refs.length) := by
  unfold applyReferences
  simp only
  split
  · exact ⟨0, .refl s, fun h => absurd h (by decide : ENOADDRESS ≠ ENONE)⟩
  · cases hd : env.dlinfo ulp.soHandler with
    | none => exact ⟨0, .refl s, fun h => absurd h (by decide : EUNKNOWN ≠ ENONE)⟩
    | some patchBase =>
      simp only
      split
      · exact ⟨0, .refl s, fun h => absurd h (by decide : ENOADDRESS ≠ ENONE)⟩
      · have hb : (env.dlinfo ulp.soHandler).getD 0 = patchBase := by rw [hd]; rfl
        obtain ⟨k, h₁, h₂, -⟩ := untilError_wrote (m := s.mem) (w := referenceWrite env ulp)
          (f := applyReference env ulp (env.getLoadedLibraryBaseAddr (getBasename (cstr ulp.objs.name)))
            (env.getLoadedLibraryTlsIndex (getBasename (cstr ulp.objs.name))) patchBase)
          (by
            intro j ref t _ he
            unfold applyReference referenceWrite at *
            simp only at he ⊢
            split at he
            · exact absurd he (by decide : ENONEWFUNC ≠ ENONE)
            · rename_i hc
              rw [if_neg hc, hb]
              have := length_referenceBytes_le (env.getLoadedLibraryBaseAddr (getBasename (cstr ulp.objs.name)))
                (env.getLoadedLibraryTlsIndex (getBasename (cstr ulp.objs.name))) ref
              exact memwrite_wrote _ _ t (by omega))
          (by
            intro j ref t _ he
            unfold applyReference at *
            simp only at he ⊢
            split at he
            · rename_i hc
              rw [if_pos hc]
              exact .refl t
            · exact absurd rfl he)
          ulp.refs 0 s rfl
        exact ⟨k, h₁, h₂⟩

/-- **What `ulp_apply_all_units` queues**: the units before the first one that fails, then, if none does, the references
before the first one that fails. -/
theorem ulpApplyAllUnits_wrote (env : Env) (ulp : UlpMetadata) (s : State) :
    ∃ k l, Wrote ((ulp.objs.units.take k).map (unitWrite env ulp s.mem) ++
        (ulp.refs.take l).map (referenceWrite env ulp)) s (ulpApplyAllUnits env ulp s).2 ∧
      ((ulpApplyAllUnits env ulp s).1 = ENONE → k = ulp.objs.units.length ∧ l = ulp.refs.length) ∧
      (k = ulp.objs.units.length ∨ l = 0 ∧ ∃ u t, ulp.objs.units[k]? = some u ∧ t.mem = s.mem ∧
        (applyUnit env ulp k u t).1 ≠ ENONE) := by
  obtain ⟨k, h₁, h₂, h₃⟩ := untilError_wrote (m := s.mem) (w := unitWrite env ulp s.mem) (f := applyUnit env ulp)
    (fun j u t hm he => by have := applyUnit_wrote he; rwa [hm] at this) (fun j u t _ he => applyUnit_failed he)
    ulp.objs.units 0 { s with globalUniverse := s.globalUniverse + 1 } rfl
  unfold ulpApplyAllUnits
  simp only
  split
  · rename_i hne
    obtain ⟨u, t, hu, ht, hfail⟩ := h₃ hne
    rw [Nat.zero_add] at hfail
    refine ⟨k, 0, ?_, fun h => absurd h hne, Or.inr ⟨rfl, u, t, hu, ht, hfail⟩⟩
    rw [List.take_zero, List.map_nil, List.append_nil]
    exact h₁.congr rfl rfl rfl rfl rfl rfl
  · rename_i hok
    obtain ⟨l, h₄, h₅⟩ := applyReferences_wrote env ulp
      (untilError (applyUnit env ulp) 0 ulp.objs.units { s with globalUniverse := s.globalUniverse + 1 }).2
    have hk := h₂ (not_not.1 hok)
    exact ⟨k, l, (h₁.trans h₄).congr rfl rfl rfl rfl rfl rfl, fun h => ⟨hk, h₅ h⟩, Or.inl hk⟩

theorem referenceWrite_size_le (env : Env) (ulp : UlpMetadata) (ref : UlpReference) :
    (referenceWrite env ulp ref).size ≤ 32 := by
  have := length_referenceBytes_le (env.getLoadedLibraryBaseAddr (getBasename (cstr ulp.objs.name)))
    (env.getLoadedLibraryTlsIndex (getBasename (cstr ulp.objs.name))) ref
  simp only [referenceWrite, Insn.size]
  omega

theorem insnsSize_map_le {α : Type} {w : α → Insn} {n : Nat} (h : ∀ x, (w x).size ≤ n) : ∀ xs : List α,
    insnsSize (xs.map w) ≤ n * xs.length
  | []      => Nat.le_refl _
  | x :: xs => by
    have := h x
    have := insnsSize_map_le h xs
    rw [List.map_cons, insnsSize_cons, List.length_cons, Nat.mul_succ]
    omega

/-- **The queue has room for the writes of any patch**, since its metadata fits into the metadata buffer. -/
theorem patch_fits {env : Env} {ulp : UlpMetadata} (mem : Mem)
    (h : 16 * ulp.objs.units.length + 25 * ulp.refs.length ≤ ulpMetadataBufLen) (k l : Nat) :
    insnsSize ((ulp.objs.units.take k).map (unitWrite env ulp mem) ++ (ulp.refs.take l).map (referenceWrite env ulp)) ≤
      insnBufferMax := by
  have hu := insnsSize_map_le (w := unitWrite env ulp mem) (fun u => prologueWrite_size_le mem _ _)
    (ulp.objs.units.take k)
  have hr := insnsSize_map_le (referenceWrite_size_le env ulp) (ulp.refs.take l)
  have hk := List.length_take_le k ulp.objs.units
  have hl := List.length_take_le l ulp.refs
  have hmax : insnBufferMax = 2097152 := rfl
  have hbuf : ulpMetadataBufLen = 524288 := rfl
  have hk' := List.length_take_le' k ulp.objs.units
  have hl' := List.length_take_le' l ulp.refs
  rw [insnsSize_append]
  omega

end Libpulp
