import Libpulp.Invariant
import Libpulp.Prologue
/-!
# Redirect — which function the entry of a function leads to

The patch list says what an entry ought to lead to (`redirectOf`), the bytes say what it does lead to (`Shows`).  Between
the two stand the detour lists, the queue and the tool.  `Redraws` describes an operation by the prologue writes it
queues: with them carried out every function shows the newest active detour it has.  `Faithful` is the invariant of the
rounds of an operation and an interpretation of the queue.
-/
namespace Libpulp

open Bytes (Byte Addr Mem)
open Relation (ReflTransGen)

/-- The new function of the last unit for `f` in the most recently applied patch that has one. -/
def redirectOf (patches : List AppliedPatch) (f : Addr) : Option Addr :=
  patches.findSome? (fun p => (p.units.reverse.find? (·.patchedAddr = f)).map (·.targetAddr))

/-- The target of the newest active detour of `f`. -/
def headAt (roots : List DetourRoot) (f : Addr) : Option Addr := (activeAt roots f).head?.map (·.2)

theorem head?_unitsAt (p : AppliedPatch) (f : Addr) :
    (p.unitsAt f).head?.map (·.2) = (p.units.reverse.find? (·.patchedAddr = f)).map (·.targetAddr) := by
  unfold AppliedPatch.unitsAt
  rw [← List.map_reverse, ← List.filter_reverse, List.head?_map, List.head?_filter, Option.map_map]
  rfl

theorem redirectOf_eq (f : Addr) : ∀ patches : List AppliedPatch,
    redirectOf patches f = (unitsAt patches f).head?.map (·.2)
  | []      => rfl
  | p :: ps => by
    have ih := redirectOf_eq f ps
    unfold redirectOf unitsAt at *
    rw [List.findSome?_cons, ← head?_unitsAt, ih, List.flatMap_cons, List.head?_append]
    cases (p.unitsAt f).head? <;> rfl

theorem Linked.redirectOf {s : State} (h : Linked s) (f : Addr) : redirectOf s.patches f = headAt s.roots f := by
  rw [redirectOf_eq, ← h.active, headAt]

/-! ## Applying -/

theorem headAt_pushUnits (id : PatchId) (universeId : BitVec 64) (f : Addr) : ∀ (us : List (Addr × Addr))
    (rc : List DetourRoot × BitVec 32), headAt (us.foldl (pushUnit id universeId) rc).1 f =
      shownAfter (us.map (fun u => (u.1, some u.2))) f (headAt rc.1 f)
  | [], rc      => rfl
  | u :: us, rc => by
    rw [List.foldl_cons, headAt_pushUnits id universeId f us, List.map_cons, shownAfter, shownAfter, List.foldl_cons]
    congr 1
    unfold headAt
    rw [pushUnit_active]
    by_cases h : f = u.1
    · simp [h]
    · rw [if_neg h, if_neg (fun e => h e.symm)]

theorem addrs_pushUnit (id : PatchId) (universeId : BitVec 64) (rc : List DetourRoot × BitVec 32) (u : Addr × Addr)
    (f : Addr) : f ∈ (pushUnit id universeId rc u).1.map (·.patchedAddr) ↔ f ∈ rc.1.map (·.patchedAddr) ∨ f = u.1 := by
  unfold pushUnit
  simp only
  split
  · rename_i h
    rw [pushNewDetour_addrs]
    refine ⟨Or.inl, fun hf => hf.elim (fun h => h) (fun e => ?_)⟩
    obtain ⟨r, hr, he⟩ := List.any_eq_true.1 h
    exact List.mem_map.2 ⟨r, hr, (beq_iff_eq.1 he).trans e.symm⟩
  · rw [pushNewDetour_addrs, List.map_cons, List.mem_cons, or_comm]

theorem addrs_pushUnits (id : PatchId) (universeId : BitVec 64) (f : Addr) : ∀ (us : List (Addr × Addr))
    (rc : List DetourRoot × BitVec 32), f ∈ (us.foldl (pushUnit id universeId) rc).1.map (·.patchedAddr) ↔
      f ∈ rc.1.map (·.patchedAddr) ∨ f ∈ us.map Prod.fst
  | [], rc      => by simp
  | u :: us, rc => by
    rw [List.foldl_cons, addrs_pushUnits id universeId f us, addrs_pushUnit, List.map_cons, List.mem_cons, or_assoc]

/-! ## Reverting -/

def firstActive (ds : List Detour) : Option Addr := (ds.find? (·.active)).map (·.targetAddr)

theorem head?_live : ∀ ds : List Detour, (ds.filterMap Detour.live?).head?.map (·.2) = firstActive ds
  | []      => rfl
  | d :: ds => by
    have ih := head?_live ds
    unfold firstActive at *
    rw [List.filterMap_cons, List.find?_cons, Detour.live?]
    cases hd : d.active with
    | false => simpa using ih
    | true => simp

theorem activeAt_of_not_mem {rs : List DetourRoot} {f : Addr} (h : f ∉ rs.map (·.patchedAddr)) : activeAt rs f = [] :=
  List.flatMap_eq_nil_iff.2 (fun r hr => if_neg (fun e => h (List.mem_map.2 ⟨r, hr, e⟩)))

theorem headAt_cons {r : DetourRoot} {rs : List DetourRoot} (hr : r.patchedAddr ∉ rs.map (·.patchedAddr)) (f : Addr) :
    headAt (r :: rs) f = if r.patchedAddr = f then firstActive r.detours else headAt rs f := by
  unfold headAt
  rw [activeAt, List.flatMap_cons]
  change ((_ ++ activeAt rs f).head?.map _) = _
  split
  · rename_i he
    rw [activeAt_of_not_mem (he ▸ hr), List.append_nil, head?_live]
  · rfl

/-- The writes for one root end with the newest detour that is still active. -/
theorem revertDetours_wrote (id : PatchId) (addr : Addr) : ∀ (rest seen : List Detour) (s : State),
    livepatchable s.mem addr = true → ∃ ts : List (Option Addr),
      Wrote (ts.map (prologueWrite s.mem addr)) s (revertDetours id addr seen rest s).2 ∧
      ts.foldl (fun _ t => t) (firstActive (seen ++ rest)) = firstActive (seen ++ rest.map (·.deactivate id))
  | [], seen, s, _         => ⟨[], .refl s, rfl⟩
  | d :: rest, seen, s, hl => by
    rw [revertDetours]
    split
    · rename_i hd
      have hw := updatePrologue_wrote hl ((seen ++ { d with active := false } :: rest).find? (·.active))
      obtain ⟨ts, h₁, h₂⟩ := revertDetours_wrote id addr rest (seen ++ [{ d with active := false }]) _
        (by rw [hw.mem]; exact hl)
      rw [hw.mem] at h₁
      refine ⟨firstActive (seen ++ { d with active := false } :: rest) :: ts, hw.trans h₁, ?_⟩
      rw [List.append_assoc, List.append_assoc, List.singleton_append, List.singleton_append] at h₂
      rw [List.foldl_cons, h₂, List.map_cons, Detour.deactivate, if_pos hd]
    · rename_i hd
      obtain ⟨ts, h₁, h₂⟩ := revertDetours_wrote id addr rest (seen ++ [d]) s hl
      refine ⟨ts, h₁, ?_⟩
      rw [List.append_assoc, List.append_assoc, List.singleton_append, List.singleton_append] at h₂
      rw [h₂, List.map_cons, Detour.deactivate, if_neg hd]

theorem shownAfter_same {f : Addr} : ∀ (ts : List (Option Addr)) (o : Option Addr),
    shownAfter (ts.map (fun t => (f, t))) f o = ts.foldl (fun _ t => t) o
  | [], _      => rfl
  | t :: ts, o => by
    rw [List.map_cons, shownAfter, List.foldl_cons, if_pos rfl]
    exact shownAfter_same ts t

theorem shownAfter_of_not_mem {f : Addr} : ∀ {ps : List (Addr × Option Addr)}, f ∉ ps.map Prod.fst →
    ∀ o, shownAfter ps f o = o
  | [], _, _      => rfl
  | p :: ps, h, o => by
    rw [List.map_cons, List.mem_cons, not_or] at h
    rw [shownAfter, List.foldl_cons, if_neg (fun e => h.1 e.symm)]
    exact shownAfter_of_not_mem h.2 o

theorem deactivate_addrs (id : PatchId) (rs : List DetourRoot) :
    (rs.map (·.deactivate id)).map (·.patchedAddr) = rs.map (·.patchedAddr) := by
  rw [List.map_map]
  rfl

theorem revertRoots_wrote (id : PatchId) : ∀ (rs : List DetourRoot) (s : State), (rs.map (·.patchedAddr)).Nodup →
    (∀ r ∈ rs, livepatchable s.mem r.patchedAddr = true) → ∃ ps : List (Addr × Option Addr),
      Wrote (ps.map (fun p => prologueWrite s.mem p.1 p.2)) s (revertRoots id rs s).2 ∧
      (∀ p ∈ ps, p.1 ∈ rs.map (·.patchedAddr)) ∧
      ∀ f, headAt (rs.map (·.deactivate id)) f = shownAfter ps f (headAt rs f)
  | [], s, _, _       => ⟨[], .refl s, (fun p hp => by cases hp), fun _ => rfl⟩
  | r :: rs, s, hn, hl => by
    obtain ⟨hr, hrs⟩ := List.nodup_cons.1 hn
    obtain ⟨ts, h₁, h₂⟩ := revertDetours_wrote id r.patchedAddr r.detours [] s (hl r List.mem_cons_self)
    obtain ⟨ps, h₃, h₄, h₅⟩ := revertRoots_wrote id rs (revertDetours id r.patchedAddr [] r.detours s).2 hrs
      (fun r' hr' => by rw [h₁.mem]; exact hl r' (List.mem_cons_of_mem _ hr'))
    rw [h₁.mem] at h₃
    have hps : r.patchedAddr ∉ ps.map Prod.fst := fun hm => by
      obtain ⟨p, hp, he⟩ := List.mem_map.1 hm
      exact hr (show r.patchedAddr ∈ _ from he ▸ h₄ p hp)
    refine ⟨ts.map (fun t => (r.patchedAddr, t)) ++ ps, ?_, fun p hp => ?_, fun f => ?_⟩
    · rw [List.map_append, List.map_map, revertRoots]
      exact h₁.trans h₃
    · rcases List.mem_append.1 hp with hp | hp
      · obtain ⟨t, -, rfl⟩ := List.mem_map.1 hp
        exact List.mem_cons_self
      · exact List.mem_cons_of_mem _ (h₄ p hp)
    · have hr' : (r.deactivate id).patchedAddr ∉ (rs.map (·.deactivate id)).map (·.patchedAddr) := by
        rw [deactivate_addrs]
        exact hr
      rw [List.map_cons, headAt_cons hr', headAt_cons hr, shownAfter_append]
      change (if r.patchedAddr = f then _ else _) = _
      by_cases hf : r.patchedAddr = f
      · subst hf
        rw [if_pos rfl, if_pos rfl, shownAfter_of_not_mem hps, shownAfter_same]
        exact h₂.symm
      · have hts : f ∉ (ts.map (fun t => (r.patchedAddr, t))).map Prod.fst := fun hm => by
          obtain ⟨p, hp, he⟩ := List.mem_map.1 hm
          obtain ⟨t, -, rfl⟩ := List.mem_map.1 hp
          exact hf he
        rw [if_neg hf, if_neg hf, shownAfter_of_not_mem hts, h₅ f]

/-! ## What an operation queues -/

/-- The operation from `s` to `s'` queues the prologue writes `ps`, then the writes `ws`; the functions written for have
a root, and with `ps` carried out every function shows its newest active detour. -/
structure Redraws (ps : List (Addr × Option Addr)) (ws : List Insn) (s s' : State) : Prop where
  wrote : Wrote (ps.map (fun p => prologueWrite s.mem p.1 p.2) ++ ws) s s'
  roots : ∀ f, f ∈ s'.roots.map (·.patchedAddr) ↔ f ∈ s.roots.map (·.patchedAddr) ∨ f ∈ ps.map Prod.fst
  heads : ∀ f, headAt s'.roots f = shownAfter ps f (headAt s.roots f)

theorem Redraws.refl (s : State) : Redraws [] [] s s := ⟨.refl s, fun f => by simp, fun _ => rfl⟩

theorem Redraws.trans {ps qs : List (Addr × Option Addr)} {ws : List Insn} {s t u : State} (h : Redraws ps [] s t)
    (h' : Redraws qs ws t u) : Redraws (ps ++ qs) ws s u := by
  refine ⟨?_, fun f => ?_, fun f => ?_⟩
  · have hw := h.wrote.trans h'.wrote
    rw [h.wrote.mem, List.append_nil, ← List.append_assoc, ← List.map_append] at hw
    exact hw
  · rw [h'.roots, h.roots, List.map_append, List.mem_append, or_assoc]
  · rw [h'.heads, h.heads, shownAfter_append]

/-- Changes to the fields the writes and the detours do not depend on do not matter. -/
theorem Redraws.congr {ps : List (Addr × Option Addr)} {ws : List Insn} {s s' t t' : State} (h : Redraws ps ws s s')
    (hm : t.mem = s.mem) (hq : t.queue = s.queue) (he : t.errorState = s.errorState) (hr : t.roots = s.roots)
    (hm' : t'.mem = s'.mem) (hq' : t'.queue = s'.queue) (he' : t'.errorState = s'.errorState)
    (hr' : t'.roots = s'.roots) : Redraws ps ws t t' :=
  ⟨hm ▸ h.wrote.congr hm hq he hm' hq' he', by rw [hr, hr']; exact h.roots, by rw [hr, hr']; exact h.heads⟩

theorem ulpRevertPatch_redraws (id : PatchId) {s : State} (hn : (s.roots.map (·.patchedAddr)).Nodup)
    (hl : ∀ r ∈ s.roots, livepatchable s.mem r.patchedAddr = true) :
    ∃ ps, Redraws ps [] s (ulpRevertPatch id s).2 ∧ ∀ p ∈ ps, p.1 ∈ s.roots.map (·.patchedAddr) := by
  obtain ⟨ps, h₁, h₂, h₃⟩ := revertRoots_wrote id s.roots { s with globalUniverse := s.globalUniverse + 1 } hn hl
  have hr := (ulpRevertPatch_spec id s).roots
  refine ⟨ps, ⟨?_, fun f => ?_, fun f => ?_⟩, h₂⟩
  · rw [List.append_nil]
    exact h₁.congr rfl rfl rfl rfl rfl rfl
  · rw [hr, deactivate_addrs]
    refine ⟨Or.inl, fun hf => hf.elim (fun h => h) (fun hf => ?_)⟩
    obtain ⟨p, hp, rfl⟩ := List.mem_map.1 hf
    exact h₂ p hp
  · rw [hr, h₃]

theorem Reverts.redraws {k : Nat} {s s' : State} (h : Reverts k s s') (hn : (s.roots.map (·.patchedAddr)).Nodup)
    (hl : ∀ r ∈ s.roots, livepatchable s.mem r.patchedAddr = true) :
    ∃ ps, Redraws ps [] s s' ∧ ∀ p ∈ ps, p.1 ∈ s.roots.map (·.patchedAddr) := by
  induction h with
  | done s => exact ⟨[], .refl s, fun p hp => by cases hp⟩
  | @step k s s' id can rest ih =>
    obtain ⟨ps, h₁, h₂⟩ := ulpRevertPatch_redraws id hn hl
    have haddrs : (ulpRevertPatch id s).2.roots.map (·.patchedAddr) = s.roots.map (·.patchedAddr) := by
      rw [(ulpRevertPatch_spec id s).roots, deactivate_addrs]
    obtain ⟨qs, h₃, h₄⟩ := ih (haddrs ▸ hn) (fun r hr => by
      rw [h₁.wrote.mem]
      have hm : r.patchedAddr ∈ s.roots.map (·.patchedAddr) := haddrs ▸ List.mem_map_of_mem hr
      obtain ⟨r', hr', he⟩ := List.mem_map.1 hm
      exact he ▸ hl r' hr')
    refine ⟨ps ++ qs, h₁.trans h₃, fun p hp => ?_⟩
    rcases List.mem_append.1 hp with hp | hp
    · exact h₂ p hp
    · exact haddrs ▸ h₄ p hp

theorem ulpApplyAllUnits_redraws {env : Env} {ulp : UlpMetadata} {s : State}
    (hok : (ulpApplyAllUnits env ulp s).1 = ENONE) :
    Redraws (ulp.objs.units.map (fun u => ((unitAddrs env ulp u).1, some (unitAddrs env ulp u).2)))
      (ulp.refs.map (referenceWrite env ulp)) s (ulpApplyAllUnits env ulp s).2 := by
  obtain ⟨k, l, hw, hkl, -⟩ := ulpApplyAllUnits_wrote env ulp s
  obtain ⟨rfl, rfl⟩ := hkl hok
  have hu := ulpApplyAllUnits_applied env ulp s hok
  have hr := congrArg Prod.fst hu.roots
  simp only at hr
  rw [List.take_length, List.take_length] at hw
  refine ⟨?_, fun f => ?_, fun f => ?_⟩
  · rw [List.map_map]
    exact hw
  · rw [hr, addrs_pushUnits, List.map_map, List.map_map]
    rfl
  · rw [hr, headAt_pushUnits, List.map_map]
    rfl

/-- The references of the metadata lie outside the patch regions of `F`. -/
def ReferencesAvoid (F : Set Addr) (env : Env) (ulp : UlpMetadata) : Prop := ∀ ref ∈ ulp.refs,
  Avoids F (referenceAddr env ulp ((env.dlinfo ulp.soHandler).getD 0) ref) (if ref.tls then 16 else 8)

theorem ReferencesAvoid.writes {F : Set Addr} {env : Env} {ulp : UlpMetadata} (h : ReferencesAvoid F env ulp) :
    ∀ i ∈ ulp.refs.map (referenceWrite env ulp), ∃ a bs, i = .write a bs ∧ Avoids F a bs.length := by
  intro i hi
  obtain ⟨ref, href, rfl⟩ := List.mem_map.1 hi
  refine ⟨_, _, rfl, ?_⟩
  have hlen : ∀ base idx, (referenceBytes base idx ref).length = if ref.tls then 16 else 8 := fun base idx => by
    unfold referenceBytes
    split <;> simp
  rw [hlen]
  exact h ref href

/-- **What `load_patch` queues** when it does not end in an error state; `P` holds of the writes of references. -/
theorem Loads.redraws {F : Set Addr} {P : Insn → Prop} {env : Env} {s s' : State} {ret : UlpError}
    (h : Loads env s ret s') (he : s'.errorState = ENONE) (hn : (s.roots.map (·.patchedAddr)).Nodup)
    (hl : ∀ r ∈ s.roots, livepatchable s.mem r.patchedAddr = true) (hs : ∀ r ∈ s.roots, r.patchedAddr ∈ F)
    (hs' : ∀ p ∈ s'.patches, ∀ u ∈ p.units, u.patchedAddr ∈ F)
    (href : ∀ ulp, parseMetadata env s = some (.ok ulp) → ∀ i ∈ ulp.refs.map (referenceWrite env ulp), P i) :
    ∃ ps ws, Redraws ps ws s s' ∧ (∀ p ∈ ps, p.1 ∈ F) ∧ ∀ i ∈ ws, P i := by
  cases h with
  | failed ret b hret =>
    exact ⟨[], [], (Redraws.refl s).congr rfl rfl rfl rfl rfl rfl rfl rfl, (fun p hp => by cases hp),
      fun i hi => by cases hi⟩
  | applied ulp p parsed sane records fits =>
    by_cases hok : (ulpApplyAllUnits env ulp (s.recorded ulp p)).1 = ENONE
    · rw [exitOnError, if_neg (not_not.2 hok)] at hs' ⊢
      refine ⟨_, _, (ulpApplyAllUnits_redraws hok).congr rfl rfl rfl rfl rfl rfl rfl rfl, fun q hq => ?_,
        href ulp parsed⟩
      obtain ⟨u, hu, rfl⟩ := List.mem_map.1 hq
      have hm : unitAddrs env ulp u ∈ p.units.map (fun u => (u.patchedAddr, u.targetAddr)) := by
        rw [records.units]
        exact List.mem_map_of_mem hu
      obtain ⟨v, hv, he⟩ := List.mem_map.1 hm
      rw [← he]
      refine hs' p ?_ v hv
      rw [(ulpApplyAllUnits_patches env ulp _).1]
      exact List.mem_cons_self
    · rw [exitOnError, if_pos hok] at he
      exact absurd he (by decide : EUNKNOWN ≠ ENONE)
  | reverted ulp can =>
    obtain ⟨ps, h₁, h₂⟩ := ulpRevertPatch_redraws ulp.patchId (s := s.loading ulp) hn hl
    refine ⟨ps, [], h₁.congr rfl rfl rfl rfl rfl rfl rfl rfl, fun p hp => ?_, fun i hi => by cases hi⟩
    obtain ⟨r, hr, e⟩ := List.mem_map.1 (h₂ p hp)
    exact e ▸ hs r hr

/-! ## Rounds -/

/-- The operations the tool has libpulp do. -/
inductive Operation where
  | applyPatch
  | revertPatchesFromLib (fuel : Nat)

def Operation.run (env : Env) (s : State) : Operation → Option (UlpError × State)
  | applyPatch                => ulpApplyPatch env s
  | revertPatchesFromLib fuel => ulpRevertPatchesFromLib fuel env s

/-- **One round**: the tool fills the metadata buffer and has libpulp do an operation, which does not leave it in an error
state, then carries out what is queued; or the process runs on and leaves the padding and the first six bytes of the
functions of `F` alone, more than the region of those without `endbr64`.  Patches are for functions of `F` only, and `ok`
holds of all metadata that can be parsed, also where the call is refused afterwards. -/
inductive Round (F : Set Addr) (ok : Env → UlpMetadata → Prop) : State → State → Prop
  | call {s t s' : State} (buffer : List Byte) (hlen : buffer.length = ulpMetadataBufLen) (op : Operation) (env : Env)
      (ret : UlpError) (run : op.run env { s with metadataBuffer := buffer } = some (ret, t))
      (noError : t.errorState = ENONE)
      (functions : ∀ p ∈ t.patches, ∀ u ∈ p.units, u.patchedAddr ∈ F)
      (loads : ∀ ulp, parseMetadata env { s with metadataBuffer := buffer } = some (.ok ulp) → ok env ulp)
      (tool : insnqInterpretFromProcess t = some (ENONE, s')) : Round F ok s s'
  | outside (s : State) (mem : Mem) (h : ∀ f ∈ F, AgreeOn s.mem mem (f - 14) 20) : Round F ok s { s with mem }

/-- **The invariant of the rounds**: no error, nothing queued, and every function that was patchable at the start or
has been patched shows its newest active detour. -/
structure Faithful (F : Set Addr) (m₀ : Mem) (s : State) : Prop where
  applied   : Applied s
  linked    : Linked s
  queued    : Queued s []
  functions : ∀ r ∈ s.roots, r.patchedAddr ∈ F
  endbr     : SameEndbr F m₀ s.mem
  shows     : ∀ f ∈ F, nopEntry m₀ f = true ∨ f ∈ s.roots.map (·.patchedAddr) → Shows s.mem f (headAt s.roots f)

theorem Faithful.livepatchable {F : Set Addr} {m₀ : Mem} {s : State} (h : Faithful F m₀ s) {r : DetourRoot}
    (hr : r ∈ s.roots) : livepatchable s.mem r.patchedAddr = true :=
  (h.shows _ (h.functions r hr) (Or.inr (List.mem_map_of_mem hr))).livepatchable

theorem Faithful.buffer {F : Set Addr} {m₀ : Mem} {s : State} (h : Faithful F m₀ s) (buffer : List Byte) :
    Faithful F m₀ { s with metadataBuffer := buffer } :=
  ⟨⟨h.applied.metadataRef, h.applied.ids, h.applied.deps⟩, ⟨h.linked.numbered, h.linked.active⟩,
    ⟨h.queued.noError, h.queued.holds⟩, h.functions, h.endbr, h.shows⟩

theorem Operation.step {op : Operation} {env : Env} {s t : State} {ret : UlpError}
    (h : op.run env s = some (ret, t)) : Step s t := by
  cases op with
  | applyPatch => exact .apply env ret h
  | revertPatchesFromLib fuel => exact .revertAll fuel env ret h

theorem refused_redraws {env : Env} {s t : State} {ret : UlpError} (h : refused env s = some (ret, t))
    (he : t.errorState = ENONE) : Redraws [] [] s t := by
  rcases (refused_cases h).2 with rfl | ⟨-, e, hmem, rfl⟩
  · exact .refl t
  · have : ∀ e ∈ [EINSNQ, EUNKNOWN], e ≠ ENONE := by decide
    exact absurd he (this e hmem)

theorem Operation.redraws {F : Set Addr} {P : Insn → Prop} {m₀ : Mem} {s t : State} {op : Operation} {env : Env}
    {ret : UlpError} (h : Faithful F m₀ s) (hrun : op.run env s = some (ret, t)) (he : t.errorState = ENONE)
    (hf : ∀ p ∈ t.patches, ∀ u ∈ p.units, u.patchedAddr ∈ F)
    (href : ∀ ulp, parseMetadata env s = some (.ok ulp) → ∀ i ∈ ulp.refs.map (referenceWrite env ulp), P i) :
    ∃ ps ws, Redraws ps ws s t ∧ (∀ p ∈ ps, p.1 ∈ F) ∧ ∀ i ∈ ws, P i := by
  have hn := h.linked.numbered.addrs
  have hl : ∀ r ∈ s.roots, Libpulp.livepatchable s.mem r.patchedAddr = true := fun r hr => h.livepatchable hr
  cases hg : refused env s with
  | some r =>
    have hr : r = (ret, t) := by
      cases op <;> simp only [run, ulpApplyPatch, ulpRevertPatchesFromLib, hg] at hrun <;> exact Option.some.inj hrun
    exact ⟨[], [], refused_redraws (hr ▸ hg) he, (fun p hp => by cases hp), fun i hi => by cases hi⟩
  | none =>
    cases op with
    | applyPatch =>
      simp only [run, ulpApplyPatch, hg] at hrun
      exact (loadPatch_loads hrun h.applied.metadataRef).redraws he hn hl h.functions hf href
    | revertPatchesFromLib fuel =>
      simp only [run, ulpRevertPatchesFromLib, hg] at hrun
      obtain ⟨k, hk, -⟩ := revertAllPatchesFromLib_reverts hrun
      obtain ⟨ps, h₁, h₂⟩ := hk.redraws hn hl
      refine ⟨ps, [], h₁, fun p hp => ?_, fun i hi => by cases hi⟩
      obtain ⟨r, hr, e⟩ := List.mem_map.1 (h₂ p hp)
      exact e ▸ h.functions r hr

/-- **Carrying out the queued writes makes the functions show what libpulp wants.** -/
theorem Redraws.faithful {F : Set Addr} {m₀ : Mem} {s t : State} {ps : List (Addr × Option Addr)} {ws : List Insn}
    (hF : RegionsDisjoint F m₀) (h : Faithful F m₀ s) (hr : Redraws ps ws s t) (hps : ∀ p ∈ ps, p.1 ∈ F)
    (hws : ∀ i ∈ ws, ∃ a bs, i = .write a bs ∧ Avoids F a bs.length) (he : t.errorState = ENONE) (ha : Applied t)
    (hl : Linked t) {s' : State} (htool : insnqInterpretFromProcess t = some (ENONE, s')) : Faithful F m₀ s' := by
  have hq := hr.wrote.queued [] h.queued he
  rw [insnqInterpretFromProcess_holds hq.holds] at htool
  obtain rfl := congrArg Prod.snd (Option.some.inj htool)
  have hmem : ps.map (fun p => prologueWrite s.mem p.1 p.2) = ps.map (fun p => prologueWrite m₀ p.1 p.2) :=
    List.map_congr_left (fun p hp => prologueWrite_endbr (h.endbr p.1 (hps p hp)) p.2)
  obtain ⟨h₁, h₂⟩ := prologueWrites_shows hF ps s.mem hps h.endbr
  rw [List.nil_append, List.foldl_append, hr.wrote.mem, hmem]
  have havoid := avoiding_same ws ((ps.map (fun p => prologueWrite m₀ p.1 p.2)).foldl Insn.applyTo s.mem) hws
  refine ⟨⟨ha.metadataRef, ha.ids, ha.deps⟩, ⟨hl.numbered, hl.active⟩, ⟨he, ?_⟩, fun r hr' => ?_, fun f hf => ?_,
    fun f hf hp => ?_⟩
  · have := hq.holds.version
    simp only [this]
    exact queueHolds_empty _
  · rcases (hr.roots r.patchedAddr).1 (List.mem_map_of_mem hr') with hm | hm
    · obtain ⟨r₀, h₀, e⟩ := List.mem_map.1 hm
      exact e ▸ h.functions r₀ h₀
    · obtain ⟨p, hp, e⟩ := List.mem_map.1 hm
      exact e ▸ hps p hp
  · rw [(havoid f hf).1]
    exact h₁ f hf
  · apply (havoid f hf).2 _
    change Shows _ f (headAt t.roots f)
    rw [hr.heads]
    apply h₂ f hf _
    rcases hp with hp | hp
    · exact Or.inl (h.shows f hf (Or.inl hp))
    · rcases (hr.roots f).1 hp with hm | hm
      · exact Or.inl (h.shows f hf (Or.inr hm))
      · exact Or.inr hm

theorem Round.faithful {F : Set Addr} {m₀ : Mem} {s s' : State} (hF : RegionsDisjoint F m₀)
    (h : Round F (ReferencesAvoid F) s s') (hi : Faithful F m₀ s) : Faithful F m₀ s' := by
  cases h with
  | call buffer hlen op env ret run noError functions loads tool =>
    have hi' := hi.buffer buffer
    have hst := Operation.step run
    obtain ⟨ps, ws, hr, hps, hws⟩ := Operation.redraws hi' run noError functions (fun ulp hulp => (loads ulp hulp).writes)
    exact hr.faithful hF hi' hps hws noError (hst.applied hi'.applied)
      (hst.linked hi'.applied (Or.inl noError) (fun _ => hi'.linked)) tool
  | outside mem h =>
    have hendbr : ∀ f ∈ F, hasEndbr64 mem f = hasEndbr64 s.mem f := fun f hf =>
      hasEndbr64_congr (fun x hx => h f hf x (by bv_omega))
    refine ⟨⟨hi.applied.metadataRef, hi.applied.ids, hi.applied.deps⟩, ⟨hi.linked.numbered, hi.linked.active⟩,
      ⟨hi.queued.noError, hi.queued.holds⟩, hi.functions, fun f hf => (hendbr f hf).trans (hi.endbr f hf),
      fun f hf hp => (hi.shows f hf hp).congr (hendbr f hf) ((h f hf).mono ?_)⟩
    unfold patchLen
    split <;> omega

theorem State.Start.faithful {F : Set Addr} {s : State} (h : s.Start) : Faithful F s.mem s := by
  refine ⟨h.applied, h.linked, ⟨h.errorState, h.queue⟩, ?_, fun _ _ => rfl, fun f _ hp => ?_⟩
  · rw [h.roots]
    exact fun r hr => by cases hr
  · rw [h.roots] at hp ⊢
    exact hp.resolve_right (by simp)

theorem faithful_of_run {F : Set Addr} {s₀ s : State} (hF : RegionsDisjoint F s₀.mem) (h₀ : s₀.Start)
    (h : ReflTransGen (Round F (ReferencesAvoid F)) s₀ s) : Faithful F s₀.mem s := by
  induction h with
  | refl => exact h₀.faithful
  | tail _ hr ih => exact hr.faithful hF ih

/-! ## The entries of the functions -/

theorem Round.addrs {F : Set Addr} {m₀ : Mem} {s s' : State} (h : Round F (ReferencesAvoid F) s s')
    (hi : Faithful F m₀ s) {f : Addr} (hf : f ∈ s.roots.map (·.patchedAddr)) : f ∈ s'.roots.map (·.patchedAddr) := by
  cases h with
  | call buffer hlen op env ret run noError functions loads tool =>
    have hi' := hi.buffer buffer
    obtain ⟨ps, ws, hr, -, -⟩ := Operation.redraws hi' run noError functions (fun ulp hulp => (loads ulp hulp).writes)
    rw [insnqInterpretFromProcess_holds (hr.wrote.queued [] hi'.queued noError).holds] at tool
    obtain rfl := congrArg Prod.snd (Option.some.inj tool)
    exact (hr.roots f).2 (Or.inl hf)
  | outside mem h => exact hf

theorem addrs_of_run {F : Set Addr} {s₀ s₁ s : State} (hF : RegionsDisjoint F s₀.mem) (h₀ : s₀.Start)
    (h₁ : ReflTransGen (Round F (ReferencesAvoid F)) s₀ s₁) (h : ReflTransGen (Round F (ReferencesAvoid F)) s₁ s)
    {f : Addr} (hf : f ∈ s₁.roots.map (·.patchedAddr)) : f ∈ s.roots.map (·.patchedAddr) := by
  induction h with
  | refl => exact hf
  | tail hrun hr ih => exact hr.addrs (faithful_of_run hF h₀ (h₁.trans hrun)) ih

theorem mem_addrs_of_headAt {roots : List DetourRoot} {f : Addr} (h : headAt roots f ≠ none) :
    f ∈ roots.map (·.patchedAddr) := by
  by_contra hn
  rw [headAt, activeAt_of_not_mem hn] at h
  exact h rfl

/-- Up to `s` the function at `f` was the subject of an applied patch at some time of the run. -/
def PatchedBefore (F : Set Addr) (ok : Env → UlpMetadata → Prop) (s₀ s : State) (f : Addr) : Prop :=
  ∃ s₁, ReflTransGen (Round F ok) s₀ s₁ ∧ ReflTransGen (Round F ok) s₁ s ∧ redirectOf s₁.patches f ≠ none

/-- **The entry of a function leads where the patch list says.**  In every run of rounds whose patch regions are disjoint
and whose references stay clear of them, the function at `f` redirects to the new function of the last unit for it in the
most recently applied patch that is still applied and has one; if there is none, and it was patchable at the start or
patched at some time, it falls into its own body. -/
theorem redirects_of_run {F : Set Addr} {s₀ s : State} (hF : RegionsDisjoint F s₀.mem) (h₀ : s₀.Start)
    (h : ReflTransGen (Round F (ReferencesAvoid F)) s₀ s) {f : Addr} (hf : f ∈ F) :
    (∀ t, redirectOf s.patches f = some t → redirectTarget s.mem f = some t) ∧
      (redirectOf s.patches f = none → nopEntry s₀.mem f = true ∨ PatchedBefore F (ReferencesAvoid F) s₀ s f →
        nopEntry s.mem f = true) := by
  have hi := faithful_of_run hF h₀ h
  have hd := hi.linked.redirectOf f
  refine ⟨fun t ht => ?_, fun hn hp => ?_⟩
  · rw [hd] at ht
    have hs := hi.shows f hf (Or.inr (mem_addrs_of_headAt (by rw [ht]; simp)))
    rwa [ht] at hs
  · rw [hd] at hn
    have hroot : nopEntry s₀.mem f = true ∨ f ∈ s.roots.map (·.patchedAddr) := by
      apply hp.imp_right
      rintro ⟨s₁, h₁, h₂, hne⟩
      rw [(faithful_of_run hF h₀ h₁).linked.redirectOf] at hne
      exact addrs_of_run hF h₀ h₁ h₂ (mem_addrs_of_headAt hne)
    have hs := hi.shows f hf hroot
    rwa [hn] at hs

/-- One round: the patch `01 … 01` replaces `f` by `n` and fills in the references `refs`. -/
theorem demo_redirect {refs : List UlpReference} (ok : Env → UlpMetadata → Prop)
    (hok : ok demoEnv (demoLoaded 1 [108] [demoUnit] [] refs)) (hoff : ∀ r ∈ refs, r.patchOffset ≠ 0)
    (hfit : (spliceContainerPath (createPatchMetadataFile (demoPatch 1 [108] [demoUnit] [] refs)) [47]).length ≤
      ulpMetadataBufLen) (hsize : insnsSize (demoWrites refs) ≤ insnBufferMax) :
    ∃ s', Round {0x5000} ok demoStart s' ∧ redirectOf s'.patches 0x5000 = some 0x9000 ∧
      s'.mem = (demoWrites refs).foldl Insn.applyTo demoMem := by
  obtain ⟨p, t, hp, happ, hq, hu⟩ := demo_called hoff hfit hsize
  have hload := demo_loads (demoLoading_ready refs) hfit rfl (fun d hd => by cases hd) (fun q hq => by cases hq)
  have hpatches : t.patches = [p] := hu.patches
  have htool := insnqInterpretFromProcess_holds (s := { t with metadataRef := none }) hq.holds
  refine ⟨_, .call _ (length_bufferOf hfit) .applyPatch demoEnv ENONE happ hq.noError (fun q hm u hum => ?_)
    (fun ulp hulp => ?_) htool, ?_, ?_⟩
  · obtain rfl : q = p := by simpa [hpatches] using hm
    exact demo_functions hp u hum
  · rw [show parseMetadata demoEnv { demoStart with metadataBuffer := _ } = _ from hload] at hulp
    cases hulp
    exact hok
  · rw [show (State.patches _) = [p] from hpatches, redirectOf_eq, unitsAt, List.flatMap_singleton, hp.unitsAt]
    rfl
  · rw [show t.mem = demoMem from hu.mem]

theorem demo_disjoint (m : Mem) : RegionsDisjoint {0x5000} m := fun _ hf _ hg hne => absurd (hf.trans hg.symm) hne

/-- The function patched by one unit. -/
theorem redirects_of_run_one : ∃ s, ReflTransGen (Round {0x5000} (ReferencesAvoid {0x5000})) demoStart s ∧
    redirectOf s.patches 0x5000 = some 0x9000 ∧ redirectTarget s.mem 0x5000 = some 0x9000 := by
  obtain ⟨s, hs, hr, -⟩ := @demo_redirect [] (ReferencesAvoid {0x5000}) (fun r hr => by cases hr)
    (fun r hr => by cases hr) (by decide) (by decide)
  exact ⟨s, .single hs, hr, (redirects_of_run (demo_disjoint _) demoStart_start (.single hs) rfl).1 _ hr⟩

/-- A reference whose offset leads out of the livepatch, to the function `f`. -/
def strayReference : UlpReference :=
  { targetName := [], referenceName := [], targetOffset := 0, patchOffset := 0x4000, tls := false }

/-- **Without the condition on the references the entry may lead nowhere**: the patch replaces `f`, which is patchable,
and a reference of it lies at `f`. -/
theorem redirect_overwritten : ¬ ∀ (F : Set Addr) (s₀ s : State), RegionsDisjoint F s₀.mem → s₀.Start →
    (∀ f ∈ F, nopEntry s₀.mem f = true) → ReflTransGen (Round F (fun _ _ => True)) s₀ s → ∀ f ∈ F,
      (∀ t, redirectOf s.patches f = some t → redirectTarget s.mem f = some t) ∧
        (redirectOf s.patches f = none → nopEntry s.mem f = true) := by
  intro hall
  obtain ⟨s, hs, hr, hm⟩ := @demo_redirect [strayReference] (fun _ _ => True) trivial
    (fun r hr => by obtain rfl := List.mem_singleton.1 hr; decide) (by decide +kernel) (by decide +kernel)
  have h := (hall {0x5000} demoStart s (demo_disjoint _) demoStart_start
    (fun f hf => by rw [Set.mem_singleton_iff.1 hf]; decide) (.single hs) 0x5000 rfl).1 _ hr
  rw [hm] at h
  exact absurd h (by decide +kernel)

end Libpulp
