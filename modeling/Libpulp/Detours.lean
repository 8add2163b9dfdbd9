import Libpulp.Ops
/-!
# Detours — the two records of what is applied

The patch list says which units are applied; the detour lists say it again, function by function, with the detours of
reverted patches left behind as inactive.  `unitsAt` reads the first at one address, `activeAt` the second, both newest
first; each operation is described by what it does to both readings.
-/
namespace Libpulp

open Bytes (Addr)

/-- The patch id and the target of an active detour. -/
def Detour.live? (d : Detour) : Option (PatchId × Addr) := if d.active then some (d.patchId, d.targetAddr) else none

/-- The active detours of the function at `a`, newest first. -/
def activeAt (roots : List DetourRoot) (a : Addr) : List (PatchId × Addr) :=
  roots.flatMap (fun r => if r.patchedAddr = a then r.detours.filterMap Detour.live? else [])

/-- The units of a patch for the function at `a`, last first. -/
def AppliedPatch.unitsAt (p : AppliedPatch) (a : Addr) : List (PatchId × Addr) :=
  ((p.units.filter (·.patchedAddr = a)).map (fun u => (p.patchId, u.targetAddr))).reverse

/-- The applied units for the function at `a`, those of the patch applied last first. -/
def unitsAt (patches : List AppliedPatch) (a : Addr) : List (PatchId × Addr) := patches.flatMap (·.unitsAt a)

/-! ## Pushing -/

theorem pushNewDetour_addrs (addr : Addr) (d : Detour) : ∀ (rs : List DetourRoot),
    (pushNewDetour addr d rs).map (·.patchedAddr) = rs.map (·.patchedAddr)
  | []      => rfl
  | r :: rs => by
    rw [pushNewDetour]
    split
    · rfl
    · rw [List.map_cons, List.map_cons, pushNewDetour_addrs addr d rs]

theorem pushNewDetour_indexes (addr : Addr) (d : Detour) : ∀ (rs : List DetourRoot),
    (pushNewDetour addr d rs).map (·.index) = rs.map (·.index)
  | []      => rfl
  | r :: rs => by
    rw [pushNewDetour]
    split
    · rfl
    · rw [List.map_cons, List.map_cons, pushNewDetour_indexes addr d rs]

theorem pushNewDetour_active (addr : Addr) (d : Detour) (hd : d.active = true) (a : Addr) : ∀ (rs : List DetourRoot),
    rs.any (·.patchedAddr == addr) = true →
      activeAt (pushNewDetour addr d rs) a =
        if a = addr then (d.patchId, d.targetAddr) :: activeAt rs a else activeAt rs a
  | [], h      => by simp at h
  | r :: rs, h => by
    have hlive : d.live? = some (d.patchId, d.targetAddr) := by simp [Detour.live?, hd]
    rw [pushNewDetour]
    unfold activeAt at *
    split
    · rename_i hr
      simp only [List.flatMap_cons, List.filterMap_cons, hlive]
      by_cases ha : a = addr
      · simp [ha, hr]
      · have : r.patchedAddr ≠ a := fun e => ha (e ▸ hr)
        simp [ha, this]
    · rename_i hr
      have h' : rs.any (·.patchedAddr == addr) = true := by simpa [hr] using h
      have ih := pushNewDetour_active addr d hd a rs h'
      unfold activeAt at ih
      rw [List.flatMap_cons, List.flatMap_cons, ih]
      by_cases ha : a = addr
      · have : r.patchedAddr ≠ a := fun e => hr (e.trans ha)
        simp [ha, hr]
      · simp [ha]

variable (id : PatchId) (universeId : BitVec 64)

theorem pushUnit_active (rc : List DetourRoot × BitVec 32) (u : Addr × Addr) (a : Addr) :
    activeAt (pushUnit id universeId rc u).1 a =
      if a = u.1 then (id, u.2) :: activeAt rc.1 a else activeAt rc.1 a := by
  unfold pushUnit
  simp only
  split
  · rename_i h
    rw [pushNewDetour_active u.1 _ rfl a rc.1 h]
  · rw [pushNewDetour_active u.1 _ rfl a _ (by simp)]
    simp [activeAt]

/-- The units of `us` for the function at `a`, last first, in front of what was active. -/
theorem pushUnits_active (a : Addr) : ∀ (us : List (Addr × Addr)) (rc : List DetourRoot × BitVec 32),
    activeAt (us.foldl (pushUnit id universeId) rc).1 a =
      ((us.filter (·.1 = a)).map (fun u => (id, u.2))).reverse ++ activeAt rc.1 a
  | [], rc      => rfl
  | u :: us, rc => by
    rw [List.foldl_cons, pushUnits_active a us, pushUnit_active, List.filter_cons]
    by_cases ha : a = u.1
    · simp [ha]
    · have : ¬ u.1 = a := fun e => ha e.symm
      simp [ha, this]

/-! ## Numbering -/

/-- The roots are numbered in the order they were made, and no function has two. -/
structure Numbered (rc : List DetourRoot × BitVec 32) : Prop where
  addrs   : (rc.1.map (·.patchedAddr)).Nodup
  indexes : rc.1.map (·.index) = ((List.range rc.1.length).map (BitVec.ofNat 32)).reverse
  counter : rc.2 = BitVec.ofNat 32 rc.1.length

theorem pushNewDetour_length (addr : Addr) (d : Detour) (rs : List DetourRoot) :
    (pushNewDetour addr d rs).length = rs.length := by
  have := congrArg List.length (pushNewDetour_addrs addr d rs)
  rwa [List.length_map, List.length_map] at this

theorem pushUnit_numbered {rc : List DetourRoot × BitVec 32} (h : Numbered rc) (u : Addr × Addr) :
    Numbered (pushUnit id universeId rc u) := by
  unfold pushUnit
  simp only
  split
  · refine ⟨?_, ?_, ?_⟩
    · rw [pushNewDetour_addrs]; exact h.addrs
    · rw [pushNewDetour_indexes, pushNewDetour_length]; exact h.indexes
    · rw [pushNewDetour_length]; exact h.counter
  · rename_i hn
    refine ⟨?_, ?_, ?_⟩
    · rw [pushNewDetour_addrs, List.map_cons, List.nodup_cons]
      refine ⟨fun hm => hn ?_, h.addrs⟩
      obtain ⟨r, hr, he⟩ := List.mem_map.1 hm
      exact List.any_eq_true.2 ⟨r, hr, by simpa using he⟩
    · rw [pushNewDetour_indexes, pushNewDetour_length, List.map_cons, List.length_cons, List.range_succ, List.map_append,
        List.reverse_append, h.indexes, h.counter]
      rfl
    · rw [pushNewDetour_length, List.length_cons, h.counter, BitVec.ofNat_add]
      rfl

theorem pushUnits_numbered : ∀ (us : List (Addr × Addr)) {rc : List DetourRoot × BitVec 32}, Numbered rc →
    Numbered (us.foldl (pushUnit id universeId) rc)
  | [], _, h      => h
  | u :: us, _, h => pushUnits_numbered us (pushUnit_numbered id universeId h u)

theorem Numbered.indexes_nodup {rc : List DetourRoot × BitVec 32} (h : Numbered rc) (hlt : rc.1.length ≤ 2 ^ 32) :
    (rc.1.map (·.index)).Nodup := by
  rw [h.indexes, List.nodup_reverse]
  refine List.Nodup.map_on (fun x hx y hy e => ?_) List.nodup_range
  rw [List.mem_range] at hx hy
  have := congrArg BitVec.toNat e
  rwa [BitVec.toNat_ofNat, BitVec.toNat_ofNat, Nat.mod_eq_of_lt (by omega), Nat.mod_eq_of_lt (by omega)] at this

/-! ## Universes -/

/-- The detours of every root are ordered by universe, newest first, and none is of a later universe than `bound`. -/
def Layered (bound : BitVec 64) (roots : List DetourRoot) : Prop :=
  ∀ r ∈ roots, (r.detours.map (·.universeId)).Pairwise (· ≥ ·) ∧ ∀ d ∈ r.detours, d.universeId ≤ bound

theorem Layered.mono {b b' : BitVec 64} {roots : List DetourRoot} (h : Layered b roots) (hb : b ≤ b') :
    Layered b' roots := fun r hr => ⟨(h r hr).1, fun d hd => BitVec.le_trans ((h r hr).2 d hd) hb⟩

theorem pushNewDetour_layered {b : BitVec 64} (addr : Addr) (d : Detour) (hd : d.universeId = b) :
    ∀ {rs : List DetourRoot}, Layered b rs → Layered b (pushNewDetour addr d rs)
  | [], h      => h
  | r :: rs, h => by
    rw [pushNewDetour]
    split
    · intro r' hr'
      rcases List.mem_cons.1 hr' with rfl | hr'
      · obtain ⟨h₁, h₂⟩ := h r (List.mem_cons_self)
        refine ⟨?_, fun d' hd' => ?_⟩
        · rw [List.map_cons, List.pairwise_cons]
          refine ⟨fun x hx => ?_, h₁⟩
          obtain ⟨d', hd', rfl⟩ := List.mem_map.1 hx
          rw [hd]
          exact h₂ d' hd'
        · rcases List.mem_cons.1 hd' with rfl | hd'
          · rw [hd]; exact BitVec.le_refl _
          · exact h₂ d' hd'
      · exact h r' (List.mem_cons_of_mem _ hr')
    · intro r' hr'
      rcases List.mem_cons.1 hr' with rfl | hr'
      · exact h _ List.mem_cons_self
      · exact pushNewDetour_layered addr d hd (fun r'' h'' => h r'' (List.mem_cons_of_mem _ h'')) r' hr'

theorem pushUnit_layered {rc : List DetourRoot × BitVec 32} (h : Layered universeId rc.1) (u : Addr × Addr) :
    Layered universeId (pushUnit id universeId rc u).1 := by
  unfold pushUnit
  simp only
  split
  · exact pushNewDetour_layered u.1 _ rfl h
  · refine pushNewDetour_layered u.1 _ rfl (fun r hr => ?_)
    rcases List.mem_cons.1 hr with rfl | hr
    · exact ⟨List.Pairwise.nil, fun d hd => by cases hd⟩
    · exact h r hr

theorem pushUnits_layered : ∀ (us : List (Addr × Addr)) {rc : List DetourRoot × BitVec 32}, Layered universeId rc.1 →
    Layered universeId (us.foldl (pushUnit id universeId) rc).1
  | [], _, h      => h
  | u :: us, _, h => pushUnits_layered us (pushUnit_layered id universeId h u)

/-! ## Deactivating -/

theorem live?_deactivate (d : Detour) :
    (d.deactivate id).live? = d.live?.filter (fun x => x.1 ≠ id) := by
  unfold Detour.deactivate Detour.live?
  by_cases hi : d.patchId = id <;> by_cases ha : d.active = true <;> simp [hi, ha, Option.filter]

theorem filterMap_deactivate : ∀ (ds : List Detour),
    (ds.map (·.deactivate id)).filterMap Detour.live? = (ds.filterMap Detour.live?).filter (fun x => x.1 ≠ id)
  | []      => rfl
  | d :: ds => by
    rw [List.map_cons, List.filterMap_cons, List.filterMap_cons, live?_deactivate, filterMap_deactivate ds]
    cases d.live? with
    | none => rfl
    | some x =>
      by_cases hx : x.1 = id
      · simp [hx, Option.filter]
      · simp [hx, Option.filter]

theorem deactivate_active (a : Addr) : ∀ (roots : List DetourRoot),
    activeAt (roots.map (·.deactivate id)) a = (activeAt roots a).filter (fun x => x.1 ≠ id)
  | []      => rfl
  | r :: rs => by
    have ih := deactivate_active a rs
    unfold activeAt at *
    rw [List.map_cons, List.flatMap_cons, List.flatMap_cons, List.filter_append, ih]
    congr 1
    by_cases hr : r.patchedAddr = a
    · rw [if_pos hr, if_pos (show (r.deactivate id).patchedAddr = a from hr)]
      exact filterMap_deactivate id r.detours
    · rw [if_neg hr, if_neg (show ¬ (r.deactivate id).patchedAddr = a from hr)]
      rfl

theorem deactivate_numbered {rs : List DetourRoot} {c : BitVec 32} (h : Numbered (rs, c)) :
    Numbered (rs.map (·.deactivate id), c) := by
  have ha : (rs.map (·.deactivate id)).map (·.patchedAddr) = rs.map (·.patchedAddr) := by
    rw [List.map_map]; rfl
  have hi : (rs.map (·.deactivate id)).map (·.index) = rs.map (·.index) := by
    rw [List.map_map]; rfl
  exact ⟨ha ▸ h.addrs, by rw [hi, List.length_map]; exact h.indexes, by rw [List.length_map]; exact h.counter⟩

theorem universeId_deactivate (d : Detour) : (d.deactivate id).universeId = d.universeId := by
  unfold Detour.deactivate
  split <;> rfl

theorem deactivate_layered {b : BitVec 64} {rs : List DetourRoot} (h : Layered b rs) :
    Layered b (rs.map (·.deactivate id)) := by
  intro r' hr'
  obtain ⟨r, hr, rfl⟩ := List.mem_map.1 hr'
  obtain ⟨h₁, h₂⟩ := h r hr
  refine ⟨?_, fun d' hd' => ?_⟩
  · have : (r.detours.map (·.deactivate id)).map (·.universeId) = r.detours.map (·.universeId) := by
      rw [List.map_map]
      exact List.map_congr_left (fun d _ => universeId_deactivate id d)
    rw [DetourRoot.deactivate, this]
    exact h₁
  · obtain ⟨d, hd, rfl⟩ := List.mem_map.1 hd'
    rw [universeId_deactivate]
    exact h₂ d hd

/-! ## The patch list -/

theorem mem_unitsAt {p : AppliedPatch} {a : Addr} {x : PatchId × Addr} :
    x ∈ p.unitsAt a ↔ x.1 = p.patchId ∧ ∃ u ∈ p.units, u.patchedAddr = a ∧ u.targetAddr = x.2 := by
  unfold AppliedPatch.unitsAt
  simp only [List.mem_reverse, List.mem_map, List.mem_filter, decide_eq_true_eq]
  constructor
  · rintro ⟨u, ⟨hu, ha⟩, rfl⟩
    exact ⟨rfl, u, hu, ha, rfl⟩
  · rintro ⟨hx, u, hu, ha, ht⟩
    exact ⟨u, ⟨hu, ha⟩, by rw [ht, ← hx]⟩

/-- With distinct ids, dropping the first patch with an id drops exactly its units. -/
theorem unitsAt_eraseP (a : Addr) : ∀ {patches : List AppliedPatch}, (patches.map (·.patchId)).Nodup →
    unitsAt (patches.eraseP (·.patchId == id)) a = (unitsAt patches a).filter (fun x => x.1 ≠ id)
  | [], _      => rfl
  | p :: ps, h => by
    obtain ⟨hp, hps⟩ := List.nodup_cons.1 h
    unfold unitsAt
    rw [List.flatMap_cons, List.filter_append, List.eraseP_cons]
    by_cases hi : p.patchId = id
    · have hkeep : ∀ x ∈ ps.flatMap (·.unitsAt a), x.1 ≠ id := by
        intro x hx he
        obtain ⟨q, hq, hxq⟩ := List.mem_flatMap.1 hx
        refine hp (List.mem_map.2 ⟨q, hq, ?_⟩)
        exact ((mem_unitsAt.1 hxq).1.symm.trans he).trans hi.symm
      have hdrop : (p.unitsAt a).filter (fun x => x.1 ≠ id) = [] :=
        List.filter_eq_nil_iff.2 (fun x hx => by simp [(mem_unitsAt.1 hx).1, hi])
      rw [hdrop, List.filter_eq_self.2 (fun x hx => by simpa using hkeep x hx)]
      simp [hi]
    · have hkeep : (p.unitsAt a).filter (fun x => x.1 ≠ id) = p.unitsAt a :=
        List.filter_eq_self.2 (fun x hx => by simpa [(mem_unitsAt.1 hx).1] using hi)
      have ih := unitsAt_eraseP a hps
      unfold unitsAt at ih
      rw [hkeep, ← ih, beq_eq_false_iff_ne.2 hi]
      rfl

/-- The units of a recorded patch are those of its metadata. -/
theorem Records.unitsAt {env : Env} {ulp : UlpMetadata} {p : AppliedPatch} (h : Records env ulp p) (a : Addr) :
    p.unitsAt a = (((ulp.objs.units.map (unitAddrs env ulp)).filter (·.1 = a)).map (fun u => (ulp.patchId, u.2))).reverse := by
  unfold AppliedPatch.unitsAt
  rw [← h.units, List.filter_map, List.map_map, h.patchId]
  rfl

end Libpulp
