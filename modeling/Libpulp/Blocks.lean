import Mathlib.Algebra.Order.Ring.Nat
import Mathlib.Data.Fintype.Card
import Mathlib.Data.List.Nodup
/-!
# Blocks — a heap that only grows

Blocks of one size in an address space of `w` bits, each allocated apart from all before it and none of them freed: there
is room for `2 ^ w / size` of them and no more.
-/
namespace Libpulp
namespace Blocks

variable {w : Nat}

/-- The addresses of a block of `size` bytes. -/
def cells (size : Nat) (a : BitVec w) : List (BitVec w) := (List.range size).map (fun i => a + BitVec.ofNat w i)

/-- A block at `a` shares no byte with those allocated. -/
def Fresh (size : Nat) (blocks : List (BitVec w)) (a : BitVec w) : Prop :=
  ∀ b ∈ blocks, (cells size a).Disjoint (cells size b)

/-- Blocks that were fresh when they were allocated, the last one first. -/
def Allocated (size : Nat) : List (BitVec w) → Prop
  | []          => True
  | a :: blocks => Fresh size blocks a ∧ Allocated size blocks

theorem length_cells (size : Nat) (a : BitVec w) : (cells size a).length = size := by
  rw [cells, List.length_map, List.length_range]

theorem nodup_cells {size : Nat} (h : size ≤ 2 ^ w) (a : BitVec w) : (cells size a).Nodup := by
  refine List.nodup_range.map_on (fun i hi j hj hij => ?_)
  have hij' := congrArg BitVec.toNat ((BitVec.add_right_inj a).1 hij)
  rw [List.mem_range] at hi hj
  rwa [BitVec.toNat_ofNat, BitVec.toNat_ofNat, Nat.mod_eq_of_lt (by omega), Nat.mod_eq_of_lt (by omega)] at hij'

theorem nodup_flatMap_cells {size : Nat} (h : size ≤ 2 ^ w) : ∀ {blocks : List (BitVec w)}, Allocated size blocks →
    (blocks.flatMap (cells size)).Nodup
  | [], _          => List.nodup_nil
  | a :: blocks, ha => by
    rw [List.flatMap_cons, List.nodup_append']
    refine ⟨nodup_cells h a, nodup_flatMap_cells h ha.2, fun x hx hx' => ?_⟩
    obtain ⟨b, hb, hxb⟩ := List.mem_flatMap.1 hx'
    exact ha.1 b hb hx hxb

theorem length_flatMap_cells (size : Nat) (blocks : List (BitVec w)) :
    (blocks.flatMap (cells size)).length = blocks.length * size := by
  simp [List.length_flatMap, length_cells]

/-- **The blocks fit into the address space.** -/
theorem Allocated.length_mul_le {size : Nat} (h : size ≤ 2 ^ w) {blocks : List (BitVec w)} (ha : Allocated size blocks) :
    blocks.length * size ≤ 2 ^ w := by
  have hnodup := (nodup_flatMap_cells h ha).map (f := BitVec.toFin) (fun x y hxy => BitVec.toFin_inj.1 hxy)
  have hcard := hnodup.length_le_card
  rwa [List.length_map, length_flatMap_cells, Fintype.card_fin] at hcard

end Blocks
end Libpulp
