import RmUniswap.Foundation.SortedMap

/-!
# Weighted sums over a map

Every entry has a size and every key a weight. The sum of size times weight is
linear in the weights, and one update of the map moves it by the change of one
size times the weight of its key.
-/

namespace RmUniswap
namespace Foundation
namespace SortedMap

universe u v w

variable {K : Type u} {V : Type v} {R : Type w} [LinearOrder K] [CommRing R]

def weighted (m : SortedMap K V) (size : V -> R) (weight : K -> R) : R :=
  m.sum fun k a => size a * weight k

def sizeAt (m : SortedMap K V) (size : V -> R) (k : K) : R :=
  ((m.get? k).map size).getD 0

variable {m n : SortedMap K V} {size : V -> R} {weight weight' : K -> R} {k : K}

theorem sizeAt_some {a : V} (h : m.get? k = some a) : m.sizeAt size k = size a := by
  rw [sizeAt, h]
  rfl

theorem sizeAt_none (h : m.get? k = none) : m.sizeAt size k = 0 := by
  rw [sizeAt, h]
  rfl

theorem weighted_summand (m : SortedMap K V) (size : V -> R) (weight : K -> R) (k : K) :
    m.summand (fun k a => size a * weight k) k = m.sizeAt size k * weight k := by
  cases h : m.get? k with
  | none =>
      rw [summand_none h, sizeAt_none h, zero_mul]
  | some a =>
      rw [summand_some h, sizeAt_some h]

@[simp] theorem weighted_empty : (empty : SortedMap K V).weighted size weight = 0 := rfl

theorem weighted_update (h : AgreeOff m n k) (weight : K -> R) :
    n.weighted size weight =
      m.weighted size weight + (n.sizeAt size k - m.sizeAt size k) * weight k := by
  have hsum := sum_update (fun k a => size a * weight k) h
  rw [weighted_summand, weighted_summand] at hsum
  unfold weighted
  linear_combination hsum

theorem weighted_erase (m : SortedMap K V) (size : V -> R) (weight : K -> R) (k : K) :
    m.weighted size weight = (m.erase k).weighted size weight + m.sizeAt size k * weight k := by
  rw [weighted_update (agreeOff_erase m k), sizeAt_none (get?_erase_self m k)]
  ring

theorem weighted_add (m : SortedMap K V) (size : V -> R) (weight weight' : K -> R) :
    m.weighted size (fun k => weight k + weight' k) =
      m.weighted size weight + m.weighted size weight' := by
  unfold weighted
  rw [← sum_add]
  apply sum_congr
  intro k a _
  exact mul_add _ _ _

theorem weighted_congr
    (h : forall k a, m.get? k = some a -> size a ≠ 0 -> weight k = weight' k) :
    m.weighted size weight = m.weighted size weight' := by
  apply sum_congr
  intro k a hk
  by_cases hzero : size a = 0
  · rw [hzero, zero_mul, zero_mul]
  · rw [h k a hk hzero]

theorem weighted_finset_sum {T : Type u} (S : Finset T) (weights : T -> K -> R) :
    ∑ t ∈ S, m.weighted size (weights t) =
      m.weighted size fun k => ∑ t ∈ S, weights t k := by
  classical
  induction S using Finset.induction_on with
  | empty =>
      symm
      unfold weighted
      apply List.sum_eq_zero
      intro x hx
      rcases List.mem_map.mp hx with ⟨e, _, rfl⟩
      dsimp only
      rw [Finset.sum_empty, mul_zero]
  | insert t S ht ih =>
      rw [Finset.sum_insert ht, ih]
      unfold weighted
      rw [← sum_add]
      apply sum_congr
      intro k a _
      dsimp only
      rw [Finset.sum_insert ht, mul_add]

theorem weighted_mul (c : R) :
    m.weighted size (fun k => c * weight k) = c * m.weighted size weight := by
  unfold weighted sum
  rw [← List.sum_map_mul_left]
  congr 1
  apply List.map_congr_left
  intro e _
  ring

theorem weighted_eq_sum {S : Finset K} (weight : K -> R) (h : m.keys ⊆ S) :
    m.weighted size weight = ∑ k ∈ S, m.sizeAt size k * weight k := by
  unfold weighted
  rw [sum_eq_sum_of_subset _ h]
  apply Finset.sum_congr rfl
  intro k _
  exact weighted_summand m size weight k

theorem weighted_eq_of_sizeAt (h : forall k, m.sizeAt size k = n.sizeAt size k)
    (weight : K -> R) : m.weighted size weight = n.weighted size weight := by
  rw [weighted_eq_sum weight (@Finset.subset_union_left _ _ m.keys n.keys),
    weighted_eq_sum weight (@Finset.subset_union_right _ _ m.keys n.keys)]
  apply Finset.sum_congr rfl
  intro k _
  rw [h]

section Order

variable [LinearOrder R] [IsStrictOrderedRing R]

theorem weighted_nonneg (hsize : forall a, 0 ≤ size a) (hweight : forall k, 0 ≤ weight k) :
    0 ≤ m.weighted size weight :=
  sum_nonneg fun k a _ => mul_nonneg (hsize a) (hweight k)

theorem weighted_le_weighted (hsize : forall a, 0 ≤ size a)
    (h : forall k a, m.get? k = some a -> weight k ≤ weight' k) :
    m.weighted size weight ≤ m.weighted size weight' :=
  sum_le_sum fun k a hk => mul_le_mul_of_nonneg_left (h k a hk) (hsize a)

theorem weighted_le_of_sizeAt
    (h : forall k, m.sizeAt size k * weight k ≤ n.sizeAt size k * weight' k) :
    m.weighted size weight ≤ n.weighted size weight' := by
  rw [weighted_eq_sum weight (@Finset.subset_union_left _ _ m.keys n.keys),
    weighted_eq_sum weight' (@Finset.subset_union_right _ _ m.keys n.keys)]
  apply Finset.sum_le_sum
  intro k _
  exact h k

theorem le_weighted (hsize : forall a, 0 ≤ size a) (hweight : forall k, 0 ≤ weight k)
    {a : V} (h : m.get? k = some a) : size a * weight k ≤ m.weighted size weight :=
  le_sum_of_get? (f := fun k a => size a * weight k)
    (fun k a _ => mul_nonneg (hsize a) (hweight k)) h

theorem weighted_eq_zero_iff (hsize : forall a, 0 ≤ size a) (hweight : forall k, 0 ≤ weight k) :
    m.weighted size weight = 0 ↔
      forall k a, m.get? k = some a -> size a ≠ 0 -> weight k = 0 := by
  constructor
  · intro h k a hk hne
    have hle := le_weighted hsize hweight hk
    rw [h] at hle
    have hzero := le_antisymm hle (mul_nonneg (hsize a) (hweight k))
    exact (mul_eq_zero.mp hzero).resolve_left hne
  · intro h
    have heq : m.weighted size weight = m.weighted size fun _ => 0 := weighted_congr h
    rw [heq]
    unfold weighted
    apply List.sum_eq_zero
    intro x hx
    rcases List.mem_map.mp hx with ⟨e, _, rfl⟩
    exact mul_zero _

end Order

end SortedMap
end Foundation
end RmUniswap
