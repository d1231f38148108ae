import Mathlib

/-!
# Holdings along a line

A density gives every unit stretch of a line an amount, and a weight what one unit
of the amount holds there. What lies between two points holds the sum of density
times weight, whichever point comes first.
-/

namespace RmUniswap
namespace Foundation

universe u

def Between (a b x : Nat) : Prop := min a b ≤ x ∧ x < max a b

theorem Between.symm {a b x : Nat} (h : Between a b x) : Between b a x := by
  unfold Between at h ⊢
  rwa [min_comm, max_comm]

variable {R : Type u} [CommRing R]

def held (weight density : Nat -> R) (a b : Nat) : R :=
  ∑ x ∈ Finset.Ico (min a b) (max a b), density x * weight x

variable {weight weight' density density' : Nat -> R} {a b c : Nat}

@[simp] theorem held_self (weight density : Nat -> R) (a : Nat) :
    held weight density a a = 0 := by
  unfold held
  rw [min_self, max_self, Finset.Ico_self, Finset.sum_empty]

theorem held_comm (weight density : Nat -> R) (a b : Nat) :
    held weight density a b = held weight density b a := by
  unfold held
  rw [min_comm, max_comm]

theorem held_add (h : a ≤ b ∧ b ≤ c ∨ c ≤ b ∧ b ≤ a) :
    held weight density a b + held weight density b c = held weight density a c := by
  have hup {a b c : Nat} (hab : a ≤ b) (hbc : b ≤ c) :
      held weight density a b + held weight density b c = held weight density a c := by
    unfold held
    rw [min_eq_left hab, max_eq_right hab, min_eq_left hbc, max_eq_right hbc,
      min_eq_left (hab.trans hbc), max_eq_right (hab.trans hbc)]
    exact Finset.sum_Ico_consecutive _ hab hbc
  rcases h with ⟨hab, hbc⟩ | ⟨hcb, hba⟩
  · exact hup hab hbc
  · rw [held_comm _ _ a b, held_comm _ _ b c, held_comm _ _ a c, add_comm]
    exact hup hcb hba

theorem held_congr (h : forall x, Between a b x -> density x = density' x) :
    held weight density a b = held weight density' a b := by
  unfold held
  apply Finset.sum_congr rfl
  intro x hx
  rw [h x (Finset.mem_Ico.mp hx)]

theorem held_const {l : R} (h : forall x, Between a b x -> density x = l) :
    held weight density a b = l * held weight (fun _ => 1) a b := by
  have hflat : held weight density a b = held weight (fun _ => l) a b := held_congr h
  rw [hflat]
  unfold held
  rw [Finset.mul_sum]
  apply Finset.sum_congr rfl
  intro x _
  rw [one_mul]

theorem held_add_density (weight density density' : Nat -> R) (a b : Nat) :
    held weight (fun x => density x + density' x) a b =
      held weight density a b + held weight density' a b := by
  unfold held
  rw [← Finset.sum_add_distrib]
  apply Finset.sum_congr rfl
  intro x _
  rw [add_mul]

theorem held_window {lower upper : Nat} (hlt : lower ≤ upper) (l : R) :
    held weight (fun x => if lower ≤ x ∧ x < upper then l else 0) a b =
      l * held weight (fun _ => 1) (max lower (min a upper)) (max lower (min b upper)) := by
  have hset : (Finset.Ico (min a b) (max a b)).filter (fun x => lower ≤ x ∧ x < upper) =
      Finset.Ico (min (max lower (min a upper)) (max lower (min b upper)))
        (max (max lower (min a upper)) (max lower (min b upper))) := by
    ext x
    rw [Finset.mem_filter, Finset.mem_Ico, Finset.mem_Ico]
    omega
  unfold held
  rw [← hset, Finset.mul_sum, Finset.sum_filter]
  apply Finset.sum_congr rfl
  intro x _
  dsimp only
  split
  · rw [one_mul]
  · rw [zero_mul]

theorem held_telescope {f : Nat -> R} (hab : a ≤ b)
    (h : forall x, a ≤ x -> x < b -> weight x = f x - f (x + 1)) :
    held weight (fun _ => 1) a b = f a - f b := by
  unfold held
  rw [min_eq_left hab, max_eq_right hab]
  calc
    ∑ x ∈ Finset.Ico a b, 1 * weight x = ∑ x ∈ Finset.Ico a b, -(f (x + 1) - f x) := by
      apply Finset.sum_congr rfl
      intro x hx
      rw [h x (Finset.mem_Ico.mp hx).1 (Finset.mem_Ico.mp hx).2, one_mul, neg_sub]
    _ = f a - f b := by
      rw [Finset.sum_neg_distrib, Finset.sum_Ico_sub _ hab, neg_sub]

section Order

variable [LinearOrder R] [IsStrictOrderedRing R]

theorem held_nonneg (hweight : forall x, Between a b x -> 0 ≤ weight x)
    (hdensity : forall x, Between a b x -> 0 ≤ density x) : 0 ≤ held weight density a b := by
  apply Finset.sum_nonneg
  intro x hx
  have hbetween : Between a b x := Finset.mem_Ico.mp hx
  exact mul_nonneg (hdensity x hbetween) (hweight x hbetween)

theorem held_eq_zero (hweight : forall x, Between a b x -> 0 < weight x)
    (hdensity : forall x, Between a b x -> 0 ≤ density x)
    (h : held weight density a b ≤ 0) : held weight' density a b = 0 := by
  have hnonneg (x : Nat) (hx : x ∈ Finset.Ico (min a b) (max a b)) :
      0 ≤ density x * weight x :=
    mul_nonneg (hdensity x (Finset.mem_Ico.mp hx)) (le_of_lt (hweight x (Finset.mem_Ico.mp hx)))
  have hzero := (Finset.sum_eq_zero_iff_of_nonneg hnonneg).mp
    (le_antisymm h (Finset.sum_nonneg hnonneg))
  apply Finset.sum_eq_zero
  intro x hx
  have hpos := hweight x (Finset.mem_Ico.mp hx)
  rw [(mul_eq_zero.mp (hzero x hx)).resolve_right (ne_of_gt hpos), zero_mul]

/-- Of two stretches on one side of a point, the one that holds no more of one asset
holds no more of the other. -/
theorem held_le_held (hside : a ≤ b ∧ a ≤ c ∨ b ≤ a ∧ c ≤ a)
    (hweight : forall x, Between a b x -> 0 < weight x)
    (hweight' : forall x, Between a c x -> 0 ≤ weight' x)
    (hb : forall x, Between a b x -> 0 ≤ density x)
    (hc : forall x, Between a c x -> 0 ≤ density x)
    (h : held weight density a b ≤ held weight density a c) :
    held weight' density a b ≤ held weight' density a c := by
  by_cases hin : a ≤ b ∧ b ≤ c ∨ c ≤ b ∧ b ≤ a
  · -- The first stretch is part of the second.
    have hsum : held weight' density a b + held weight' density b c = held weight' density a c :=
      held_add hin
    have hsub (x : Nat) (hx : Between b c x) : Between a c x := by
      unfold Between at hx ⊢
      omega
    have hrest : 0 ≤ held weight' density b c :=
      held_nonneg (fun x hx => hweight' x (hsub x hx)) fun x hx => hc x (hsub x hx)
    linarith
  · -- The second stretch is part of the first, and what is left of it holds nothing.
    have hout : a ≤ c ∧ c ≤ b ∨ b ≤ c ∧ c ≤ a := by omega
    have hsum : held weight density a c + held weight density c b = held weight density a b :=
      held_add hout
    have hsum' : held weight' density a c + held weight' density c b =
        held weight' density a b := held_add hout
    have hsub (x : Nat) (hx : Between c b x) : Between a b x := by
      unfold Between at hx ⊢
      omega
    have hrest : held weight' density c b = 0 :=
      held_eq_zero (fun x hx => hweight x (hsub x hx)) (fun x hx => hb x (hsub x hx))
        (by linarith)
    linarith

/-- Moving a point between two ends, the stretch to one end only loses of an asset
if the stretch to the other end gains of any other. -/
theorem held_lt_of_lt {a' : Nat}
    (hends : b ≤ a ∧ b ≤ a' ∧ a ≤ c ∧ a' ≤ c ∨ c ≤ a ∧ c ≤ a' ∧ a ≤ b ∧ a' ≤ b)
    (hweight : forall x, Between a a' x -> 0 < weight x)
    (hweight' : forall x, Between a a' x -> 0 < weight' x)
    (hdensity : forall x, Between a a' x -> 0 ≤ density x)
    (h : held weight density a' c < held weight density a c) :
    held weight' density a b < held weight' density a' b := by
  have hmoved : 0 ≤ held weight density a a' :=
    held_nonneg (fun x hx => le_of_lt (hweight x hx)) hdensity
  by_cases hnear : a ≤ a' ∧ a' ≤ c ∨ c ≤ a' ∧ a' ≤ a
  · -- What the stretch lost lies between the two points.
    have hsum : held weight density a a' + held weight density a' c = held weight density a c :=
      held_add hnear
    have hsum' : held weight' density a' a + held weight' density a b =
        held weight' density a' b := held_add (by omega)
    have hpos : 0 < held weight' density a a' := by
      by_contra hnone
      have hzero : held weight density a a' = 0 :=
        held_eq_zero hweight' hdensity (not_lt.mp hnone)
      linarith
    rw [held_comm] at hsum'
    linarith
  · have hsum : held weight density a' a + held weight density a c = held weight density a' c :=
      held_add (by omega)
    rw [held_comm] at hsum
    linarith

end Order

end Foundation
end RmUniswap
