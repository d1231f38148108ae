import Mathlib

/-!
# Accumulators over ranges

A global accumulator grows at a current point of a line. Every mark of the line
keeps the part of the growth on the other side of it than the current point:
passing a mark replaces its part by the rest. Growth between two marks is then
the growth left of the upper one less the growth left of the lower one.
-/

namespace RmUniswap
namespace Foundation

universe u v

variable {K : Type u} {A : Type v} [LinearOrder K] [AddCommGroup A]

def leftOf (point : K) (total : A) (mark : K) (kept : A) : A :=
  if mark ≤ point then kept else total - kept

def between (point : K) (total : A) (lower upper : K) (keptLower keptUpper : A) : A :=
  leftOf point total upper keptUpper - leftOf point total lower keptLower

variable {point point' mark lower upper : K} {total amount kept keptLower keptUpper : A}

theorem leftOf_grow :
    leftOf point (total + amount) mark kept =
      leftOf point total mark kept + if point < mark then amount else 0 := by
  unfold leftOf
  by_cases h : mark ≤ point
  · rw [if_pos h, if_pos h, if_neg (not_lt.mpr h), add_zero]
  · rw [if_neg h, if_neg h, if_pos (not_le.mp h), add_sub_right_comm]

theorem leftOf_stay (h : mark ≤ point' ↔ mark ≤ point) :
    leftOf point' total mark kept = leftOf point total mark kept := by
  unfold leftOf
  rw [if_congr h rfl rfl]

theorem leftOf_pass (h : mark ≤ point' ↔ ¬ mark ≤ point) :
    leftOf point' total mark (total - kept) = leftOf point total mark kept := by
  unfold leftOf
  by_cases hle : mark ≤ point
  · rw [if_neg (fun hp => h.mp hp hle), if_pos hle, sub_sub_cancel]
  · rw [if_pos (h.mpr hle), if_neg hle]

theorem between_eq (h : lower ≤ upper) :
    between point total lower upper keptLower keptUpper =
      if point < lower then keptLower - keptUpper
      else if upper ≤ point then keptUpper - keptLower
      else total - keptLower - keptUpper := by
  unfold between leftOf
  by_cases hl : point < lower
  · rw [if_pos hl, if_neg (not_le.mpr (hl.trans_le h)), if_neg (not_le.mpr hl)]
    abel
  · by_cases hu : upper ≤ point
    · rw [if_neg hl, if_pos hu, if_pos hu, if_pos (not_lt.mp hl)]
    · rw [if_neg hl, if_neg hu, if_neg hu, if_pos (not_lt.mp hl)]
      abel

end Foundation
end RmUniswap
