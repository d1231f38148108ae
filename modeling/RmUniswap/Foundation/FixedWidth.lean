import Mathlib

/-!
# Fixed-width integers over the naturals and the integers

Unsigned words are naturals and signed words are integers.  Every operation
that can leave its width says so: wrapping operations reduce modulo the width,
checked operations return an option.
-/

namespace RmUniswap
namespace Foundation

/-!
# Unsigned words
-/

/-- The value of an unchecked operation at width {lit}`w`. -/
def wrap (w x : Nat) : Nat := x % 2 ^ w

def wrappingSub (w a b : Nat) : Nat := (a + (2 ^ w - b % 2 ^ w)) % 2 ^ w

def checkedAdd (w a b : Nat) : Option Nat :=
  if a + b < 2 ^ w then some (a + b) else none

def checkedMul (w a b : Nat) : Option Nat :=
  if a * b < 2 ^ w then some (a * b) else none

def checkedSub (a b : Nat) : Option Nat :=
  if b ≤ a then some (a - b) else none

def bitLen (n : Nat) : Nat := if n = 0 then 0 else Nat.log2 n + 1

def divCeil (a b : Nat) : Nat := if a % b = 0 then a / b else a / b + 1

theorem wrap_of_lt {w x : Nat} (h : x < 2 ^ w) : wrap w x = x :=
  Nat.mod_eq_of_lt h

theorem wrap_lt (w x : Nat) : wrap w x < 2 ^ w :=
  Nat.mod_lt x (Nat.two_pow_pos w)

theorem wrappingSub_lt (w a b : Nat) : wrappingSub w a b < 2 ^ w :=
  Nat.mod_lt _ (Nat.two_pow_pos w)

theorem wrappingSub_of_le {w a b : Nat} (hab : b ≤ a) (ha : a < 2 ^ w) :
    wrappingSub w a b = a - b := by
  unfold wrappingSub
  rw [Nat.mod_eq_of_lt (lt_of_le_of_lt hab ha),
    show a + (2 ^ w - b) = (a - b) + 2 ^ w by omega, Nat.add_mod_right,
    Nat.mod_eq_of_lt (by omega)]

theorem cast_wrappingSub (w a b : Nat) :
    ((wrappingSub w a b : Nat) : ZMod (2 ^ w)) = (a : ZMod (2 ^ w)) - b := by
  have hle : b % 2 ^ w ≤ 2 ^ w := le_of_lt (Nat.mod_lt _ (Nat.two_pow_pos w))
  unfold wrappingSub
  rw [ZMod.natCast_mod, Nat.cast_add, Nat.cast_sub hle, ZMod.natCast_self,
    ZMod.natCast_mod]
  ring

theorem checkedAdd_eq_some {w a b c : Nat} :
    checkedAdd w a b = some c ↔ c = a + b ∧ a + b < 2 ^ w := by
  unfold checkedAdd
  split
  · rename_i h
    simp [h, eq_comm]
  · rename_i h
    simp [h]

theorem checkedMul_eq_some {w a b c : Nat} :
    checkedMul w a b = some c ↔ c = a * b ∧ a * b < 2 ^ w := by
  unfold checkedMul
  split
  · rename_i h
    simp [h, eq_comm]
  · rename_i h
    simp [h]

theorem checkedSub_eq_some {a b c : Nat} :
    checkedSub a b = some c ↔ c + b = a := by
  unfold checkedSub
  split
  · simp
    omega
  · simp
    omega

theorem bitLen_le_iff {n k : Nat} : bitLen n ≤ k ↔ n < 2 ^ k := by
  unfold bitLen
  split
  · rename_i h
    simp [h]
  · rename_i h
    exact Nat.log2_lt h

theorem mul_lt_two_pow {a b m n k : Nat} (ha : a < 2 ^ m) (hb : b < 2 ^ n) (h : m + n ≤ k) :
    a * b < 2 ^ k := by
  calc
    a * b < 2 ^ m * 2 ^ n := Nat.mul_lt_mul'' ha hb
    _ = 2 ^ (m + n) := (pow_add 2 m n).symm
    _ ≤ 2 ^ k := Nat.pow_le_pow_right (by norm_num) h

theorem mul_two_pow_lt {a m n k : Nat} (ha : a < 2 ^ m) (h : m + n ≤ k) :
    a * 2 ^ n < 2 ^ k := by
  calc
    a * 2 ^ n < 2 ^ m * 2 ^ n := Nat.mul_lt_mul_of_pos_right ha (Nat.two_pow_pos n)
    _ = 2 ^ (m + n) := (pow_add 2 m n).symm
    _ ≤ 2 ^ k := Nat.pow_le_pow_right (by norm_num) h

theorem mul_lt_two_pow_of_bitLen {a b k : Nat} (h : bitLen a + bitLen b ≤ k) :
    a * b < 2 ^ k :=
  mul_lt_two_pow (bitLen_le_iff.mp (le_refl _)) (bitLen_le_iff.mp (le_refl _)) h

/-!
# Division rounding up
-/

theorem divCeil_le_iff {a b c : Nat} (hb : 0 < b) :
    divCeil a b ≤ c ↔ a ≤ c * b := by
  have hdiv := Nat.div_add_mod a b
  have hmod := Nat.mod_lt a hb
  unfold divCeil
  split
  · constructor
    · intro h
      nlinarith
    · intro h
      exact Nat.div_le_of_le_mul (by rw [Nat.mul_comm]; exact h)
  · constructor
    · intro h
      nlinarith
    · intro h
      have : a / b < c := by
        apply Nat.lt_of_mul_lt_mul_right (a := b)
        have : 0 < a % b := Nat.pos_of_ne_zero (by assumption)
        nlinarith
      omega

theorem lt_divCeil_iff {a b c : Nat} (hb : 0 < b) :
    c < divCeil a b ↔ c * b < a := by
  rw [← not_le, divCeil_le_iff hb, not_le]

theorem le_divCeil_mul {a b : Nat} (hb : 0 < b) : a ≤ divCeil a b * b :=
  (divCeil_le_iff hb).mp (le_refl _)

theorem divCeil_mul_lt {a b : Nat} (hb : 0 < b) : divCeil a b * b < a + b := by
  have hdiv := Nat.div_add_mod a b
  have hmod := Nat.mod_lt a hb
  unfold divCeil
  split
  · nlinarith
  · have : 0 < a % b := Nat.pos_of_ne_zero (by assumption)
    nlinarith

theorem div_le_divCeil (a b : Nat) : a / b ≤ divCeil a b := by
  unfold divCeil
  split
  · exact le_refl _
  · omega

@[simp] theorem zero_divCeil (b : Nat) : divCeil 0 b = 0 := by
  simp [divCeil]

theorem divCeil_eq_ceilDiv {b : Nat} (hb : 0 < b) (a : Nat) : divCeil a b = a ⌈/⌉ b := by
  apply le_antisymm
  · rw [divCeil_le_iff hb, Nat.mul_comm]
    exact (ceilDiv_le_iff_le_mul hb).mp (le_refl _)
  · rw [ceilDiv_le_iff_le_mul hb, Nat.mul_comm]
    exact le_divCeil_mul hb

theorem divCeil_mono {a a' b : Nat} (h : a ≤ a') : divCeil a b ≤ divCeil a' b := by
  rcases Nat.eq_zero_or_pos b with rfl | hb
  · unfold divCeil
    simp only [Nat.mod_zero, Nat.div_zero]
    split <;> split <;> omega
  · exact (divCeil_le_iff hb).mpr (h.trans (le_divCeil_mul hb))

/-!
# Signed words
-/

/-- The range of a signed word of {lit}`w` bits. -/
def FitsSigned (w : Nat) (x : Int) : Prop :=
  -(2 ^ (w - 1) : Int) ≤ x ∧ x < 2 ^ (w - 1)

instance (w : Nat) (x : Int) : Decidable (FitsSigned w x) :=
  inferInstanceAs (Decidable (_ ∧ _))

/-- A checked signed operation: its exact value, when that value fits. -/
def checkedSigned (w : Nat) (x : Int) : Option Int :=
  if FitsSigned w x then some x else none

def checkedAddSigned (w : Nat) (a : Nat) (d : Int) : Option Nat :=
  if 0 ≤ (a : Int) + d ∧ (a : Int) + d < 2 ^ w then some ((a : Int) + d).toNat
  else none

/-- Negation without an overflow check: the least signed word is its own negation. -/
def wrappingNeg (w : Nat) (x : Int) : Int := if x = -2 ^ (w - 1) then x else -x

theorem wrappingNeg_of_ne {w : Nat} {x : Int} (h : x ≠ -2 ^ (w - 1)) : wrappingNeg w x = -x :=
  if_neg h

theorem wrappingNeg_fits {w : Nat} {x : Int} (h : FitsSigned w x) :
    FitsSigned w (wrappingNeg w x) := by
  unfold FitsSigned wrappingNeg at *
  split
  · exact h
  · omega

theorem checkedSigned_eq_some {w : Nat} {x y : Int} :
    checkedSigned w x = some y ↔ y = x ∧ FitsSigned w x := by
  unfold checkedSigned
  split
  · rename_i h
    simp [h, eq_comm]
  · rename_i h
    simp [h]

theorem checkedAddSigned_eq_some {w a : Nat} {d : Int} {c : Nat} :
    checkedAddSigned w a d = some c ↔ (c : Int) = a + d ∧ c < 2 ^ w := by
  unfold checkedAddSigned
  split
  · rename_i h
    rw [Option.some_inj]
    constructor
    · intro hc
      subst hc
      refine ⟨Int.toNat_of_nonneg h.1, ?_⟩
      zify
      rw [Int.toNat_of_nonneg h.1]
      exact h.2
    · intro hc
      omega
  · rename_i h
    simp only [reduceCtorEq, false_iff, not_and, not_lt]
    intro hc
    by_contra hlt
    apply h
    refine ⟨by omega, ?_⟩
    rw [← hc]
    exact_mod_cast not_le.mp hlt

theorem checkedAddSigned_eq_none {w a : Nat} {d : Int} :
    checkedAddSigned w a d = none ↔ (a : Int) + d < 0 ∨ 2 ^ w ≤ (a : Int) + d := by
  unfold checkedAddSigned
  split
  · rename_i h
    simp only [reduceCtorEq, false_iff]
    omega
  · rename_i h
    simp only [true_iff]
    omega

end Foundation
end RmUniswap
