import RmUniswap.Foundation.RationalPoly

/-!
# Quotients of polynomials near the exponential and the logarithm

A quotient is close to a function when the derivative of their ratio, or of
their difference, is small. For the exponential and the logarithm that derivative
is a polynomial over the square of the denominator, so closeness on an interval
follows from two bounds computed on coefficients.
-/

namespace RmUniswap
namespace Foundation

namespace RationalPoly

section Exponential

variable {p q : List ℚ} {b low : ℚ} {x : ℝ}

def expDefect (p q : List ℚ) : List ℚ :=
  sub (sub (mul (derivative p) q) (mul p (derivative q))) (mul p q)

theorem eval_expDefect (p q : List ℚ) (x : ℝ) :
    eval (expDefect p q) x = eval (derivative p) x * eval q x -
      eval p x * eval (derivative q) x - eval p x * eval q x := by
  simp only [expDefect, eval_sub, eval_mul]

theorem hasDerivAt_quotient_exp (hq : eval q x ≠ 0) :
    HasDerivAt (fun y => eval p y / eval q y * Real.exp (-y))
      (eval (expDefect p q) x / eval q x ^ 2 * Real.exp (-x)) x := by
  have hquotient := (hasDerivAt_eval p x).div (hasDerivAt_eval q x) hq
  have hexp : HasDerivAt (fun y : ℝ => Real.exp (-y)) (Real.exp (-x) * -1) x :=
    (hasDerivAt_neg x).exp
  refine (hquotient.mul hexp).congr_deriv ?_
  rw [eval_expDefect, Pi.div_apply]
  field_simp
  ring

/-- On an interval around zero the quotient is the exponential times its value
at zero, up to a relative error. -/
theorem abs_quotient_sub_exp_le (hb : b ≤ 1) (hlow : 0 < low)
    (hq : forall y : ℝ, |y| ≤ b -> (low : ℝ) ≤ eval q y) (hx : |x| ≤ b) :
    |eval p x / eval q x - eval p 0 / eval q 0 * Real.exp x| ≤
      3 * (bound b (expDefect p q) / low ^ 2) * b * Real.exp x := by
  have hb0 : (0 : ℝ) ≤ b := (abs_nonneg x).trans hx
  have hlow' : (0 : ℝ) < low := by exact_mod_cast hlow
  have hmem {y : ℝ} (hy : y ∈ Set.Icc (-(b : ℝ)) b) : |y| ≤ b := abs_le.mpr hy
  have hpos {y : ℝ} (hy : y ∈ Set.Icc (-(b : ℝ)) b) : 0 < eval q y :=
    lt_of_lt_of_le hlow' (hq y (hmem hy))
  have hderiv (y : ℝ) (hy : y ∈ Set.Icc (-(b : ℝ)) b) :
      ‖eval (expDefect p q) y / eval q y ^ 2 * Real.exp (-y)‖ ≤
        3 * (bound b (expDefect p q) / low ^ 2) := by
    have hnum := abs_eval_le (hmem hy) (expDefect p q)
    have hden : (low : ℝ) ^ 2 ≤ eval q y ^ 2 :=
      pow_le_pow_left₀ (le_of_lt hlow') (hq y (hmem hy)) 2
    have hexp : Real.exp (-y) ≤ 3 := by
      have hle : -y ≤ 1 := by
        have hone : (b : ℝ) ≤ 1 := by exact_mod_cast hb
        linarith [hy.1]
      exact (Real.exp_le_exp.mpr hle).trans (le_of_lt Real.exp_one_lt_three)
    rw [Real.norm_eq_abs, abs_mul, abs_div, abs_of_pos (pow_pos (hpos hy) 2),
      abs_of_pos (Real.exp_pos _), mul_comm]
    apply mul_le_mul hexp _ (by positivity) (by norm_num)
    exact div_le_div₀ ((abs_nonneg _).trans hnum) hnum (pow_pos hlow' 2) hden
  have hmean := (convex_Icc (-(b : ℝ)) b).norm_image_sub_le_of_norm_hasDerivWithin_le
    (fun y hy => (hasDerivAt_quotient_exp (p := p) (ne_of_gt (hpos hy))).hasDerivWithinAt)
    hderiv (⟨by linarith, hb0⟩ : (0 : ℝ) ∈ Set.Icc (-(b : ℝ)) b) (abs_le.mp hx)
  have hsplit : eval p x / eval q x - eval p 0 / eval q 0 * Real.exp x =
      (eval p x / eval q x * Real.exp (-x) - eval p 0 / eval q 0 * Real.exp (-0)) *
        Real.exp x := by
    rw [neg_zero, Real.exp_zero, sub_mul, mul_assoc, ← Real.exp_add, neg_add_cancel,
      Real.exp_zero]
    ring
  rw [hsplit, abs_mul, abs_of_pos (Real.exp_pos x)]
  apply mul_le_mul_of_nonneg_right _ (le_of_lt (Real.exp_pos x))
  rw [Real.norm_eq_abs, Real.norm_eq_abs, sub_zero] at hmean
  have hcoef : (0 : ℝ) ≤ 3 * (bound b (expDefect p q) / low ^ 2) :=
    (norm_nonneg _).trans (hderiv 0 ⟨by linarith, hb0⟩)
  exact hmean.trans (mul_le_mul_of_nonneg_left hx hcoef)

end Exponential

section Logarithm

variable {p q : List ℚ} {x y : ℝ}

def logDefect (a : ℚ) (p q : List ℚ) : List ℚ :=
  sub (scale a (mul [0, 1] (sub (mul (derivative p) q) (mul p (derivative q))))) (mul q q)

theorem eval_logDefect (a : ℚ) (p q : List ℚ) (x : ℝ) :
    eval (logDefect a p q) x = a * (x * (eval (derivative p) x * eval q x -
      eval p x * eval (derivative q) x)) - eval q x * eval q x := by
  simp only [logDefect, eval_sub, eval_scale, eval_mul, eval_cons, eval_nil]
  push_cast
  ring

theorem hasDerivAt_quotient_log (a : ℚ) (hx : x ≠ 0) (hq : eval q x ≠ 0) :
    HasDerivAt (fun y => a * (eval p y / eval q y) - Real.log y)
      (eval (logDefect a p q) x / (x * eval q x ^ 2)) x := by
  have hquotient := ((hasDerivAt_eval p x).div (hasDerivAt_eval q x) hq).const_mul (a : ℝ)
  refine (hquotient.sub (Real.hasDerivAt_log hx)).congr_deriv ?_
  rw [eval_logDefect]
  field_simp

/-- Between one and two the differences of the scaled quotient are those of the
logarithm, up to a multiple of the distance. -/
theorem abs_quotient_sub_log_le (a : ℚ) (hq : forall c, c ∈ q -> 0 ≤ c) (hlow : 0 < total q)
    (hx : x ∈ Set.Icc (1 : ℝ) 2) (hy : y ∈ Set.Icc (1 : ℝ) 2) :
    |(a * (eval p x / eval q x) - Real.log x) - (a * (eval p y / eval q y) - Real.log y)| ≤
      (bound (1 / 2) (shift (3 / 2) (logDefect a p q)) / total q ^ 2 : ℚ) * |x - y| := by
  have hlow' : (0 : ℝ) < total q := by exact_mod_cast hlow
  have hpos {z : ℝ} (hz : z ∈ Set.Icc (1 : ℝ) 2) : 0 < eval q z :=
    lt_of_lt_of_le hlow' (total_le_eval hq hz.1)
  have hderiv (z : ℝ) (hz : z ∈ Set.Icc (1 : ℝ) 2) :
      ‖eval (logDefect a p q) z / (z * eval q z ^ 2)‖ ≤
        (bound (1 / 2) (shift (3 / 2) (logDefect a p q)) / total q ^ 2 : ℚ) := by
    have hnear : |z - 3 / 2| ≤ ((1 / 2 : ℚ) : ℝ) := by
      push_cast
      exact abs_le.mpr ⟨by linarith [hz.1], by linarith [hz.2]⟩
    have hnum := abs_eval_le hnear (shift (3 / 2) (logDefect a p q))
    rw [eval_shift] at hnum
    push_cast at hnum
    rw [add_sub_cancel] at hnum
    have hden : (total q : ℝ) ^ 2 ≤ z * eval q z ^ 2 := by
      have hsquare : (total q : ℝ) ^ 2 ≤ eval q z ^ 2 :=
        pow_le_pow_left₀ (le_of_lt hlow') (total_le_eval hq hz.1) 2
      have hgrow : eval q z ^ 2 ≤ z * eval q z ^ 2 :=
        le_mul_of_one_le_left (sq_nonneg _) hz.1
      exact hsquare.trans hgrow
    have hz0 : 0 < z * eval q z ^ 2 :=
      mul_pos (lt_of_lt_of_le one_pos hz.1) (pow_pos (hpos hz) 2)
    rw [Real.norm_eq_abs, abs_div, abs_of_pos hz0]
    push_cast
    exact div_le_div₀ ((abs_nonneg _).trans hnum) hnum (pow_pos hlow' 2) hden
  exact (convex_Icc (1 : ℝ) 2).norm_image_sub_le_of_norm_hasDerivWithin_le
    (fun z hz => (hasDerivAt_quotient_log (p := p) a
      (ne_of_gt (lt_of_lt_of_le one_pos hz.1)) (ne_of_gt (hpos hz))).hasDerivWithinAt)
    hderiv hy hx

end Logarithm

end RationalPoly

end Foundation
end RmUniswap
