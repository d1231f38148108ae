import RmUniswap.Foundation.QuotientApprox
import RmUniswap.StablePair.Polynomials

/-!
# The exponential of a negative argument

From the cutoff up to zero the result is the integer part of a value close to
the exponential. The closeness is relative: the reduction of the argument, the
quotient of the polynomials and the truncations together stay within two parts
in a hundred million.
-/

namespace RmUniswap

open Foundation
open Foundation.RationalPoly

namespace Wad

theorem div_eq {a b : Int} {n : Nat} (hb : b ≠ 0) (ha : |a| ≤ 2 ^ n) (hn : n < 255) :
    div a b = some (a.tdiv b) := by
  have hfits : FitsSigned 256 (a.tdiv b) :=
    fitsSigned_of_abs_le ((abs_tdiv_le a b).trans ha) (by omega)
  unfold div checkedSigned
  rw [if_neg hb, if_pos hfits]

section Quotient

variable {u : ℝ} {t : Int}

def expRange : ℚ := 3467 / 10000

noncomputable def expAnchor : ℝ := eval expP 0 / eval expQ 0

theorem expBounds :
    (264959 : ℚ) ≤ expQ.headD 0 - expRange * bound expRange expQ.tail ∧
      bound expRange expQ ≤ 410000 ∧
      (40000 : ℚ) ≤ expP.headD 0 - expRange * bound expRange expP.tail ∧
      bound expRange expP ≤ 66000 ∧
      3 * (bound expRange (expDefect expP expQ) / 264959 ^ 2) * expRange ≤ 1 / 10 ^ 15 := by
  decide +kernel

theorem expQ_low (hu : |u| ≤ expRange) : (264959 : ℝ) ≤ eval expQ u :=
  le_trans (by exact_mod_cast expBounds.1) (le_eval hu expQ)

theorem expP_low (hu : |u| ≤ expRange) : (40000 : ℝ) ≤ eval expP u :=
  le_trans (by exact_mod_cast expBounds.2.2.1) (le_eval hu expP)

theorem expP_high (hu : |u| ≤ expRange) : eval expP u ≤ (66000 : ℝ) := by
  have hle : (bound expRange expP : ℝ) ≤ 66000 := by exact_mod_cast expBounds.2.2.2.1
  exact (le_abs_self _).trans ((abs_eval_le hu expP).trans hle)

theorem abs_expQuotient_sub_le (hu : |u| ≤ expRange) :
    |eval expP u / eval expQ u - expAnchor * Real.exp u| ≤ 1 / 10 ^ 15 * Real.exp u := by
  have hbound := expBounds.2.2.2.2
  have hlow : (0 : ℚ) < 264959 := by norm_num
  have hquotient := abs_quotient_sub_exp_le (p := expP) (q := expQ) (b := expRange)
    (by norm_num [expRange]) hlow
    (fun y hy => by exact_mod_cast expQ_low hy) hu
  apply hquotient.trans
  apply mul_le_mul_of_nonneg_right _ (le_of_lt (Real.exp_pos u))
  have hcast : ((3 * (bound expRange (expDefect expP expQ) / 264959 ^ 2) * expRange : ℚ) : ℝ) ≤
      ((1 / 10 ^ 15 : ℚ) : ℝ) := by exact_mod_cast hbound
  push_cast at hcast ⊢
  exact hcast

theorem expQ_high (hu : |u| ≤ expRange) : eval expQ u ≤ (410000 : ℝ) := by
  have hle : (bound expRange expQ : ℝ) ≤ 410000 := by exact_mod_cast expBounds.2.1
  exact (le_abs_self _).trans ((abs_eval_le hu expQ).trans hle)

theorem expDenominator_low (ht : |t| ≤ 2 ^ 95) (hu : |fixed 96 t| ≤ expRange) :
    (2 : ℝ) ^ 113 ≤ expDenominator t := by
  have hle := neg_le_of_abs_le (expDenominator_near ht)
  have hmul : (2 : ℝ) ^ 96 * 264959 ≤ 2 ^ 96 * eval expQ (fixed 96 t) :=
    mul_le_mul_of_nonneg_left (expQ_low hu) (by positivity)
  norm_num at hmul hle ⊢
  linarith

theorem abs_expNumerator_le (ht : |t| ≤ 2 ^ 95) (hu : |fixed 96 t| ≤ expRange) :
    |expNumerator t| ≤ 2 ^ 210 := by
  have hnear := abs_le.mp (expNumerator_near ht)
  have hlow := expP_low hu
  have hhigh := expP_high hu
  have hreal : |(expNumerator t : ℝ)| ≤ 2 ^ 210 := by
    norm_num at hnear ⊢
    exact abs_le.mpr ⟨by linarith, by linarith⟩
  exact_mod_cast hreal

theorem expRatio_spec (ht : |t| ≤ 2 ^ 95) (hu : |fixed 96 t| ≤ expRange) :
    exists r, div (expNumerator t) (expDenominator t) = some r ∧
      Near 96 r (eval expP (fixed 96 t) / eval expQ (fixed 96 t)) 2 ∧ 0 < r ∧ r ≤ 2 ^ 94 := by
  have hQlow := expQ_low hu
  have hPlow := expP_low hu
  have hQ0 : 0 < eval expQ (fixed 96 t) := lt_of_lt_of_le (by norm_num) hQlow
  have hratio_le : eval expP (fixed 96 t) / eval expQ (fixed 96 t) ≤ 66000 / 264959 :=
    div_le_div₀ (by norm_num) (expP_high hu) (by norm_num) hQlow
  have hratio_ge : 40000 / 410000 ≤ eval expP (fixed 96 t) / eval expQ (fixed 96 t) :=
    div_le_div₀ ((by norm_num : (0 : ℝ) ≤ 40000).trans hPlow) hPlow hQ0 (expQ_high hu)
  have hlow := expDenominator_low ht hu
  have hreal : (0 : ℝ) < expDenominator t := lt_of_lt_of_le (by positivity) hlow
  have hpos : 0 < expDenominator t := by exact_mod_cast hreal
  have hnear : Near 96 ((expNumerator t).tdiv (expDenominator t))
      (eval expP (fixed 96 t) / eval expQ (fixed 96 t)) 2 := by
    apply (Near.quotient (t := 96) (expNumerator_near ht) (expDenominator_near ht) hQ0 hpos).mono
    have hfraction :
        (2 ^ 108 + 2 ^ 96 * (|eval expP (fixed 96 t)| / eval expQ (fixed 96 t)) * 2) /
          (expDenominator t : ℝ) ≤ 1 := by
      rw [div_le_one hreal, abs_of_pos (lt_of_lt_of_le (by norm_num) hPlow)]
      apply le_trans _ hlow
      norm_num at hratio_le ⊢
      linarith
    linarith
  have hbounds := abs_le.mp hnear
  have hr0 : (0 : ℝ) < ((expNumerator t).tdiv (expDenominator t) : Int) := by
    norm_num at hratio_ge hbounds
    linarith [hbounds.1]
  have hr1 : (((expNumerator t).tdiv (expDenominator t) : Int) : ℝ) ≤ 2 ^ 94 := by
    norm_num at hratio_le hbounds ⊢
    linarith [hbounds.2]
  refine ⟨_, div_eq (ne_of_gt hpos) (abs_expNumerator_le ht hu) (by decide), hnear, ?_, ?_⟩
  · exact_mod_cast hr0
  · exact_mod_cast hr1

end Quotient

section Reduction

variable {x : Int}

def ln2 : Int := 54916777467707473351141471128

theorem expReduce_spec (hlow : -41446531673892822313 < x) (hx : x ≤ 0) :
    exists (t : Int) (m : Nat), expReduce x = some (t, -(m : Int)) ∧ m ≤ 60 ∧ |t| ≤ 2 ^ 95 ∧
      10000 * |t| ≤ 3467 * 2 ^ 96 ∧
      |(t - m * ln2) * 10 ^ 18 - x * 2 ^ 96| ≤ 10 ^ 18 := by
  have hxabs : |x| ≤ 2 ^ 66 := abs_le.mpr ⟨by omega, by omega⟩
  have hscaled := abs_mul_le_pow (b := 78) (y := 2 ^ 78) hxabs (by decide)
  have hrest := abs_le.mp (abs_mul_tdiv_sub_le (x * 2 ^ 78) (b := 3814697265625) (by decide))
  unfold expReduce
  rw [shl_eq hxabs (by decide), div_eq (by decide) hscaled (by decide), Option.bind_eq_bind,
    Option.bind_some]
  generalize (x * 2 ^ 78).tdiv 3814697265625 = y at hrest ⊢
  rw [abs_of_pos (by decide : (0 : Int) < 3814697265625)] at hrest
  have hyabs : |y| ≤ 2 ^ 102 := abs_le.mpr ⟨by omega, by omega⟩
  have hyscaled := abs_mul_le_pow (b := 96) (y := 2 ^ 96) hyabs (by decide)
  have hquotient := abs_le.mp
    (abs_mul_tdiv_sub_le (y * 2 ^ 96) (b := 54916777467707473351141471128) (by decide))
  dsimp only
  rw [shl_eq hyabs (by decide), div_eq (by decide) hyscaled (by decide), Option.bind_some]
  have hqabs := (abs_tdiv_le (y * 2 ^ 96) 54916777467707473351141471128).trans hyscaled
  generalize (y * 2 ^ 96).tdiv 54916777467707473351141471128 = q at hquotient hqabs ⊢
  rw [abs_of_pos (by decide : (0 : Int) < 54916777467707473351141471128)] at hquotient
  have hfits : FitsSigned 256 (q + 2 ^ 95) :=
    fitsSigned_of_abs_le (abs_add_le_pow hqabs (by decide)) (by decide)
  rw [checkedSigned_eq_some.mpr ⟨rfl, hfits⟩, Option.bind_some]
  unfold sar
  obtain ⟨k, hk⟩ : exists k, k = (q + 2 ^ 95) / 2 ^ 96 := ⟨_, rfl⟩
  rw [← hk]
  have hklow : 2 ^ 96 * k ≤ q + 2 ^ 95 := by omega
  have hkhigh : q + 2 ^ 95 < 2 ^ 96 * (k + 1) := by omega
  have hk0 : k ≤ 0 := by omega
  have hk60 : -60 ≤ k := by omega
  have hkabs : |k| ≤ 2 ^ 6 := abs_le.mpr ⟨by omega, by omega⟩
  have hkln2 := abs_mul_le_pow (y := ln2) (b := 96) hkabs (by decide)
  have hkln2' : |k * ln2| ≤ 2 ^ 102 := hkln2
  unfold ln2 at hkln2 hkln2' ⊢
  refine ⟨y - k * 54916777467707473351141471128, (-k).toNat, ?_, ?_, ?_, ?_, ?_⟩
  · rw [wrappingMul_eq hkabs (b := 96) (by decide) (by decide),
      wrappingSub_eq hyabs hkln2' (by decide), Int.toNat_of_nonneg (by omega), neg_neg]
  · omega
  · exact abs_le.mpr ⟨by omega, by omega⟩
  · have habs : |y - k * 54916777467707473351141471128| ≤ 3467 * 2 ^ 96 / 10000 :=
      abs_le.mpr ⟨by omega, by omega⟩
    omega
  · rw [Int.toNat_of_nonneg (by omega)]
    exact abs_le.mpr ⟨by omega, by omega⟩

end Reduction

section Result

variable {x t r : Int} {m : Nat} {u : ℝ}

noncomputable def expValue (r : Int) (m : Nat) : ℝ := fixed (195 + m) (r * expScale)

theorem expValue_eq (r : Int) (m : Nat) : expValue r m = r * expScale / 2 ^ (195 + m) := by
  unfold expValue fixed
  push_cast
  rfl

theorem expWad_floor (hlow : -41446531673892822313 < x) (hx : x ≤ 0)
    (hreduce : expReduce x = some (t, -(m : Int))) (hm : m ≤ 60)
    (hdiv : div (expNumerator t) (expDenominator t) = some r) (hr0 : 0 < r) (hr : r ≤ 2 ^ 94) :
    expWad x = some ⌊expValue r m⌋ := by
  obtain ⟨n, rfl⟩ : exists n : Nat, r = n := ⟨r.toNat, (Int.toNat_of_nonneg (le_of_lt hr0)).symm⟩
  have hn : n ≤ 2 ^ 94 := by exact_mod_cast hr
  have hprod : n * expScale < 2 ^ 256 :=
    lt_of_le_of_lt (Nat.mul_le_mul_right _ hn) (by norm_num [expScale])
  have hword : toRaw 256 (n : Int) = n := by
    have h := toRaw_of_nonneg (w := 256) (x := n) (by omega)
      (by exact_mod_cast lt_of_le_of_lt hn (by norm_num))
    exact_mod_cast h
  have hk : FitsSigned 64 (-(m : Int)) := ⟨by omega, by omega⟩
  have hs : FitsSigned 64 (195 - -(m : Int)) := ⟨by omega, by omega⟩
  have hshift : toRaw 64 (195 - -(m : Int)) = 195 + m := by
    have h := toRaw_of_nonneg (w := 64) (x := 195 - -(m : Int)) (by omega) (by omega)
    omega
  unfold expWad
  rw [if_neg (by omega), if_neg (by omega), hreduce, Option.bind_eq_bind, Option.bind_some]
  dsimp only
  rw [hdiv, Option.bind_eq_bind, Option.bind_some, checkedSigned_eq_some.mpr ⟨rfl, hk⟩,
    Option.bind_some, checkedSigned_eq_some.mpr ⟨rfl, hs⟩, Option.bind_some, hword, hshift,
    wrap_of_lt hprod, Nat.shiftRight_eq_div_pow]
  have hsmall : n * expScale / 2 ^ (195 + m) < 2 ^ 255 := by
    have hle : n * expScale / 2 ^ (195 + m) ≤ n * expScale / 2 ^ 1 :=
      Nat.div_le_div_left (Nat.pow_le_pow_right (by decide) (by omega)) (by decide)
    omega
  rw [toSigned_of_lt hsmall]
  rw [expValue_eq]
  have hfloor := Int.floor_div_natCast (n * expScale : ℝ) (2 ^ (195 + m))
  have hcast : (n * expScale : ℝ) = ((n * expScale : Nat) : ℝ) := by push_cast; rfl
  rw [hcast, Int.floor_natCast] at hfloor
  push_cast at hfloor ⊢
  rw [hfloor]

theorem abs_expScale_sub_le :
    |2 ^ 96 * expAnchor * (expScale / 2 ^ 195) - 10 ^ 18| ≤ (1 : ℝ) := by
  have hanchor : expAnchor = ((expP.headD 0 / expQ.headD 0 : ℚ) : ℝ) := by
    unfold expAnchor
    rw [eval_zero, eval_zero]
    push_cast
    rfl
  obtain ⟨hlow, hhigh⟩ : (10 ^ 18 - 1 : ℚ) ≤
        2 ^ 96 * (expP.headD 0 / expQ.headD 0) * (expScale / 2 ^ 195) ∧
      2 ^ 96 * (expP.headD 0 / expQ.headD 0) * (expScale / 2 ^ 195) ≤ (10 ^ 18 + 1 : ℚ) := by
    decide +kernel
  have hlow' : ((10 ^ 18 - 1 : ℚ) : ℝ) ≤
      (2 ^ 96 * (expP.headD 0 / expQ.headD 0) * (expScale / 2 ^ 195) : ℚ) := Rat.cast_le.mpr hlow
  have hhigh' : ((2 ^ 96 * (expP.headD 0 / expQ.headD 0) * (expScale / 2 ^ 195) : ℚ) : ℝ) ≤
      (10 ^ 18 + 1 : ℚ) := Rat.cast_le.mpr hhigh
  rw [hanchor]
  push_cast at hlow' hhigh' ⊢
  exact abs_le.mpr ⟨by linarith, by linarith⟩

theorem abs_expValue_sub_le {w : ℝ} (hr : Near 96 r w 2)
    (hw : |w - expAnchor * Real.exp u| ≤ 1 / 10 ^ 15 * Real.exp u) (hu : |u| ≤ expRange) :
    |expValue r m - 10 ^ 18 * (Real.exp u / 2 ^ m)| ≤ 10 ^ 9 * (Real.exp u / 2 ^ m) := by
  have hexp : 1 / 2 ≤ Real.exp u := by
    have hone := Real.add_one_le_exp u
    have hlow := neg_le_of_abs_le hu
    norm_num [expRange] at hlow
    linarith
  have hscale : (expScale : ℝ) / 2 ^ 195 ≤ 1 / 10 ^ 10 := by
    norm_num [expScale]
  have hscale0 : (0 : ℝ) ≤ expScale / 2 ^ 195 := by positivity
  have hratio : |(r : ℝ) - 2 ^ 96 * (expAnchor * Real.exp u)| ≤
      2 + 2 ^ 96 * (1 / 10 ^ 15 * Real.exp u) := by
    have hsplit : (r : ℝ) - 2 ^ 96 * (expAnchor * Real.exp u) =
        (r - 2 ^ 96 * w) + 2 ^ 96 * (w - expAnchor * Real.exp u) := by ring
    rw [hsplit]
    apply (abs_add_le _ _).trans
    rw [abs_mul, abs_of_pos (by positivity : (0 : ℝ) < 2 ^ 96)]
    exact add_le_add hr (mul_le_mul_of_nonneg_left hw (by positivity))
  have hsplit : expValue r m - 10 ^ 18 * (Real.exp u / 2 ^ m) =
      ((r - 2 ^ 96 * (expAnchor * Real.exp u)) * (expScale / 2 ^ 195) +
        (2 ^ 96 * expAnchor * (expScale / 2 ^ 195) - 10 ^ 18) * Real.exp u) / 2 ^ m := by
    rw [expValue_eq, pow_add]
    field_simp
    ring
  have hfirst : |(r - 2 ^ 96 * (expAnchor * Real.exp u)) * (expScale / 2 ^ 195)| ≤
      (2 + 2 ^ 96 * (1 / 10 ^ 15 * Real.exp u)) * (1 / 10 ^ 10) := by
    rw [abs_mul, abs_of_nonneg hscale0]
    exact mul_le_mul hratio hscale hscale0 ((abs_nonneg _).trans hratio)
  have hsecond : |(2 ^ 96 * expAnchor * (expScale / 2 ^ 195) - 10 ^ 18) * Real.exp u| ≤
      1 * Real.exp u := by
    rw [abs_mul, abs_of_pos (Real.exp_pos u)]
    exact mul_le_mul_of_nonneg_right abs_expScale_sub_le (le_of_lt (Real.exp_pos u))
  rw [hsplit, abs_div, abs_of_pos (by positivity : (0 : ℝ) < 2 ^ m),
    ← mul_div_assoc (10 ^ 9 : ℝ)]
  apply div_le_div_of_nonneg_right _ (by positivity)
  apply (abs_add_le _ _).trans
  norm_num at hfirst hsecond ⊢
  linarith

theorem abs_ln2_sub_le : |(ln2 : ℝ) / 2 ^ 96 - Real.log 2| ≤ 11 / 10 ^ 11 := by
  have hnear := abs_le.mp Real.log_two_near_10
  unfold ln2
  norm_num at hnear ⊢
  exact abs_le.mpr ⟨by linarith, by linarith⟩

theorem abs_reduced_sub_le (hm : m ≤ 60)
    (hreduce : |(t - m * ln2) * 10 ^ 18 - x * 2 ^ 96| ≤ 10 ^ 18) :
    |Real.exp (fixed 96 t) / 2 ^ m - Real.exp (x / 10 ^ 18)| ≤
      14 / 10 ^ 9 * Real.exp (x / 10 ^ 18) := by
  have hm' : (m : ℝ) ≤ 60 := by exact_mod_cast hm
  have hexact : |((t : ℝ) - m * ln2) * 10 ^ 18 - x * 2 ^ 96| ≤ 10 ^ 18 := by
    exact_mod_cast hreduce
  obtain ⟨δ, hδ⟩ : exists δ : ℝ, δ = fixed 96 t - m * Real.log 2 - x / 10 ^ 18 := ⟨_, rfl⟩
  have hfirst : |fixed 96 t - m * (ln2 / 2 ^ 96) - x / 10 ^ 18| ≤ 1 / 2 ^ 96 := by
    have hsplit : fixed 96 t - m * (ln2 / 2 ^ 96) - x / 10 ^ 18 =
        (((t : ℝ) - m * ln2) * 10 ^ 18 - x * 2 ^ 96) / (10 ^ 18 * 2 ^ 96) := by
      unfold fixed
      field_simp
    rw [hsplit, abs_div, abs_of_pos (by positivity : (0 : ℝ) < 10 ^ 18 * 2 ^ 96),
      div_le_div_iff₀ (by positivity) (by positivity)]
    norm_num at hexact ⊢
    linarith
  have hsecond : |(m : ℝ) * (ln2 / 2 ^ 96 - Real.log 2)| ≤ 60 * (11 / 10 ^ 11) := by
    rw [abs_mul, abs_of_nonneg (Nat.cast_nonneg m)]
    exact mul_le_mul hm' abs_ln2_sub_le (abs_nonneg _) (by norm_num)
  have hsmall : |δ| ≤ 7 / 10 ^ 9 := by
    have hsplit : δ = (fixed 96 t - m * (ln2 / 2 ^ 96) - x / 10 ^ 18) +
        m * (ln2 / 2 ^ 96 - Real.log 2) := by
      rw [hδ]
      ring
    rw [hsplit]
    apply (abs_add_le _ _).trans
    norm_num at hfirst hsecond ⊢
    linarith
  have hprod : Real.exp (fixed 96 t) / 2 ^ m = Real.exp (x / 10 ^ 18) * Real.exp δ := by
    have hpow : (2 : ℝ) ^ m = Real.exp (m * Real.log 2) := by
      rw [mul_comm, Real.exp_mul, Real.exp_log (by norm_num), Real.rpow_natCast]
    rw [hpow, ← Real.exp_sub, ← Real.exp_add, hδ]
    congr 1
    ring
  have hexp := Real.abs_exp_sub_one_le (x := δ) (hsmall.trans (by norm_num))
  have hsplit : Real.exp (x / 10 ^ 18) * Real.exp δ - Real.exp (x / 10 ^ 18) =
      Real.exp (x / 10 ^ 18) * (Real.exp δ - 1) := by ring
  rw [hprod, hsplit, abs_mul, abs_of_pos (Real.exp_pos _), mul_comm]
  apply mul_le_mul_of_nonneg_right _ (le_of_lt (Real.exp_pos _))
  linarith

/-- From the cutoff up to zero the result is the integer part of a value close
to the exponential. -/
theorem expWad_spec (hlow : -41446531673892822313 < x) (hx : x ≤ 0) :
    exists v : ℝ, expWad x = some ⌊v⌋ ∧
      |v - 10 ^ 18 * Real.exp (x / 10 ^ 18)| ≤
        2 / 10 ^ 8 * (10 ^ 18 * Real.exp (x / 10 ^ 18)) := by
  obtain ⟨t, m, hreduce, hm, ht, hrange, hclose⟩ := expReduce_spec hlow hx
  have hu : |fixed 96 t| ≤ expRange := by
    have hcast : 10000 * |(t : ℝ)| ≤ 3467 * 2 ^ 96 := by exact_mod_cast hrange
    unfold fixed expRange
    rw [abs_div, abs_of_pos (by positivity : (0 : ℝ) < 2 ^ 96), div_le_iff₀ (by positivity)]
    push_cast
    linarith
  obtain ⟨r, hdiv, hr, hr0, hr1⟩ := expRatio_spec ht hu
  refine ⟨expValue r m, expWad_floor hlow hx hreduce hm hdiv hr0 hr1, ?_⟩
  have hvalue := abs_expValue_sub_le (m := m) hr (abs_expQuotient_sub_le hu) hu
  have hreduced := abs_reduced_sub_le hm hclose
  have hsplit : expValue r m - 10 ^ 18 * Real.exp (x / 10 ^ 18) =
      (expValue r m - 10 ^ 18 * (Real.exp (fixed 96 t) / 2 ^ m)) +
        10 ^ 18 * (Real.exp (fixed 96 t) / 2 ^ m - Real.exp (x / 10 ^ 18)) := by ring
  have hpos := Real.exp_pos (x / 10 ^ 18)
  have hupper := (abs_le.mp hreduced).2
  rw [hsplit]
  apply (abs_add_le _ _).trans
  rw [abs_mul, abs_of_pos (by positivity : (0 : ℝ) < 10 ^ 18)]
  norm_num at hvalue hreduced hupper ⊢
  linarith

end Result

end Wad

end RmUniswap
