import RmUniswap.Foundation.BinaryLog
import RmUniswap.Math.Tick

/-!
# Prices of ticks

A tick multiplies the sqrt price by the square root of 1.0001. The table and
the rounded products stay so close to that power that prices grow strictly
with ticks.
-/

namespace RmUniswap

open Foundation

noncomputable def tickLog : ℝ := Real.log (10001 / 10000) / (2 : Nat)

theorem tickLog_eq : tickLog = Real.log (10001 / 10000) / 2 :=
  rfl

theorem tickLog_bounds : 4.999750016665415e-5 ≤ tickLog ∧ tickLog ≤ 4.99975001666542e-5 := by
  have h := Real.abs_log_sub_add_sum_range_le (x := -1 / 10000) (by norm_num [abs_lt]) 4
  norm_num [Finset.sum_range_succ, abs_le, abs_of_neg] at h
  rw [tickLog_eq]
  constructor <;> norm_num <;> linarith [h.1, h.2]

theorem log_two_bounds : 0.6931471803 ≤ Real.log 2 ∧ Real.log 2 ≤ 0.6931471808 :=
  ⟨le_of_lt Real.log_two_gt_d9, le_of_lt Real.log_two_lt_d9⟩

theorem log_close {a b n : Nat} (ha : 0 < a) (hb : 0 < b) (hn : 0 < n)
    (h1 : n * a ≤ (n + 1) * b) (h2 : n * b ≤ (n + 1) * a) :
    |Real.log a - Real.log b| ≤ 1 / n := by
  have hn' : (0 : ℝ) < n := by exact_mod_cast hn
  have hle {x y : Nat} (hx : 0 < x) (hy : 0 < y) (h : n * x ≤ (n + 1) * y) :
      Real.log x - Real.log y ≤ 1 / n := by
    have hx' : (0 : ℝ) < x := by exact_mod_cast hx
    have hy' : (0 : ℝ) < y := by exact_mod_cast hy
    have h' : (n : ℝ) * x ≤ (n + 1) * y := by exact_mod_cast h
    rw [← Real.log_div hx'.ne' hy'.ne']
    have hquot : (x : ℝ) / y ≤ 1 + 1 / n := by
      rw [div_le_iff₀ hy']
      have : (1 + 1 / (n : ℝ)) * y = ((n + 1) * y) / n := by field_simp
      rw [this, le_div_iff₀ hn']
      linarith
    linarith [Real.log_le_sub_one_of_pos (div_pos hx' hy')]
  rw [abs_le]
  constructor
  · linarith [hle hb ha h2]
  · exact hle ha hb h1

/-!
# The table
-/

theorem tickRatio_pos : forall k, k < 20 -> 0 < tickRatio k := by
  decide +kernel

theorem tickRatio_square : forall k, k < 19 ->
    2 ^ 88 * (2 ^ 128 * tickRatio (k + 1)) ≤ (2 ^ 88 + 1) * (tickRatio k * tickRatio k) ∧
      2 ^ 88 * (tickRatio k * tickRatio k) ≤ (2 ^ 88 + 1) * (2 ^ 128 * tickRatio (k + 1)) := by
  decide +kernel

theorem tickRatio_zero :
    2 ^ 88 * (10001 * (tickRatio 0 * tickRatio 0)) ≤ (2 ^ 88 + 1) * (2 ^ 256 * 10000) ∧
      2 ^ 88 * (2 ^ 256 * 10000) ≤ (2 ^ 88 + 1) * (10001 * (tickRatio 0 * tickRatio 0)) := by
  decide +kernel

theorem log_cast_mul {a b : Nat} (ha : 0 < a) (hb : 0 < b) :
    Real.log ((a * b : Nat) : ℝ) = Real.log a + Real.log b := by
  rw [Nat.cast_mul, Real.log_mul (by exact_mod_cast ha.ne') (by exact_mod_cast hb.ne')]

theorem log_cast_two_pow (n : Nat) : Real.log ((2 ^ n : Nat) : ℝ) = n * Real.log 2 := by
  rw [Nat.cast_pow, Real.log_pow]
  rfl

def RatioNear (r n : Nat) (e : ℝ) : Prop :=
  0 < r ∧ |mantissaLog 128 r + n * tickLog| ≤ e

theorem ratioNear_iff {r n : Nat} {e : ℝ} :
    RatioNear r n e <-> 0 < r ∧ |Real.log r - 128 * Real.log 2 + n * tickLog| ≤ e :=
  Iff.rfl

theorem tickRatio_near {k : Nat} (hk : k < 20) :
    RatioNear (tickRatio k) (2 ^ k) ((2 ^ (k + 1) - 1) / 2 ^ 88) := by
  refine ratioNear_iff.mpr ⟨tickRatio_pos k hk, ?_⟩
  induction k with
  | zero =>
      have hpos := tickRatio_pos 0 hk
      have h := log_close (n := 2 ^ 88) (by positivity) (by positivity) (by positivity)
        tickRatio_zero.1 tickRatio_zero.2
      rw [log_cast_mul (by norm_num) (by positivity), log_cast_mul hpos hpos,
        log_cast_mul (Nat.two_pow_pos _) (by norm_num), log_cast_two_pow] at h
      have hdiv : Real.log (10001 / 10000) = Real.log (10001 : Nat) - Real.log (10000 : Nat) := by
        push_cast
        exact Real.log_div (by norm_num) (by norm_num)
      rw [tickLog_eq]
      rw [hdiv]
      rw [abs_le] at h ⊢
      push_cast at h ⊢
      constructor <;> linarith [h.1, h.2]
  | succ k ih =>
      have hprev := ih (by omega)
      have hpos := tickRatio_pos k (by omega)
      have hsquare := tickRatio_square k (by omega)
      have h := log_close (n := 2 ^ 88) (by have := tickRatio_pos (k + 1) hk; positivity)
        (by positivity) (by positivity) hsquare.1 hsquare.2
      rw [log_cast_mul (Nat.two_pow_pos _) (tickRatio_pos (k + 1) hk), log_cast_two_pow,
        log_cast_mul hpos hpos] at h
      rw [abs_le] at h hprev ⊢
      push_cast at h hprev ⊢
      rw [pow_succ (2 : ℝ) (k + 1), pow_succ (2 : ℝ) k]
      rw [pow_succ (2 : ℝ) k] at hprev
      constructor <;> linarith [h.1, h.2, hprev.1, hprev.2]

/-!
# Products of ratios
-/

section Ratios

variable {r c n m : Nat} {e e' : ℝ}

theorem log_ticks_lt (hn : n < 2 ^ 20) : (n : ℝ) * tickLog ≤ 76 * Real.log 2 - 0.2 := by
  have hn' : (n : ℝ) ≤ 2 ^ 20 := by exact_mod_cast le_of_lt hn
  have h := tickLog_bounds
  have h2 := log_two_bounds.1
  nlinarith [h.1, h.2]

theorem RatioNear.large (h : RatioNear r n e) (hn : n < 2 ^ 20) (he : e ≤ 1 / 10) :
    2 ^ 52 ≤ r := by
  by_contra hlt
  have hr : (0 : ℝ) < r := by exact_mod_cast h.1
  have hle : (r : ℝ) ≤ ((2 ^ 52 : Nat) : ℝ) := by exact_mod_cast le_of_lt (not_le.mp hlt)
  have hlog := Real.log_le_log hr hle
  rw [log_cast_two_pow] at hlog
  have hnear := (abs_le.mp (ratioNear_iff.mp h).2).1
  have hticks := log_ticks_lt hn
  push_cast at hlog
  linarith

theorem RatioNear.mul (hr : RatioNear r m e) (hc : RatioNear c n e') (hn : m + n < 2 ^ 20)
    (he : e + e' ≤ 1 / 10) : RatioNear (r * c / 2 ^ 128) (m + n) (e + e' + 1 / 2 ^ 52) := by
  have hr0 := abs_le.mp (ratioNear_iff.mp hr).2
  have hc0 := abs_le.mp (ratioNear_iff.mp hc).2
  have hlogmul := log_cast_mul hr.1 hc.1
  have hticks := log_ticks_lt hn
  push_cast at hticks
  have hlarge : 2 ^ 180 ≤ r * c := by
    by_contra hlt
    have hpos : (0 : ℝ) < ((r * c : Nat) : ℝ) := by exact_mod_cast Nat.mul_pos hr.1 hc.1
    have hle : ((r * c : Nat) : ℝ) ≤ ((2 ^ 180 : Nat) : ℝ) := by
      exact_mod_cast le_of_lt (not_le.mp hlt)
    have hlog := Real.log_le_log hpos hle
    rw [log_cast_two_pow, hlogmul] at hlog
    push_cast at hlog
    linarith [hr0.1, hc0.1]
  have hq : 2 ^ 52 ≤ r * c / 2 ^ 128 := by
    rw [Nat.le_div_iff_mul_le (Nat.two_pow_pos _)]
    calc
      2 ^ 52 * 2 ^ 128 = 2 ^ 180 := by norm_num
      _ ≤ r * c := hlarge
  have hq0 : 0 < r * c / 2 ^ 128 := lt_of_lt_of_le (Nat.two_pow_pos _) hq
  have hdiv := log_div_bounds (Nat.two_pow_pos 128) rfl hq0
  have hloss : (1 : ℝ) / ((r * c / 2 ^ 128 : Nat) : ℝ) ≤ 1 / 2 ^ 52 := by
    apply one_div_le_one_div_of_le (by positivity)
    exact_mod_cast hq
  rw [log_cast_two_pow, hlogmul] at hdiv
  refine ratioNear_iff.mpr ⟨hq0, ?_⟩
  rw [abs_le]
  push_cast at hdiv hloss ⊢
  constructor <;> linarith [hr0.1, hr0.2, hc0.1, hc0.2, hdiv.1, hdiv.2]

theorem RatioNear.weaken (h : RatioNear r n e) (he : e ≤ e') : RatioNear r n e' :=
  ⟨h.1, h.2.trans he⟩

theorem ratioLoop_near {f j b : Nat} (h : RatioNear r m (j / 2 ^ 50)) (hj : j ≤ 20)
    (hdvd : 2 ^ j ∣ b) (hbits : m + b < 2 ^ 20) (hfuel : 20 ≤ f + j) :
    RatioNear (ratioLoop f b r) (m + b) (20 / 2 ^ 50) := by
  have hj' : (j : ℝ) ≤ 20 := by exact_mod_cast hj
  induction f generalizing j b r m with
  | zero =>
      have hzero : b = 0 := by
        have hpow : 2 ^ 20 ≤ 2 ^ j := Nat.pow_le_pow_right (by norm_num) (by omega)
        exact Nat.eq_zero_of_dvd_of_lt hdvd (by omega)
      unfold ratioLoop
      rw [hzero, Nat.add_zero]
      exact h.weaken (by linarith)
  | succ f ih =>
      unfold ratioLoop
      split
      · rename_i hzero
        rw [hzero, Nat.add_zero]
        exact h.weaken (by linarith)
      · rename_i hne
        have hpos := Nat.pos_of_ne_zero hne
        have hlt32 : b < 2 ^ 32 := by omega
        rcases trailingZeros_spec hpos hlt32 with ⟨q, hq⟩
        generalize hk : trailingZeros 32 b = k at hq
        have hk20 : k < 20 := by
          rw [← Nat.pow_lt_pow_iff_right (a := 2) (by norm_num)]
          calc
            2 ^ k ≤ 2 ^ k * (2 * q + 1) := Nat.le_mul_of_pos_right _ (by omega)
            _ = b := hq.symm
            _ < 2 ^ 20 := by omega
        have hjk : j ≤ k := by
          by_contra hlt
          have hdvd' : 2 ^ (k + 1) ∣ 2 ^ k * (2 * q + 1) :=
            hq ▸ (pow_dvd_pow 2 (show k + 1 ≤ j by omega)).trans hdvd
          rw [pow_succ] at hdvd'
          have := Nat.dvd_of_mul_dvd_mul_left (Nat.two_pow_pos k) hdvd'
          omega
        have hland := land_pred k q
        rw [← hq] at hland
        have hrest : 2 ^ k * (2 * q) + 2 ^ k = b := by
          rw [hq]
          ring
        have hjk' : (j : ℝ) ≤ k := by exact_mod_cast hjk
        have hk20' : (k : ℝ) + 1 ≤ 20 := by exact_mod_cast hk20
        have htable : ((2 : ℝ) ^ (k + 1) - 1) / 2 ^ 88 ≤ 2 ^ 20 / 2 ^ 88 := by
          apply div_le_div_of_nonneg_right _ (by positivity)
          have : (2 : ℝ) ^ (k + 1) ≤ 2 ^ 20 := pow_le_pow_right₀ (by norm_num) (by omega)
          linarith
        have hmul := h.mul (tickRatio_near hk20) (by omega)
          (by norm_num at htable ⊢; linarith)
        rw [hland, mulHiU128_eq]
        have := ih (j := k + 1) (m := m + 2 ^ k) (b := 2 ^ k * (2 * q))
          (hmul.weaken (by push_cast; norm_num at htable ⊢; linarith))
          hk20 (by rw [pow_succ]; exact Nat.mul_dvd_mul_left _ (Nat.dvd_mul_right _ _)) (by omega)
          (by omega) (by push_cast; exact hk20')
        rw [show m + 2 ^ k + 2 ^ k * (2 * q) = m + b by omega] at this
        exact this

theorem ratioAtAbsTick_near (hpos : 0 < n) (hn : n < 2 ^ 20) :
    RatioNear (ratioAtAbsTick n) n (20 / 2 ^ 50) := by
  have hlt32 : n < 2 ^ 32 := by omega
  rcases trailingZeros_spec hpos hlt32 with ⟨q, hq⟩
  generalize hk : trailingZeros 32 n = k at hq
  have hk20 : k < 20 := by
    rw [← Nat.pow_lt_pow_iff_right (a := 2) (by norm_num)]
    calc
      2 ^ k ≤ 2 ^ k * (2 * q + 1) := Nat.le_mul_of_pos_right _ (by omega)
      _ = n := hq.symm
      _ < 2 ^ 20 := hn
  have hland := land_pred k q
  rw [← hq] at hland
  have hrest : 2 ^ k * (2 * q) + 2 ^ k = n := by
    rw [hq]
    ring
  have hk20' : (k : ℝ) + 1 ≤ 20 := by exact_mod_cast hk20
  have hk0 : (0 : ℝ) ≤ k := by positivity
  have htable : ((2 : ℝ) ^ (k + 1) - 1) / 2 ^ 88 ≤ 2 ^ 20 / 2 ^ 88 := by
    apply div_le_div_of_nonneg_right _ (by positivity)
    have : (2 : ℝ) ^ (k + 1) ≤ 2 ^ 20 := pow_le_pow_right₀ (by norm_num) (by omega)
    linarith
  unfold ratioAtAbsTick
  rw [hk, hland]
  have := ratioLoop_near (f := 32) (j := k + 1) (b := 2 ^ k * (2 * q))
    ((tickRatio_near hk20).weaken (by push_cast; norm_num at htable ⊢; linarith))
    hk20 (by rw [pow_succ]; exact Nat.mul_dvd_mul_left _ (Nat.dvd_mul_right _ _)) (by omega)
    (by omega)
  rw [show 2 ^ k + 2 ^ k * (2 * q) = n by omega] at this
  exact this

end Ratios

/-!
# Prices
-/

noncomputable def priceLog (p : Nat) : ℝ := mantissaLog 96 p

theorem priceLog_eq (p : Nat) : priceLog p = Real.log p - 96 * Real.log 2 :=
  rfl

section Prices

variable {x p b : Nat} {t u : Int}

theorem log_round_up (h1 : x ≤ p * 2 ^ 32) (h2 : p * 2 ^ 32 < x + 2 ^ 32)
    (hb : 2 ^ (32 + b) ≤ x) :
    Real.log x ≤ Real.log p + 32 * Real.log 2 ∧
      Real.log p + 32 * Real.log 2 ≤ Real.log x + 1 / 2 ^ b := by
  have hx0 : 0 < x := lt_of_lt_of_le (Nat.two_pow_pos _) hb
  have hp0 : 0 < p := by
    by_contra hz
    omega
  have hx : (0 : ℝ) < x := by exact_mod_cast hx0
  have hlog : Real.log ((p * 2 ^ 32 : Nat) : ℝ) = Real.log p + 32 * Real.log 2 := by
    rw [log_cast_mul hp0 (Nat.two_pow_pos _), log_cast_two_pow]
    norm_num
  have hprod : (0 : ℝ) < ((p * 2 ^ 32 : Nat) : ℝ) := by exact_mod_cast lt_of_lt_of_le hx0 h1
  have h1' : (x : ℝ) ≤ ((p * 2 ^ 32 : Nat) : ℝ) := by exact_mod_cast h1
  rw [← hlog]
  refine ⟨Real.log_le_log hx h1', ?_⟩
  have hquot : ((p * 2 ^ 32 : Nat) : ℝ) / x ≤ 1 + 1 / 2 ^ b := by
    have h2' : ((p * 2 ^ 32 : Nat) : ℝ) ≤ x + 2 ^ 32 := by exact_mod_cast le_of_lt h2
    have hb' : (2 : ℝ) ^ 32 * 2 ^ b ≤ x := by
      rw [← pow_add]
      exact_mod_cast hb
    rw [div_le_iff₀ hx]
    have hpow : (0 : ℝ) < 2 ^ b := by positivity
    have hsmall : (2 : ℝ) ^ 32 ≤ 1 / 2 ^ b * x := by
      rw [div_mul_eq_mul_div, one_mul, le_div_iff₀ hpow]
      exact hb'
    rw [add_mul, one_mul]
    exact h2'.trans (add_le_add_right hsmall _)
  have hle := Real.log_le_sub_one_of_pos (div_pos hprod hx)
  rw [Real.log_div hprod.ne' hx.ne'] at hle
  linarith

theorem price_neg {n : Nat} (hn : 0 < n) :
    ratioAtAbsTick n ≤ getSqrtPriceAtTick (-n) * 2 ^ 32 ∧
      getSqrtPriceAtTick (-n) * 2 ^ 32 < ratioAtAbsTick n + 2 ^ 32 := by
  have hmask : (1 <<< 32) - 1 = 2 ^ 32 - 1 := by decide
  unfold getSqrtPriceAtTick
  simp only [Int.natAbs_neg, Int.natAbs_natCast]
  rw [if_neg (by omega), if_neg (by omega), hmask, Nat.and_two_pow_sub_one_eq_mod,
    Nat.shiftRight_eq_div_pow]
  split <;> omega

theorem price_pos {n : Nat} (hn : 0 < n) :
    (2 ^ 256 - 1) / ratioAtAbsTick n ≤ getSqrtPriceAtTick n * 2 ^ 32 ∧
      getSqrtPriceAtTick n * 2 ^ 32 < (2 ^ 256 - 1) / ratioAtAbsTick n + 2 ^ 32 := by
  have hmask : (1 <<< 32) - 1 = 2 ^ 32 - 1 := by decide
  unfold getSqrtPriceAtTick
  simp only [Int.natAbs_natCast]
  rw [if_neg (by omega), if_pos (by omega), hmask, Nat.shiftRight_eq_div_pow]
  generalize (2 ^ 256 - 1) / ratioAtAbsTick n = y
  omega

theorem priceLog_neg {n : Nat} (hpos : 0 < n) (hn : n < 2 ^ 20)
    (hb : 2 ^ (32 + b) ≤ ratioAtAbsTick n) :
    |priceLog (getSqrtPriceAtTick (-n)) - (-n) * tickLog| ≤ 20 / 2 ^ 50 + 1 / 2 ^ b := by
  have hnear := abs_le.mp (ratioNear_iff.mp (ratioAtAbsTick_near hpos hn)).2
  have hround := price_neg hpos
  have hlog := log_round_up hround.1 hround.2 hb
  have hb0 : (0 : ℝ) ≤ 1 / 2 ^ b := by positivity
  rw [priceLog_eq, abs_le]
  constructor <;> linarith [hnear.1, hnear.2, hlog.1, hlog.2]

theorem priceLog_pos {n : Nat} (hpos : 0 < n) (hn : n < 2 ^ 20) :
    |priceLog (getSqrtPriceAtTick n) - n * tickLog| ≤ 20 / 2 ^ 50 + 1 / 2 ^ 80 := by
  have hratio := ratioAtAbsTick_near hpos hn
  have hnear := abs_le.mp (ratioNear_iff.mp hratio).2
  have hround := price_pos hpos
  have hticks : 0 ≤ (n : ℝ) * tickLog := by
    have := tickLog_bounds.1
    have hn0 : (0 : ℝ) ≤ n := by positivity
    exact mul_nonneg hn0 (by linarith)
  have h2 := log_two_bounds
  have hsmall : ratioAtAbsTick n < 2 ^ 129 := by
    by_contra hge
    have hle : ((2 ^ 129 : Nat) : ℝ) ≤ ratioAtAbsTick n := by exact_mod_cast not_lt.mp hge
    have hlog := Real.log_le_log (by positivity) hle
    rw [log_cast_two_pow] at hlog
    push_cast at hlog
    linarith [hnear.2]
  have hq : 2 ^ 126 ≤ (2 ^ 256 - 1) / ratioAtAbsTick n := by
    rw [Nat.le_div_iff_mul_le hratio.1]
    calc
      2 ^ 126 * ratioAtAbsTick n ≤ 2 ^ 126 * 2 ^ 129 :=
        Nat.mul_le_mul_left _ (le_of_lt hsmall)
      _ ≤ 2 ^ 256 - 1 := by norm_num
  have hq0 : 0 < (2 ^ 256 - 1) / ratioAtAbsTick n := lt_of_lt_of_le (Nat.two_pow_pos _) hq
  have hdiv := log_div_bounds hratio.1 rfl hq0
  have hlog := log_round_up (b := 94) hround.1 hround.2 hq
  have hloss : (1 : ℝ) / (((2 ^ 256 - 1) / ratioAtAbsTick n : Nat) : ℝ) ≤ 1 / 2 ^ 126 := by
    apply one_div_le_one_div_of_le (by positivity)
    exact_mod_cast hq
  have hnum : |Real.log ((2 ^ 256 - 1 : Nat) : ℝ) - Real.log ((2 ^ 256 : Nat) : ℝ)| ≤
      1 / (2 ^ 254 : Nat) := by
    apply log_close <;> norm_num
  rw [log_cast_two_pow, abs_le] at hnum
  rw [priceLog_eq, abs_le]
  push_cast at hnum
  generalize Real.log (((2 ^ 256 - 1 : Nat)) : ℝ) = top at *
  constructor <;> linarith [hnear.1, hnear.2, hlog.1, hlog.2, hdiv.1, hdiv.2, hnum.1, hnum.2]

theorem priceLog_zero : priceLog (getSqrtPriceAtTick 0) = 0 := by
  have h : getSqrtPriceAtTick 0 = 2 ^ 96 := by decide
  rw [priceLog_eq, h, log_cast_two_pow]
  norm_num

theorem priceLog_near (hlo : -2 ^ 20 < t) (hhi : t < 2 ^ 20) :
    |priceLog (getSqrtPriceAtTick t) - t * tickLog| ≤ 20 / 2 ^ 50 + 1 / 2 ^ 20 := by
  rcases lt_trichotomy t 0 with hneg | hzero | hpos
  · obtain ⟨n, hn⟩ := Int.eq_ofNat_of_zero_le (a := -t) (by omega)
    have ht : t = -(n : Int) := by omega
    have hlarge := (ratioAtAbsTick_near (n := n) (by omega) (by omega)).large (by omega)
      (by norm_num)
    have h := priceLog_neg (b := 20) (n := n) (by omega) (by omega) hlarge
    rw [ht]
    push_cast
    exact h
  · rw [hzero, priceLog_zero]
    norm_num
  · obtain ⟨n, hn⟩ := Int.eq_ofNat_of_zero_le (le_of_lt hpos)
    have h := priceLog_pos (n := n) (by omega) (by omega)
    rw [hn]
    push_cast
    refine h.trans ?_
    norm_num

theorem priceLog_inRange (h : TickInRange t) :
    |priceLog (getSqrtPriceAtTick t) - t * tickLog| ≤ 1 / 2 ^ 30 := by
  have hlo := h.1
  have hhi := h.2
  unfold minTick at hlo
  unfold maxTick at hhi
  rcases lt_trichotomy t 0 with hneg | hzero | hpos
  · obtain ⟨n, hn⟩ := Int.eq_ofNat_of_zero_le (a := -t) (by omega)
    have ht : t = -(n : Int) := by omega
    have hratio := ratioAtAbsTick_near (n := n) (by omega) (by omega)
    have hlarge : 2 ^ 63 ≤ ratioAtAbsTick n := by
      by_contra hlt
      have hr : (0 : ℝ) < ratioAtAbsTick n := by exact_mod_cast hratio.1
      have hle : (ratioAtAbsTick n : ℝ) ≤ ((2 ^ 63 : Nat) : ℝ) := by
        exact_mod_cast le_of_lt (not_le.mp hlt)
      have hlog := Real.log_le_log hr hle
      rw [log_cast_two_pow] at hlog
      push_cast at hlog
      have hn' : (n : ℝ) ≤ 887272 := by exact_mod_cast (show n ≤ 887272 by omega)
      have hticks : (n : ℝ) * tickLog ≤ 887272 * 4.99975001666542e-5 := by
        have := tickLog_bounds
        nlinarith [this.1, this.2]
      norm_num at hticks
      have := log_two_bounds.1
      have := (abs_le.mp (ratioNear_iff.mp hratio).2).1
      norm_num at this
      linarith
    have h := priceLog_neg (b := 31) (n := n) (by omega) (by omega) hlarge
    rw [ht]
    push_cast
    refine h.trans ?_
    norm_num
  · rw [hzero, priceLog_zero]
    norm_num
  · obtain ⟨n, hn⟩ := Int.eq_ofNat_of_zero_le (le_of_lt hpos)
    have h := priceLog_pos (n := n) (by omega) (by omega)
    rw [hn]
    push_cast
    refine h.trans ?_
    norm_num

theorem price_pos_of_bounds (hlo : -2 ^ 20 < t) (hhi : t < 2 ^ 20) :
    0 < getSqrtPriceAtTick t := by
  by_contra hz
  have hzero : getSqrtPriceAtTick t = 0 := by omega
  have h := abs_le.mp (priceLog_near hlo hhi)
  rw [priceLog_eq] at h
  rw [hzero, Nat.cast_zero, Real.log_zero] at h
  have ht : (-2 ^ 20 : ℝ) ≤ t := by exact_mod_cast le_of_lt hlo
  have hl := tickLog_bounds
  have := log_two_bounds.1
  have hmul : (-2 ^ 20 : ℝ) * tickLog ≤ t * tickLog :=
    mul_le_mul_of_nonneg_right ht (by linarith [hl.1])
  norm_num at h
  nlinarith [h.1, hl.2]

theorem priceLog_le_iff {p q : Nat} (hp : 0 < p) (hq : 0 < q) :
    priceLog p ≤ priceLog q ↔ p ≤ q := by
  have hp' : (0 : ℝ) < p := by exact_mod_cast hp
  have hq' : (0 : ℝ) < q := by exact_mod_cast hq
  rw [priceLog_eq, priceLog_eq, sub_le_sub_iff_right, Real.log_le_log_iff hp' hq']
  exact_mod_cast Iff.rfl

theorem price_lt (hlo : -2 ^ 20 < t) (htu : t < u) (hhi : u < 2 ^ 20) :
    getSqrtPriceAtTick t < getSqrtPriceAtTick u := by
  have ht := abs_le.mp (priceLog_near hlo (htu.trans hhi))
  have hu := abs_le.mp (priceLog_near (hlo.trans htu) hhi)
  by_contra hge
  have hle := (priceLog_le_iff (price_pos_of_bounds (hlo.trans htu) hhi)
    (price_pos_of_bounds hlo (htu.trans hhi))).mpr (not_lt.mp hge)
  have hstep : (t : ℝ) + 1 ≤ u := by exact_mod_cast htu
  have hl := tickLog_bounds.1
  have hmul : ((t : ℝ) + 1) * tickLog ≤ u * tickLog :=
    mul_le_mul_of_nonneg_right hstep (by linarith)
  norm_num at ht hu
  linarith [ht.2, hu.1]

theorem price_le (hlo : -2 ^ 20 < t) (htu : t ≤ u) (hhi : u < 2 ^ 20) :
    getSqrtPriceAtTick t ≤ getSqrtPriceAtTick u := by
  rcases lt_or_eq_of_le htu with h | h
  · exact le_of_lt (price_lt hlo h hhi)
  · rw [h]

theorem price_minTick : getSqrtPriceAtTick minTick = minSqrtPrice := by
  decide +kernel

theorem price_maxTick : getSqrtPriceAtTick maxTick = maxSqrtPrice := by
  decide +kernel

theorem price_valid (h : TickInRange t) : IsValidSqrtPrice (getSqrtPriceAtTick t) := by
  have hlo := h.1
  have hhi := h.2
  rw [IsValidSqrtPrice, ← price_minTick, ← price_maxTick]
  unfold minTick at *
  unfold maxTick at *
  exact ⟨price_le (by norm_num) hlo (by omega), price_le (by omega) hhi (by norm_num)⟩

end Prices

end RmUniswap
