import RmUniswap.Math.TickFloor

/-!
# Accuracy of tick prices

The price of a tick is the real power of the square root of 1.0001, rounded up
to the next integer and wrong by no more than a few bits of its fixed-point
ratio. The tick of a price is the floor of the real logarithm, except next to
an integer.
-/

namespace RmUniswap

open Foundation

section Accuracy

variable {x : ℝ} {p q n : Nat} {t : Int}

theorem log_tickBase : Real.log (Real.sqrt (10001 / 10000)) = tickLog := by
  rw [tickLog_eq, Real.log_sqrt (by norm_num)]

theorem tickBase_zpow (t : Int) :
    Real.sqrt (10001 / 10000) ^ t = Real.exp (t * tickLog) := by
  have hpos : 0 < Real.sqrt (10001 / 10000) := Real.sqrt_pos.mpr (by norm_num)
  rw [← log_tickBase, ← Real.log_zpow, Real.exp_log (zpow_pos hpos t)]

theorem exp_priceLog (hp : 0 < p) : 2 ^ 96 * Real.exp (priceLog p) = p := by
  have hp' : (0 : ℝ) < p := by
    exact_mod_cast hp
  have hlog : 96 * Real.log 2 = Real.log (2 ^ 96) := by
    rw [Real.log_pow]
    norm_num
  rw [priceLog_eq, Real.exp_sub, Real.exp_log hp', hlog, Real.exp_log (by positivity)]
  ring

theorem exp_near (h : |x| ≤ 21 / 2 ^ 50) :
    1 - 1 / 2 ^ 45 ≤ Real.exp x ∧ Real.exp x ≤ 1 + 1 / 2 ^ 45 := by
  have hx := abs_le.mp h
  have hlow := Real.add_one_le_exp x
  have hneg := Real.add_one_le_exp (-x)
  have hinv : Real.exp (-x) * Real.exp x = 1 := by
    rw [← Real.exp_add, neg_add_cancel, Real.exp_zero]
  have hpos := Real.exp_pos x
  norm_num at hx ⊢
  constructor
  · linarith [hx.1]
  · nlinarith [hx.2]

/-!
# Logarithms of tick prices
-/

theorem priceLog_lower (h : TickInRange t) :
    t * tickLog - 21 / 2 ^ 50 ≤ priceLog (getSqrtPriceAtTick t) := by
  have hlo := h.1
  have hhi := h.2
  unfold minTick at hlo
  unfold maxTick at hhi
  rcases lt_trichotomy t 0 with hneg | hzero | hpos
  · obtain ⟨n, hn⟩ := Int.eq_ofNat_of_zero_le (a := -t) (by omega)
    have ht : t = -(n : Int) := by
      omega
    have hratio := ratioAtAbsTick_near (n := n) (by omega) (by omega)
    have hround := (price_neg (n := n) (by omega)).1
    have hprice : 0 < getSqrtPriceAtTick (-n) := by
      have := hratio.1
      omega
    have hr : (0 : ℝ) < ratioAtAbsTick n := by
      exact_mod_cast hratio.1
    have hround' : (ratioAtAbsTick n : ℝ) ≤ ((getSqrtPriceAtTick (-n) * 2 ^ 32 : Nat) : ℝ) := by
      exact_mod_cast hround
    have hlog := Real.log_le_log hr hround'
    have hnear := (abs_le.mp (ratioNear_iff.mp hratio).2).1
    rw [log_cast_mul hprice (Nat.two_pow_pos _), log_cast_two_pow] at hlog
    rw [ht, priceLog_eq]
    push_cast at hlog hnear ⊢
    norm_num at hnear ⊢
    linarith
  · rw [hzero, priceLog_zero]
    norm_num
  · obtain ⟨n, hn⟩ := Int.eq_ofNat_of_zero_le (le_of_lt hpos)
    have hnear := (abs_le.mp (priceLog_pos (n := n) (by omega) (by omega))).1
    rw [hn]
    push_cast
    norm_num at hnear ⊢
    linarith

theorem priceLog_upper (h : TickInRange t) (hq0 : 0 < q) (hq : q < getSqrtPriceAtTick t) :
    priceLog q ≤ t * tickLog + 21 / 2 ^ 50 := by
  have hlo := h.1
  have hhi := h.2
  unfold minTick at hlo
  unfold maxTick at hhi
  have hq' : (0 : ℝ) < q := by
    exact_mod_cast hq0
  rcases lt_or_ge t 0 with hneg | hnonneg
  · obtain ⟨n, hn⟩ := Int.eq_ofNat_of_zero_le (a := -t) (by omega)
    have ht : t = -(n : Int) := by
      omega
    have hratio := ratioAtAbsTick_near (n := n) (by omega) (by omega)
    have hround := (price_neg (n := n) (by omega)).2
    have hle : q * 2 ^ 32 ≤ ratioAtAbsTick n := by
      rw [ht] at hq
      omega
    have hle' : ((q * 2 ^ 32 : Nat) : ℝ) ≤ ratioAtAbsTick n := by
      exact_mod_cast hle
    have hlog := Real.log_le_log (by positivity) hle'
    have hnear := (abs_le.mp (ratioNear_iff.mp hratio).2).2
    rw [log_cast_mul hq0 (Nat.two_pow_pos _), log_cast_two_pow] at hlog
    rw [ht, priceLog_eq]
    push_cast at hlog hnear ⊢
    norm_num at hnear ⊢
    linarith
  · have hle := (priceLog_le_iff hq0 (hq0.trans hq)).mpr (le_of_lt hq)
    rcases eq_or_lt_of_le hnonneg with hzero | hpos
    · rw [← hzero, priceLog_zero] at hle
      rw [← hzero]
      norm_num at hle ⊢
      linarith
    · obtain ⟨n, hn⟩ := Int.eq_ofNat_of_zero_le hnonneg
      have hnear := (abs_le.mp (priceLog_pos (n := n) (by omega) (by omega))).2
      rw [hn] at hle ⊢
      push_cast at hle ⊢
      norm_num at hnear ⊢
      linarith

/-!
# Accuracy
-/

theorem exp_scaled (y z : ℝ) : 2 ^ 96 * Real.exp y = Real.exp (y - z) * (2 ^ 96 * Real.exp z) := by
  rw [Real.exp_sub]
  field_simp

/-- The price of a tick is its real power, rounded up to an integer. -/
theorem getSqrtPriceAtTick_accurate (h : TickInRange t) :
    (1 - 1 / 2 ^ 45) * (2 ^ 96 * Real.sqrt (10001 / 10000) ^ t) ≤ getSqrtPriceAtTick t ∧
      getSqrtPriceAtTick t ≤
        (1 + 1 / 2 ^ 45) * (2 ^ 96 * Real.sqrt (10001 / 10000) ^ t) + 1 := by
  have hmin := (price_valid h).1
  unfold minSqrtPrice at hmin
  have hpos : 0 < (2 : ℝ) ^ 96 * Real.exp (t * tickLog) := by
    positivity
  rw [tickBase_zpow]
  constructor
  · have hlow := priceLog_lower h
    have hnear := (exp_near (x := -(21 / 2 ^ 50)) (by norm_num)).1
    rw [← exp_priceLog (p := getSqrtPriceAtTick t) (by omega),
      exp_scaled (priceLog (getSqrtPriceAtTick t)) (t * tickLog)]
    refine mul_le_mul_of_nonneg_right (hnear.trans (Real.exp_le_exp.mpr ?_)) (le_of_lt hpos)
    linarith
  · have hupper := priceLog_upper h (q := getSqrtPriceAtTick t - 1) (by omega) (by omega)
    have hnear := (exp_near (x := 21 / 2 ^ 50) (by norm_num)).2
    have hcast : ((getSqrtPriceAtTick t - 1 : Nat) : ℝ) = getSqrtPriceAtTick t - 1 := by
      rw [Nat.cast_sub (by omega), Nat.cast_one]
    rw [← sub_le_iff_le_add, ← hcast,
      ← exp_priceLog (p := getSqrtPriceAtTick t - 1) (by omega),
      exp_scaled (priceLog (getSqrtPriceAtTick t - 1)) (t * tickLog)]
    refine mul_le_mul_of_nonneg_right ((Real.exp_le_exp.mpr ?_).trans hnear) (le_of_lt hpos)
    linarith

theorem getSqrtPriceAtTick_accurate_min :
    (1 - 1 / 2 ^ 45) * (2 ^ 96 * Real.sqrt (10001 / 10000) ^ minTick) ≤
        getSqrtPriceAtTick minTick ∧
      getSqrtPriceAtTick minTick ≤
        (1 + 1 / 2 ^ 45) * (2 ^ 96 * Real.sqrt (10001 / 10000) ^ minTick) + 1 :=
  getSqrtPriceAtTick_accurate (t := minTick) (by decide)

theorem logb_price (hp : 0 < p) :
    Real.logb (Real.sqrt (10001 / 10000)) (p / 2 ^ 96) = priceLog p / tickLog := by
  have hp' : (0 : ℝ) < p := by
    exact_mod_cast hp
  rw [Real.logb, log_tickBase, Real.log_div hp'.ne' (by positivity), Real.log_pow, priceLog_eq]
  norm_num

theorem priceLog_tick_lt (hp : IsValidSqrtPrice p) :
    priceLog p ≤ (getTickAtSqrtPrice p + 1) * tickLog + 21 / 2 ^ 50 := by
  have hspec := getTickAtSqrtPrice_spec hp
  have hmin := hp.1
  unfold minSqrtPrice at hmin
  rcases lt_or_eq_of_le hspec.1.2 with hlt | hmax
  · have hnext : TickInRange (getTickAtSqrtPrice p + 1) := by
      have := hspec.1.1
      constructor <;> omega
    have hprice := ((getTickAtSqrtPrice_eq_iff hp hspec.1).mp rfl).2 hlt
    have hupper := priceLog_upper hnext (by omega) hprice
    push_cast at hupper
    exact hupper
  · have hprice : p ≤ getSqrtPriceAtTick maxTick := by
      rw [price_maxTick]
      exact hp.2
    have hle := (priceLog_le_iff (p := p) (by omega) (by omega)).mpr hprice
    have hnear := (abs_le.mp (priceLog_inRange (t := maxTick) (by decide))).2
    have hlog := tickLog_bounds.1
    rw [hmax]
    norm_num at hnear hlog ⊢
    linarith

/-- The tick of a price is the floor of its logarithm, except next to an integer. -/
theorem getTickAtSqrtPrice_accurate (hp : IsValidSqrtPrice p) :
    ⌊Real.logb (Real.sqrt (10001 / 10000)) (p / 2 ^ 96) - 1 / 2 ^ 30⌋ ≤ getTickAtSqrtPrice p ∧
      getTickAtSqrtPrice p ≤
        ⌊Real.logb (Real.sqrt (10001 / 10000)) (p / 2 ^ 96) + 1 / 2 ^ 30⌋ := by
  have hspec := getTickAtSqrtPrice_spec hp
  have hmin := hp.1
  unfold minSqrtPrice at hmin
  have hlog := tickLog_bounds.1
  have hpos : 0 < tickLog := by
    linarith
  have herror : 21 / 2 ^ 50 < 1 / 2 ^ 30 * tickLog := by
    norm_num at hlog ⊢
    linarith
  rw [logb_price (by omega)]
  constructor
  · have hlt := priceLog_tick_lt hp
    rw [← Int.lt_add_one_iff, Int.floor_lt, sub_lt_iff_lt_add, div_lt_iff₀ hpos]
    push_cast
    linarith
  · have hlow := priceLog_lower hspec.1
    have hprice : 0 < getSqrtPriceAtTick (getTickAtSqrtPrice p) := by
      have hvalid := (price_valid hspec.1).1
      unfold minSqrtPrice at hvalid
      omega
    have hle := (priceLog_le_iff (q := p) hprice (by omega)).mpr hspec.2.1
    rw [Int.le_floor, ← sub_le_iff_le_add, le_div_iff₀ hpos]
    linarith

theorem getTickAtSqrtPrice_accurate_max :
    ⌊Real.logb (Real.sqrt (10001 / 10000)) (maxSqrtPrice / 2 ^ 96) - 1 / 2 ^ 30⌋ ≤
        getTickAtSqrtPrice maxSqrtPrice ∧
      getTickAtSqrtPrice maxSqrtPrice ≤
        ⌊Real.logb (Real.sqrt (10001 / 10000)) (maxSqrtPrice / 2 ^ 96) + 1 / 2 ^ 30⌋ :=
  getTickAtSqrtPrice_accurate (p := maxSqrtPrice) (by decide)

end Accuracy

end RmUniswap
