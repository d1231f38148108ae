import RmUniswap.Math.SwapCompose

/-!
# The price of a step

A step trades along the curve between its two prices, so it fills no better than
the price it starts from and, but for one unit on either side, no worse than the
price it ends at. Where it ends between two prices, the code rounds to the one that
favours the pool, and one unit of price is lost as well.
-/

namespace RmUniswap

open Foundation

/-- An amount of the input token, on the scale where the two tokens compare at a price. -/
def inputAt (zeroForOne : Bool) (price amount : Nat) : Nat :=
  if zeroForOne then amount * (price * price) else amount * 2 ^ 192

/-- An amount of the output token, on the same scale. -/
def outputAt (zeroForOne : Bool) (price amount : Nat) : Nat :=
  if zeroForOne then amount * 2 ^ 192 else amount * (price * price)

section Scale

variable {zeroForOne : Bool} {price price' x y : Nat}

@[simp] theorem inputAt_zero (zeroForOne : Bool) (price : Nat) :
    inputAt zeroForOne price 0 = 0 := by
  unfold inputAt
  rw [Nat.zero_mul, Nat.zero_mul, ite_self]

@[simp] theorem outputAt_zero (zeroForOne : Bool) (price : Nat) :
    outputAt zeroForOne price 0 = 0 := by
  unfold outputAt
  rw [Nat.zero_mul, Nat.zero_mul, ite_self]

theorem inputAt_add (zeroForOne : Bool) (price x y : Nat) :
    inputAt zeroForOne price (x + y) = inputAt zeroForOne price x + inputAt zeroForOne price y := by
  unfold inputAt
  split
  · exact Nat.add_mul _ _ _
  · exact Nat.add_mul _ _ _

theorem outputAt_add (zeroForOne : Bool) (price x y : Nat) :
    outputAt zeroForOne price (x + y) =
      outputAt zeroForOne price x + outputAt zeroForOne price y := by
  unfold outputAt
  split
  · exact Nat.add_mul _ _ _
  · exact Nat.add_mul _ _ _

theorem inputAt_mono (h : x ≤ y) : inputAt zeroForOne price x ≤ inputAt zeroForOne price y := by
  unfold inputAt
  split
  · exact Nat.mul_le_mul_right _ h
  · exact Nat.mul_le_mul_right _ h

theorem outputAt_mono (h : x ≤ y) : outputAt zeroForOne price x ≤ outputAt zeroForOne price y := by
  unfold outputAt
  split
  · exact Nat.mul_le_mul_right _ h
  · exact Nat.mul_le_mul_right _ h

theorem inputAt_farther (h : Farther zeroForOne price price') :
    inputAt zeroForOne price' x ≤ inputAt zeroForOne price x := by
  unfold inputAt
  cases zeroForOne with
  | true =>
      have h : price' ≤ price := h
      exact Nat.mul_le_mul_left _ (Nat.mul_le_mul h h)
  | false =>
      exact le_refl _

theorem outputAt_farther (h : Farther zeroForOne price price') :
    outputAt zeroForOne price x ≤ outputAt zeroForOne price' x := by
  unfold outputAt
  cases zeroForOne with
  | true =>
      exact le_refl _
  | false =>
      have h : price ≤ price' := h
      exact Nat.mul_le_mul_left _ (Nat.mul_le_mul h h)

end Scale

/-!
# Moves
-/

section Moves

variable {zeroForOne : Bool} {liquidity current next : Nat}

/-- What a move frees is worth no more than what it needs, at the price it starts from. -/
theorem outputOfMove_spot (hcurrent : 0 < current) (hnext : 0 < next)
    (h : Farther zeroForOne current next) :
    outputAt zeroForOne current (outputOfMove liquidity current next) ≤
      inputAt zeroForOne current (inputOfMove liquidity current next) := by
  unfold outputAt inputAt
  cases zeroForOne with
  | true =>
      have h : next ≤ current := h
      have hfreed := Nat.div_mul_le_self (liquidity * (current - next)) (2 ^ 96)
      have hneeded := le_divCeil_mul (a := 2 ^ 96 * (liquidity * (current - next)))
        (Nat.mul_pos hnext hcurrent)
      rw [outputOfMove_down h, inputOfMove_down h, if_pos rfl, if_pos rfl]
      generalize liquidity * (current - next) = area at hfreed hneeded ⊢
      generalize divCeil (2 ^ 96 * area) (next * current) = needed at hneeded ⊢
      calc
        area / 2 ^ 96 * 2 ^ 192 = 2 ^ 96 * (area / 2 ^ 96 * 2 ^ 96) := by ring
        _ ≤ 2 ^ 96 * area := Nat.mul_le_mul_left _ hfreed
        _ ≤ needed * (next * current) := hneeded
        _ ≤ needed * (current * current) :=
          Nat.mul_le_mul_left _ (Nat.mul_le_mul_right _ h)
  | false =>
      have h : current ≤ next := h
      have hfreed := Nat.div_mul_le_self (2 ^ 96 * (liquidity * (next - current))) (current * next)
      have hneeded := le_divCeil_mul (a := liquidity * (next - current)) (Nat.two_pow_pos 96)
      rw [outputOfMove_up h, inputOfMove_up h, if_neg Bool.false_ne_true,
        if_neg Bool.false_ne_true]
      generalize liquidity * (next - current) = area at hfreed hneeded ⊢
      generalize 2 ^ 96 * area / (current * next) = freed at hfreed ⊢
      calc
        freed * (current * current) ≤ freed * (current * next) :=
          Nat.mul_le_mul_left _ (Nat.mul_le_mul_left _ h)
        _ ≤ 2 ^ 96 * area := hfreed
        _ ≤ 2 ^ 96 * (divCeil area (2 ^ 96) * 2 ^ 96) := Nat.mul_le_mul_left _ hneeded
        _ = divCeil area (2 ^ 96) * 2 ^ 192 := by ring

theorem divCeil_pred_mul_le {a b : Nat} (hb : 0 < b) : (divCeil a b - 1) * b ≤ a := by
  have hlt := divCeil_mul_lt (a := a) hb
  rw [Nat.sub_mul, Nat.one_mul]
  omega

theorem inputAt_pred (zeroForOne : Bool) (price x : Nat) :
    inputAt zeroForOne price x ≤ inputAt zeroForOne price (x - 1) + inputAt zeroForOne price 1 := by
  rw [← inputAt_add]
  exact inputAt_mono (by omega)

theorem area_le_outputAt (hcurrent : 0 < current) (hnext : 0 < next)
    (h : Farther zeroForOne current next) {price : Nat} (hprice : Farther zeroForOne next price) :
    2 ^ 96 * (liquidity * Nat.dist current next) ≤
      outputAt zeroForOne price (outputOfMove liquidity current next + 1) := by
  unfold outputAt
  cases zeroForOne with
  | true =>
      have h : next ≤ current := h
      have hfreed := Nat.lt_div_mul_add (a := liquidity * (current - next)) (Nat.two_pow_pos 96)
      rw [outputOfMove_down h, Nat.dist_eq_sub_of_le_right h, if_pos rfl]
      generalize liquidity * (current - next) = area at hfreed ⊢
      calc
        2 ^ 96 * area ≤ 2 ^ 96 * (area / 2 ^ 96 * 2 ^ 96 + 2 ^ 96) :=
          Nat.mul_le_mul_left _ (le_of_lt hfreed)
        _ = (area / 2 ^ 96 + 1) * 2 ^ 192 := by ring
  | false =>
      have h : current ≤ next := h
      have hprice : next ≤ price := hprice
      have hfreed := Nat.lt_div_mul_add (a := 2 ^ 96 * (liquidity * (next - current)))
        (Nat.mul_pos hcurrent hnext)
      rw [outputOfMove_up h, Nat.dist_eq_sub_of_le h, if_neg Bool.false_ne_true]
      generalize 2 ^ 96 * (liquidity * (next - current)) = area at hfreed ⊢
      generalize area / (current * next) = freed at hfreed ⊢
      calc
        area ≤ freed * (current * next) + current * next := le_of_lt hfreed
        _ = (freed + 1) * (current * next) := by ring
        _ ≤ (freed + 1) * (price * price) :=
          Nat.mul_le_mul_left _ (Nat.mul_le_mul (h.trans hprice) hprice)

theorem inputAt_le_area (hcurrent : 0 < current) (hnext : 0 < next)
    (h : Farther zeroForOne current next) {price : Nat} (hprice : Farther zeroForOne next price) :
    inputAt zeroForOne price (inputOfMove liquidity current next - 1) ≤
      2 ^ 96 * (liquidity * Nat.dist current next) := by
  unfold inputAt
  cases zeroForOne with
  | true =>
      have h : next ≤ current := h
      have hprice : price ≤ next := hprice
      have hneeded := divCeil_pred_mul_le (a := 2 ^ 96 * (liquidity * (current - next)))
        (Nat.mul_pos hnext hcurrent)
      rw [inputOfMove_down h, Nat.dist_eq_sub_of_le_right h, if_pos rfl]
      exact (Nat.mul_le_mul_left _ (Nat.mul_le_mul hprice (hprice.trans h))).trans hneeded
  | false =>
      have h : current ≤ next := h
      have hneeded := divCeil_pred_mul_le (a := liquidity * (next - current)) (Nat.two_pow_pos 96)
      rw [inputOfMove_up h, Nat.dist_eq_sub_of_le h, if_neg Bool.false_ne_true]
      generalize liquidity * (next - current) = area at hneeded ⊢
      calc
        (divCeil area (2 ^ 96) - 1) * 2 ^ 192 =
            2 ^ 96 * ((divCeil area (2 ^ 96) - 1) * 2 ^ 96) := by ring
        _ ≤ 2 ^ 96 * area := Nat.mul_le_mul_left _ hneeded

/-- The end of a move, one unit of price further where the code rounds up. -/
def worstPrice (zeroForOne : Bool) (price : Nat) : Nat := if zeroForOne then price - 1 else price

theorem worstPrice_farther (zeroForOne : Bool) (price : Nat) :
    Farther zeroForOne price (worstPrice zeroForOne price) := by
  cases zeroForOne with
  | true => exact Nat.sub_le price 1
  | false => exact le_refl price

/-- The price after an input of token0 lies on the curve, but for a unit of the input and
a unit of price. -/
theorem priceOfInput_curve {n : Nat} (hcurrent : 0 < current) (hn : 0 < n) (hlt : n < 2 ^ 256)
    (net : Nat) :
    ((if n + net * current < 2 ^ 256 then divCeil (n * current) (n + net * current)
        else divCeil n (n / current + net)) - 1) * (n + (net - 1) * current) ≤ n * current := by
  split
  · exact (Nat.mul_le_mul_left _ (Nat.add_le_add_left
      (Nat.mul_le_mul_right _ (Nat.sub_le net 1)) _)).trans
      (divCeil_pred_mul_le (Nat.add_pos_left hn _))
  · rename_i hover
    have hnet : 0 < net := by
      refine Nat.pos_of_ne_zero fun hzero => hover ?_
      rw [hzero, Nat.zero_mul, Nat.add_zero]
      exact hlt
    have hle := divCeil_pred_mul_le (a := n) (Nat.add_pos_right (n / current) hnet)
    have hquot := Nat.lt_div_mul_add (a := n) hcurrent
    generalize divCeil n (n / current + net) - 1 = q at hle ⊢
    generalize n / current = m at hle hquot
    have hroom : n + (net - 1) * current ≤ (m + net) * current := by
      calc
        n + (net - 1) * current ≤ m * current + current + (net - 1) * current :=
          Nat.add_le_add_right (le_of_lt hquot) _
        _ = (m + (1 + (net - 1))) * current := by ring
        _ = (m + net) * current := by
          rw [Nat.add_sub_cancel' hnet]
    calc
      q * (n + (net - 1) * current) ≤ q * ((m + net) * current) := Nat.mul_le_mul_left _ hroom
      _ = q * (m + net) * current := by ring
      _ ≤ n * current := Nat.mul_le_mul_right _ hle

/-- An input is worth no more than the area of the move it pays for, but for a unit of it
and a unit of price. -/
theorem priceOfInput_area {net : Nat} (hcurrent : 0 < current) (hl0 : 0 < liquidity)
    (hl : liquidity < 2 ^ 128)
    (hnext : next = priceOfInput zeroForOne current liquidity net)
    (h : Farther zeroForOne current next) :
    inputAt zeroForOne (worstPrice zeroForOne next) (net - 1) ≤
      2 ^ 96 * (liquidity * Nat.dist current next) + 2 ^ 96 * liquidity := by
  unfold inputAt worstPrice
  unfold priceOfInput at hnext
  cases zeroForOne with
  | true =>
      have h : next ≤ current := h
      rw [Nat.dist_eq_sub_of_le_right h, if_pos rfl, if_pos rfl]
      dsimp only at hnext
      rw [if_pos rfl] at hnext
      generalize hn : liquidity * 2 ^ 96 = n at hnext
      have hn0 : 0 < n := hn ▸ Nat.mul_pos hl0 (Nat.two_pow_pos 96)
      have hlt : n < 2 ^ 256 := by
        rw [← hn]
        exact (mul_two_pow_lt hl (by norm_num) : liquidity * 2 ^ 96 < 2 ^ 224).trans (by norm_num)
      have hcurve : (next - 1) * (n + (net - 1) * current) ≤ n * current := by
        rw [hnext]
        exact priceOfInput_curve hcurrent hn0 hlt net
      have hshort : (net - 1) * ((next - 1) * (next - 1)) ≤ (next - 1) * ((net - 1) * current) := by
        rw [Nat.mul_left_comm]
        exact Nat.mul_le_mul_left _ (Nat.mul_le_mul_left _ ((Nat.sub_le next 1).trans h))
      have hmove : n * current = n * (current - next) + n * next := by
        rw [← Nat.mul_add, Nat.sub_add_cancel h]
      have hunit : n * next ≤ (next - 1) * n + n := by
        rw [← Nat.succ_mul, Nat.mul_comm]
        exact Nat.mul_le_mul_right _ (by omega)
      have harea : 2 ^ 96 * (liquidity * (current - next)) = n * (current - next) := by
        rw [← hn]
        ring
      rw [harea, Nat.mul_comm (2 ^ 96), hn]
      rw [Nat.mul_add, hmove] at hcurve
      omega
  | false =>
      have h : current ≤ next := h
      rw [Nat.dist_eq_sub_of_le h, if_neg Bool.false_ne_true]
      dsimp only at hnext
      rw [if_neg Bool.false_ne_true] at hnext
      have hmove := Nat.lt_div_mul_add (a := net * 2 ^ 96) hl0
      have hdist : next - current = net * 2 ^ 96 / liquidity := by
        omega
      rw [hdist]
      generalize net * 2 ^ 96 / liquidity = move at hmove
      calc
        (net - 1) * 2 ^ 192 ≤ 2 ^ 96 * (net * 2 ^ 96) := by
          have hle : (net - 1) * 2 ^ 192 ≤ net * 2 ^ 192 :=
            Nat.mul_le_mul_right _ (Nat.sub_le net 1)
          omega
        _ ≤ 2 ^ 96 * (move * liquidity + liquidity) := Nat.mul_le_mul_left _ (le_of_lt hmove)
        _ = 2 ^ 96 * (liquidity * move) + 2 ^ 96 * liquidity := by ring

end Moves

/-!
# Steps
-/

theorem Fee.net_max {fee : Fee} (hfee : fee.isValid = true) (hmax : fee.isMax = true)
    (amount : Nat) : fee.net amount = 0 := by
  have hcomp := complement_eq hfee
  have hpips : fee.pips = maxFee := by simpa [isMax] using hmax
  have hzero : fee.complement = 0 := by omega
  unfold net
  rw [hzero, Nat.mul_zero, Nat.zero_div]

theorem Fee.net_gross_le {fee : Fee} (hfee : fee.isValid = true) (used : Nat) :
    fee.net (used + fee.onTop used) ≤ used := by
  cases hmax : fee.isMax with
  | true =>
      rw [net_max hfee hmax]
      exact Nat.zero_le used
  | false =>
      have hmono : fee.onTop used ≤ fee.onTop (used + 1) := onTop_mono (Nat.le_succ used)
      by_contra hlt
      have hafford : used + 1 + fee.onTop (used + 1) ≤ used + fee.onTop used :=
        (le_net_iff hfee hmax).mp (not_le.mp hlt)
      omega

@[simp] theorem Fee.net_zero (fee : Fee) : fee.net 0 = 0 := by
  unfold net
  rw [Nat.zero_mul, Nat.zero_div]

theorem Fee.net_le_add (fee : Fee) (x y : Nat) :
    fee.net (x + y) ≤ fee.net x + fee.net y + 1 := by
  unfold net maxFee
  rw [Nat.add_mul]
  omega

section Steps

variable {current target liquidity : Nat} {remaining : Int} {fee : Fee} {s : SwapStep}

theorem plainStep_net (hfee : fee.isValid = true) (hmax : 0 < remaining -> fee.isMax = false)
    (hne : remaining ≠ 0) :
    (plainStep current target liquidity remaining fee).amountIn ≤
      fee.net (plainStep current target liquidity remaining fee).gross := by
  have hontop (used : Nat) (h : fee.isMax = false) : used ≤ fee.net (used + fee.onTop used) :=
    (Fee.le_net_iff hfee h).mpr (le_refl _)
  unfold plainStep
  split
  · rename_i hcovers
    cases hfull : fee.isMax with
    | false =>
        exact hontop _ hfull
    | true =>
        have hin : remaining < 0 := by
          refine lt_of_le_of_ne (not_lt.mp fun hout => ?_) hne
          rw [hmax hout] at hfull
          cases hfull
        rw [covers_exactIn hin, Fee.net_max hfee hfull] at hcovers
        exact hcovers.trans (Nat.zero_le _)
  · split
    · refine le_of_eq (congrArg fee.net ?_)
      exact (Nat.add_sub_cancel' (Fee.net_le hfee _)).symm
    · rename_i hout
      exact hontop _ (hmax (by omega))

theorem plainStep_spot (hcurrent : 0 < current) {zeroForOne : Bool}
    (hsound : StepSound current target liquidity
      (plainStep current target liquidity remaining fee))
    (hfarther : Farther zeroForOne current
      (plainStep current target liquidity remaining fee).sqrtRatioNextX96)
    (hfee : fee.isValid = true) (hmax : 0 < remaining -> fee.isMax = false) (hne : remaining ≠ 0) :
    outputAt zeroForOne current (plainStep current target liquidity remaining fee).amountOut ≤
      inputAt zeroForOne current
        (fee.net (plainStep current target liquidity remaining fee).gross) := by
  have hnext := hsound.valid.pos
  calc
    outputAt zeroForOne current (plainStep current target liquidity remaining fee).amountOut ≤
        outputAt zeroForOne current (outputOfMove liquidity current
          (plainStep current target liquidity remaining fee).sqrtRatioNextX96) :=
      outputAt_mono (hsound.output_le hcurrent)
    _ ≤ inputAt zeroForOne current (inputOfMove liquidity current
          (plainStep current target liquidity remaining fee).sqrtRatioNextX96) :=
      outputOfMove_spot hcurrent hnext hfarther
    _ ≤ inputAt zeroForOne current
          (fee.net (plainStep current target liquidity remaining fee).gross) :=
      inputAt_mono ((hsound.input_le hcurrent).trans (plainStep_net hfee hmax hne))

/-- An exact input that pays for the whole way fills no worse than the target price, but
for a unit on either side. -/
theorem plainStep_end (hcurrent : 0 < current) (htarget : 0 < target) {zeroForOne : Bool}
    (hfarther : Farther zeroForOne current target) {price : Nat}
    (hprice : Farther zeroForOne target price) (hfee : fee.isValid = true)
    (hcovers : Covers current target liquidity remaining fee) :
    inputAt zeroForOne price
        (fee.net (plainStep current target liquidity remaining fee).gross) ≤
      outputAt zeroForOne price
          ((plainStep current target liquidity remaining fee).amountOut + 1) +
        inputAt zeroForOne price 1 := by
  unfold plainStep
  rw [if_pos hcovers]
  refine (inputAt_mono (Fee.net_gross_le hfee _)).trans ((inputAt_pred _ _ _).trans ?_)
  refine Nat.add_le_add_right ?_ _
  exact (inputAt_le_area hcurrent htarget hfarther hprice).trans
    (area_le_outputAt hcurrent htarget hfarther hprice)

theorem plainStep_end_short (hcurrent : IsValidSqrtPrice current) (hl0 : 0 < liquidity)
    (hl : liquidity < 2 ^ 128) {zeroForOne : Bool}
    (hdirection : zeroForOne = decide (current ≥ target)) (hin : remaining < 0)
    (hshort : ¬ Covers current target liquidity remaining fee) (hfee : fee.isValid = true)
    (hvalid : 0 < (plainStep current target liquidity remaining fee).sqrtRatioNextX96)
    (hfarther : Farther zeroForOne current
      (plainStep current target liquidity remaining fee).sqrtRatioNextX96) {price : Nat}
    (hprice : price = worstPrice zeroForOne
      (plainStep current target liquidity remaining fee).sqrtRatioNextX96) :
    inputAt zeroForOne price
        (fee.net (plainStep current target liquidity remaining fee).gross) ≤
      outputAt zeroForOne price
          ((plainStep current target liquidity remaining fee).amountOut + 1) +
        inputAt zeroForOne price 1 + 2 ^ 96 * liquidity := by
  have hends := (plainStep_short_in hin hshort).2
  have hgross : (plainStep current target liquidity remaining fee).gross = remaining.natAbs :=
    (plainStep_spends hfee hshort rfl).1 hin
  rw [← hdirection] at hends
  rw [hgross, plainStep_output hin]
  generalize (plainStep current target liquidity remaining fee).sqrtRatioNextX96 = next at *
  have hcurve := priceOfInput_area hcurrent.pos hl0 hl hends hfarther
  have harea : 2 ^ 96 * (liquidity * Nat.dist current next) ≤
      outputAt zeroForOne (worstPrice zeroForOne next) (outputOfMove liquidity current next + 1) :=
    area_le_outputAt hcurrent.pos hvalid hfarther (worstPrice_farther zeroForOne next)
  have hpred := inputAt_pred zeroForOne price (fee.net remaining.natAbs)
  rw [← hprice] at hcurve harea
  omega

end Steps

end RmUniswap
