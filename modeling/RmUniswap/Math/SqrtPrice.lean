import RmUniswap.Types.Basic

/-!
# Sqrt-price arithmetic

Prices and amounts along a range of constant liquidity, with the widths and
the rounding directions of the source.
-/

namespace RmUniswap

open Foundation

def intoSqrtPrice (value : Nat) : Except Error Nat :=
  okOr .invalidSqrtPrice (fromU256 value)

/-- Division in the requested direction. -/
def roundDiv (roundUp : Bool) (a b : Nat) : Nat :=
  if roundUp then divCeil a b else a / b

def divU384ByU256RoundingUp (numerator denominator : Nat) : Except Error Nat :=
  let quotient := divCeil numerator denominator
  if bitLen quotient > 256 then
    .error .priceOverflow
  else
    .ok quotient

def liquiditySqrtQ96DivRoundingUp (liquidity sqrtPrice denominator : Nat) :
    Except Error Nat :=
  let product := wrap 288 (liquidity * sqrtPrice)
  let numerator := wrap 384 (product <<< 96)
  divU384ByU256RoundingUp numerator denominator

def amount1Quotient (amount liquidity : Nat) (roundingUp : Bool) (overflowError : Error) :
    Except Error Nat :=
  if bitLen amount ≤ 160 then
    let numerator := wrap 256 (amount <<< 96)
    .ok (roundDiv roundingUp numerator liquidity)
  else
    let numerator := wrap 352 (amount <<< 96)
    let quotient := roundDiv roundingUp numerator liquidity
    if bitLen quotient > 160 then
      .error overflowError
    else
      .ok quotient

def amount1QuotientRoundingDown (amount liquidity : Nat) : Except Error Nat :=
  amount1Quotient amount liquidity false .priceOverflow

def amount1QuotientRoundingUp (amount liquidity : Nat) : Except Error Nat :=
  amount1Quotient amount liquidity true .insufficientToken1Reserves

def amount0AddOverflowFallback (numerator1 sqrtPrice amount : Nat) : Except Error Nat := do
  let base := numerator1 / sqrtPrice
  let denominator <- okOr .priceOverflow (checkedAdd 256 base amount)
  intoSqrtPrice (divCeil numerator1 denominator)

def getNextSqrtPriceFromAmount0AddRoundingUp (sqrtPrice liquidity amount : Nat) :
    Except Error Nat :=
  let numerator1 := q96 liquidity
  let productBitsUpper := bitLen amount + bitLen sqrtPrice
  if productBitsUpper ≤ 255 then do
    let product := wrap 256 (amount * sqrtPrice)
    let denominator := wrap 256 (numerator1 + product)
    let result <- liquiditySqrtQ96DivRoundingUp liquidity sqrtPrice denominator
    intoSqrtPrice result
  else if productBitsUpper ≤ 256 then
    let product := wrap 256 (amount * sqrtPrice)
    match checkedAdd 256 numerator1 product with
    | some denominator => do
        let result <- liquiditySqrtQ96DivRoundingUp liquidity sqrtPrice denominator
        intoSqrtPrice result
    | none => amount0AddOverflowFallback numerator1 sqrtPrice amount
  else
    match (checkedMul 256 amount sqrtPrice).bind (checkedAdd 256 numerator1) with
    | some denominator => do
        let result <- liquiditySqrtQ96DivRoundingUp liquidity sqrtPrice denominator
        intoSqrtPrice result
    | none => amount0AddOverflowFallback numerator1 sqrtPrice amount

def getNextSqrtPriceFromAmount0SubRoundingUp (sqrtPrice liquidity amount : Nat) :
    Except Error Nat := do
  let numerator1 := q96 liquidity
  let productBitsUpper := bitLen amount + bitLen sqrtPrice
  let product <-
    (if productBitsUpper ≤ 256 then
      .ok (wrap 256 (amount * sqrtPrice))
    else
      okOr .insufficientToken0Reserves (checkedMul 256 amount sqrtPrice) : Except Error Nat)
  if numerator1 ≤ product then
    .error .insufficientToken0Reserves
  else do
    let denominator := numerator1 - product
    let result <- liquiditySqrtQ96DivRoundingUp liquidity sqrtPrice denominator
    intoSqrtPrice result

def getNextSqrtPriceFromAmount0RoundingUp (sqrtPrice liquidity amount : Nat) (add : Bool) :
    Except Error Nat :=
  if add then
    getNextSqrtPriceFromAmount0AddRoundingUp sqrtPrice liquidity amount
  else
    getNextSqrtPriceFromAmount0SubRoundingUp sqrtPrice liquidity amount

def getNextSqrtPriceFromAmount1AddRoundingDown (sqrtPrice liquidity amount : Nat) :
    Except Error Nat := do
  let quotient <- amount1QuotientRoundingDown amount liquidity
  let result <- okOr .priceOverflow (checkedAdd 256 sqrtPrice quotient)
  intoSqrtPrice result

def getNextSqrtPriceFromAmount1SubRoundingDown (sqrtPrice liquidity amount : Nat) :
    Except Error Nat := do
  let quotient <- amount1QuotientRoundingUp amount liquidity
  if sqrtPrice ≤ quotient then
    .error .insufficientToken1Reserves
  else
    intoSqrtPrice (sqrtPrice - quotient)

def getNextSqrtPriceFromAmount1RoundingDown (sqrtPrice liquidity amount : Nat) (add : Bool) :
    Except Error Nat :=
  if add then
    getNextSqrtPriceFromAmount1AddRoundingDown sqrtPrice liquidity amount
  else
    getNextSqrtPriceFromAmount1SubRoundingDown sqrtPrice liquidity amount

def getNextSqrtPriceFromInput (sqrtPrice liquidity amountIn : Nat) (zeroForOne : Bool) :
    Except Error Nat :=
  if zeroForOne then
    getNextSqrtPriceFromAmount0RoundingUp sqrtPrice liquidity amountIn true
  else
    getNextSqrtPriceFromAmount1RoundingDown sqrtPrice liquidity amountIn true

def getNextSqrtPriceFromOutput (sqrtPrice liquidity amountOut : Nat) (zeroForOne : Bool) :
    Except Error Nat :=
  if zeroForOne then
    getNextSqrtPriceFromAmount1RoundingDown sqrtPrice liquidity amountOut false
  else
    getNextSqrtPriceFromAmount0RoundingUp sqrtPrice liquidity amountOut false

/-!
# Amounts over a range
-/

def getAmount0DeltaWithLiquidityDelta (sqrtPriceA sqrtPriceB liquidityDeltaSqrt : Nat)
    (roundUp : Bool) : Except Error Nat :=
  let numerator := wrap 384 (liquidityDeltaSqrt <<< 96)
  let denominator := wrap 384 (sqrtPriceA * sqrtPriceB)
  let result := roundDiv roundUp numerator denominator
  if bitLen result > 256 then
    .error .overflow
  else
    .ok result

/-- The token0 amount of a range, with the product it shares with token1. -/
def getAmount0Delta (sqrtPriceA sqrtPriceB liquidity : Nat) (roundUp : Bool) :
    Except Error (Nat × Nat) :=
  let (sqrtA, sqrtB) := sortPrices sqrtPriceA sqrtPriceB
  let diff := sqrtB - sqrtA
  if diff = 0 then
    .ok (0, 0)
  else do
    let liquidityDeltaSqrt := wrap 288 (liquidity * diff)
    let amount <-
      getAmount0DeltaWithLiquidityDelta sqrtPriceA sqrtPriceB liquidityDeltaSqrt roundUp
    .ok (amount, liquidityDeltaSqrt)

def getAmount1DeltaWithLiquidityDelta (liquidityDeltaSqrt : Nat) (roundUp : Bool) : Nat :=
  let remainderMask := 2 ^ 96 - 1
  let quotient := liquidityDeltaSqrt >>> 96
  if roundUp && (liquidityDeltaSqrt &&& remainderMask) != 0 then quotient + 1 else quotient

/-- The token1 amount of a range, with the product it shares with token0. -/
def getAmount1Delta (sqrtPriceA sqrtPriceB liquidity : Nat) (roundUp : Bool) :
    Except Error (Nat × Nat) :=
  let (sqrtA, sqrtB) := sortPrices sqrtPriceA sqrtPriceB
  let diff := sqrtB - sqrtA
  if diff = 0 then
    .ok (0, 0)
  else
    let liquidityDeltaSqrt := wrap 288 (liquidity * diff)
    .ok (getAmount1DeltaWithLiquidityDelta liquidityDeltaSqrt roundUp, liquidityDeltaSqrt)

/-!
# The next price in plain arithmetic
-/

section NextPrice

variable {sqrtPrice liquidity amount q : Nat}

theorem intoSqrtPrice_eq_ok {value : Nat} :
    intoSqrtPrice value = .ok q ↔ q = value ∧ IsValidSqrtPrice value := by
  rw [intoSqrtPrice, okOr_eq_ok, fromU256_eq_some]

theorem liquiditySqrtQ96DivRoundingUp_price {denominator : Nat} (hl : liquidity < 2 ^ 128)
    (hp : sqrtPrice < 2 ^ 160) :
    (liquiditySqrtQ96DivRoundingUp liquidity sqrtPrice denominator >>= intoSqrtPrice) = .ok q ↔
      IsValidSqrtPrice q ∧ q = divCeil (liquidity * 2 ^ 96 * sqrtPrice) denominator := by
  have hproduct : liquidity * sqrtPrice < 2 ^ 288 := mul_lt_two_pow hl hp (by norm_num)
  have hnumerator : wrap 384 (wrap 288 (liquidity * sqrtPrice) <<< 96) =
      liquidity * 2 ^ 96 * sqrtPrice := by
    rw [wrap_of_lt hproduct, Nat.shiftLeft_eq, wrap_of_lt (mul_two_pow_lt hproduct (by norm_num))]
    ring
  unfold liquiditySqrtQ96DivRoundingUp divU384ByU256RoundingUp
  simp only [hnumerator]
  generalize divCeil (liquidity * 2 ^ 96 * sqrtPrice) denominator = quotient
  split
  · rename_i hwide
    rw [error_bind]
    constructor
    · intro h
      cases h
    · rintro ⟨hvalid, rfl⟩
      have := bitLen_le_iff.mpr (hvalid.lt_two_pow.trans (show 2 ^ 160 < 2 ^ 256 by norm_num))
      omega
  · rw [ok_bind, intoSqrtPrice_eq_ok]
    constructor
    · rintro ⟨rfl, hvalid⟩
      exact ⟨hvalid, rfl⟩
    · rintro ⟨hvalid, rfl⟩
      exact ⟨rfl, hvalid⟩

theorem roundDiv_true (a b : Nat) : roundDiv true a b = divCeil a b := rfl

theorem roundDiv_false (a b : Nat) : roundDiv false a b = a / b := rfl

theorem amount1Quotient_eq_ok {up : Bool} {e : Error} (ha : amount < 2 ^ 256)
    (h : amount1Quotient amount liquidity up e = .ok q) :
    q = roundDiv up (amount * 2 ^ 96) liquidity := by
  unfold amount1Quotient at h
  split at h
  · rename_i hbits
    have hwide : amount * 2 ^ 96 < 2 ^ 256 :=
      mul_two_pow_lt (bitLen_le_iff.mp hbits) (by norm_num)
    simp only [Nat.shiftLeft_eq, wrap_of_lt hwide] at h
    cases h
    rfl
  · have hwide : amount * 2 ^ 96 < 2 ^ 352 := mul_two_pow_lt ha (by norm_num)
    simp only [Nat.shiftLeft_eq, wrap_of_lt hwide] at h
    split at h
    · cases h
    · cases h
      rfl

theorem amount1Quotient_of_lt {up : Bool} {e : Error} (ha : amount < 2 ^ 256)
    (hfits : roundDiv up (amount * 2 ^ 96) liquidity < 2 ^ 160) :
    amount1Quotient amount liquidity up e = .ok (roundDiv up (amount * 2 ^ 96) liquidity) := by
  unfold amount1Quotient
  split
  · rename_i hbits
    have hwide : amount * 2 ^ 96 < 2 ^ 256 :=
      mul_two_pow_lt (bitLen_le_iff.mp hbits) (by norm_num)
    simp only [Nat.shiftLeft_eq, wrap_of_lt hwide]
  · have hwide : amount * 2 ^ 96 < 2 ^ 352 := mul_two_pow_lt ha (by norm_num)
    simp only [Nat.shiftLeft_eq, wrap_of_lt hwide]
    rw [if_neg (not_lt.mpr (bitLen_le_iff.mpr hfits))]

theorem amount0Add_eq (hl : liquidity < 2 ^ 128) :
    getNextSqrtPriceFromAmount0AddRoundingUp sqrtPrice liquidity amount =
      if liquidity * 2 ^ 96 + amount * sqrtPrice < 2 ^ 256 then
        liquiditySqrtQ96DivRoundingUp liquidity sqrtPrice
          (liquidity * 2 ^ 96 + amount * sqrtPrice) >>= intoSqrtPrice
      else
        amount0AddOverflowFallback (liquidity * 2 ^ 96) sqrtPrice amount := by
  have hq96lt : liquidity * 2 ^ 96 < 2 ^ 224 := mul_two_pow_lt hl (by norm_num)
  unfold getNextSqrtPriceFromAmount0AddRoundingUp
  simp only [q96_eq hl]
  by_cases hlow : bitLen amount + bitLen sqrtPrice ≤ 255
  · have hprod := mul_lt_two_pow_of_bitLen hlow
    have hsum : liquidity * 2 ^ 96 + amount * sqrtPrice < 2 ^ 256 :=
      calc
        liquidity * 2 ^ 96 + amount * sqrtPrice < 2 ^ 224 + 2 ^ 255 := Nat.add_lt_add hq96lt hprod
        _ ≤ 2 ^ 256 := by norm_num
    rw [if_pos hlow, if_pos hsum, wrap_of_lt (x := amount * sqrtPrice)
      (hprod.trans (by norm_num)), wrap_of_lt hsum]
  rw [if_neg hlow]
  by_cases hmid : bitLen amount + bitLen sqrtPrice ≤ 256
  · rw [if_pos hmid, wrap_of_lt (mul_lt_two_pow_of_bitLen hmid), checkedAdd]
    by_cases hsum : liquidity * 2 ^ 96 + amount * sqrtPrice < 2 ^ 256
    · rw [if_pos hsum, if_pos hsum]
    · rw [if_neg hsum, if_neg hsum]
  rw [if_neg hmid, checkedMul]
  by_cases hsum : liquidity * 2 ^ 96 + amount * sqrtPrice < 2 ^ 256
  · have hprod : amount * sqrtPrice < 2 ^ 256 := Nat.lt_of_le_of_lt (Nat.le_add_left _ _) hsum
    rw [if_pos hsum, if_pos hprod, Option.bind_some, checkedAdd, if_pos hsum]
  · rw [if_neg hsum]
    by_cases hprod : amount * sqrtPrice < 2 ^ 256
    · rw [if_pos hprod, Option.bind_some, checkedAdd, if_neg hsum]
    · rw [if_neg hprod, Option.bind_none]

/-- Token0 entering: the direct quotient where its denominator fits a word, and
the fallback that divides twice elsewhere. -/
theorem amount0Add_eq_ok (hl : liquidity < 2 ^ 128) (hp : sqrtPrice < 2 ^ 160) :
    getNextSqrtPriceFromAmount0AddRoundingUp sqrtPrice liquidity amount = .ok q ↔
      IsValidSqrtPrice q ∧
        if liquidity * 2 ^ 96 + amount * sqrtPrice < 2 ^ 256 then
          q = divCeil (liquidity * 2 ^ 96 * sqrtPrice) (liquidity * 2 ^ 96 + amount * sqrtPrice)
        else
          liquidity * 2 ^ 96 / sqrtPrice + amount < 2 ^ 256 ∧
            q = divCeil (liquidity * 2 ^ 96) (liquidity * 2 ^ 96 / sqrtPrice + amount) := by
  rw [amount0Add_eq hl]
  by_cases hsum : liquidity * 2 ^ 96 + amount * sqrtPrice < 2 ^ 256
  · rw [if_pos hsum, if_pos hsum]
    exact liquiditySqrtQ96DivRoundingUp_price hl hp
  · rw [if_neg hsum, if_neg hsum]
    unfold amount0AddOverflowFallback checkedAdd
    dsimp only
    by_cases hbase : liquidity * 2 ^ 96 / sqrtPrice + amount < 2 ^ 256
    · rw [if_pos hbase, okOr_some, ok_bind, intoSqrtPrice_eq_ok]
      constructor
      · rintro ⟨rfl, hvalid⟩
        exact ⟨hvalid, hbase, rfl⟩
      · rintro ⟨hvalid, _, rfl⟩
        exact ⟨rfl, hvalid⟩
    · rw [if_neg hbase, okOr_none, error_bind]
      constructor
      · intro h
        cases h
      · rintro ⟨_, hfits, _⟩
        exact absurd hfits hbase

theorem amount0Sub_eq_ok (hl : liquidity < 2 ^ 128) (hp : sqrtPrice < 2 ^ 160) :
    getNextSqrtPriceFromAmount0SubRoundingUp sqrtPrice liquidity amount = .ok q ↔
      IsValidSqrtPrice q ∧ amount * sqrtPrice < liquidity * 2 ^ 96 ∧
        q = divCeil (liquidity * 2 ^ 96 * sqrtPrice)
          (liquidity * 2 ^ 96 - amount * sqrtPrice) := by
  have hq96lt : liquidity * 2 ^ 96 < 2 ^ 224 := mul_two_pow_lt hl (by norm_num)
  have hproduct : (if bitLen amount + bitLen sqrtPrice ≤ 256 then
      .ok (wrap 256 (amount * sqrtPrice))
    else
      okOr .insufficientToken0Reserves (checkedMul 256 amount sqrtPrice) : Except Error Nat) =
      if amount * sqrtPrice < 2 ^ 256 then .ok (amount * sqrtPrice)
      else .error .insufficientToken0Reserves := by
    by_cases hbits : bitLen amount + bitLen sqrtPrice ≤ 256
    · have hfit := mul_lt_two_pow_of_bitLen hbits
      rw [if_pos hbits, if_pos hfit, wrap_of_lt hfit]
    · rw [if_neg hbits, checkedMul]
      split <;> rfl
  unfold getNextSqrtPriceFromAmount0SubRoundingUp
  dsimp only
  rw [hproduct, q96_eq hl]
  by_cases hsmall : amount * sqrtPrice < liquidity * 2 ^ 96
  · rw [if_pos (hsmall.trans (hq96lt.trans (by norm_num))), ok_bind, if_neg (not_le.mpr hsmall),
      liquiditySqrtQ96DivRoundingUp_price hl hp]
    simp only [hsmall, true_and]
  · have herror : forall e : Error, (Except.error e : Except Error Nat) = .ok q ↔
        IsValidSqrtPrice q ∧ amount * sqrtPrice < liquidity * 2 ^ 96 ∧
          q = divCeil (liquidity * 2 ^ 96 * sqrtPrice)
            (liquidity * 2 ^ 96 - amount * sqrtPrice) :=
      fun e => ⟨fun h => (by cases h), fun h => absurd h.2.1 hsmall⟩
    split
    · rw [ok_bind, if_pos (not_lt.mp hsmall)]
      exact herror _
    · rw [error_bind]
      exact herror _

theorem amount1Add_eq_ok (ha : amount < 2 ^ 256) :
    getNextSqrtPriceFromAmount1AddRoundingDown sqrtPrice liquidity amount = .ok q ↔
      IsValidSqrtPrice q ∧ q = sqrtPrice + amount * 2 ^ 96 / liquidity := by
  constructor
  · intro h
    rcases bind_eq_ok.mp h with ⟨quotient, hquotient, hrest⟩
    rcases bind_eq_ok.mp hrest with ⟨r, hr, hinto⟩
    rcases intoSqrtPrice_eq_ok.mp hinto with ⟨hqr, hvalid⟩
    have hsum := (checkedAdd_eq_some.mp (okOr_eq_ok.mp hr)).1
    rw [amount1Quotient_eq_ok ha hquotient, roundDiv_false] at hsum
    rw [hqr]
    exact ⟨hvalid, hsum⟩
  · rintro ⟨hvalid, hq⟩
    have hlt := hvalid.lt_two_pow
    have hquotient : amount1QuotientRoundingDown amount liquidity =
        .ok (amount * 2 ^ 96 / liquidity) :=
      amount1Quotient_of_lt ha (by rw [roundDiv_false]; omega)
    unfold getNextSqrtPriceFromAmount1AddRoundingDown
    rw [hquotient, ok_bind, checkedAdd, if_pos (by omega), okOr_some, ok_bind,
      intoSqrtPrice_eq_ok, ← hq]
    exact ⟨rfl, hvalid⟩

theorem amount1Sub_eq_ok (hp : sqrtPrice < 2 ^ 160) (ha : amount < 2 ^ 256) :
    getNextSqrtPriceFromAmount1SubRoundingDown sqrtPrice liquidity amount = .ok q ↔
      IsValidSqrtPrice q ∧ q + divCeil (amount * 2 ^ 96) liquidity = sqrtPrice := by
  constructor
  · intro h
    rcases bind_eq_ok.mp h with ⟨quotient, hquotient, hrest⟩
    rw [amount1Quotient_eq_ok ha hquotient, roundDiv_true] at hrest
    split at hrest
    · cases hrest
    · rename_i hlt
      rcases intoSqrtPrice_eq_ok.mp hrest with ⟨hqr, hvalid⟩
      rw [hqr]
      exact ⟨hvalid, Nat.sub_add_cancel (le_of_lt (not_le.mp hlt))⟩
  · rintro ⟨hvalid, hq⟩
    have hfits : divCeil (amount * 2 ^ 96) liquidity < 2 ^ 160 := by
      refine Nat.lt_of_le_of_lt ?_ hp
      rw [← hq]
      exact Nat.le_add_left _ _
    have hquotient : amount1QuotientRoundingUp amount liquidity =
        .ok (divCeil (amount * 2 ^ 96) liquidity) := by
      unfold amount1QuotientRoundingUp
      rw [← roundDiv_true] at hfits ⊢
      exact amount1Quotient_of_lt ha hfits
    generalize divCeil (amount * 2 ^ 96) liquidity = quotient at hq hquotient
    have hreserve : ¬ sqrtPrice ≤ quotient := by
      rw [← hq]
      exact not_le.mpr (Nat.lt_add_of_pos_left hvalid.pos)
    unfold getNextSqrtPriceFromAmount1SubRoundingDown
    rw [hquotient, ok_bind, if_neg hreserve, intoSqrtPrice_eq_ok, ← hq, Nat.add_sub_cancel]
    exact ⟨rfl, hvalid⟩

end NextPrice

/-!
# Amounts in plain arithmetic
-/

section Amounts

variable {a b liquidity : Nat} {up : Bool}

theorem roundDiv_le_divCeil (up : Bool) (n d : Nat) : roundDiv up n d ≤ divCeil n d := by
  cases up with
  | false => exact div_le_divCeil n d
  | true => exact le_refl _

theorem roundDiv_zero (up : Bool) (d : Nat) : roundDiv up 0 d = 0 := by
  cases up with
  | false => exact Nat.zero_div d
  | true => exact zero_divCeil d

private theorem liquidity_diff_lt (hl : liquidity < 2 ^ 128) (hb : b < 2 ^ 160) :
    liquidity * (b - a) < 2 ^ 288 :=
  mul_lt_two_pow hl (Nat.lt_of_le_of_lt (Nat.sub_le b a) hb) (by norm_num)

theorem getAmount0DeltaWithLiquidityDelta_eq (hl : liquidity < 2 ^ 128)
    (ha : IsValidSqrtPrice a) (hb : IsValidSqrtPrice b) :
    getAmount0DeltaWithLiquidityDelta a b (liquidity * (b - a)) up =
      .ok (roundDiv up (2 ^ 96 * (liquidity * (b - a))) (a * b)) := by
  have hwide : 2 ^ 96 * (liquidity * (b - a)) < 2 ^ 384 := by
    rw [Nat.mul_comm]
    exact mul_two_pow_lt (liquidity_diff_lt hl hb.lt_two_pow) (by norm_num)
  have hden : a * b < 2 ^ 384 := mul_lt_two_pow ha.lt_two_pow hb.lt_two_pow (by norm_num)
  have hpos : 0 < a * b := Nat.mul_pos ha.pos hb.pos
  have hsmall : divCeil (2 ^ 96 * (liquidity * (b - a))) (a * b) ≤ 2 ^ 224 := by
    rw [divCeil_le_iff hpos]
    calc
      2 ^ 96 * (liquidity * (b - a)) ≤ 2 ^ 96 * (2 ^ 128 * b) :=
        Nat.mul_le_mul_left _ (Nat.mul_le_mul (le_of_lt hl) (Nat.sub_le b a))
      _ = 2 ^ 224 * (1 * b) := by ring
      _ ≤ 2 ^ 224 * (a * b) :=
        Nat.mul_le_mul_left _ (Nat.mul_le_mul_right _ ha.pos)
  have hbits : ¬ bitLen (roundDiv up (2 ^ 96 * (liquidity * (b - a))) (a * b)) > 256 := by
    rw [not_lt, bitLen_le_iff]
    have := roundDiv_le_divCeil up (2 ^ 96 * (liquidity * (b - a))) (a * b)
    exact Nat.lt_of_le_of_lt (this.trans hsmall) (by norm_num)
  unfold getAmount0DeltaWithLiquidityDelta
  simp only [Nat.shiftLeft_eq, Nat.mul_comm (liquidity * (b - a)), wrap_of_lt hwide,
    wrap_of_lt hden]
  rw [if_neg hbits]

theorem getAmount0Delta_eq (hl : liquidity < 2 ^ 128) (ha : IsValidSqrtPrice a)
    (hb : IsValidSqrtPrice b) (hab : a ≤ b) :
    getAmount0Delta a b liquidity up =
      .ok (roundDiv up (2 ^ 96 * (liquidity * (b - a))) (a * b), liquidity * (b - a)) := by
  unfold getAmount0Delta
  rw [sortPrices_eq, Nat.min_eq_left hab, Nat.max_eq_right hab]
  simp only [wrap_of_lt (liquidity_diff_lt hl hb.lt_two_pow)]
  by_cases hdiff : b - a = 0
  · rw [if_pos hdiff, hdiff, Nat.mul_zero, Nat.mul_zero, roundDiv_zero]
  · rw [if_neg hdiff, getAmount0DeltaWithLiquidityDelta_eq hl ha hb, ok_bind]

theorem getAmount0DeltaWithLiquidityDelta_comm (n : Nat) :
    getAmount0DeltaWithLiquidityDelta a b n up = getAmount0DeltaWithLiquidityDelta b a n up := by
  unfold getAmount0DeltaWithLiquidityDelta
  rw [Nat.mul_comm a b]

theorem getAmount0Delta_comm : getAmount0Delta a b liquidity up =
    getAmount0Delta b a liquidity up := by
  unfold getAmount0Delta
  simp only [getAmount0DeltaWithLiquidityDelta_comm (a := a)]
  rw [sortPrices_eq, sortPrices_eq, Nat.min_comm, Nat.max_comm]

theorem getAmount1DeltaWithLiquidityDelta_eq (n : Nat) :
    getAmount1DeltaWithLiquidityDelta n up = roundDiv up n (2 ^ 96) := by
  unfold getAmount1DeltaWithLiquidityDelta
  simp only [Nat.and_two_pow_sub_one_eq_mod, Nat.shiftRight_eq_div_pow]
  cases up with
  | false => rfl
  | true =>
      rw [roundDiv_true, divCeil, Bool.true_and]
      by_cases h : n % 2 ^ 96 = 0
      · rw [if_pos h, if_neg (by rw [h]; decide)]
      · rw [if_neg h, if_pos (by simpa using h)]

theorem getAmount1Delta_eq (hl : liquidity < 2 ^ 128) (hb : IsValidSqrtPrice b) (hab : a ≤ b) :
    getAmount1Delta a b liquidity up =
      .ok (roundDiv up (liquidity * (b - a)) (2 ^ 96), liquidity * (b - a)) := by
  unfold getAmount1Delta
  rw [sortPrices_eq, Nat.min_eq_left hab, Nat.max_eq_right hab]
  simp only [wrap_of_lt (liquidity_diff_lt hl hb.lt_two_pow),
    getAmount1DeltaWithLiquidityDelta_eq]
  by_cases hdiff : b - a = 0
  · rw [if_pos hdiff, hdiff, Nat.mul_zero, roundDiv_zero]
  · rw [if_neg hdiff]

theorem getAmount1Delta_comm : getAmount1Delta a b liquidity up =
    getAmount1Delta b a liquidity up := by
  unfold getAmount1Delta
  rw [sortPrices_eq, sortPrices_eq, Nat.min_comm, Nat.max_comm]

end Amounts

end RmUniswap
