import RmUniswap.Math.SqrtPrice
import RmUniswap.Types.Params

/-!
# Principal of a liquidity change
-/

namespace RmUniswap

open Foundation

def u256ToI128Positive (amount : Nat) : Except Error Int :=
  if amount < 2 ^ 127 then .ok amount else .error .amountOverflow

def u256ToI128Negative (amount : Nat) : Except Error Int :=
  if amount ≤ 2 ^ 127 then .ok (-amount) else .error .amountOverflow

def liquidityAmountToI128 (amount : Nat) (liquidityDeltaPositive : Bool) : Except Error Int :=
  if liquidityDeltaPositive then u256ToI128Negative amount else u256ToI128Positive amount

def amountOrOverflow (result : Except Error (Nat × Nat)) : Except Error Nat :=
  match result with
  | .ok amounts => .ok amounts.1
  | .error _ => .error .amountOverflow

def amount0DeltaForLiquidityChange (sqrtPriceA sqrtPriceB liquidityDelta : Nat)
    (liquidityDeltaPositive : Bool) : Except Error Int := do
  let amount <- amountOrOverflow
    (getAmount0Delta sqrtPriceA sqrtPriceB liquidityDelta liquidityDeltaPositive)
  liquidityAmountToI128 amount liquidityDeltaPositive

def amount1DeltaForLiquidityChange (sqrtPriceA sqrtPriceB liquidityDelta : Nat)
    (liquidityDeltaPositive : Bool) : Except Error Int := do
  let amount <- amountOrOverflow
    (getAmount1Delta sqrtPriceA sqrtPriceB liquidityDelta liquidityDeltaPositive)
  liquidityAmountToI128 amount liquidityDeltaPositive

namespace BalanceDelta

def fromU256 (amount0 amount1 : Nat) : Except Error BalanceDelta := do
  let amount0 <- u256ToI128Positive amount0
  let amount1 <- u256ToI128Positive amount1
  .ok { amount0, amount1 }

/-- Token0 above the range, both inside it, token1 below it. -/
def fromLiquidityPrincipal (tickCurrent tickLower tickUpper : Int)
    (sqrtPriceCurrent sqrtPriceLower sqrtPriceUpper : Nat) (liquidityDelta : Int) :
    Except Error BalanceDelta :=
  let liquidityDeltaPositive := decide (liquidityDelta ≥ 0)
  let liquidity := liquidityDelta.natAbs
  if tickCurrent < tickLower then do
    let amount0 <- amount0DeltaForLiquidityChange sqrtPriceLower sqrtPriceUpper liquidity
      liquidityDeltaPositive
    .ok { amount0, amount1 := 0 }
  else if tickCurrent < tickUpper then do
    let amount0 <- amount0DeltaForLiquidityChange sqrtPriceCurrent sqrtPriceUpper liquidity
      liquidityDeltaPositive
    let amount1 <- amount1DeltaForLiquidityChange sqrtPriceLower sqrtPriceCurrent liquidity
      liquidityDeltaPositive
    .ok { amount0, amount1 }
  else do
    let amount1 <- amount1DeltaForLiquidityChange sqrtPriceLower sqrtPriceUpper liquidity
      liquidityDeltaPositive
    .ok { amount0 := 0, amount1 }

/-- What the caller receives in the output token of a swap. -/
def amountOut (delta : BalanceDelta) (zeroForOne : Bool) : Nat :=
  let raw := if zeroForOne then delta.amount1 else delta.amount0
  if raw > 0 then raw.natAbs else 0

/-- What the caller pays in the input token of a swap. -/
def amountIn (delta : BalanceDelta) (zeroForOne : Bool) : Nat :=
  let raw := if zeroForOne then delta.amount0 else delta.amount1
  if raw < 0 then raw.natAbs else 0

end BalanceDelta

end RmUniswap
