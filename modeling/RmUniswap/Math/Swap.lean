import RmUniswap.Math.SmallRatio
import RmUniswap.Math.SqrtPrice
import RmUniswap.Types.Fee

/-!
# One swap step

A step moves the price towards a target inside one range of constant
liquidity. The direction is read off the two prices.
-/

namespace RmUniswap

open Foundation

structure SwapStep where
  sqrtRatioNextX96 : Nat
  amountIn : Nat
  amountOut : Nat
  feeAmount : Nat
deriving DecidableEq, Repr

def amountLessFeeExactIn (amountRemaining : Nat) (fee : Fee) : Except Error Nat :=
  if fee.isZero then
    .ok amountRemaining
  else if fee.isMax then
    .ok 0
  else
    mulDivU32Floor amountRemaining fee.complement maxFee

def feeOnExactInput (amountIn : Nat) (fee : Fee) : Except Error Nat :=
  if amountIn = 0 ∨ fee.isZero = true then
    .ok 0
  else if fee.isMax then
    .ok amountIn
  else
    mulDivU32Ceil amountIn fee.pips fee.complement

def getSqrtPriceTarget (zeroForOne : Bool) (sqrtPriceNext sqrtPriceLimit : Nat) : Nat :=
  if zeroForOne then max sqrtPriceNext sqrtPriceLimit
  else min sqrtPriceNext sqrtPriceLimit

def computeExactIn (sqrtPriceCurrent sqrtPriceTarget liquidity amountRemaining : Nat)
    (fee : Fee) (zeroForOne : Bool) : Except Error SwapStep := do
  let amountRemainingLessFee <- amountLessFeeExactIn amountRemaining fee
  if amountRemainingLessFee = 0 then
    .ok
      { sqrtRatioNextX96 := sqrtPriceCurrent
        amountIn := 0
        amountOut := 0
        feeAmount := if sqrtPriceCurrent = sqrtPriceTarget then 0 else amountRemaining }
  else do
    let (maxAmountIn, liquidityDeltaSqrt) <-
      (if zeroForOne then
        getAmount0Delta sqrtPriceTarget sqrtPriceCurrent liquidity true
      else
        getAmount1Delta sqrtPriceCurrent sqrtPriceTarget liquidity true :
        Except Error (Nat × Nat))
    if amountRemainingLessFee ≥ maxAmountIn then do
      let amountOut <-
        (if zeroForOne then
          .ok (getAmount1DeltaWithLiquidityDelta liquidityDeltaSqrt false)
        else
          getAmount0DeltaWithLiquidityDelta sqrtPriceCurrent sqrtPriceTarget
            liquidityDeltaSqrt false : Except Error Nat)
      let feeAmount <- feeOnExactInput maxAmountIn fee
      .ok
        { sqrtRatioNextX96 := sqrtPriceTarget
          amountIn := maxAmountIn
          amountOut
          feeAmount }
    else do
      let sqrtRatioNextX96 <-
        getNextSqrtPriceFromInput sqrtPriceCurrent liquidity amountRemainingLessFee zeroForOne
      let (amountOut, _) <-
        (if zeroForOne then
          getAmount1Delta sqrtRatioNextX96 sqrtPriceCurrent liquidity false
        else
          getAmount0Delta sqrtPriceCurrent sqrtRatioNextX96 liquidity false :
          Except Error (Nat × Nat))
      .ok
        { sqrtRatioNextX96
          amountIn := amountRemainingLessFee
          amountOut
          feeAmount := wrappingSub 256 amountRemaining amountRemainingLessFee }

def computeExactOut (sqrtPriceCurrent sqrtPriceTarget liquidity amountRemaining : Nat)
    (fee : Fee) (zeroForOne : Bool) : Except Error SwapStep := do
  let (maxAmountOut, liquidityDeltaSqrt) <-
    (if zeroForOne then
      getAmount1Delta sqrtPriceTarget sqrtPriceCurrent liquidity false
    else
      getAmount0Delta sqrtPriceCurrent sqrtPriceTarget liquidity false :
      Except Error (Nat × Nat))
  if amountRemaining ≥ maxAmountOut then do
    let amountIn <-
      (if zeroForOne then
        getAmount0DeltaWithLiquidityDelta sqrtPriceTarget sqrtPriceCurrent
          liquidityDeltaSqrt true
      else
        .ok (getAmount1DeltaWithLiquidityDelta liquidityDeltaSqrt true) : Except Error Nat)
    let feeAmount <- feeOnExactInput amountIn fee
    .ok
      { sqrtRatioNextX96 := sqrtPriceTarget
        amountIn
        amountOut := maxAmountOut
        feeAmount }
  else do
    let sqrtRatioNextX96 <-
      getNextSqrtPriceFromOutput sqrtPriceCurrent liquidity amountRemaining zeroForOne
    let (amountIn, _) <-
      (if zeroForOne then
        getAmount0Delta sqrtRatioNextX96 sqrtPriceCurrent liquidity true
      else
        getAmount1Delta sqrtPriceCurrent sqrtRatioNextX96 liquidity true :
        Except Error (Nat × Nat))
    let feeAmount <- feeOnExactInput amountIn fee
    .ok
      { sqrtRatioNextX96
        amountIn
        amountOut := amountRemaining
        feeAmount }

def computeSwapStep (sqrtPriceCurrent sqrtPriceTarget liquidity : Nat) (amount : Int)
    (fee : Fee) : Except Error SwapStep :=
  if amount = 0 then
    .ok
      { sqrtRatioNextX96 := sqrtPriceCurrent
        amountIn := 0
        amountOut := 0
        feeAmount := 0 }
  else
    let exactIn := decide (amount < 0)
    if !exactIn && fee.isMax then
      .error .maxFeeExactOut
    else
      let zeroForOne := decide (sqrtPriceCurrent ≥ sqrtPriceTarget)
      let amountRemaining := amount.natAbs
      if exactIn then
        computeExactIn sqrtPriceCurrent sqrtPriceTarget liquidity amountRemaining fee zeroForOne
      else
        computeExactOut sqrtPriceCurrent sqrtPriceTarget liquidity amountRemaining fee zeroForOne

end RmUniswap
