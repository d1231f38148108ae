import RmUniswap.StablePair.Wad
import RmUniswap.Types.Hooks

/-!
# The stable pair hook

A dynamic fee for two assets that should trade at one price. Near the reference
price a swap pays the fee that keeps the price in the optimal range; outside the
range a swap back towards the reference pays a fee that decays block by block.
The source trusts its subtractions, products and conversions to stay in their
words; here each of them is checked and {lit}`none` is a failed one.
-/

namespace RmUniswap

open Foundation

def oneE6 : Nat := 1000000

def oneE12 : Nat := 1000000000000

def undefinedDecayingFeeE12 : Nat := oneE12 + 1

def maxFeeE6 : Nat := oneE6 - 2

def maxTargetMultiplier : Nat := 100

def maxOptimalFeeE6 : Nat := 10000

structure StableFeeConfig where
  k : Nat
  optimalFeeE6 : Nat
  targetMultiplier : Nat
  referenceSqrtPriceX96 : Nat
deriving DecidableEq, Repr

structure StableFeeState where
  decayingFeeE12 : Nat
  sqrtAmmPriceX96 : Nat
  blockNumber : Nat
deriving DecidableEq, Repr

def StableFeeState.reset (blockNumber : Nat) : StableFeeState :=
  { decayingFeeE12 := undefinedDecayingFeeE12
    sqrtAmmPriceX96 := 0
    blockNumber }

structure StablePairHook where
  config : StableFeeConfig
  state : StableFeeState
deriving DecidableEq, Repr

/-!
# Fees in parts of the price
-/

def q96One : Nat := 1 <<< 96

def toFeeE6 (feeE12 : Nat) : Option Nat :=
  Foundation.narrow 32 (min (divCeil feeE12 oneE6) maxFeeE6)

/-- The square of the smaller over the larger of two sqrt prices. -/
def priceRatioX96 (a b : Nat) : Option Nat := do
  let q48 := 1 <<< 48
  let sqrtRatio <-
    if a < b then do
      let scaled <- checkedMul 256 a q48
      checkedDiv scaled b
    else do
      let scaled <- checkedMul 256 b q48
      checkedDiv scaled a
  checkedMul 256 sqrtRatio sqrtRatio

def closeBoundaryFee (priceRatio optimalFeeE6 : Nat) : Option Int := do
  let scaled <- checkedMul 256 oneE12 priceRatio
  let scaled <- checkedMul 256 scaled oneE6
  let complement <- checkedSub oneE6 optimalFeeE6
  let term <- checkedDiv scaled complement
  let term <- checkedDiv term q96One
  let term <- Foundation.narrow 127 term
  checkedSigned 128 ((oneE12 : Int) - term)

def insideOptimalRangeFee (priceRatio optimalFeeE6 : Nat)
    (ammPriceBelowRp sellsZeroForOne : Bool) : Option Nat := do
  let complement <- checkedSub oneE6 optimalFeeE6
  let scaled <- checkedMul 256 oneE12 complement
  let term <-
    if ammPriceBelowRp = sellsZeroForOne then do
      let term <- checkedMul 256 scaled q96One
      let term <- checkedDiv term priceRatio
      checkedDiv term oneE6
    else do
      let term <- checkedMul 256 scaled priceRatio
      let term <- checkedDiv term q96One
      checkedDiv term oneE6
  checkedSub oneE12 term

def farBoundaryFee (priceRatio optimalFeeE6 : Nat) : Option Nat := do
  let complement <- checkedSub oneE6 optimalFeeE6
  let scaled <- checkedMul 256 oneE12 complement
  let scaled <- checkedMul 256 scaled priceRatio
  let term <- checkedDiv scaled q96One
  let term <- checkedDiv term oneE6
  let term <- Foundation.narrow 64 term
  checkedSub oneE12 term

def adjustPreviousFeeForPriceMovement (priceRatio previousFeeE12 : Nat) : Option Nat := do
  let rest <- checkedSub oneE12 previousFeeE12
  let scaled <- checkedMul 256 priceRatio rest
  let term <- checkedDiv scaled q96One
  let term <- Foundation.narrow 64 term
  checkedSub oneE12 term

/-!
# Decay
-/

/-- The decay of one block as a logarithm at 18 decimals, in units of 2^24 and
rounded up. -/
def deriveLogK (k : Nat) : Option Nat := do
  let scaled <- checkedMul 256 k (10 ^ 18)
  let kWad := scaled >>> 24
  let lnK <- Wad.lnWad (toSigned 256 kWad)
  let negated <- checkedSigned 256 (-lnK)
  let sum <- checkedAdd 256 (toRaw 256 negated) (2 ^ 24 - 1)
  Foundation.narrow 64 (sum >>> 24)

/-- The part of a fee that is left after some blocks, at 24 fractional bits:
powers of the factor for up to four blocks, the exponential after that. -/
def decayFactorX24 (k blocksPassed : Nat) : Option Nat :=
  if blocksPassed = 0 then
    some (1 <<< 24)
  else if blocksPassed = 1 then
    some k
  else if blocksPassed = 2 then do
    let square <- checkedMul 256 k k
    some (square >>> 24)
  else if blocksPassed = 3 then do
    let square <- checkedMul 256 k k
    let cube <- checkedMul 256 square k
    some (cube >>> 48)
  else if blocksPassed = 4 then do
    let square <- checkedMul 256 k k
    let fourth <- checkedMul 256 square square
    some (fourth >>> 72)
  else do
    let logK <- deriveLogK k
    let exponent <- checkedMul 256 (wrap 256 (logK <<< 24)) blocksPassed
    let negated <- checkedSigned 256 (-toSigned 256 exponent)
    let factor <- Wad.expWad negated
    checkedDiv (wrap 256 (toRaw 256 factor <<< 24)) (10 ^ 18)

def decayingFee (targetFeeE12 previousFeeE12 k blocksPassed : Nat) : Option Nat := do
  let factorX24 <- decayFactorX24 k blocksPassed
  let range <- checkedSub previousFeeE12 targetFeeE12
  let product <- checkedMul 256 factorX24 range
  let decay <- Foundation.narrow 64 (product >>> 24)
  checkedAdd 64 targetFeeE12 decay

/-!
# The hook
-/

def validateConfig (config : StableFeeConfig) : Bool :=
  let sqrtOneMinusMaxFeeE6 := Nat.sqrt ((oneE6 - maxOptimalFeeE6) * oneE6)
  let minReference := (minSqrtPrice * oneE6 + sqrtOneMinusMaxFeeE6 - 1) / sqrtOneMinusMaxFeeE6
  let maxReference := maxSqrtPrice * sqrtOneMinusMaxFeeE6 / oneE6
  config.k != 0 && decide (config.k < 1 <<< 24) &&
    decide (config.optimalFeeE6 ≤ maxOptimalFeeE6) &&
    decide (config.targetMultiplier ≤ maxTargetMultiplier) &&
    decide (config.referenceSqrtPriceX96 ≥ minReference) &&
    decide (config.referenceSqrtPriceX96 < maxReference)

namespace StablePairHook

def new (config : StableFeeConfig) (state : StableFeeState) : Except Error StablePairHook :=
  if validateConfig config then .ok { config, state } else .error .invalidHookConfig

/-- The decaying fee of a new block, from the state of the last one. -/
def decayingFee (hook : StablePairHook) (sqrtAmmPriceX96 closeBoundaryFeeE12
    farBoundaryFeeE12 : Nat) (ammPriceBelowRp : Bool) (blockNumber : Nat) : Option Nat := do
  let previousSqrt := hook.state.sqrtAmmPriceX96
  let previousFee := hook.state.decayingFeeE12
  let reference := hook.config.referenceSqrtPriceX96
  let decayStartFeeE12 <-
    if previousFee = undefinedDecayingFeeE12 ∨
        decide (previousSqrt < reference) ≠ ammPriceBelowRp then
      some farBoundaryFeeE12
    else if ammPriceBelowRp = decide (sqrtAmmPriceX96 < previousSqrt) then do
      let priceRatio <- priceRatioX96 sqrtAmmPriceX96 previousSqrt
      adjustPreviousFeeForPriceMovement priceRatio previousFee
    else if previousFee > farBoundaryFeeE12 then
      some farBoundaryFeeE12
    else
      some previousFee
  let product <- checkedMul 64 closeBoundaryFeeE12 hook.config.targetMultiplier
  let targetFeeE12 <- checkedSub farBoundaryFeeE12 (product / maxTargetMultiplier)
  let decayStartFeeE12 := max decayStartFeeE12 targetFeeE12
  let blocksPassed := blockNumber - hook.state.blockNumber
  RmUniswap.decayingFee targetFeeE12 decayStartFeeE12 hook.config.k blocksPassed

/-- The fee of a swap and the decaying fee to keep. -/
def getFee (hook : StablePairHook) (sqrtAmmPriceX96 : Nat) (isNewBlock zeroForOne : Bool)
    (blockNumber : Nat) : Option (Nat × Nat) := do
  let sqrtReferencePriceX96 := hook.config.referenceSqrtPriceX96
  let optimalFeeE6 := hook.config.optimalFeeE6
  let priceRatio <- priceRatioX96 sqrtAmmPriceX96 sqrtReferencePriceX96
  let closeBoundaryFeeE12 <- closeBoundaryFee priceRatio optimalFeeE6
  let ammPriceBelowRp := decide (sqrtAmmPriceX96 < sqrtReferencePriceX96)
  if closeBoundaryFeeE12 ≤ 0 then do
    let lpFeeE12 <- insideOptimalRangeFee priceRatio optimalFeeE6 ammPriceBelowRp zeroForOne
    some (lpFeeE12, undefinedDecayingFeeE12)
  else do
    let decayingFeeE12 <-
      if isNewBlock then do
        let farBoundaryFeeE12 <- farBoundaryFee priceRatio optimalFeeE6
        hook.decayingFee sqrtAmmPriceX96 (wrap 64 (toRaw 128 closeBoundaryFeeE12))
          farBoundaryFeeE12 ammPriceBelowRp blockNumber
      else
        some hook.state.decayingFeeE12
    -- A swap away from the reference pays nothing.
    let lpFeeE12 := if ammPriceBelowRp = zeroForOne then 0 else decayingFeeE12
    some (lpFeeE12, decayingFeeE12)

/-- The fee in pips of a swap, and the hook with the state of the block. -/
def beforeSwapFee (hook : StablePairHook) (env : HookEnv) (zeroForOne : Bool) :
    Option (Nat × StablePairHook) := do
  let isNewBlock :=
    decide (env.blockNumber > hook.state.blockNumber) || hook.state.sqrtAmmPriceX96 == 0
  let sqrtAmmPriceX96 :=
    if isNewBlock then env.poolState.sqrtPriceX96 else hook.state.sqrtAmmPriceX96
  let (lpFeeE12, decayingFeeE12) <-
    hook.getFee sqrtAmmPriceX96 isNewBlock zeroForOne env.blockNumber
  let state :=
    if isNewBlock then
      { decayingFeeE12, sqrtAmmPriceX96, blockNumber := env.blockNumber }
    else
      hook.state
  let fee <- toFeeE6 lpFeeE12
  some (fee, { hook with state })

end StablePairHook

end RmUniswap
