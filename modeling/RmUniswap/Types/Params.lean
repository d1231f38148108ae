import RmUniswap.Types.Fee

/-!
# Parameters and results of pool operations
-/

namespace RmUniswap

open Foundation

structure BalanceDelta where
  amount0 : Int
  amount1 : Int
deriving DecidableEq, Repr

def BalanceDelta.default : BalanceDelta := { amount0 := 0, amount1 := 0 }

/-- The parameters of one swap; a negative amount is exact input, a positive one
exact output. The proofs carry what the types of the source promise. -/
structure SwapParamsInner where
  zeroForOne : Bool
  amountSpecified : Int
  sqrtPriceLimit : Nat
  lpFeeOverride : Option Fee
  amountFits : FitsSigned 256 amountSpecified
  limitValid : IsValidSqrtPrice sqrtPriceLimit

/-- The limit stays strictly inside the protocol range. -/
def SwapParamsInner.LimitStrict (params : SwapParamsInner) : Prop :=
  minSqrtPrice < params.sqrtPriceLimit ∧ params.sqrtPriceLimit < maxSqrtPrice

instance (params : SwapParamsInner) : Decidable params.LimitStrict :=
  inferInstanceAs (Decidable (_ ∧ _))

structure ModifyLiquidityParams where
  tickLower : Int
  tickUpper : Int
  liquidityDelta : Int
  owner : Nat
  salt : Nat
  lowerInRange : TickInRange tickLower
  upperInRange : TickInRange tickUpper
  deltaFits : FitsSigned 128 liquidityDelta

structure ModifyLiquidityResult where
  delta : BalanceDelta
  feeDelta : BalanceDelta
deriving DecidableEq, Repr

structure SwapResult where
  swapDelta : BalanceDelta
  amountToProtocol : Nat
  swapFee : Fee
  sqrtPriceX96 : Nat
  tick : Int
  liquidity : Nat
deriving DecidableEq

end RmUniswap
