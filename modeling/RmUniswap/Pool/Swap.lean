import RmUniswap.Math.Swap
import RmUniswap.Pool.State

/-!
# Swaps

One loop serves quotes and committed swaps. A committed swap flips the outside
growth of every tick it crosses in place, and writes the pool state once, after
everything else has succeeded.
-/

namespace RmUniswap

open Foundation

variable {A : Type} [LawfulAllocator TickSlabValue A]

/-- Whether the loop runs on shared or on exclusive references. -/
inductive Access
  | shared
  | exclusive
deriving DecidableEq, Repr

/-- The tick access of the loop: only the exclusive one writes. -/
def Access.crossTick (access : Access) (ticks : TickSlab A)
    (tickIndexer feeGrowthGlobal0X128 feeGrowthGlobal1X128 : Nat) :
    Except Error Int × TickSlab A :=
  match access with
  | .shared =>
      (okOr .invalidTick ((ticks.get tickIndexer).map fun info => info.inner.liquidityNet), ticks)
  | .exclusive => ticks.crossTick tickIndexer feeGrowthGlobal0X128 feeGrowthGlobal1X128

/-- The state access of the loop: only the exclusive one commits. -/
def Access.setState (access : Access) (state : PoolState) (tick : Int) (sqrtPriceX96 : Nat)
    (liquidity : Nat) (zeroForOne : Bool) (feeGrowthGlobalX128 : Nat) : PoolState :=
  match access with
  | .shared => state
  | .exclusive => state.set tick sqrtPriceX96 liquidity zeroForOne feeGrowthGlobalX128

/-- What does not change while the loop runs. -/
structure SwapContext where
  access : Access
  zeroForOne : Bool
  amountSpecified : Int
  sqrtPriceLimitX96 : Nat
  tickSpacing : TickSpacing
  protocolFeePips : Nat
  fee : Fee
  poolState : PoolState

structure SwapLoopState where
  sqrtPriceX96 : Nat
  tick : Int
  liquidity : Nat
  amountToProtocol : Nat
  amountSpecifiedRemaining : Int
  amountCalculated : Int
  feeGrowthGlobalX128 : Nat
deriving DecidableEq, Repr

/-- Where a step ends at the latest: an initialized tick of the current word
with its indexer, or the boundary of the word. -/
structure StepTarget where
  tickIndex : Int
  sqrtPriceX96 : Nat
  tickIndexer : Option Nat
deriving DecidableEq, Repr

/-- What one iteration computes: the fee left to the providers, and the loop
state it reaches before it crosses a tick. -/
structure StepComputations where
  start : SwapLoopState
  target : StepTarget
  swapStep : SwapStep
  feeAmount : Nat
  next : SwapLoopState
deriving DecidableEq, Repr

/-- The indexer of the initialized tick whose own price the step reached. -/
def StepComputations.crossing (c : StepComputations) : Option Nat :=
  if c.next.sqrtPriceX96 = c.target.sqrtPriceX96 then c.target.tickIndexer else none

namespace SwapContext

/-- The last tick of the current 256-tick word of the compressed bitmap. -/
def wordBoundary (ctx : SwapContext) (tick : Int) : Int :=
  let spacing := ctx.tickSpacing.value
  let compressed := tick / spacing
  let boundary :=
    if ctx.zeroForOne then compressed / 2 ^ 8 * 2 ^ 8 * spacing
    else ((compressed + 1) / 2 ^ 8 * 2 ^ 8 + 255) * spacing
  max minTick (min maxTick boundary)

def nextTick (ctx : SwapContext) (ticks : TickSlab A) (tick : Int) : Option (Nat × TickInfo) :=
  (ticks.nextInitializedTick (ticks.indexer tick) ctx.zeroForOne).filter fun next =>
    if ctx.zeroForOne then decide (next.2.tickIndex ≥ ctx.wordBoundary tick)
    else decide (next.2.tickIndex ≤ ctx.wordBoundary tick)

def stepTarget (ctx : SwapContext) (ticks : TickSlab A) (tick : Int) : StepTarget :=
  match ctx.nextTick ticks tick with
  | some next =>
      { tickIndex := next.2.tickIndex
        sqrtPriceX96 := next.2.sqrtPriceX96
        tickIndexer := some next.1 }
  | none =>
      { tickIndex := ctx.wordBoundary tick
        sqrtPriceX96 := getSqrtPriceAtTick (ctx.wordBoundary tick)
        tickIndexer := none }

end SwapContext

def u256ToI256 (value : Nat) : Except Error Int :=
  if value < 2 ^ 255 then .ok value else .error .signedOverflow

/-- Move the two running amounts by one step. -/
def settleAmounts (amountSpecified : Int) (remaining calculated : Int) (step : SwapStep) :
    Except Error (Int × Int) :=
  if amountSpecified > 0 then do
    let amountOut <- u256ToI256 step.amountOut
    let remaining <- okOr .amountOverflow (checkedSigned 256 (remaining - amountOut))
    let gross <- okOr .amountOverflow (checkedAdd 256 step.amountIn step.feeAmount)
    let amountIn <- u256ToI256 gross
    let calculated <- okOr .amountOverflow (checkedSigned 256 (calculated - amountIn))
    .ok (remaining, calculated)
  else do
    let gross <- okOr .amountOverflow (checkedAdd 256 step.amountIn step.feeAmount)
    let amountIn <- u256ToI256 gross
    let remaining <- okOr .amountOverflow (checkedSigned 256 (remaining + amountIn))
    let amountOut <- u256ToI256 step.amountOut
    let calculated <- okOr .amountOverflow (checkedSigned 256 (calculated + amountOut))
    .ok (remaining, calculated)

def protocolDelta (fee : Fee) (protocolFeePips : Nat) (step : SwapStep) : Except Error Nat :=
  if fee.pips = protocolFeePips then
    .ok step.feeAmount
  else do
    let gross <- okOr .amountOverflow (checkedAdd 256 step.amountIn step.feeAmount)
    let scaled <- okOr .amountOverflow (checkedMul 256 gross protocolFeePips)
    .ok (scaled / pipsDenominator)

/-- Split the fee of a step into the share of the providers and the protocol total. -/
def splitFee (fee : Fee) (protocolFeePips : Nat) (amountToProtocol : Nat) (step : SwapStep) :
    Except Error (Nat × Nat) :=
  if protocolFeePips ≠ 0 then do
    let delta <- protocolDelta fee protocolFeePips step
    let feeAmount <- okOr .amountOverflow (checkedSub step.feeAmount delta)
    let amountToProtocol <- okOr .amountOverflow (checkedAdd 256 amountToProtocol delta)
    .ok (feeAmount, amountToProtocol)
  else
    .ok (step.feeAmount, amountToProtocol)

/-- Add the fee of a step to the growth per unit of liquidity. -/
def growFee (feeGrowthGlobalX128 feeAmount liquidity : Nat) : Except Error Nat :=
  if liquidity > 0 then
    match mulDiv feeAmount (2 ^ 128) liquidity with
    | .ok growth => okOr .feeTooLarge (checkedAdd 256 feeGrowthGlobalX128 growth)
    | .error _ => .error .feeTooLarge
  else
    .ok feeGrowthGlobalX128

namespace SwapContext

def globals (ctx : SwapContext) (feeGrowthGlobalX128 : Nat) : Nat × Nat :=
  if ctx.zeroForOne then (feeGrowthGlobalX128, ctx.poolState.feeGrowthGlobal1X128)
  else (ctx.poolState.feeGrowthGlobal0X128, feeGrowthGlobalX128)

/-- Cross the initialized tick a step reached and return the liquidity beyond it. -/
def cross (ctx : SwapContext) (ticks : TickSlab A) (liquidity tickIndexer : Nat)
    (feeGrowthGlobalX128 : Nat) : Except Error Nat × TickSlab A :=
  let globals := ctx.globals feeGrowthGlobalX128
  match ctx.access.crossTick ticks tickIndexer globals.1 globals.2 with
  | (.error e, ticks) => (.error e, ticks)
  | (.ok liquidityNet, ticks) =>
      -- Without overflow checks the negation of the least word wraps.
      let liquidityNet := if ctx.zeroForOne then wrappingNeg 128 liquidityNet else liquidityNet
      (okOr .liquidityUnderflow (checkedAddSigned 128 liquidity liquidityNet), ticks)

def tickAfter (ctx : SwapContext) (target : StepTarget) (start : SwapLoopState)
    (sqrtPriceX96 : Nat) : Int :=
  if sqrtPriceX96 = target.sqrtPriceX96 then
    if ctx.zeroForOne then target.tickIndex - 1 else target.tickIndex
  else if sqrtPriceX96 ≠ start.sqrtPriceX96 then
    getTickAtSqrtPrice sqrtPriceX96
  else
    start.tick

def advance (ctx : SwapContext) (target : StepTarget) (s : SwapLoopState) :
    Except Error StepComputations := do
  let sqrtPriceNext := getSqrtPriceTarget ctx.zeroForOne target.sqrtPriceX96 ctx.sqrtPriceLimitX96
  let step <-
    computeSwapStep s.sqrtPriceX96 sqrtPriceNext s.liquidity s.amountSpecifiedRemaining ctx.fee
  let amounts <-
    settleAmounts ctx.amountSpecified s.amountSpecifiedRemaining s.amountCalculated step
  let fees <- splitFee ctx.fee ctx.protocolFeePips s.amountToProtocol step
  let feeGrowthGlobalX128 <- growFee s.feeGrowthGlobalX128 fees.1 s.liquidity
  .ok
    { start := s
      target
      swapStep := step
      feeAmount := fees.1
      next :=
        { sqrtPriceX96 := step.sqrtRatioNextX96
          tick := ctx.tickAfter target s step.sqrtRatioNextX96
          liquidity := s.liquidity
          amountToProtocol := fees.2
          amountSpecifiedRemaining := amounts.1
          amountCalculated := amounts.2
          feeGrowthGlobalX128 } }

/-- One iteration: advance, and cross the target when it is an initialized tick
whose own price was reached. -/
def step (ctx : SwapContext) (s : SwapLoopState) (ticks : TickSlab A) :
    Except Error SwapLoopState × TickSlab A :=
  let target := ctx.stepTarget ticks s.tick
  match ctx.advance target s with
  | .error e => (.error e, ticks)
  | .ok computed =>
      match computed.crossing with
      | some tickIndexer =>
          match ctx.cross ticks s.liquidity tickIndexer computed.next.feeGrowthGlobalX128 with
          | (.error e, ticks) => (.error e, ticks)
          | (.ok liquidity, ticks) => (.ok { computed.next with liquidity }, ticks)
      | none => (.ok computed.next, ticks)

/-- The exit tests of the loop head and the break on zero liquidity. -/
def Halted (ctx : SwapContext) (s : SwapLoopState) : Prop :=
  (s.amountSpecifiedRemaining = 0 ∨ s.sqrtPriceX96 = ctx.sqrtPriceLimitX96) ∨ s.liquidity = 0

instance (ctx : SwapContext) (s : SwapLoopState) : Decidable (ctx.Halted s) :=
  inferInstanceAs (Decidable (_ ∨ _))

/-- The loop, for as many iterations as the fuel allows. -/
def loop (ctx : SwapContext) :
    Nat -> SwapLoopState -> TickSlab A -> Option (Except Error SwapLoopState × TickSlab A)
  | 0, _, _ => none
  | fuel + 1, s, ticks =>
      if ctx.Halted s then
        some (.ok s, ticks)
      else
        match ctx.step s ticks with
        | (.error e, ticks) => some (.error e, ticks)
        | (.ok s, ticks) => ctx.loop fuel s ticks

/-- What the iterations of the loop compute, in order; a failing iteration is
listed when its numbers were computed. -/
def computations (ctx : SwapContext) :
    Nat -> SwapLoopState -> TickSlab A -> List StepComputations
  | 0, _, _ => []
  | fuel + 1, s, ticks =>
      if ctx.Halted s then
        []
      else
        match ctx.advance (ctx.stepTarget ticks s.tick) s with
        | .error _ => []
        | .ok computed =>
            computed :: match ctx.step s ticks with
              | (.error _, _) => []
              | (.ok s, ticks) => ctx.computations fuel s ticks

/-- The caller delta of the amounts the loop settled. -/
def swapDelta (ctx : SwapContext) (s : SwapLoopState) : Except Error BalanceDelta :=
  let exactIn := decide (ctx.amountSpecified < 0)
  let specified : Except Error Int := do
    let settled <- okOr .i128Overflow
      (checkedSigned 256 (ctx.amountSpecified - s.amountSpecifiedRemaining))
    okOr .i128Overflow (checkedSigned 128 settled)
  let calculated : Except Error Int := okOr .i128Overflow (checkedSigned 128 s.amountCalculated)
  if ctx.zeroForOne = exactIn then do
    let amount0 <- specified
    let amount1 <- calculated
    .ok { amount0, amount1 }
  else do
    let amount0 <- calculated
    let amount1 <- specified
    .ok { amount0, amount1 }

end SwapContext

/-- The checks before the loop: a valid price and a limit on the right side of it. -/
def checkLimit (zeroForOne : Bool) (sqrtPriceX96 sqrtPriceLimitX96 : Nat) : Except Error Unit :=
  if ¬ IsValidSqrtPrice sqrtPriceX96 then
    .error .invalidPoolSqrtPrice
  else if zeroForOne then
    if sqrtPriceLimitX96 ≥ sqrtPriceX96 then .error .priceLimitAlreadyExceeded else .ok ()
  else
    if sqrtPriceLimitX96 ≤ sqrtPriceX96 then .error .priceLimitAlreadyExceeded else .ok ()

namespace Pool

variable {P : Type}

def swapContext (p : Pool P A) (access : Access) (swapFee : SwapFee) (params : SwapParamsInner) :
    SwapContext :=
  { access
    zeroForOne := params.zeroForOne
    amountSpecified := params.amountSpecified
    sqrtPriceLimitX96 := params.sqrtPriceLimit
    tickSpacing := p.tickSpacing
    protocolFeePips := swapFee.protocolFee.pips params.zeroForOne
    fee := swapFee.swapFee params.zeroForOne
    poolState := p.state }

def swapStart (p : Pool P A) (params : SwapParamsInner) : SwapLoopState :=
  { sqrtPriceX96 := p.state.sqrtPriceX96
    tick := p.state.tick
    liquidity := p.state.liquidity
    amountToProtocol := 0
    amountSpecifiedRemaining := params.amountSpecified
    amountCalculated := 0
    feeGrowthGlobalX128 :=
      if params.zeroForOne then p.state.feeGrowthGlobal0X128 else p.state.feeGrowthGlobal1X128 }

def swapResult (ctx : SwapContext) (swapDelta : BalanceDelta) (s : SwapLoopState) : SwapResult :=
  { swapDelta
    amountToProtocol := s.amountToProtocol
    swapFee := ctx.fee
    sqrtPriceX96 := s.sqrtPriceX96
    tick := s.tick
    liquidity := s.liquidity }

/-- After the loop: convert the amounts, then commit the state. -/
def finishSwap (p : Pool P A) (ctx : SwapContext) (s : SwapLoopState) (ticks : TickSlab A) :
    Except Error SwapResult × Pool P A :=
  match ctx.swapDelta s with
  | .error e => (.error e, { p with ticks })
  | .ok swapDelta =>
      (.ok (swapResult ctx swapDelta s),
        { p with
          ticks
          state := ctx.access.setState p.state s.tick s.sqrtPriceX96 s.liquidity ctx.zeroForOne
            s.feeGrowthGlobalX128 })

/-- A swap with resolved fees; {lit}`none` means the loop ran out of fuel. -/
def swapInner (p : Pool P A) (access : Access) (swapFee : SwapFee) (params : SwapParamsInner)
    (fuel : Nat) : Option (Except Error SwapResult × Pool P A) :=
  let ctx := p.swapContext access swapFee params
  let start := p.swapStart params
  if params.amountSpecified = 0 then
    some (.ok (swapResult ctx BalanceDelta.default start), p)
  else
    match checkLimit params.zeroForOne p.state.sqrtPriceX96 params.sqrtPriceLimit with
    | .error e => some (.error e, p)
    | .ok _ =>
        (ctx.loop fuel start p.ticks).map fun
          | (.error e, ticks) => (.error e, { p with ticks })
          | (.ok s, ticks) => p.finishSwap ctx s ticks

/-- The fees of one swap: the stored ones, or those of the override. -/
def resolveSwapFee (p : Pool P A) (params : SwapParamsInner) : Except Error SwapFee :=
  match params.lpFeeOverride with
  | some lpFeeOverride => p.swapFee.setLpFee lpFeeOverride
  | none => .ok p.swapFee

def runSwap (p : Pool P A) (access : Access) (params : SwapParamsInner) (fuel : Nat) :
    Option (Except Error SwapResult × Pool P A) :=
  match p.resolveSwapFee params with
  | .error e => some (.error e, p)
  | .ok swapFee => p.swapInner access swapFee params fuel

def swap (p : Pool P A) (params : SwapParamsInner) (fuel : Nat) :
    Option (Except Error SwapResult × Pool P A) :=
  p.runSwap .exclusive params fuel

/-- What the iterations of a committed swap compute. -/
def swapComputations (p : Pool P A) (params : SwapParamsInner) (fuel : Nat) :
    List StepComputations :=
  match p.resolveSwapFee params with
  | .error _ => []
  | .ok swapFee =>
      if params.amountSpecified = 0 ∨
          checkLimit params.zeroForOne p.state.sqrtPriceX96 params.sqrtPriceLimit ≠ .ok () then
        []
      else
        (p.swapContext .exclusive swapFee params).computations fuel (p.swapStart params) p.ticks

def quoteSwap (p : Pool P A) (params : SwapParamsInner) (fuel : Nat) :
    Option (Except Error SwapResult) :=
  (p.runSwap .shared params fuel).map Prod.fst

/-- The swap ends with this result and leaves this pool. -/
def Swaps (p : Pool P A) (params : SwapParamsInner) (result : Except Error SwapResult)
    (p' : Pool P A) : Prop :=
  exists fuel, p.swap params fuel = some (result, p')

end Pool

end RmUniswap
