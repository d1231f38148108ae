import RmUniswap.Pool.State
import RmUniswap.Types.Delta

/-!
# Liquidity changes

A change is committed stage by stage. Every stage returns what it wrote next to
its result, so an error keeps the writes made before it.
-/

namespace RmUniswap

open Foundation

variable {A : Type} [LawfulAllocator TickSlabValue A]

def checkTicks (tickLower tickUpper : Int) (tickSpacing : TickSpacing) : Except Error Unit :=
  if tickLower ≥ tickUpper then
    .error .invalidTick
  else do
    validateTickIndexForSpacing tickLower tickSpacing
    validateTickIndexForSpacing tickUpper tickSpacing

/-- What a boundary tick contributes to the change: its price and outside growth. -/
structure TickBoundary where
  sqrtPrice : Nat
  feeGrowthOutside0X128 : Nat
  feeGrowthOutside1X128 : Nat
deriving DecidableEq, Repr

structure TickBefore where
  boundary : TickBoundary
  liquidityGross : Nat
  liquidityNet : Int
deriving DecidableEq, Repr

namespace Pool

def changeTick (state : PoolState) (ticks : TickSlab A) (tickIndexer : Nat) (tickIndex : Int)
    (liquidityDelta : Int) (upper : Bool) (before : TickBefore) :
    Except Error TickBoundary × TickSlab A :=
  match checkedAddSigned 128 before.liquidityGross liquidityDelta with
  | none => (.error .i128Overflow, ticks)
  | some liquidityGrossAfter =>
      if liquidityDelta > 0 ∧ liquidityGrossAfter > ticks.maxLiquidityPerTick then
        (.error .liquidityOverflow, ticks)
      else
        match checkedSigned 128
          (if upper then before.liquidityNet - liquidityDelta
            else before.liquidityNet + liquidityDelta) with
        | none => (.error .i128Overflow, ticks)
        | some liquidityNet =>
            if liquidityGrossAfter = 0 then
              (.ok before.boundary, ticks.remove tickIndexer)
            else
              ticks.updateInitializedTick tickIndexer fun _ sqrtPrice tickInfo =>
                let fresh := before.liquidityGross = 0 ∧ tickIndex ≤ state.tick
                let outside0 :=
                  if fresh then state.feeGrowthGlobal0X128 else tickInfo.feeGrowthOutside0X128
                let outside1 :=
                  if fresh then state.feeGrowthGlobal1X128 else tickInfo.feeGrowthOutside1X128
                (.ok
                  { sqrtPrice
                    feeGrowthOutside0X128 := outside0
                    feeGrowthOutside1X128 := outside1 },
                  { liquidityGross := liquidityGrossAfter
                    liquidityNet
                    feeGrowthOutside0X128 := outside0
                    feeGrowthOutside1X128 := outside1 })

/-- Update one boundary, inserting its slot first when it is missing. -/
def updateTick (state : PoolState) (ticks : TickSlab A) (tickIndex : Int) (liquidityDelta : Int)
    (upper : Bool) : Except Error TickBoundary × TickSlab A :=
  let tickIndexer := ticks.indexer tickIndex
  match ticks.get tickIndexer with
  | some tickInfo =>
      changeTick state ticks tickIndexer tickIndex liquidityDelta upper
        { boundary :=
            { sqrtPrice := tickInfo.sqrtPriceX96
              feeGrowthOutside0X128 := tickInfo.inner.feeGrowthOutside0X128
              feeGrowthOutside1X128 := tickInfo.inner.feeGrowthOutside1X128 }
          liquidityGross := tickInfo.inner.liquidityGross
          liquidityNet := tickInfo.inner.liquidityNet }
  | none =>
      let sqrtPrice := getSqrtPriceAtTick tickIndex
      match ticks.insert tickIndexer (TickInfo.new tickIndex sqrtPrice) with
      | .error e => (.error e, ticks)
      | .ok ticks =>
          changeTick state ticks tickIndexer tickIndex liquidityDelta upper
            { boundary :=
                { sqrtPrice
                  feeGrowthOutside0X128 := 0
                  feeGrowthOutside1X128 := 0 }
              liquidityGross := 0
              liquidityNet := 0 }

/-- Read a boundary for a change of zero liquidity; the price is unused. -/
def readTick (ticks : TickSlab A) (tickIndex : Int) : TickBoundary :=
  match ticks.get (ticks.indexer tickIndex) with
  | some tick =>
      { sqrtPrice := minSqrtPrice
        feeGrowthOutside0X128 := tick.inner.feeGrowthOutside0X128
        feeGrowthOutside1X128 := tick.inner.feeGrowthOutside1X128 }
  | none =>
      { sqrtPrice := minSqrtPrice
        feeGrowthOutside0X128 := 0
        feeGrowthOutside1X128 := 0 }

def updateBoundaries (state : PoolState) (ticks : TickSlab A) (params : ModifyLiquidityParams) :
    Except Error (TickBoundary × TickBoundary) × TickSlab A :=
  if params.liquidityDelta ≠ 0 then
    match updateTick state ticks params.tickLower params.liquidityDelta false with
    | (.error e, ticks) => (.error e, ticks)
    | (.ok lower, ticks) =>
        match updateTick state ticks params.tickUpper params.liquidityDelta true with
        | (.error e, ticks) => (.error e, ticks)
        | (.ok upper, ticks) => (.ok (lower, upper), ticks)
  else
    (.ok (readTick ticks params.tickLower, readTick ticks params.tickUpper), ticks)

def feeGrowthInside (state : PoolState) (tickLower tickUpper : Int)
    (lower upper : TickBoundary) : Nat × Nat :=
  if state.tick < tickLower then
    (wrappingSub 256 lower.feeGrowthOutside0X128 upper.feeGrowthOutside0X128,
      wrappingSub 256 lower.feeGrowthOutside1X128 upper.feeGrowthOutside1X128)
  else if state.tick ≥ tickUpper then
    (wrappingSub 256 upper.feeGrowthOutside0X128 lower.feeGrowthOutside0X128,
      wrappingSub 256 upper.feeGrowthOutside1X128 lower.feeGrowthOutside1X128)
  else
    (wrappingSub 256
        (wrappingSub 256 state.feeGrowthGlobal0X128 lower.feeGrowthOutside0X128)
        upper.feeGrowthOutside0X128,
      wrappingSub 256
        (wrappingSub 256 state.feeGrowthGlobal1X128 lower.feeGrowthOutside1X128)
        upper.feeGrowthOutside1X128)

def updatePositionState (liquidityDelta : Int) (inside : Nat × Nat) (position : PositionState) :
    Except Error BalanceDelta × PositionState :=
  match position.update liquidityDelta inside.1 inside.2 with
  | (.ok fees, position) => (BalanceDelta.fromU256 fees.1 fees.2, position)
  | (.error e, position) => (.error e, position)

section Change

variable {P : Type} [PositionsAccess P]

def realizeFees (p : Pool P A) (params : ModifyLiquidityParams) (lower upper : TickBoundary) :
    Except Error BalanceDelta × P :=
  if PositionsAccess.enable P then
    let inside := feeGrowthInside p.state params.tickLower params.tickUpper lower upper
    let positionIdx : PositionIndex :=
      { owner := params.owner
        tickLower := params.tickLower
        tickUpper := params.tickUpper
        salt := params.salt }
    PositionsAccess.updatePosition p.positions positionIdx
      (updatePositionState params.liquidityDelta inside)
  else
    (.ok BalanceDelta.default, p.positions)

/-- The active liquidity after a change, when the current tick is in its range. -/
def changeActiveLiquidity (state : PoolState) (params : ModifyLiquidityParams) :
    Except Error PoolState :=
  if params.tickLower ≤ state.tick ∧ state.tick < params.tickUpper then do
    let liquidity <- okOr .liquidityOverflow
      (checkedAddSigned 128 state.liquidity params.liquidityDelta)
    .ok { state with liquidity }
  else
    .ok state

/-- Active liquidity first, then the principal; a failing principal keeps the
liquidity that was written. -/
def settlePrincipal (state : PoolState) (params : ModifyLiquidityParams)
    (lower upper : TickBoundary) : Except Error BalanceDelta × PoolState :=
  if params.liquidityDelta ≠ 0 then
    match changeActiveLiquidity state params with
    | .error e => (.error e, state)
    | .ok state =>
        (BalanceDelta.fromLiquidityPrincipal state.tick params.tickLower params.tickUpper
          state.sqrtPriceX96 lower.sqrtPrice upper.sqrtPrice params.liquidityDelta, state)
  else
    (.ok BalanceDelta.default, state)

def modifyLiquidity (p : Pool P A) (params : ModifyLiquidityParams) :
    Except Error ModifyLiquidityResult × Pool P A :=
  match checkTicks params.tickLower params.tickUpper p.tickSpacing with
  | .error e => (.error e, p)
  | .ok _ =>
      match updateBoundaries p.state p.ticks params with
      | (.error e, ticks) => (.error e, { p with ticks })
      | (.ok (lower, upper), ticks) =>
          let p := { p with ticks }
          match p.realizeFees params lower upper with
          | (.error e, positions) => (.error e, { p with positions })
          | (.ok feeDelta, positions) =>
              let p := { p with positions }
              match settlePrincipal p.state params lower upper with
              | (.error e, state) => (.error e, { p with state })
              | (.ok delta, state) => (.ok { delta, feeDelta }, { p with state })

end Change

/-- The principal of a change, without the change. -/
def quoteModifyLiquidity {P : Type} (p : Pool P A) (params : ModifyLiquidityParams) :
    Except Error BalanceDelta := do
  checkTicks params.tickLower params.tickUpper p.tickSpacing
  BalanceDelta.fromLiquidityPrincipal p.state.tick params.tickLower params.tickUpper
    p.state.sqrtPriceX96 (getSqrtPriceAtTick params.tickLower)
    (getSqrtPriceAtTick params.tickUpper) params.liquidityDelta

end Pool

end RmUniswap
