import RmUniswap.Position
import RmUniswap.Ticks.SlabMap

/-!
# Pools and their snapshots

A snapshot is plain data that may come from anywhere. A pool is restored from
it after validation; the newtypes inside a snapshot are not validated by their
deserializers, so restoring may also panic.
-/

namespace RmUniswap

open Foundation

variable {A : Type} [LawfulAllocator TickSlabValue A]

/-- A pool over a store of positions and an allocator for the pages of its ticks. -/
structure Pool (P : Type) (A : Type := Arena TickSlabValue) [LawfulAllocator TickSlabValue A] where
  state : PoolState
  swapFee : SwapFee
  tickSpacing : TickSpacing
  ticks : TickSlab A
  positions : P

structure PoolSnapshot (P : Type) where
  state : PoolState
  fee : Option Fee
  protocolFee : ProtocolFee
  tickSpacing : TickSpacing
  ticks : PoolTicksSnapshot
  positions : P
deriving DecidableEq

/-!
# Validation
-/

def validateTickIndexForSpacing (tick : Int) (tickSpacing : TickSpacing) : Except Error Unit :=
  if forSpacing tick tickSpacing then .ok () else .error .invalidTick

/-- Check the ticks in order and sum the net liquidity at or below the current one. -/
def validateTicks (tickSpacing : TickSpacing) (maxLiquidityPerTick : Nat) (currentTick : Int) :
    List (Int × TickInfoInner) -> Int -> Outcome Error Int
  | [], activeLiquidity => .ok activeLiquidity
  | (tickIdx, info) :: rest, activeLiquidity => do
      let aligned <- forSpacingOrPanic tickIdx tickSpacing
      if !aligned then
        .err .invalidTick
      else if info.liquidityGross = 0 ∨ info.liquidityNet.natAbs > info.liquidityGross then
        .err .invalidTick
      else if info.liquidityGross > maxLiquidityPerTick then
        .err .liquidityOverflow
      else if tickIdx ≤ currentTick then do
        let activeLiquidity <- Outcome.ofExcept
          (okOr .liquidityOverflow (checkedSigned 128 (activeLiquidity + info.liquidityNet)))
        validateTicks tickSpacing maxLiquidityPerTick currentTick rest activeLiquidity
      else
        validateTicks tickSpacing maxLiquidityPerTick currentTick rest activeLiquidity

/-- The validation around a check of the positions. -/
def PoolSnapshot.validateWith {P : Type} (s : PoolSnapshot P)
    (validatePositions : Outcome Error Unit) : Outcome Error Unit :=
  if s.ticks.tickSpacing ≠ s.tickSpacing then
    .err .invalidTickSpacing
  else if !s.protocolFee.isValid then
    .err .feeTooLarge
  else if getTickAtSqrtPrice s.state.sqrtPriceX96 ≠ s.state.tick then
    .err .invalidTick
  else do
    -- The per-tick cap divides by the spacing.
    Outcome.panicIf (s.tickSpacing.value = 0)
    let maxLiquidityPerTick := s.tickSpacing.maxLiquidityPerTick
    let activeLiquidity <-
      validateTicks s.tickSpacing maxLiquidityPerTick s.state.tick s.ticks.inner.entries 0
    if activeLiquidity < 0 ∨ activeLiquidity.natAbs ≠ s.state.liquidity then
      .err .invalidTick
    else
      validatePositions

def PoolSnapshot.validate {P : Type} [PositionsAccess P] (s : PoolSnapshot P) :
    Outcome Error Unit :=
  s.validateWith (PositionsAccess.validateAgainstTicks s.positions s.ticks)

/-!
# Restoring
-/

/-- The price of an unchecked tick: the ratio table ends at bit nineteen, and
the result must fit in 160 bits. -/
def sqrtPriceOrPanic (tickIdx : Int) : Outcome Error Nat := do
  Outcome.panicIf (2 ^ 20 ≤ tickIdx.natAbs ∨ 2 ^ 160 ≤ getSqrtPriceAtTick tickIdx)
  .ok (getSqrtPriceAtTick tickIdx)

namespace TickSlab

def restoreTicks (tickSpacing : TickSpacing) :
    List (Int × TickInfoInner) -> TickSlab A -> Outcome Error (TickSlab A)
  | [], slab => .ok slab
  | (tickIdx, info) :: rest, slab => do
      let sqrtPrice <- sqrtPriceOrPanic tickIdx
      let tickInfo := TickInfo.withInner tickIdx sqrtPrice info
      if !forSpacing tickIdx tickSpacing then
        .err .invalidTick
      else if info.liquidityGross = 0 ∨ info.liquidityNet.natAbs > info.liquidityGross then
        .err .invalidTick
      else if info.liquidityGross > slab.maxLiquidityPerTick then
        .err .liquidityOverflow
      else do
        let slab <- Outcome.ofExcept (slab.insert (slab.indexer tickIdx) tickInfo)
        restoreTicks tickSpacing rest slab

/-- The indexer subtracts the width of the spacing, which underflows unless the
spacing is positive: a panic in a build that checks for overflow. What another build
does with such a spacing is {lit}`SlabPages.fromSnapshot`. -/
def fromSnapshot (tickSpacing : TickSpacing) (ticks : SortedMap Int TickInfoInner) :
    Outcome Error (TickSlab A) :=
  if h : tickSpacing.IsPositive then
    restoreTicks tickSpacing ticks.entries (TickSlab.new tickSpacing h)
  else
    .panic

def ownedSnapshot (s : TickSlab A) : PoolTicksSnapshot :=
  { tickSpacing := s.tickSpacing, inner := s.snapshot }

end TickSlab

namespace Pool

variable {P : Type} [PositionsAccess P]

def snapshot (p : Pool P A) : PoolSnapshot P :=
  { state := p.state
    fee := p.swapFee.lpFee
    protocolFee := p.swapFee.protocolFee
    tickSpacing := p.tickSpacing
    ticks := p.ticks.ownedSnapshot
    positions := p.positions }

def fromSnapshot (s : PoolSnapshot P) : Outcome Error (Pool P A) := do
  s.validate
  let ticks <- TickSlab.fromSnapshot s.ticks.tickSpacing s.ticks.inner
  let swapFee <- Outcome.ofExcept (SwapFee.fromLpFee s.fee s.protocolFee)
  .ok
    { state := s.state
      swapFee
      tickSpacing := s.tickSpacing
      ticks
      positions := s.positions }

def tryNew (sqrtPriceX96 : Nat) (tick : Int) (liquidity : Nat) (swapFee : SwapFee)
    (tickSpacing : TickSpacing) (ticks : TickSlab A) : Outcome Error (Pool P A) :=
  fromSnapshot
    { state :=
        { sqrtPriceX96
          tick
          liquidity
          feeGrowthGlobal0X128 := 0
          feeGrowthGlobal1X128 := 0 }
      fee := swapFee.lpFee
      protocolFee := swapFee.protocolFee
      tickSpacing
      ticks := ticks.ownedSnapshot
      positions := PositionsAccess.default }

def tryFork (p : Pool P A) : Outcome Error (Pool P A) := fromSnapshot p.snapshot

def setProtocolFee (p : Pool P A) (protocolFee : ProtocolFee) : Except Error Unit × Pool P A :=
  match p.swapFee.setProtocolFee protocolFee with
  | .ok swapFee => (.ok (), { p with swapFee })
  | .error e => (.error e, p)

/-- A pool that validation accepted; prices are checked when they are decoded. -/
def Accepted (p : Pool P A) : Prop :=
  exists s : PoolSnapshot P, IsValidSqrtPrice s.state.sqrtPriceX96 ∧ fromSnapshot s = .ok p

end Pool

end RmUniswap
