import RmUniswap.Math.Full
import RmUniswap.Types.Params

/-!
# Positions

Liquidity by owner, range and salt, with the fee growth inside the range at
the last update. A pool may also run without a position store.
-/

namespace RmUniswap

open Foundation

structure PositionIndex where
  owner : Nat
  tickLower : Int
  tickUpper : Int
  salt : Nat
deriving DecidableEq, Repr

namespace PositionIndex

def lexKey (i : PositionIndex) : Nat ×ₗ Int ×ₗ Int ×ₗ Nat :=
  toLex (i.owner, toLex (i.tickLower, toLex (i.tickUpper, i.salt)))

theorem lexKey_injective : Function.Injective lexKey := by
  intro a b h
  cases a
  cases b
  simp only [lexKey, EmbeddingLike.apply_eq_iff_eq, Prod.mk.injEq] at h
  rcases h with ⟨h1, h2, h3, h4⟩
  rw [h1, h2, h3, h4]

instance : LinearOrder PositionIndex := LinearOrder.lift' lexKey lexKey_injective

end PositionIndex

structure PositionState where
  liquidity : Nat
  feeGrowthInside0LastX128 : Nat
  feeGrowthInside1LastX128 : Nat
deriving DecidableEq, Repr

namespace PositionState

def default : PositionState :=
  { liquidity := 0
    feeGrowthInside0LastX128 := 0
    feeGrowthInside1LastX128 := 0 }

def feesOwed (liquidity feeGrowthInside0X128 feeGrowthInside1X128 last0 last1 : Nat) :
    Except Error (Nat × Nat) := do
  let feesOwed0 <- mulDiv (wrappingSub 256 feeGrowthInside0X128 last0) liquidity (2 ^ 128)
  let feesOwed1 <- mulDiv (wrappingSub 256 feeGrowthInside1X128 last1) liquidity (2 ^ 128)
  .ok (feesOwed0, feesOwed1)

/-- The update of one position. The liquidity is written before the fees are
computed, so a failing fee leaves it changed. -/
def update (p : PositionState) (liquidityDelta : Int)
    (feeGrowthInside0X128 feeGrowthInside1X128 : Nat) :
    Except Error (Nat × Nat) × PositionState :=
  let liquidityBefore := p.liquidity
  let changed : Except Error Nat :=
    if liquidityDelta = 0 then
      if p.liquidity = 0 then .error .positionNotFound else .ok p.liquidity
    else
      okOr .liquidityOverflow (checkedAddSigned 128 p.liquidity liquidityDelta)
  match changed with
  | .error e => (.error e, p)
  | .ok liquidity =>
      let fees : Except Error (Nat × Nat) :=
        if liquidityBefore ≠ 0 then
          feesOwed liquidityBefore feeGrowthInside0X128 feeGrowthInside1X128
            p.feeGrowthInside0LastX128 p.feeGrowthInside1LastX128
        else
          .ok (0, 0)
      match fees with
      | .error e => (.error e, { p with liquidity })
      | .ok fees =>
          (.ok fees,
            { liquidity
              feeGrowthInside0LastX128 := feeGrowthInside0X128
              feeGrowthInside1LastX128 := feeGrowthInside1X128 })

end PositionState

structure Positions where
  map : SortedMap PositionIndex PositionState
deriving DecidableEq

/-- Optional position storage. -/
class PositionsAccess (P : Type) where
  default : P
  enable : Bool
  updatePosition {T : Type} (positions : P) (index : PositionIndex)
    (f : PositionState -> T × PositionState) : T × P
  validateAgainstTicks (positions : P) (ticks : PoolTicksSnapshot) : Outcome Error Unit

instance : PositionsAccess Unit where
  default := ()
  enable := false
  updatePosition := fun _ _ f => ((f PositionState.default).1, ())
  validateAgainstTicks := fun _ _ => .ok ()

/-- The {lit}`i32` remainder of a tick by a spacing panics. -/
def SpacingTraps (t : Int) (s : TickSpacing) : Prop :=
  s.value = 0 ∨ (t = -2 ^ 31 ∧ s.value = -1)

instance (t : Int) (s : TickSpacing) : Decidable (SpacingTraps t s) :=
  inferInstanceAs (Decidable (_ ∨ _))

/-- The spacing check with the panics of the remainder. -/
def forSpacingOrPanic (t : Int) (s : TickSpacing) : Outcome Error Bool := do
  Outcome.panicIf (SpacingTraps t s)
  .ok (forSpacing t s)

namespace Positions

def updatePosition {T : Type} (positions : Positions) (index : PositionIndex)
    (f : PositionState -> T × PositionState) : T × Positions :=
  let position := (positions.map.get? index).getD PositionState.default
  let (result, position) := f position
  (result, { map := positions.map.insert index position })

/-- Add one side of a position to the expected accounting of its tick. -/
def expectTick (expected : SortedMap Int (Nat × Int)) (tick : Int) (liquidity : Nat)
    (liquidityDelta : Int) : Except Error (SortedMap Int (Nat × Int)) := do
  let entry := (expected.get? tick).getD (0, 0)
  let gross <- okOr .liquidityOverflow (checkedAdd 128 entry.1 liquidity)
  let net <- okOr .liquidityOverflow (checkedSigned 128 (entry.2 + liquidityDelta))
  .ok (expected.insert tick (gross, net))

def expectPosition (tickSpacing : TickSpacing) (expected : SortedMap Int (Nat × Int))
    (index : PositionIndex) (position : PositionState) :
    Outcome Error (SortedMap Int (Nat × Int)) := do
  if index.tickLower ≥ index.tickUpper then
    .err .invalidTick
  else do
    let lowerAligned <- forSpacingOrPanic index.tickLower tickSpacing
    if !lowerAligned then
      .err .invalidTick
    else do
      let upperAligned <- forSpacingOrPanic index.tickUpper tickSpacing
      if !upperAligned then
        .err .invalidTick
      else if position.liquidity = 0 then
        .ok expected
      else Outcome.ofExcept do
        let liquidityDelta <- okOr .liquidityOverflow (checkedSigned 128 position.liquidity)
        let expected <- expectTick expected index.tickLower position.liquidity liquidityDelta
        expectTick expected index.tickUpper position.liquidity (-liquidityDelta)

def expectAll (tickSpacing : TickSpacing) :
    List (PositionIndex × PositionState) -> SortedMap Int (Nat × Int) ->
      Outcome Error (SortedMap Int (Nat × Int))
  | [], expected => .ok expected
  | (index, position) :: rest, expected => do
      let expected <- expectPosition tickSpacing expected index position
      expectAll tickSpacing rest expected

/-- The check with the positions read in a given order; a hash map has no order of its
own. -/
def validateInOrder (l : List (PositionIndex × PositionState)) (ticks : PoolTicksSnapshot) :
    Outcome Error Unit := do
  let expected <- expectAll ticks.tickSpacing l SortedMap.empty
  let actual := ticks.inner.entries.map fun e =>
    (e.1, e.2.liquidityGross, e.2.liquidityNet)
  if expected.entries = actual then .ok () else .err .invalidTick

/-- The check in one of the orders. -/
def validateAgainstTicks (positions : Positions) (ticks : PoolTicksSnapshot) :
    Outcome Error Unit :=
  validateInOrder positions.map.entries ticks

end Positions

instance : PositionsAccess Positions where
  default := { map := SortedMap.empty }
  enable := true
  updatePosition := Positions.updatePosition
  validateAgainstTicks := Positions.validateAgainstTicks

end RmUniswap
