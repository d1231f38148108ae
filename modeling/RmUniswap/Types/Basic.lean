import RmUniswap.Foundation.FixedWidth
import RmUniswap.Foundation.SortedMap
import RmUniswap.Foundation.Result

/-!
# Protocol types

Integers stand for the newtypes of the source: a tick index is an {lit}`i32`,
liquidity a {lit}`u128`, a sqrt price a {lit}`U160` in Q64.96 and a slab
coordinate a {lit}`u32`. Every operation that can leave its width is written
out where it happens.
-/

namespace RmUniswap

open Foundation

inductive Error
  | zeroDenominator
  | overflow
  | signedOverflow
  | i128Overflow
  | zeroPrice
  | zeroLiquidity
  | priceOverflow
  | priceUnderflow
  | insufficientToken0Reserves
  | insufficientToken1Reserves
  | feeTooLarge
  | invalidLpFee
  | invalidHookConfig
  | maxFeeExactOut
  | invalidTick
  | invalidSqrtPrice
  | invalidTickSpacing
  | zeroValue
  | priceLimitAlreadyExceeded
  | priceLimitOutOfBounds
  | invalidPoolSqrtPrice
  | missingInitializedTick
  | liquidityUnderflow
  | liquidityOverflow
  | amountOverflow
  | iterationLimitExceeded
  | positionNotFound
  | positionAlreadyExists
  | positionNotEmpty
  | unauthorized
  | slippageExceeded
deriving DecidableEq, Repr

/-- A value that must fit a 256-bit word. -/
def fitsWord (value : Nat) : Except Error Nat :=
  if value < 2 ^ 256 then .ok value else .error .overflow

theorem fitsWord_of_lt {value : Nat} (h : value < 2 ^ 256) : fitsWord value = .ok value := by
  unfold fitsWord
  rw [if_pos h]

/-!
# Ticks and prices
-/

def minTick : Int := -887272

def maxTick : Int := 887272

def TickInRange (t : Int) : Prop := minTick ≤ t ∧ t ≤ maxTick

instance (t : Int) : Decidable (TickInRange t) :=
  inferInstanceAs (Decidable (_ ∧ _))

def minSqrtPrice : Nat := 4295128739

def maxSqrtPrice : Nat :=
  1461446703485210103287273052203988822378723970342

/-- The check of {lit}`SqrtPriceX96::is_valid`. -/
def IsValidSqrtPrice (p : Nat) : Prop :=
  minSqrtPrice ≤ p ∧ p ≤ maxSqrtPrice

instance (p : Nat) : Decidable (IsValidSqrtPrice p) :=
  inferInstanceAs (Decidable (_ ∧ _))

theorem IsValidSqrtPrice.pos {p : Nat} (h : IsValidSqrtPrice p) : 0 < p :=
  lt_of_lt_of_le (by decide) h.1

theorem IsValidSqrtPrice.lt_two_pow {p : Nat} (h : IsValidSqrtPrice p) :
    p < 2 ^ 160 :=
  lt_of_le_of_lt h.2 (by decide)

/-- A wide integer as a price, when it has at most 160 bits and is in range. -/
def fromU256 (value : Nat) : Option Nat :=
  if bitLen value > 160 then none
  else if IsValidSqrtPrice value then some value
  else none

theorem fromU256_eq_some {value p : Nat} :
    fromU256 value = some p ↔ p = value ∧ IsValidSqrtPrice value := by
  unfold fromU256
  split
  · rename_i hwide
    constructor
    · intro h
      cases h
    · intro h
      have := bitLen_le_iff.mpr h.2.lt_two_pow
      omega
  · split
    · rename_i hvalid
      simp only [Option.some.injEq, hvalid, and_true]
      exact eq_comm
    · rename_i hvalid
      simp [hvalid]

def sortPrices (a b : Nat) : Nat × Nat :=
  if a < b then (a, b) else (b, a)

theorem sortPrices_eq (a b : Nat) : sortPrices a b = (min a b, max a b) := by
  unfold sortPrices
  split
  · rename_i h
    rw [Nat.min_eq_left (Nat.le_of_lt h), Nat.max_eq_right (Nat.le_of_lt h)]
  · rename_i h
    rw [Nat.min_eq_right (Nat.le_of_not_lt h), Nat.max_eq_left (Nat.le_of_not_lt h)]

def q96 (liquidity : Nat) : Nat := wrap 256 (liquidity <<< 96)

theorem q96_eq {liquidity : Nat} (h : liquidity < 2 ^ 128) :
    q96 liquidity = liquidity * 2 ^ 96 := by
  unfold q96
  rw [Nat.shiftLeft_eq]
  apply wrap_of_lt
  calc
    liquidity * 2 ^ 96 < 2 ^ 128 * 2 ^ 96 := Nat.mul_lt_mul_of_pos_right h (by norm_num)
    _ ≤ 2 ^ 256 := by norm_num

/-!
# Tick spacing
-/

/-- An {lit}`i16`; the constructor of the source rejects values below one, its
derived deserializer does not. -/
structure TickSpacing where
  value : Int
  inRange : FitsSigned 16 value

namespace TickSpacing

instance : DecidableEq TickSpacing := fun a b =>
  decidable_of_iff (a.value = b.value)
    ⟨fun h => by cases a; cases b; cases h; rfl, fun h => by rw [h]⟩

def asU32 (s : TickSpacing) : Nat := (s.value % 2 ^ 32).toNat

/-- Whether the spacing is one the checked constructor returns. -/
def IsPositive (s : TickSpacing) : Prop := 1 ≤ s.value

instance (s : TickSpacing) : Decidable s.IsPositive :=
  inferInstanceAs (Decidable (_ ≤ _))

theorem asU32_eq {s : TickSpacing} (h : s.IsPositive) : (s.asU32 : Int) = s.value := by
  have hlt := s.inRange.2
  unfold IsPositive at h
  unfold asU32
  norm_num at hlt
  omega

def numTicks (s : TickSpacing) : Int :=
  maxTick / s.value - minTick / s.value + 1

def maxLiquidityPerTick (s : TickSpacing) : Nat :=
  (2 ^ 128 - 1) / (s.numTicks % 2 ^ 128).toNat

end TickSpacing

/-- Whether a tick is a multiple of the spacing, by the remainder of {lit}`i32`. -/
def forSpacing (t : Int) (s : TickSpacing) : Bool := t.tmod s.value == 0

theorem forSpacing_iff {t : Int} {s : TickSpacing} :
    forSpacing t s = true ↔ s.value ∣ t := by
  unfold forSpacing
  rw [beq_iff_eq, Int.dvd_iff_tmod_eq_zero]

/-!
# Initialized ticks
-/

structure TickInfoInner where
  liquidityGross : Nat
  liquidityNet : Int
  feeGrowthOutside0X128 : Nat
  feeGrowthOutside1X128 : Nat
deriving DecidableEq, Repr

def TickInfoInner.default : TickInfoInner :=
  { liquidityGross := 0
    liquidityNet := 0
    feeGrowthOutside0X128 := 0
    feeGrowthOutside1X128 := 0 }

structure TickInfo where
  sqrtPriceX96 : Nat
  tickIndex : Int
  inner : TickInfoInner
deriving DecidableEq, Repr

namespace TickInfo

def default : TickInfo :=
  { sqrtPriceX96 := minSqrtPrice
    tickIndex := minTick
    inner := TickInfoInner.default }

def new (tickIndex : Int) (sqrtPriceX96 : Nat) : TickInfo :=
  { sqrtPriceX96, tickIndex, inner := TickInfoInner.default }

def withInner (tickIndex : Int) (sqrtPriceX96 : Nat)
    (inner : TickInfoInner) : TickInfo :=
  { sqrtPriceX96, tickIndex, inner }

end TickInfo

structure PoolTicksSnapshot where
  tickSpacing : TickSpacing
  inner : SortedMap Int TickInfoInner
deriving DecidableEq

/-!
# Pool state
-/

structure PoolState where
  sqrtPriceX96 : Nat
  tick : Int
  liquidity : Nat
  feeGrowthGlobal0X128 : Nat
  feeGrowthGlobal1X128 : Nat
deriving DecidableEq, Repr

namespace PoolState

/-- Commit the outcome of a swap, as the exclusive state access does. -/
def set (s : PoolState) (tickIdx : Int) (sqrtPriceX96 : Nat)
    (liquidity : Nat) (zeroForOne : Bool) (feeGrowthGlobalX128 : Nat) :
    PoolState :=
  { sqrtPriceX96
    tick := tickIdx
    liquidity
    feeGrowthGlobal0X128 :=
      if zeroForOne then feeGrowthGlobalX128 else s.feeGrowthGlobal0X128
    feeGrowthGlobal1X128 :=
      if zeroForOne then s.feeGrowthGlobal1X128 else feeGrowthGlobalX128 }

end PoolState

end RmUniswap
