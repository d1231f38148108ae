import RmUniswap.Pool.Drain
import RmUniswap.Pool.Growth

/-!
# The course of a swap

The legs from a price to the limit follow from the ticks and the active liquidity. An
amount pays for them one after the other until it is used up. The ticks that a swap
reaches, and what it earns the providers and the protocol, are read off these payments
on the pool before the swap.
-/

namespace RmUniswap

open Foundation

variable {A : Type} [LawfulAllocator TickSlabValue A]

structure Stretch extends Leg where
  tick : Option Int
deriving DecidableEq, Repr

/-!
# Payments
-/

/-- What an amount pays for a leg. -/
structure Payment where
  leg : Stretch
  step : SwapStep
deriving DecidableEq, Repr

/-- What an amount pays for one leg after the other. -/
def payments (fee : Fee) : List Stretch -> Int -> List Payment
  | [], _ => []
  | leg :: legs, amount =>
      if amount = 0 then
        []
      else
        let step := plainStep leg.start leg.stop leg.liquidity amount fee
        { leg, step } :: payments fee legs
          (if amount < 0 then amount + (step.amountIn + step.feeAmount : Nat)
          else amount - step.amountOut)

namespace Payment

def gross (x : Payment) : Nat := x.step.amountIn + x.step.feeAmount

def share (fee : Fee) (pips : Nat) (x : Payment) : Nat :=
  if pips = 0 then 0
  else if fee.pips = pips then x.step.feeAmount
  else x.gross * pips / pipsDenominator

/-- The growth that the rest of the fee earns a unit of liquidity. -/
def growth (fee : Fee) (pips : Nat) (x : Payment) : Nat :=
  (x.step.feeAmount - x.share fee pips) * 2 ^ 128 / x.leg.liquidity

/-- The initialized tick that a payment reaches. -/
def crossed (x : Payment) : Option Int :=
  if x.step.sqrtRatioNextX96 = x.leg.stop then x.leg.tick else none

end Payment

/-- The ticks that payments reach, with the growth there: a payment that cannot pay its
protocol share, or whose growth no longer fits, is the last one. -/
def crossings (fee : Fee) (pips : Nat) : Nat -> List Payment -> List (Int × Nat)
  | _, [] => []
  | growth, x :: xs =>
      if x.share fee pips ≤ x.step.feeAmount ∧ growth + x.growth fee pips < 2 ^ 256 then
        (x.crossed.map fun k => (k, growth + x.growth fee pips)).toList ++
          crossings fee pips (growth + x.growth fee pips) xs
      else
        []

section Payments

variable {fee : Fee} {pips growth : Nat} {x : Payment} {xs : List Payment}

@[simp] theorem payments_nil (amount : Int) : payments fee [] amount = [] := rfl

@[simp] theorem payments_zero (legs : List Stretch) : payments fee legs 0 = [] := by
  cases legs with
  | nil => rfl
  | cons leg legs => exact if_pos rfl

theorem payments_cons {leg : Stretch} {legs : List Stretch} {amount : Int} (h : amount ≠ 0) :
    payments fee (leg :: legs) amount =
      { leg, step := plainStep leg.start leg.stop leg.liquidity amount fee } ::
        payments fee legs
          (if amount < 0 then
            amount + (Payment.gross
              { leg, step := plainStep leg.start leg.stop leg.liquidity amount fee } : Nat)
          else
            amount - (plainStep leg.start leg.stop leg.liquidity amount fee).amountOut) :=
  if_neg h

@[simp] theorem crossings_nil (growth : Nat) : crossings fee pips growth [] = [] := rfl

theorem crossings_pays (hshare : x.share fee pips ≤ x.step.feeAmount)
    (hgrowth : growth + x.growth fee pips < 2 ^ 256) :
    crossings fee pips growth (x :: xs) =
      (x.crossed.map fun k => (k, growth + x.growth fee pips)).toList ++
        crossings fee pips (growth + x.growth fee pips) xs :=
  if_pos ⟨hshare, hgrowth⟩

theorem crossings_fails (h : ¬ (x.share fee pips ≤ x.step.feeAmount ∧
    growth + x.growth fee pips < 2 ^ 256)) : crossings fee pips growth (x :: xs) = [] :=
  if_neg h

end Payments

/-!
# The legs to the limit
-/

namespace SwapContext

/-- The leg from a price to a target, cut off by the limit. -/
def stretch (ctx : SwapContext) (target : StepTarget) (price liquidity : Nat) : Stretch :=
  { start := price
    stop := ctx.clampedTarget target
    liquidity
    tick :=
      if ctx.clampedTarget target = target.sqrtPriceX96 then
        target.tickIndexer.map fun _ => target.tickIndex
      else
        none }

def beyond (ctx : SwapContext) (ticks : SortedMap Int TickInfoInner) (leg : Stretch) :
    Option Nat :=
  match leg.tick with
  | none => some leg.liquidity
  | some k => checkedAddSigned 128 leg.liquidity (ctx.directed (tickAt ticks k).liquidityNet)

/-- The legs from a price in a tick to the limit, as far as there is liquidity. -/
def course (ctx : SwapContext) (ticks : SortedMap Int TickInfoInner) :
    Nat -> Nat -> Int -> Nat -> List Stretch
  | 0, _, _, _ => []
  | fuel + 1, price, t, liquidity =>
      if price = ctx.sqrtPriceLimitX96 ∨ liquidity = 0 then
        []
      else
        let target := ctx.targetOn ticks t
        let leg := ctx.stretch target price liquidity
        leg :: (ctx.beyond ticks leg).elim [] fun liquidity =>
          ctx.course ticks fuel leg.stop
            (if ctx.zeroForOne then target.tickIndex - 1 else target.tickIndex) liquidity

def maxLegs : Nat := 2 ^ 21

section Course

variable {ctx : SwapContext} {ticks ticks' : SortedMap Int TickInfoInner}
  {fuel price liquidity : Nat} {t : Int}

theorem course_ended (h : price = ctx.sqrtPriceLimitX96 ∨ liquidity = 0) :
    ctx.course ticks fuel price t liquidity = [] := by
  cases fuel with
  | zero => rfl
  | succ fuel => exact if_pos h

theorem course_cons (h : ¬ (price = ctx.sqrtPriceLimitX96 ∨ liquidity = 0)) :
    ctx.course ticks (fuel + 1) price t liquidity =
      ctx.stretch (ctx.targetOn ticks t) price liquidity ::
        (ctx.beyond ticks (ctx.stretch (ctx.targetOn ticks t) price liquidity)).elim []
          fun liquidity =>
            ctx.course ticks fuel (ctx.clampedTarget (ctx.targetOn ticks t))
              (if ctx.zeroForOne then (ctx.targetOn ticks t).tickIndex - 1
              else (ctx.targetOn ticks t).tickIndex) liquidity :=
  if_neg h

theorem beyond_congr (h : Positions.accounting ticks' = Positions.accounting ticks)
    (leg : Stretch) : ctx.beyond ticks' leg = ctx.beyond ticks leg := by
  unfold beyond
  cases leg.tick with
  | none => rfl
  | some k =>
      dsimp only
      rw [accounting_net h]

theorem course_congr (h : Positions.accounting ticks' = Positions.accounting ticks) :
    ctx.course ticks' fuel price t liquidity = ctx.course ticks fuel price t liquidity := by
  have htarget (t : Int) : ctx.targetOn ticks' t = ctx.targetOn ticks t :=
    targetOn_congr ctx ctx.access ctx.poolState h t
  induction fuel generalizing price t liquidity with
  | zero =>
      rfl
  | succ fuel ih =>
      by_cases hend : price = ctx.sqrtPriceLimitX96 ∨ liquidity = 0
      · rw [course_ended hend, course_ended hend]
      · rw [course_cons hend, course_cons hend, htarget, beyond_congr h]
        cases ctx.beyond ticks (ctx.stretch (ctx.targetOn ticks t) price liquidity) with
        | none => rfl
        | some liquidity =>
            rw [Option.elim_some, Option.elim_some, ih]

theorem course_on (access : Access) (poolState : PoolState) :
    (ctx.on access poolState).course ticks fuel price t liquidity =
      ctx.course ticks fuel price t liquidity := by
  have htarget (t : Int) : (ctx.on access poolState).targetOn ticks t = ctx.targetOn ticks t :=
    targetOn_congr ctx access poolState rfl t
  induction fuel generalizing price t liquidity with
  | zero =>
      rfl
  | succ fuel ih =>
      by_cases hend : price = ctx.sqrtPriceLimitX96 ∨ liquidity = 0
      · rw [course_ended hend, @course_ended (ctx.on access poolState) _ _ _ _ _ hend]
      · have hbeyond (leg : Stretch) : (ctx.on access poolState).beyond ticks leg =
            ctx.beyond ticks leg := rfl
        have hstretch (target : StepTarget) (price liquidity : Nat) :
            (ctx.on access poolState).stretch target price liquidity =
              ctx.stretch target price liquidity := rfl
        rw [course_cons hend, @course_cons (ctx.on access poolState) _ _ _ _ _ hend, htarget,
          hbeyond, hstretch]
        cases ctx.beyond ticks (ctx.stretch (ctx.targetOn ticks t) price liquidity) with
        | none => rfl
        | some liquidity =>
            rw [Option.elim_some, Option.elim_some, ih]
            rfl

end Course

end SwapContext

namespace Pool

variable {P : Type}

/-- What the amount of a swap pays for, from the state before the swap. A full fee pays
for no exact output. -/
def payments (p : Pool P A) (swapFee : SwapFee) (params : SwapParamsInner) : List Payment :=
  let ctx := p.swapContext .exclusive swapFee params
  if checkLimit params.zeroForOne p.state.sqrtPriceX96 params.sqrtPriceLimit = .ok () ∧
      (0 < params.amountSpecified -> ctx.fee.isMax = false) then
    RmUniswap.payments ctx.fee
      (ctx.course p.ticks.snapshot SwapContext.maxLegs p.state.sqrtPriceX96 p.state.tick
        p.state.liquidity)
      params.amountSpecified
  else
    []

end Pool

end RmUniswap
