import RmUniswap.Math.SwapSpot
import RmUniswap.Pool.SwapSplit

/-!
# The price of a swap

A swap fills no better than the price the pool quotes, less the fee: its steps start
at that price or further along. An exact input fills no worse than the price it
ends at, but for a unit of each token for every step and one unit of price.
-/

namespace RmUniswap

open Foundation

variable {A : Type} [LawfulAllocator TickSlabValue A]

namespace BalanceDelta

variable {delta : BalanceDelta} {zeroForOne : Bool} {n : Nat}

theorem amountIn_eq (h : delta.input zeroForOne = n) : delta.amountIn zeroForOne = n := by
  unfold input at h
  unfold amountIn
  cases zeroForOne with
  | true =>
      rw [if_pos rfl] at h ⊢
      dsimp only
      split
      · omega
      · omega
  | false =>
      rw [if_neg Bool.false_ne_true] at h ⊢
      dsimp only
      split
      · omega
      · omega

theorem amountOut_eq (h : delta.output zeroForOne = n) : delta.amountOut zeroForOne = n := by
  unfold output at h
  unfold amountOut
  rw [h]
  dsimp only
  split
  · exact Int.natAbs_natCast n
  · omega

end BalanceDelta

namespace SwapContext

section Spot

variable {ctx : SwapContext} {a b : SwapLoopState × TickSlab A} {c : StepComputations}
  {cs : List StepComputations} {start : Nat}

theorem Iterates.plainStep (h : ctx.Live a) (hi : ctx.Iterates a c b) :
    c.swapStep = plainStep a.1.sqrtPriceX96 (ctx.clampedTarget (ctx.stepTarget a.2 a.1.tick))
      a.1.liquidity a.1.amountSpecifiedRemaining ctx.fee := by
  have hready := h.invariant.ready
  have hclamp := hready.clampedTarget hi.running (h.invariant.target_spec hi.running)
  have hne : a.1.amountSpecifiedRemaining ≠ 0 := fun hz => hi.running (Or.inl (Or.inl hz))
  have hpositive : 0 < a.1.liquidity := Nat.pos_of_ne_zero fun hz => hi.running (Or.inr hz)
  exact computeSwapStep_eq hready.price hclamp.1 hpositive hready.liquidity hready.fee hne
    hready.remaining hi.advances.swapStep

theorem Iterates.farther (h : ctx.Invariant a) (hi : ctx.Iterates a c b) :
    Farther ctx.zeroForOne a.1.sqrtPriceX96 c.swapStep.sqrtRatioNextX96 := by
  have hprice := run_farther (Run.cons hi (Run.nil b)) h
  rw [hi.next h] at hprice
  rw [← hi.advances.price]
  exact hprice

theorem Iterates.spot (h : ctx.Live a) (hi : ctx.Iterates a c b) :
    outputAt ctx.zeroForOne a.1.sqrtPriceX96 c.swapStep.amountOut ≤
      inputAt ctx.zeroForOne a.1.sqrtPriceX96 (ctx.fee.net c.swapStep.gross) := by
  have hready := h.invariant.ready
  have hclamp := hready.clampedTarget hi.running (h.invariant.target_spec hi.running)
  have hne : a.1.amountSpecifiedRemaining ≠ 0 := fun hz => hi.running (Or.inl (Or.inl hz))
  have hpositive : 0 < a.1.liquidity := Nat.pos_of_ne_zero fun hz => hi.running (Or.inr hz)
  have hsound := (computeSwapStep_sound hready.price hclamp.1 hpositive hready.liquidity
    hready.fee hne hready.remaining hi.advances.swapStep).1
  have hfarther := hi.farther h.invariant
  have hmax (hout : 0 < a.1.amountSpecifiedRemaining) : ctx.fee.isMax = false :=
    computeSwapStep_fee hout hi.advances.swapStep
  rw [hi.plainStep h] at hsound hfarther ⊢
  exact plainStep_spot hready.price.pos hsound hfarther hready.fee hmax hne

theorem run_spot (h : Run ctx.Iterates a cs b) (ha : ctx.Live a)
    (hstart : Farther ctx.zeroForOne start a.1.sqrtPriceX96) :
    outputAt ctx.zeroForOne start (freed cs) ≤
      inputAt ctx.zeroForOne start (ctx.fee.net (taken cs)) := by
  induction h with
  | nil a =>
      rw [freed_nil, outputAt_zero]
      exact Nat.zero_le _
  | @cons a mid b c cs hi _ ih =>
      have hfirst := (outputAt_farther hstart).trans
        ((hi.spot ha).trans (inputAt_farther hstart))
      have hmoved := run_farther (Run.cons hi (Run.nil mid)) ha.invariant
      have hrest := ih (hi.live ha) (hstart.trans hmoved)
      rw [freed_cons, taken_cons, outputAt_add]
      refine (Nat.add_le_add hfirst hrest).trans ?_
      rw [← inputAt_add]
      exact inputAt_mono (Fee.net_add_le ctx.fee _ _)

/-- A step that its exact input does not carry to the target ends the swap, and fills no
worse than one unit past its price but for one unit of price. -/
theorem Iterates.end_short (hi : ctx.Iterates a c b) (ha : ctx.Live a)
    (hin : ctx.amountSpecified < 0)
    (hshort : ¬ Covers a.1.sqrtPriceX96 (ctx.clampedTarget (ctx.stepTarget a.2 a.1.tick))
      a.1.liquidity a.1.amountSpecifiedRemaining ctx.fee)
    {price : Nat} (hprice : price = worstPrice ctx.zeroForOne b.1.sqrtPriceX96) :
    inputAt ctx.zeroForOne price (ctx.fee.net c.swapStep.gross) ≤
      outputAt ctx.zeroForOne price (c.swapStep.amountOut + 1) +
        inputAt ctx.zeroForOne price 1 + 2 ^ 96 * b.1.liquidity := by
  have hready := ha.invariant.ready
  have hclamp := hready.clampedTarget hi.running (ha.invariant.target_spec hi.running)
  have hremaining := (ha.remaining_sign hi.running).1.mpr hin
  have hpositive : 0 < a.1.liquidity := Nat.pos_of_ne_zero fun hz => hi.running (Or.inr hz)
  have hstep := hi.plainStep ha
  have hfarther := hi.farther ha.invariant
  have hoff := plainStep_price_ne hready.price.pos hclamp.1.pos hpositive
    hready.liquidity hremaining hshort
  rw [← hstep, ← hi.advances.price] at hoff
  have hliquidity := hi.liquidity_short ha.invariant (hi.off_target ha.invariant hoff)
  have hdirection : ctx.zeroForOne = decide (a.1.sqrtPriceX96 ≥
      ctx.clampedTarget (ctx.stepTarget a.2 a.1.tick)) := by
    cases hz : ctx.zeroForOne with
    | true =>
        exact (decide_eq_true (hclamp.2.1 hz).1).symm
    | false =>
        refine (decide_eq_false fun hge => hshort ?_).symm
        rw [le_antisymm hge (hclamp.2.2 hz).1]
        exact covers_self
  have hnext : b.1.sqrtPriceX96 = c.swapStep.sqrtRatioNextX96 := by
    rw [hi.next ha.invariant]
    exact hi.advances.price
  have hvalid : 0 < c.swapStep.sqrtRatioNextX96 :=
    hnext ▸ (hi.invariant ha.invariant).ready.price.pos
  rw [hnext, hstep] at hprice
  rw [hstep] at hfarther hvalid
  have hend := plainStep_end_short hready.price hpositive hready.liquidity hdirection
    hremaining hshort hready.fee hvalid hfarther hprice
  rw [← hstep] at hend
  rw [hliquidity]
  exact hend

/-- An exact input fills no worse than one unit past the price it ends at, but for a unit
of each token for every step and one unit of price. -/
theorem run_end (h : Run ctx.Iterates a cs b) (ha : ctx.Live a) (hin : ctx.amountSpecified < 0)
    {price : Nat} (hprice : price = worstPrice ctx.zeroForOne b.1.sqrtPriceX96) :
    inputAt ctx.zeroForOne price (ctx.fee.net (taken cs)) ≤
      outputAt ctx.zeroForOne price (freed cs + cs.length) +
        inputAt ctx.zeroForOne price (2 * cs.length) + 2 ^ 96 * b.1.liquidity := by
  induction h with
  | nil a =>
      rw [taken_nil, Fee.net_zero, inputAt_zero]
      exact Nat.zero_le _
  | @cons a mid b c cs hi hlast ih =>
      have hready := ha.invariant.ready
      have hclamp := hready.clampedTarget hi.running (ha.invariant.target_spec hi.running)
      have hstep := hi.plainStep ha
      have hfarther := hi.farther ha.invariant
      have hfirst : inputAt ctx.zeroForOne price (ctx.fee.net c.swapStep.gross) +
          inputAt ctx.zeroForOne price (ctx.fee.net (taken cs)) ≤
          outputAt ctx.zeroForOne price (c.swapStep.amountOut + 1 + (freed cs + cs.length)) +
            inputAt ctx.zeroForOne price (1 + 2 * cs.length) + 2 ^ 96 * b.1.liquidity := by
        rw [outputAt_add, inputAt_add]
        by_cases hcovers : Covers a.1.sqrtPriceX96
            (ctx.clampedTarget (ctx.stepTarget a.2 a.1.tick)) a.1.liquidity
            a.1.amountSpecifiedRemaining ctx.fee
        · have hreached := plainStep_price_of_covers hcovers
          have hmid := run_farther hlast (hi.invariant ha.invariant)
          have hworst := hprice ▸ worstPrice_farther ctx.zeroForOne b.1.sqrtPriceX96
          rw [hi.next ha.invariant] at hmid
          change Farther _ c.next.sqrtPriceX96 _ at hmid
          rw [hi.advances.price, hstep, hreached] at hmid
          rw [hstep, hreached] at hfarther
          have hend := plainStep_end hready.price.pos hclamp.1.pos hfarther (hmid.trans hworst)
            hready.fee hcovers
          rw [← hstep] at hend
          have hrest := ih (hi.live ha) hprice
          omega
        · -- the exact input ends with this step
          rcases run_of_halted hlast (Or.inl (Or.inl (hi.spent ha hcovers))) with ⟨rfl, rfl⟩
          have hend := hi.end_short ha hin hcovers hprice
          rw [taken_nil, Fee.net_zero, inputAt_zero]
          omega
      rw [taken_cons, freed_cons, List.length_cons]
      have hnet : inputAt ctx.zeroForOne price (ctx.fee.net (c.swapStep.gross + taken cs)) ≤
          inputAt ctx.zeroForOne price
            (ctx.fee.net c.swapStep.gross + ctx.fee.net (taken cs) + 1) :=
        inputAt_mono (Fee.net_le_add ctx.fee c.swapStep.gross (taken cs))
      rw [inputAt_add, inputAt_add] at hnet
      have hout : c.swapStep.amountOut + freed cs + (cs.length + 1) =
          c.swapStep.amountOut + 1 + (freed cs + cs.length) := by
        omega
      have hunits : 2 * (cs.length + 1) = 1 + 2 * cs.length + 1 := by
        omega
      rw [hout, hunits, inputAt_add _ _ _ 1]
      omega

end Spot

end SwapContext

/-!
# Swaps
-/

namespace Pool

variable {P : Type} {p p' : Pool P A} {params : SwapParamsInner} {result : SwapResult}

theorem LoopRun.amounts {ctx : SwapContext} {cs : List StepComputations}
    {b : SwapLoopState × TickSlab A} {delta : BalanceDelta} (h : LoopRun p params ctx cs b)
    (hp : p.Usable) (hdelta : ctx.swapDelta b.1 = .ok delta) :
    delta.amountIn params.zeroForOne = SwapContext.taken cs ∧
      delta.amountOut params.zeroForOne = SwapContext.freed cs := by
  have hsides := h.swapDelta hp hdelta
  exact ⟨BalanceDelta.amountIn_eq hsides.1, BalanceDelta.amountOut_eq hsides.2⟩

theorem Swaps.spot (hp : p.Usable) (h : p.Swaps params (.ok result) p') :
    outputAt params.zeroForOne p.state.sqrtPriceX96
        (result.swapDelta.amountOut params.zeroForOne) ≤
      inputAt params.zeroForOne p.state.sqrtPriceX96
        (result.swapFee.net (result.swapDelta.amountIn params.zeroForOne)) := by
  rcases h with ⟨fuel, h⟩
  generalize hlist : p.swapComputations params fuel = cs
  have hcases := swap_cases h
  rw [hlist] at hcases
  cases hcases with
  | empty hzero =>
      have hnone : BalanceDelta.default.amountOut params.zeroForOne = 0 := by
        cases params.zeroForOne with
        | true => rfl
        | false => rfl
      change outputAt _ _ (BalanceDelta.default.amountOut params.zeroForOne) ≤ _
      rw [hnone, outputAt_zero]
      exact Nat.zero_le _
  | @done ctx cs b delta hrun hhalt hdelta =>
      have hamounts := hrun.amounts hp hdelta
      have hspot := SwapContext.run_spot hrun.run (hrun.live hp) (Farther.refl _ _)
      rw [hrun.zeroForOne] at hspot
      change outputAt _ _ (delta.amountOut params.zeroForOne) ≤
        inputAt _ _ (ctx.fee.net (delta.amountIn params.zeroForOne))
      rw [hamounts.1, hamounts.2]
      exact hspot

/-- No swap is filled better than the price the pool quotes before it, less the fee. -/
theorem swap_spot [PositionsAccess P] (hp : p.Reachable) (h : p.Swaps params (.ok result) p') :
    outputAt params.zeroForOne p.state.sqrtPriceX96
        (result.swapDelta.amountOut params.zeroForOne) ≤
      inputAt params.zeroForOne p.state.sqrtPriceX96
        (result.swapFee.net (result.swapDelta.amountIn params.zeroForOne)) :=
  Swaps.spot hp.usable h

theorem swap_spot_sample :
    outputAt true Sample.restored.state.sqrtPriceX96 (Sample.result.swapDelta.amountOut true) ≤
      inputAt true Sample.restored.state.sqrtPriceX96
        (Sample.result.swapFee.net (Sample.result.swapDelta.amountIn true)) := by
  have hresult : (Sample.restored.swap Sample.sell 3).map Prod.fst = some (.ok Sample.result) := by
    decide +kernel
  exact swap_spot Sample.restored_accepted.reachable ⟨3, Sample.swap_eq hresult⟩

theorem Usable.swap_end (hp : p.Usable) (hin : params.amountSpecified < 0) {fuel : Nat}
    (h : p.swap params fuel = some (.ok result, p')) :
    inputAt params.zeroForOne (worstPrice params.zeroForOne result.sqrtPriceX96)
        (result.swapFee.net (result.swapDelta.amountIn params.zeroForOne)) ≤
      outputAt params.zeroForOne (worstPrice params.zeroForOne result.sqrtPriceX96)
          (result.swapDelta.amountOut params.zeroForOne +
            (p.swapComputations params fuel).length) +
        inputAt params.zeroForOne (worstPrice params.zeroForOne result.sqrtPriceX96)
          (2 * (p.swapComputations params fuel).length) +
        2 ^ 96 * result.liquidity := by
  generalize hlist : p.swapComputations params fuel = cs
  have hcases := swap_cases h
  rw [hlist] at hcases
  cases hcases with
  | empty hzero => omega
  | @done ctx cs b delta hrun hhalt hdelta =>
      have hamounts := hrun.amounts hp hdelta
      have hspecified := hrun.amountSpecified
      have hend := SwapContext.run_end hrun.run (hrun.live hp) (by omega) rfl
      rw [hrun.zeroForOne, ← hamounts.1, ← hamounts.2] at hend
      exact hend

/-- An exact input is filled no worse than one unit past the price it ends at, less the
fee, but for two units of the input and one of the output for every iteration and the
worth of one unit of price. -/
theorem swap_slippage [PositionsAccess P] (hp : p.Reachable) (hin : params.amountSpecified < 0)
    {fuel : Nat} (h : p.swap params fuel = some (.ok result, p')) :
    inputAt params.zeroForOne (worstPrice params.zeroForOne result.sqrtPriceX96)
        (result.swapFee.net (result.swapDelta.amountIn params.zeroForOne)) ≤
      outputAt params.zeroForOne (worstPrice params.zeroForOne result.sqrtPriceX96)
          (result.swapDelta.amountOut params.zeroForOne +
            (p.swapComputations params fuel).length) +
        inputAt params.zeroForOne (worstPrice params.zeroForOne result.sqrtPriceX96)
          (2 * (p.swapComputations params fuel).length) +
        2 ^ 96 * result.liquidity :=
  hp.usable.swap_end hin h

theorem swap_slippage_sample :
    inputAt true (worstPrice true Sample.result.sqrtPriceX96)
        (Sample.result.swapFee.net (Sample.result.swapDelta.amountIn true)) ≤
      outputAt true (worstPrice true Sample.result.sqrtPriceX96)
          (Sample.result.swapDelta.amountOut true +
            (Sample.restored.swapComputations Sample.sell 3).length) +
        inputAt true (worstPrice true Sample.result.sqrtPriceX96)
          (2 * (Sample.restored.swapComputations Sample.sell 3).length) +
        2 ^ 96 * Sample.result.liquidity := by
  have hresult : (Sample.restored.swap Sample.sell 3).map Prod.fst = some (.ok Sample.result) := by
    decide +kernel
  exact swap_slippage Sample.restored_accepted.reachable (by decide) (Sample.swap_eq hresult)

end Pool

end RmUniswap
