import RmUniswap.Pool.Operation
import RmUniswap.Pool.Reserves

/-!
# Swapping back

A swap takes in at least what its prices hold of the input token and pays at most
what they hold of the output token. The swap back starts where the first one ended,
so what it moves over and what the first one moved over lie on one side of that
price: selling no more than was bought, it buys no more than was sold.
-/

namespace RmUniswap

open Foundation

variable {A : Type} [LawfulAllocator TickSlabValue A]

namespace Pool

section RoundTrip

variable {P : Type} {p p' p'' : Pool P A} {params back : SwapParamsInner}
  {result result' : SwapResult}

structure SwapsReserves (p p' : Pool P A) (zeroForOne : Bool) (delta : BalanceDelta) : Prop where
  input : reserveBetween zeroForOne p.ticks.snapshot p.state.sqrtPriceX96 p'.state.sqrtPriceX96 ≤
    (delta.input zeroForOne : ℚ)
  output : (delta.output zeroForOne : ℚ) ≤ reserveBetween (!zeroForOne) p.ticks.snapshot
    p.state.sqrtPriceX96 p'.state.sqrtPriceX96
  liquidity : forall x, Between p.state.sqrtPriceX96 p'.state.sqrtPriceX96 x ->
    0 ≤ profile p.ticks.snapshot x
  kept : profile p'.ticks.snapshot = profile p.ticks.snapshot
  down : zeroForOne = true -> p'.state.sqrtPriceX96 ≤ p.state.sqrtPriceX96
  up : zeroForOne = false -> p.state.sqrtPriceX96 ≤ p'.state.sqrtPriceX96

theorem Sound.swap_reserves (hp : p.Sound) (h : p.Swaps params (.ok result) p') :
    SwapsReserves p p' params.zeroForOne result.swapDelta := by
  rcases h with ⟨fuel, h⟩
  generalize hlist : p.swapComputations params fuel = list
  have hcases := swap_cases h
  rw [hlist] at hcases
  cases hcases with
  | @empty ctx hzero =>
      have hside (z : Bool) : BalanceDelta.default.input z = 0 ∧
          BalanceDelta.default.output z = 0 := by
        cases z <;> exact ⟨rfl, rfl⟩
      refine ⟨?_, ?_, fun x hx => ?_, rfl, fun _ => le_refl _, fun _ => le_refl _⟩
      · unfold reserveBetween
        rw [held_self]
        exact_mod_cast le_of_eq (hside _).1.symm
      · unfold reserveBetween
        rw [held_self]
        exact_mod_cast le_of_eq (hside _).2
      · unfold Between at hx
        omega
  | @done ctx _ b delta hrun hhalt hdelta =>
      have hstart := hrun.start hp.toUsable
      have hreserves := SwapContext.run_reserves hrun.run hstart (hp.follows params)
      have hprice := SwapContext.run_price hrun.run hstart
      have hamounts := hrun.swapDelta hp.toUsable hdelta
      rw [hrun.zeroForOne] at hreserves hprice
      have hgross : (list.map fun c => c.swapStep.amountIn).sum ≤
          (list.map fun c => c.swapStep.amountIn + c.swapStep.feeAmount).sum := by
        apply List.sum_le_sum
        intro c _
        exact Nat.le_add_right _ _
      refine ⟨?_, ?_, hreserves.2.2.1, hreserves.2.2.2, hprice.1, hprice.2⟩
      · refine hreserves.1.trans ?_
        show _ ≤ ((delta.input params.zeroForOne : Int) : ℚ)
        rw [hamounts.1, Int.cast_natCast]
        exact Nat.cast_le.mpr hgross
      · refine le_trans ?_ hreserves.2.1
        show ((delta.output params.zeroForOne : Int) : ℚ) ≤ _
        rw [hamounts.2, Int.cast_natCast]

theorem input_of_zero (hzero : params.amountSpecified = 0)
    (h : p.Swaps params (.ok result) p') : result.swapDelta.input params.zeroForOne = 0 := by
  rcases h with ⟨fuel, h⟩
  generalize hlist : p.swapComputations params fuel = list
  have hcases := swap_cases h
  rw [hlist] at hcases
  cases hcases with
  | empty _ =>
      show BalanceDelta.default.input params.zeroForOne = 0
      cases params.zeroForOne <;> rfl
  | done hrun _ _ =>
      exact absurd hzero hrun.amount

/-- Whatever a swap pays, selling it back pays no more than the swap took in. -/
theorem swap_back_le [PositionsAccess P] (hp : p.Accepted)
    (hfirst : p.Swaps params (.ok result) p')
    (hdirection : back.zeroForOne = !params.zeroForOne)
    (hamount : back.amountSpecified = -result.swapDelta.output params.zeroForOne)
    (hsecond : p'.Swaps back (.ok result') p'') :
    result'.swapDelta.output back.zeroForOne ≤ result.swapDelta.input params.zeroForOne := by
  have hp' := hp.sound.swap hfirst
  have hthere := hp.sound.swap_reserves hfirst
  have hback := hp'.swap_reserves hsecond
  have hrespects := hp.sound.toUsable.respects hfirst
  have hrespects' := hp'.toUsable.respects hsecond
  have hsold : result'.swapDelta.input back.zeroForOne ≤
      result.swapDelta.output params.zeroForOne := by
    rcases lt_or_eq_of_le hrespects.output with hpos | hzero
    · have hin := hrespects'.exactIn (by omega)
      omega
    · rw [input_of_zero (by omega) hsecond]
      exact hrespects.output
  have hsold' : (result'.swapDelta.input back.zeroForOne : ℚ) ≤
      result.swapDelta.output params.zeroForOne := by exact_mod_cast hsold
  rw [hdirection] at hsold'
  have hinput := hback.input
  have houtput := hback.output
  have hliquidity := hback.liquidity
  rw [hdirection] at hinput houtput ⊢
  rw [Bool.not_not] at houtput
  unfold reserveBetween at hinput houtput
  rw [hthere.kept] at hinput houtput hliquidity
  have hbought := hthere.output
  have hpaid := hthere.input
  unfold reserveBetween at hbought hpaid
  rw [held_comm] at hbought hpaid
  -- Both swaps lie on the same side of the price between them.
  have hside : p'.state.sqrtPriceX96 ≤ p''.state.sqrtPriceX96 ∧
      p'.state.sqrtPriceX96 ≤ p.state.sqrtPriceX96 ∨
        p''.state.sqrtPriceX96 ≤ p'.state.sqrtPriceX96 ∧
          p.state.sqrtPriceX96 ≤ p'.state.sqrtPriceX96 := by
    have hdown := hback.down
    have hup := hback.up
    rw [hdirection] at hdown hup
    cases hz : params.zeroForOne with
    | true => exact Or.inl ⟨hup (by rw [hz]; rfl), hthere.down hz⟩
    | false => exact Or.inr ⟨hdown (by rw [hz]; rfl), hthere.up hz⟩
  have hpositive {q : Nat} (hq : 0 < q) {x : Nat} {token0 : Bool}
      (hx : Between p'.state.sqrtPriceX96 q x) : 0 < unitReserve token0 x := by
    have hprice := hp'.price.pos
    unfold Between at hx
    exact unitReserve_pos (by omega)
  have hle : held (unitReserve params.zeroForOne) (profile p.ticks.snapshot)
        p'.state.sqrtPriceX96 p''.state.sqrtPriceX96 ≤
      held (unitReserve params.zeroForOne) (profile p.ticks.snapshot)
        p'.state.sqrtPriceX96 p.state.sqrtPriceX96 :=
    held_le_held hside (fun x hx => hpositive (hp'.swap hsecond).price.pos hx)
      (fun x hx => le_of_lt (hpositive hp.sound.price.pos hx)) hliquidity
      (fun x hx => hthere.liquidity x hx.symm)
      ((hinput.trans hsold').trans hbought)
  have hresult := (houtput.trans hle).trans hpaid
  exact_mod_cast hresult

end RoundTrip

end Pool

namespace Sample

def sellBack : SwapParamsInner :=
  { zeroForOne := false
    amountSpecified := -996006981039903
    sqrtPriceLimit := maxSqrtPrice - 1
    lpFeeOverride := none
    amountFits := by decide
    limitValid := by decide }

def resultBack : SwapResult :=
  { swapDelta := { amount0 := 994011970128583, amount1 := -996006981039903 }
    amountToProtocol := 0
    swapFee := swapFee.oneForZeroSwapFee
    sqrtPriceX96 := 79227925778855460039635126120
    tick := -1
    liquidity := 10 ^ 18 }

end Sample

theorem Pool.swap_back_le_sample :
    Sample.resultBack.swapDelta.output false ≤ Sample.result.swapDelta.input true := by
  have hfirst : (Sample.restored.swap Sample.sell 3).map Prod.fst =
      some (.ok Sample.result) := by
    decide +kernel
  have hsecond : ((Sample.swapped Sample.restored Sample.sell 3).swap Sample.sellBack 3).map
      Prod.fst = some (.ok Sample.resultBack) := by
    decide +kernel
  exact swap_back_le Sample.restored_accepted ⟨3, Sample.swap_eq hfirst⟩ rfl (by decide)
    ⟨3, Sample.swap_eq hsecond⟩

end RmUniswap
