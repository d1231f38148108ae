import RmUniswap.Math.SwapAfford
import RmUniswap.Pool.SwapSplit

/-!
# The price of an exact output

A swap for an exact output takes something in. Given as an exact input to the same
pool, that amount pays out at least the same output: the two loops cross the same
ticks side by side, and where the first one stops short of a target the second one
goes at least as far.
-/

namespace RmUniswap

open Foundation

variable {A : Type} [LawfulAllocator TickSlabValue A]

namespace SwapContext

section Afford

variable {ctx : SwapContext} {a b a' b' : SwapLoopState × TickSlab A} {c c' : StepComputations}
  {cs cs' : List StepComputations} {m : Int} {st : PoolState}

theorem Iterates.freed_of_free (h : ctx.Live a) (hi : ctx.Iterates a c b)
    (hfree : c.swapStep.gross = 0) : c.swapStep.amountOut = 0 := by
  have hready := h.invariant.ready
  have hclamp := hready.clampedTarget hi.running (h.invariant.target_spec hi.running)
  have hne : a.1.amountSpecifiedRemaining ≠ 0 := fun hz => hi.running (Or.inl (Or.inl hz))
  have hpositive : 0 < a.1.liquidity := Nat.pos_of_ne_zero fun hz => hi.running (Or.inr hz)
  have hsound := (computeSwapStep_sound hready.price hclamp.1 hpositive hready.liquidity
    hready.fee hne hready.remaining hi.advances.swapStep).1
  have hinput := hsound.input_le hready.price.pos
  have houtput := hsound.output_le hready.price.pos
  have hstay : a.1.sqrtPriceX96 = c.swapStep.sqrtRatioNextX96 := by
    by_contra hmove
    have hpos := inputOfMove_pos hready.price.pos hsound.valid.pos hpositive hmove
    unfold SwapStep.gross at hfree
    omega
  rw [← hstay, outputOfMove_self] at houtput
  exact Nat.le_zero.mp houtput

theorem run_freed_of_free (h : Run ctx.Iterates a cs b) (ha : ctx.Live a)
    (hfree : taken cs = 0) : freed cs = 0 := by
  induction h with
  | nil _ =>
      rfl
  | @cons a mid b c cs hi _ ih =>
      rw [taken_cons] at hfree
      have hfirst := hi.freed_of_free ha (by omega)
      have hrest := ih (hi.live ha) (by omega)
      rw [freed_cons]
      omega

theorem Iterates.affordSteps (h : ctx.Live a) (h' : (ctx.resumed m st).Live a')
    (hb : Beside a a') (hout : 0 < ctx.amountSpecified) (hin : m < 0)
    (hi : ctx.Iterates a c b) (hi' : (ctx.resumed m st).Iterates a' c' b')
    (hpaid : c.swapStep.gross ≤ a'.1.amountSpecifiedRemaining.natAbs) :
    AffordSteps a.1.sqrtPriceX96 (ctx.clampedTarget (ctx.stepTarget a.2 a.1.tick)) a.1.liquidity
      a.1.amountSpecifiedRemaining a'.1.amountSpecifiedRemaining ctx.fee c.swapStep
      c'.swapStep := by
  have hready := h.invariant.ready
  have hclamp := hready.clampedTarget hi.running (h.invariant.target_spec hi.running)
  exact
    { currentValid := hready.price
      targetValid := hclamp.1
      positive := Nat.pos_of_ne_zero fun hz => hi.running (Or.inr hz)
      liquidityFits := hready.liquidity
      feeValid := hready.fee
      exactOut := (h.remaining_sign hi.running).2.mpr hout
      exactIn := (h'.remaining_sign hi'.running).1.mpr hin
      fits := hready.remaining
      fits' := h'.invariant.ready.remaining
      wanted := hi.advances.swapStep
      bought := hb.swapStep h.invariant h'.invariant hi'
      paid := hpaid }

/-- Beside an exact output, an exact input of at least what it takes in pays out no
less. -/
theorem run_afford (h : Run ctx.Iterates a cs b) (ha : ctx.Live a)
    (hout : 0 < ctx.amountSpecified) (h' : Run (ctx.resumed m st).Iterates a' cs' b')
    (hhalt' : (ctx.resumed m st).Halted b'.1) (ha' : (ctx.resumed m st).Live a') (hin : m < 0)
    (hb : Beside a a') (hpaid : taken cs ≤ a'.1.amountSpecifiedRemaining.natAbs)
    (hsmall : ctx.zeroForOne = true -> a'.1.amountSpecifiedRemaining.natAbs < 2 ^ 95) :
    freed cs ≤ freed cs' := by
  induction h generalizing a' cs' with
  | nil a =>
      exact Nat.zero_le _
  | @cons a mid b c cs hi hlast ih =>
      by_cases hzero : a'.1.amountSpecifiedRemaining = 0
      · rw [hzero] at hpaid
        rw [run_freed_of_free (Run.cons hi hlast) ha (Nat.le_zero.mp hpaid)]
        exact Nat.zero_le _
      · rw [taken_cons] at hpaid
        cases h' with
        | nil _ =>
            exact absurd hhalt' (hb.running hi.running hzero)
        | @cons _ mid' _ c' cs' hi' hlast' =>
            have hsteps := hi.affordSteps ha ha' hb hout hin hi' (by omega)
            rw [freed_cons, freed_cons]
            by_cases hcovers : Covers a.1.sqrtPriceX96
                (ctx.clampedTarget (ctx.stepTarget a.2 a.1.tick)) a.1.liquidity
                a.1.amountSpecifiedRemaining ctx.fee
            · have hequal := hsteps.same_of_covers hcovers
              have hprice : c'.next.sqrtPriceX96 = c.next.sqrtPriceX96 := by
                rw [hi.advances.price, hi'.advances.price, hequal]
              have hmid := hi.beside_of_price ha.invariant ha'.invariant hb hi' hprice
              have hused' := hi'.rest ha'
              unfold used at hused'
              change _ + (if m < 0 then _ else _) = _ at hused'
              rw [if_pos hin, taken_cons, taken_nil, Nat.add_zero, hequal] at hused'
              have hmore := ih (hi.live ha) hlast' (hi'.live ha') hmid (by omega)
                fun hz => by
                  have hlt := hsmall hz
                  omega
              rw [hequal]
              omega
            · -- the exact output ends with this step
              have hspent := hi.spent ha hcovers
              rcases run_of_halted hlast (Or.inl (Or.inl hspent)) with ⟨rfl, rfl⟩
              have hclamp := ha.invariant.ready.clampedTarget hi.running
                (ha.invariant.target_spec hi.running)
              have hdirect := hsteps.output_le
                (Direct.of_lt hsteps.liquidityFits hsteps.currentValid.lt_two_pow fun hdown => by
                  refine hsmall ?_
                  cases hz : ctx.zeroForOne with
                  | true => rfl
                  | false =>
                      refine absurd ?_ hcovers
                      rw [le_antisymm (of_decide_eq_true hdown) (hclamp.2.2 hz).1]
                      exact covers_self)
              rw [freed_nil]
              omega

end Afford

end SwapContext

/-!
# Swaps
-/

/-- An exact output and an exact input of the same direction, limit and fee. -/
structure SwapParamsInner.Buys (buy want : SwapParamsInner) : Prop where
  direction : buy.zeroForOne = want.zeroForOne
  limit : buy.sqrtPriceLimit = want.sqrtPriceLimit
  feeOverride : buy.lpFeeOverride = want.lpFeeOverride
  exactOut : 0 < want.amountSpecified
  exactIn : buy.amountSpecified < 0

namespace Pool

variable {P : Type} {p p' q : Pool P A} {buy want : SwapParamsInner} {result result' : SwapResult}

theorem Swaps.afford (hp : p.Usable) (hbuys : buy.Buys want)
    (hsmall : want.zeroForOne = true -> buy.amountSpecified.natAbs < 2 ^ 95)
    (h : p.Swaps want (.ok result) p') (h' : p.Swaps buy (.ok result') q)
    (hpaid : result.swapDelta.input want.zeroForOne ≤ -buy.amountSpecified) :
    result.swapDelta.output want.zeroForOne ≤ result'.swapDelta.output want.zeroForOne := by
  have hout := hbuys.exactOut
  have hin := hbuys.exactIn
  rcases h with ⟨fuel, h⟩
  rcases h' with ⟨fuel', h'⟩
  generalize hlist : p.swapComputations want fuel = cs
  generalize hlist' : p.swapComputations buy fuel' = cs'
  have hcases := swap_cases h
  have hcases' := swap_cases h'
  rw [hlist] at hcases
  rw [hlist'] at hcases'
  cases hcases with
  | empty hzero => omega
  | @done ctx cs b delta hrun hhalt hdelta =>
      cases hcases' with
      | empty hzero => omega
      | @done ctx' cs' b' delta' hrun' hhalt' hdelta' =>
          have hctx' := hrun.resumed hrun' rfl rfl hbuys.direction hbuys.limit hbuys.feeOverride
          subst hctx'
          have hspecified := hrun.amountSpecified
          have hzero := hrun.zeroForOne
          have hsides := hrun.swapDelta hp hdelta
          have hsides' := hrun'.swapDelta hp hdelta'
          have hcost : SwapContext.taken cs ≤ buy.amountSpecified.natAbs := by
            have hinput : delta.input want.zeroForOne = (SwapContext.taken cs : Nat) := hsides.1
            change delta.input want.zeroForOne ≤ _ at hpaid
            omega
          have hbetter := SwapContext.run_afford hrun.run (hrun.live hp) (by omega) hrun'.run
            hhalt' (hrun'.live hp) hin ⟨rfl, rfl, rfl, rfl⟩ hcost
            (fun hz => hsmall (hzero.symm.trans hz))
          rw [hbuys.direction] at hsides'
          show delta.output _ ≤ delta'.output _
          rw [hsides.2, hsides'.2]
          exact_mod_cast hbetter

/-- What an exact output costs is enough for it: given as an exact input to the same
pool, the amount it took in, or more, pays out at least as much. An exact input of
token0 is taken below the bound at which the price formula of the code changes. -/
theorem swap_afford [PositionsAccess P] (hp : p.Reachable) (hbuys : buy.Buys want)
    (hsmall : want.zeroForOne = true -> buy.amountSpecified.natAbs < 2 ^ 95)
    (h : p.Swaps want (.ok result) p') (h' : p.Swaps buy (.ok result') q)
    (hpaid : result.swapDelta.input want.zeroForOne ≤ -buy.amountSpecified) :
    result.swapDelta.output want.zeroForOne ≤ result'.swapDelta.output want.zeroForOne :=
  Swaps.afford hp.usable hbuys hsmall h h' hpaid

end Pool

namespace Sample

/-- The output of {lit}`sell`, as an exact output. -/
def want : SwapParamsInner :=
  { sell with
    amountSpecified := 996006981039903
    amountFits := by decide }

def wanted : SwapResult :=
  { result with sqrtPriceX96 := 79149250711305166359852633131 }

end Sample

theorem Pool.swap_afford_sample :
    Sample.wanted.swapDelta.output true ≤ Sample.result.swapDelta.output true := by
  have hbuys : Sample.sell.Buys Sample.want := ⟨rfl, rfl, rfl, by decide, by decide⟩
  have hwant : (Sample.restored.swap Sample.want 3).map Prod.fst = some (.ok Sample.wanted) := by
    decide +kernel
  have hbuy : (Sample.restored.swap Sample.sell 3).map Prod.fst = some (.ok Sample.result) := by
    decide +kernel
  exact Pool.swap_afford Sample.restored_accepted.reachable hbuys (fun _ => by decide)
    ⟨3, Sample.swap_eq hwant⟩ ⟨3, Sample.swap_eq hbuy⟩ (by decide)

end RmUniswap
