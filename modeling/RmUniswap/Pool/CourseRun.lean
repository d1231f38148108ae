import RmUniswap.Pool.Course

/-!
# Swaps on their course

An iteration of the loop pays for the next leg of the course, so a run pays for one leg
after the other and leaves the payments that are still to come. A leg whose payment fits
is paid for.
-/

namespace RmUniswap

open Foundation

variable {A : Type} [LawfulAllocator TickSlabValue A]

namespace SwapContext

def pays (ctx : SwapContext) (fuel : Nat) (a : SwapLoopState × TickSlab A) : List Payment :=
  payments ctx.fee
    (ctx.course a.2.snapshot fuel a.1.sqrtPriceX96 a.1.tick a.1.liquidity)
    a.1.amountSpecifiedRemaining

def nextPayment (ctx : SwapContext) (a : SwapLoopState × TickSlab A) : Payment :=
  { leg := ctx.stretch (ctx.stepTarget a.2 a.1.tick) a.1.sqrtPriceX96 a.1.liquidity
    step := plainStep a.1.sqrtPriceX96 (ctx.clampedTarget (ctx.stepTarget a.2 a.1.tick))
      a.1.liquidity a.1.amountSpecifiedRemaining ctx.fee }

def paymentOf (ctx : SwapContext) (c : StepComputations) : Payment :=
  { leg := ctx.stretch c.target c.start.sqrtPriceX96 c.start.liquidity
    step := c.swapStep }

section Pays

variable {ctx : SwapContext} {a b : SwapLoopState × TickSlab A} {c : StepComputations}
  {cs : List StepComputations} {fuel : Nat}

theorem pays_halted (h : ctx.Halted a.1) (fuel : Nat) : ctx.pays fuel a = [] := by
  unfold pays
  rcases h with (hfilled | hlimit) | hdry
  · rw [hfilled, payments_zero]
  · rw [course_ended (Or.inl hlimit), payments_nil]
  · rw [course_ended (Or.inr hdry), payments_nil]

theorem pays_running (h : ctx.Invariant a) (hrun : ¬ ctx.Halted a.1) (fuel : Nat) :
    ctx.pays (fuel + 1) a = ctx.nextPayment a ::
      payments ctx.fee
        ((ctx.beyond a.2.snapshot (ctx.nextPayment a).leg).elim [] fun liquidity =>
          ctx.course a.2.snapshot fuel (ctx.clampedTarget (ctx.stepTarget a.2 a.1.tick))
            (if ctx.zeroForOne then (ctx.stepTarget a.2 a.1.tick).tickIndex - 1
            else (ctx.stepTarget a.2 a.1.tick).tickIndex) liquidity)
        (if a.1.amountSpecifiedRemaining < 0 then
          a.1.amountSpecifiedRemaining + (ctx.nextPayment a).gross
        else
          a.1.amountSpecifiedRemaining - (ctx.nextPayment a).step.amountOut) := by
  have hgo : ¬ (a.1.sqrtPriceX96 = ctx.sqrtPriceLimitX96 ∨ a.1.liquidity = 0) := by
    rintro (hlimit | hdry)
    · exact hrun (Or.inl (Or.inr hlimit))
    · exact hrun (Or.inr hdry)
  have hamount : a.1.amountSpecifiedRemaining ≠ 0 := fun hz => hrun (Or.inl (Or.inl hz))
  have htarget := stepTarget_eq (t := a.1.tick) h.holds h.ready.inTick.bounds
  unfold pays
  rw [course_cons hgo, ← htarget, payments_cons hamount]
  rfl

theorem advance_nextPayment (h : ctx.Invariant a) (hrun : ¬ ctx.Halted a.1)
    (hc : ctx.advance (ctx.stepTarget a.2 a.1.tick) a.1 = .ok c) :
    ctx.nextPayment a = ctx.paymentOf c := by
  have hadvances := advance_eq_ok hc
  have hclamp := h.ready.clampedTarget hrun (h.target_spec hrun)
  have hpositive : 0 < a.1.liquidity := Nat.pos_of_ne_zero fun hz => hrun (Or.inr hz)
  have hamount : a.1.amountSpecifiedRemaining ≠ 0 := fun hz => hrun (Or.inl (Or.inl hz))
  have hstep := computeSwapStep_eq h.ready.price hclamp.1 hpositive h.ready.liquidity
    h.ready.fee hamount h.ready.remaining hadvances.swapStep
  unfold nextPayment paymentOf
  rw [hadvances.fromStart, hadvances.toTarget, hstep]

theorem reaches_stop (h : ctx.Invariant a) (hrun : ¬ ctx.Halted a.1)
    (hc : ctx.Advances (ctx.stepTarget a.2 a.1.tick) a.1 c)
    (hreached : c.next.sqrtPriceX96 = (ctx.stepTarget a.2 a.1.tick).sqrtPriceX96) :
    c.next.sqrtPriceX96 = ctx.clampedTarget (ctx.stepTarget a.2 a.1.tick) := by
  have ht := h.target_spec hrun
  have hclamp := h.ready.clampedTarget hrun ht
  cases hz : ctx.zeroForOne with
  | true =>
      have hmove := (h.ready.moves_down hrun hz ht hc).1.target_le
      rw [← hc.price] at hmove
      exact le_antisymm (hreached.trans_le (hclamp.2.1 hz).2.1) hmove
  | false =>
      have hmove := (h.ready.moves_up hrun hz ht hc).1.le_target
      rw [← hc.price] at hmove
      exact le_antisymm hmove ((hclamp.2.2 hz).2.1.trans_eq hreached.symm)

theorem paymentOf_crossed (h : ctx.Invariant a) (hrun : ¬ ctx.Halted a.1)
    (hc : ctx.Advances (ctx.stepTarget a.2 a.1.tick) a.1 c) :
    (ctx.paymentOf c).crossed = c.crossed := by
  have hprice := hc.price
  have hstop := reaches_stop h hrun hc
  rw [← hc.toTarget] at hstop
  unfold Payment.crossed paymentOf stretch StepComputations.crossed StepComputations.crossing
  dsimp only
  rw [← hprice]
  by_cases hreached : c.next.sqrtPriceX96 = c.target.sqrtPriceX96
  · rw [if_pos (hstop hreached), if_pos ((hstop hreached).symm.trans hreached), if_pos hreached]
  · rw [if_neg hreached, Option.map_none]
    split
    · rename_i hclamped
      rw [if_neg fun hcut => hreached (hclamped.trans hcut)]
    · rfl

theorem clampedTarget_of_ne {target : StepTarget}
    (h : ctx.clampedTarget target ≠ target.sqrtPriceX96) :
    ctx.clampedTarget target = ctx.sqrtPriceLimitX96 := by
  unfold clampedTarget getSqrtPriceTarget at *
  split
  · rename_i hz
    rw [if_pos hz] at h
    exact (max_choice _ _).resolve_left h
  · rename_i hz
    rw [if_neg hz] at h
    exact (min_choice _ _).resolve_left h

theorem Iterates.remaining (h : ctx.Live a) (hi : ctx.Iterates a c b) :
    b.1.amountSpecifiedRemaining =
      if a.1.amountSpecifiedRemaining < 0 then
        a.1.amountSpecifiedRemaining + (ctx.paymentOf c).gross
      else a.1.amountSpecifiedRemaining - (ctx.paymentOf c).step.amountOut := by
  have hsign := h.remaining_sign hi.running
  have hsettles := hi.advances.settles
  have hne : a.1.amountSpecifiedRemaining ≠ 0 := fun hz => hi.running (Or.inl (Or.inl hz))
  rw [hi.next h.invariant]
  unfold Payment.gross paymentOf
  dsimp only
  split
  · rename_i hneg
    have hremaining := (hsettles.exactIn (le_of_lt (hsign.1.mp hneg))).1
    dsimp only at hremaining
    push_cast
    exact hremaining
  · have hremaining := (hsettles.exactOut (hsign.2.mp (by omega))).1
    exact hremaining

/-- Beyond a leg that is passed with a rest left, the course goes on from the next state. -/
theorem Iterates.course (h : ctx.Live a) (hi : ctx.Iterates a c b)
    (hgo : b.1.amountSpecifiedRemaining ≠ 0) (fuel : Nat) :
    ((ctx.beyond a.2.snapshot (ctx.nextPayment a).leg).elim [] fun liquidity =>
        ctx.course a.2.snapshot fuel (ctx.clampedTarget (ctx.stepTarget a.2 a.1.tick))
          (if ctx.zeroForOne then (ctx.stepTarget a.2 a.1.tick).tickIndex - 1
          else (ctx.stepTarget a.2 a.1.tick).tickIndex) liquidity) =
      ctx.course b.2.snapshot fuel b.1.sqrtPriceX96 b.1.tick b.1.liquidity := by
  have hreached := hi.reaches_clamped h hgo
  have hadvances := hi.advances
  have hcrossed := paymentOf_crossed h.invariant hi.running hadvances
  have hnext := advance_nextPayment h.invariant hi.running hi.computes
  have hprice : b.1.sqrtPriceX96 = ctx.clampedTarget (ctx.stepTarget a.2 a.1.tick) := by
    rw [hi.next h.invariant]
    exact hreached
  have hstop : (ctx.paymentOf c).crossed = (ctx.nextPayment a).leg.tick := by
    have hend : (ctx.nextPayment a).step.sqrtRatioNextX96 = (ctx.nextPayment a).leg.stop := by
      rw [hnext]
      show c.swapStep.sqrtRatioNextX96 = ctx.clampedTarget c.target
      rw [← hadvances.price, hreached, hadvances.toTarget]
    rw [← hnext]
    exact if_pos hend
  rw [course_congr (hi.accounting h.invariant), hprice]
  by_cases hcut : ctx.clampedTarget (ctx.stepTarget a.2 a.1.tick) =
      (ctx.stepTarget a.2 a.1.tick).sqrtPriceX96
  · have htick : b.1.tick = if ctx.zeroForOne then (ctx.stepTarget a.2 a.1.tick).tickIndex - 1
        else (ctx.stepTarget a.2 a.1.tick).tickIndex := by
      rw [hi.next h.invariant]
      show c.next.tick = _
      rw [hadvances.tick, tickAfter, if_pos (hreached.trans hcut)]
    have hbeyond : ctx.beyond a.2.snapshot (ctx.nextPayment a).leg = some b.1.liquidity := by
      unfold beyond
      rw [← hstop, hcrossed]
      rcases hi.cases h.invariant with ⟨hnone, hb, _⟩ | ⟨k, info, hsome, hget, _, _, hsum, hlt⟩
      · rw [hnone, hb, hadvances.liquidity]
        rfl
      · rw [hsome]
        dsimp only
        rw [tickAt_some hget]
        exact checkedAddSigned_eq_some.mpr ⟨hsum, hlt⟩
    rw [hbeyond, Option.elim_some, htick]
  · have hlimit := clampedTarget_of_ne hcut
    rw [hlimit, course_ended (Or.inl rfl)]
    cases ctx.beyond a.2.snapshot (ctx.nextPayment a).leg with
    | none => rfl
    | some liquidity => exact course_ended (Or.inl rfl)

theorem Iterates.pays (h : ctx.Live a) (hi : ctx.Iterates a c b) (fuel : Nat) :
    ctx.pays (fuel + 1) a = ctx.paymentOf c :: ctx.pays fuel b := by
  have hnext := advance_nextPayment h.invariant hi.running hi.computes
  rw [pays_running h.invariant hi.running, hnext, ← hi.remaining h]
  congr 1
  by_cases hzero : b.1.amountSpecifiedRemaining = 0
  · unfold SwapContext.pays
    rw [hzero, payments_zero, payments_zero]
  · rw [← hnext, hi.course h hzero]
    rfl

theorem run_pays (h : Run ctx.Iterates a cs b) (ha : ctx.Live a) (fuel : Nat) :
    ctx.pays (cs.length + fuel) a = cs.map ctx.paymentOf ++ ctx.pays fuel b := by
  induction h with
  | nil a =>
      rw [List.length_nil, Nat.zero_add, List.map_nil, List.nil_append]
  | @cons a mid b c cs hone _ ih =>
      rw [List.length_cons, Nat.add_right_comm, hone.pays ha, ih (hone.live ha), List.map_cons,
        List.cons_append]

theorem underflow_beyond (h : ctx.Live a) (hrun : ¬ ctx.Halted a.1)
    (hc : ctx.advance (ctx.stepTarget a.2 a.1.tick) a.1 = .ok c) {e : Error} {ticks : TickSlab A}
    (hstep : ctx.step a.1 a.2 = (.error e, ticks)) :
    exists k, (ctx.paymentOf c).crossed = some k ∧
      ctx.beyond a.2.snapshot (ctx.paymentOf c).leg = none := by
  have hadvances := advance_eq_ok hc
  have hcrossed := paymentOf_crossed h.invariant hrun hadvances
  rcases step_cases h.invariant.ready hrun h.invariant.holds with
    ⟨e', he, _⟩ | ⟨c', hc', _, hcrosses⟩
  · rw [hc] at he
    cases he
  · rw [hc] at hc'
    cases hc'
    rw [hstep] at hcrosses
    cases hcrosses with
    | @underflow k info _ hsome hget _ hnone =>
        have htick : (ctx.paymentOf c).leg.tick = some k := by
          rw [hsome] at hcrossed
          unfold Payment.crossed at hcrossed
          split at hcrossed
          · exact hcrossed
          · cases hcrossed
        have hstart : (ctx.paymentOf c).leg.liquidity = a.1.liquidity := by
          show c.start.liquidity = _
          rw [hadvances.fromStart]
        refine ⟨k, hcrossed.trans hsome, ?_⟩
        unfold beyond
        rw [htick]
        dsimp only
        rw [tickAt_some hget, hstart]
        exact hnone

theorem pays_underflow (h : ctx.Live a) (hrun : ¬ ctx.Halted a.1)
    (hc : ctx.advance (ctx.stepTarget a.2 a.1.tick) a.1 = .ok c) {e : Error} {ticks : TickSlab A}
    (hstep : ctx.step a.1 a.2 = (.error e, ticks)) (fuel : Nat) :
    ctx.pays (fuel + 1) a = [ctx.paymentOf c] := by
  rcases underflow_beyond h hrun hc hstep with ⟨_, _, hnone⟩
  rw [pays_running h.invariant hrun, advance_nextPayment h.invariant hrun hc, hnone,
    Option.elim_none, payments_nil]

end Pays

end SwapContext

end RmUniswap
