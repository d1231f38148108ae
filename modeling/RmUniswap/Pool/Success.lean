import RmUniswap.Pool.CourseTotal

/-!
# Swaps that succeed

A swap succeeds exactly when its payments cover their protocol shares, cross no tick
whose liquidity does not fit, and add up to amounts and to a growth that fit.
-/

namespace RmUniswap

open Foundation

variable {A : Type} [LawfulAllocator TickSlabValue A]

namespace Pool

variable {P : Type}

/-- The growth that the payments of a swap earn a unit of liquidity. -/
def earnings (p : Pool P A) (swapFee : SwapFee) (params : SwapParamsInner) : Nat :=
  ((p.payments swapFee params).map fun x =>
    x.growth (swapFee.swapFee params.zeroForOne) (swapFee.protocolFee.pips params.zeroForOne)).sum

/-- The payments of a swap can be settled. -/
structure Settles (p : Pool P A) (swapFee : SwapFee) (params : SwapParamsInner) : Prop where
  shares : forall x, x ∈ p.payments swapFee params ->
    x.share (swapFee.swapFee params.zeroForOne) (swapFee.protocolFee.pips params.zeroForOne) ≤
      x.step.feeAmount
  crossings : forall x k, x ∈ p.payments swapFee params -> x.crossed = some k ->
    (p.swapContext .exclusive swapFee params).beyond p.ticks.snapshot x.leg ≠ none
  input : ((p.payments swapFee params).map Payment.gross).sum ≤ 2 ^ 127
  output : ((p.payments swapFee params).map fun x => x.step.amountOut).sum < 2 ^ 127

end Pool

/-!
# Runs that are settled
-/

namespace SwapContext

section Runs

variable {ctx : SwapContext} {a b : SwapLoopState × TickSlab A} {c : StepComputations}
  {cs : List StepComputations} {ticks : SortedMap Int TickInfoInner}

theorem Iterates.earns (h : ctx.Live a) (hi : ctx.Iterates a c b) :
    b.1.feeGrowthGlobalX128 = a.1.feeGrowthGlobalX128 +
      (ctx.paymentOf c).growth ctx.fee ctx.protocolFeePips := by
  have hpositive : 0 < a.1.liquidity := Nat.pos_of_ne_zero fun hz => hi.running (Or.inr hz)
  rw [hi.next h.invariant]
  exact (advance_earns hpositive h.invariant.ready.liquidity hi.computes).2.1

theorem run_earns (h : Run ctx.Iterates a cs b) (ha : ctx.Live a) :
    b.1.feeGrowthGlobalX128 = a.1.feeGrowthGlobalX128 +
      (cs.map fun c => (ctx.paymentOf c).growth ctx.fee ctx.protocolFeePips).sum := by
  have hsum := h.sum_eq (f := fun a => a.1.feeGrowthGlobalX128)
    (g := fun c => (ctx.paymentOf c).growth ctx.fee ctx.protocolFeePips)
    (fun _ _ _ hs hi => ⟨hi.live hs, hi.earns hs⟩) ha
  exact hsum

theorem Iterates.beyond (h : ctx.Live a) (hi : ctx.Iterates a c b) {k : Int}
    (hcross : (ctx.paymentOf c).crossed = some k) :
    ctx.beyond a.2.snapshot (ctx.paymentOf c).leg ≠ none := by
  have htick : (ctx.paymentOf c).leg.tick = some k := by
    unfold Payment.crossed at hcross
    split at hcross
    · exact hcross
    · cases hcross
  rw [paymentOf_crossed h.invariant hi.running hi.advances] at hcross
  rcases hi.cases h.invariant with ⟨hnone, _, _⟩ | ⟨j, info, hsome, hget, _, _, hsum, hlt⟩
  · rw [hnone] at hcross
    cases hcross
  · rw [hsome] at hcross
    cases hcross
    have hstart : (ctx.paymentOf c).leg.liquidity = a.1.liquidity := by
      show c.start.liquidity = _
      rw [hi.advances.fromStart]
    unfold SwapContext.beyond
    rw [htick]
    dsimp only
    rw [tickAt_some hget, hstart, checkedAddSigned_eq_some.mpr ⟨hsum, hlt⟩]
    exact Option.some_ne_none _

theorem run_settled (h : Run ctx.Iterates a cs b) (ha : ctx.Live a) :
    forall x, x ∈ cs.map ctx.paymentOf ->
      x.share ctx.fee ctx.protocolFeePips ≤ x.step.feeAmount ∧
        forall k, x.crossed = some k -> ctx.beyond a.2.snapshot x.leg ≠ none := by
  have hall := h.forall_labels
    (I := fun s => ctx.Live s ∧
      Positions.accounting s.2.snapshot = Positions.accounting a.2.snapshot)
    (Q := fun c => (ctx.paymentOf c).share ctx.fee ctx.protocolFeePips ≤ c.swapStep.feeAmount ∧
      forall k, (ctx.paymentOf c).crossed = some k ->
        ctx.beyond a.2.snapshot (ctx.paymentOf c).leg ≠ none)
    (fun s c s' hs hi => by
      have hpositive : 0 < s.1.liquidity := Nat.pos_of_ne_zero fun hz => hi.running (Or.inr hz)
      have hearns := advance_earns hpositive hs.1.invariant.ready.liquidity hi.computes
      refine ⟨⟨hi.live hs.1, (hi.accounting hs.1.invariant).trans hs.2⟩, hearns.1,
        fun k hcross => ?_⟩
      rw [← beyond_congr hs.2]
      exact hi.beyond hs.1 hcross)
    ⟨ha, rfl⟩
  intro x hx
  rcases List.mem_map.mp hx with ⟨c, hc, rfl⟩
  exact hall c hc

end Runs

end SwapContext

/-!
# Swaps
-/

namespace Pool

section Swaps

variable {P : Type} {p q : Pool P A} {params : SwapParamsInner} {ctx : SwapContext}
  {swapFee : SwapFee} {cs : List StepComputations} {b : SwapLoopState × TickSlab A}
  {result : SwapResult} {fuel : Nat}

theorem payments_of_zero (p : Pool P A) (swapFee : SwapFee) (h : params.amountSpecified = 0) :
    p.payments swapFee params = [] := by
  unfold payments
  dsimp only
  rw [h]
  split
  · exact payments_zero _
  · rfl

theorem settles_of_nil (h : p.payments swapFee params = []) :
    p.Settles swapFee params ∧ p.earnings swapFee params = 0 := by
  unfold earnings
  refine ⟨⟨fun x hx => ?_, fun x k hx => ?_, ?_, ?_⟩, ?_⟩
  · rw [h] at hx
    cases hx
  · rw [h] at hx
    cases hx
  · rw [h]
    exact Nat.zero_le _
  · rw [h]
    exact Nat.two_pow_pos 127
  · rw [h]
    rfl

theorem LoopRun.payments_halted (h : LoopRun p params ctx cs b) (hp : p.Usable)
    (hctx : ctx = p.swapContext .exclusive swapFee params) (hhalt : ctx.Halted b.1) :
    p.payments swapFee params = cs.map ctx.paymentOf := by
  by_cases hmode : 0 < ctx.amountSpecified -> ctx.fee.isMax = false
  · rcases h.payments_left hp hctx hmode with ⟨fuel, _, hpayments⟩
    rw [hpayments, SwapContext.pays_halted hhalt, List.append_nil]
  · push Not at hmode
    have hrun := h.run
    cases hrun with
    | nil _ =>
        subst hctx
        exact if_neg fun hgo => hmode.2 (hgo.2 hmode.1)
    | cons hone _ =>
        exact absurd (SwapContext.advance_isMax (h.live hp) hone.running hone.computes hmode.1)
          hmode.2

theorem LoopRun.totals (h : LoopRun p params ctx cs b) (hp : p.Usable) :
    ctx.charged b.1 = (((cs.map ctx.paymentOf).map Payment.gross).sum : Nat) ∧
      ctx.paid b.1 = (((cs.map ctx.paymentOf).map fun x => x.step.amountOut).sum : Nat) := by
  have hspecified := h.amountSpecified
  have hcharged0 : ctx.charged (p.swapStart params) = 0 :=
    SwapContext.charged_start hspecified.symm rfl
  have hpaid0 : ctx.paid (p.swapStart params) = 0 := SwapContext.paid_start hspecified.symm rfl
  have hcharged := SwapContext.run_charged h.run (h.start hp)
  have hpaid := SwapContext.run_paid h.run (h.start hp)
  rw [hcharged0, zero_add] at hcharged
  rw [hpaid0, zero_add] at hpaid
  rw [List.map_map, List.map_map]
  exact ⟨hcharged, hpaid⟩

theorem LoopRun.settles (h : LoopRun p params ctx cs b) (hp : p.Usable)
    (hctx : ctx = p.swapContext .exclusive swapFee params) (hhalt : ctx.Halted b.1)
    {delta : BalanceDelta} (hdelta : ctx.swapDelta b.1 = .ok delta) :
    p.Settles swapFee params ∧
      b.1.feeGrowthGlobalX128 = p.state.growth params.zeroForOne + p.earnings swapFee params := by
  have hpayments := h.payments_halted hp hctx hhalt
  have hsettled := SwapContext.run_settled h.run (h.live hp)
  have hgrowth := SwapContext.run_earns h.run (h.live hp)
  have htotals := h.totals hp
  have hfits := SwapContext.swapDelta_fits hdelta
  rw [SwapContext.swapDelta_eq_ok (by rw [h.amountSpecified]; exact h.amount) hdelta] at hfits
  have hamounts : ctx.charged b.1 ≤ 2 ^ 127 ∧ ctx.paid b.1 < 2 ^ 127 := by
    unfold BalanceDelta.Fits FitsSigned at hfits
    split at hfits
    · dsimp only at hfits
      omega
    · dsimp only at hfits
      omega
  have hearnings : p.earnings swapFee params =
      (cs.map fun c => (ctx.paymentOf c).growth ctx.fee ctx.protocolFeePips).sum := by
    unfold earnings
    rw [hpayments, List.map_map, hctx]
    rfl
  rw [htotals.1, htotals.2] at hamounts
  rw [hearnings, hgrowth]
  refine ⟨⟨fun x hx => ?_, fun x k hx hcross => ?_, ?_, ?_⟩, rfl⟩
  · rw [hpayments] at hx
    have hshare := (hsettled x hx).1
    rw [hctx] at hshare
    exact hshare
  · rw [hpayments] at hx
    rw [← hctx]
    exact (hsettled x hx).2 k hcross
  · rw [hpayments]
    exact_mod_cast hamounts.1
  · rw [hpayments]
    exact_mod_cast hamounts.2

theorem LoopRun.affordable (h : LoopRun p params ctx cs b) (hp : p.Usable)
    (hctx : ctx = p.swapContext .exclusive swapFee params)
    (hvalid : p.swapFee.protocolFee.isValid = true)
    (hfee : p.resolveSwapFee params = .ok swapFee) (hrun : ¬ ctx.Halted b.1)
    (hmode : 0 < ctx.amountSpecified -> ctx.fee.isMax = false)
    (hsettles : p.Settles swapFee params)
    (hgrowth : p.state.growth params.zeroForOne + p.earnings swapFee params < 2 ^ 256) :
    ctx.Affordable b := by
  rcases h.payments_left hp hctx hmode with ⟨fuel, _, hleft⟩
  rw [SwapContext.pays_running (h.live_final hp).invariant hrun] at hleft
  have hmetered := h.metered hp hrun
  have htotals := h.totals hp
  have hgrown := SwapContext.run_earns h.run (h.live hp)
  have hinput := hsettles.input
  have houtput := hsettles.output
  have hshare := hsettles.shares (ctx.nextPayment b) (by
    rw [hleft]
    exact List.mem_append_right _ List.mem_cons_self)
  have hpips : ctx.protocolFeePips ≤ maxProtocolFee := by
    rw [hctx]
    show swapFee.protocolFee.pips params.zeroForOne ≤ _
    rw [(resolveSwapFee_consistent hp.fees hfee).2]
    exact ProtocolFee.pips_le hvalid _
  have hearned : (cs.map fun c => (ctx.paymentOf c).growth ctx.fee ctx.protocolFeePips).sum +
      (ctx.nextPayment b).growth ctx.fee ctx.protocolFeePips ≤ p.earnings swapFee params := by
    unfold earnings
    rw [hleft, List.map_append, List.sum_append, List.map_map, List.map_cons, List.sum_cons,
      ← Nat.add_assoc, hctx]
    exact Nat.le_add_right _ _
  rw [hleft, List.map_append, List.sum_append, List.map_cons, List.sum_cons] at hinput houtput
  have hbound : (ctx.nextPayment b).gross ≤ 2 ^ 127 := by omega
  have hscaled := Nat.mul_le_mul hbound hpips
  have hstart : (p.swapStart params).feeGrowthGlobalX128 = p.state.growth params.zeroForOne := rfl
  have hgrown' : b.1.feeGrowthGlobalX128 = p.state.growth params.zeroForOne +
      (cs.map fun c => (ctx.paymentOf c).growth ctx.fee ctx.protocolFeePips).sum := hgrown
  have hshare' : (ctx.nextPayment b).share ctx.fee ctx.protocolFeePips ≤
      (ctx.nextPayment b).step.feeAmount := by
    rw [hctx] at hshare ⊢
    exact hshare
  have hprotocol := hmetered.protocol
  have hpaid := hmetered.paid.1
  exact
    { mode := hmode
      gross := by omega
      charged := ⟨by omega, by rw [htotals.1]; omega⟩
      paid := ⟨hpaid, by rw [htotals.2]; omega⟩
      protocol := hprotocol
      scaled := hscaled.trans_lt (by decide)
      share := hshare'
      growth := by omega }

theorem Settles.succeeds (hsettles : p.Settles swapFee params) (hp : p.Usable)
    (hvalid : p.swapFee.protocolFee.isValid = true)
    (hfee : p.resolveSwapFee params = .ok swapFee) (hamount : params.amountSpecified ≠ 0)
    (hlimit : checkLimit params.zeroForOne p.state.sqrtPriceX96 params.sqrtPriceLimit = .ok ())
    (hmode : 0 < params.amountSpecified -> (swapFee.swapFee params.zeroForOne).isMax = false)
    (hgrowth : p.state.growth params.zeroForOne + p.earnings swapFee params < 2 ^ 256) :
    exists fuel result q, p.swap params fuel = some (.ok result, q) := by
  rcases hp.runSwap_ends .exclusive hamount hfee hlimit (Nat.lt_succ_self _) with ⟨⟨r, q⟩, hr⟩
  cases r with
  | ok result => exact ⟨_, result, q, hr⟩
  | error e =>
      exfalso
      have hcases := swap_cases hr
      generalize p.swapComputations params _ = list at hcases
      have hcontext {ctx : SwapContext} {cs : List StepComputations}
          {b : SwapLoopState × TickSlab A} (hrun : LoopRun p params ctx cs b) :
          ctx = p.swapContext .exclusive swapFee params := by
        rcases hrun.context with ⟨swapFee', hfee', hctx⟩
        rw [hfee] at hfee'
        cases hfee'
        exact hctx
      cases hcases with
      | rejected hrejected =>
          rcases hrejected with hbad | hbad
          · rw [hfee] at hbad
            cases hbad
          · rw [hlimit] at hbad
            cases hbad
      | @failed ctx cs last b e ticks hrun hend =>
          have hctx := hcontext hrun
          have hfull : 0 < ctx.amountSpecified -> ctx.fee.isMax = false := by
            rw [hctx]
            exact hmode
          have hlive := hrun.live_final hp
          cases hend with
          | rejected hrunning hadvance _ =>
              rcases SwapContext.advance_total hlive hrunning (hrun.affordable hp hctx hvalid hfee
                hrunning hfull hsettles hgrowth) with ⟨c, hc⟩
              rw [hadvance] at hc
              cases hc
          | @failed _ _ c hrunning hadvance hstep =>
              rcases hrun.payments_left hp hctx hfull with ⟨fuel, _, hleft⟩
              rw [SwapContext.pays_underflow hlive hrunning hadvance hstep] at hleft
              rcases SwapContext.underflow_beyond hlive hrunning hadvance hstep with
                ⟨k, hcross, hnone⟩
              rw [SwapContext.beyond_congr (hrun.accounting hp), hctx] at hnone
              rw [hctx] at hcross hleft
              exact hsettles.crossings _ k (by
                rw [hleft]
                exact List.mem_append_right _ (List.mem_singleton_self _)) hcross hnone
      | @unsettled ctx cs b e hrun hhalt hdelta =>
          have hpayments := hrun.payments_halted hp (hcontext hrun) hhalt
          have htotals := hrun.totals hp
          have hinput := hsettles.input
          have houtput := hsettles.output
          rw [hpayments] at hinput houtput
          rcases @SwapContext.swapDelta_total ctx b.1
            ⟨by rw [htotals.1]; omega, by rw [htotals.1]; exact_mod_cast hinput⟩
            ⟨by rw [htotals.2]; omega, by rw [htotals.2]; exact_mod_cast houtput⟩ with ⟨delta, hok⟩
          rw [hdelta] at hok
          cases hok

end Swaps

end Pool

end RmUniswap
