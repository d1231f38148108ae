import RmUniswap.Pool.Operation

/-!
# Where a swap stops

The loop ends when the amount is used up, at the price limit, or at the first price
where the net liquidity of the ticks is zero. It does not look for liquidity beyond
a gap.
-/

namespace RmUniswap

open Foundation

variable {A : Type} [LawfulAllocator TickSlabValue A]

/-- The side of a delta that the amount of a swap specifies. -/
def BalanceDelta.specified (delta : BalanceDelta) (params : SwapParamsInner) : Int :=
  if params.zeroForOne = decide (params.amountSpecified < 0) then delta.amount0
  else delta.amount1

theorem SwapContext.swapDelta_specified {ctx : SwapContext} {s : SwapLoopState}
    {delta : BalanceDelta} {params : SwapParamsInner} (hz : ctx.zeroForOne = params.zeroForOne)
    (hamount : ctx.amountSpecified = params.amountSpecified) (h : ctx.swapDelta s = .ok delta) :
    delta.specified params = params.amountSpecified - s.amountSpecifiedRemaining := by
  have hspecified {amount : Int} (h : (do
      let settled <- okOr .i128Overflow
        (checkedSigned 256 (ctx.amountSpecified - s.amountSpecifiedRemaining))
      okOr .i128Overflow (checkedSigned 128 settled) : Except Error Int) = .ok amount) :
      amount = params.amountSpecified - s.amountSpecifiedRemaining := by
    rcases bind_eq_ok.mp h with ⟨settled, hsettled, h⟩
    rw [(checkedSigned_eq_some.mp (okOr_eq_ok.mp h)).1,
      (checkedSigned_eq_some.mp (okOr_eq_ok.mp hsettled)).1, hamount]
  unfold swapDelta at h
  unfold BalanceDelta.specified
  dsimp only at h
  rw [hz, hamount] at h
  split at h
  · rename_i hside
    rcases bind_eq_ok.mp h with ⟨amount0, h0, h⟩
    rcases bind_eq_ok.mp h with ⟨amount1, _, h⟩
    cases h
    rw [if_pos hside]
    rw [← hamount] at h0
    exact hspecified h0
  · rename_i hside
    rcases bind_eq_ok.mp h with ⟨amount0, _, h⟩
    rcases bind_eq_ok.mp h with ⟨amount1, h1, h⟩
    cases h
    rw [if_neg hside]
    rw [← hamount] at h1
    exact hspecified h1

/-!
# The ticks a move leaves behind
-/

def LeftBehind (zeroForOne : Bool) (t t' k : Int) : Prop :=
  if zeroForOne then t' < k ∧ k ≤ t else t ≤ k ∧ k < t'

theorem LeftBehind.split {zeroForOne : Bool} {t t' k : Int} (u : Int)
    (h : LeftBehind zeroForOne t t' k) :
    LeftBehind zeroForOne t u k ∨ LeftBehind zeroForOne u t' k := by
  unfold LeftBehind at *
  cases zeroForOne with
  | true =>
      rw [if_pos rfl] at h
      simp only [if_true]
      omega
  | false =>
      rw [if_neg (by decide)] at h
      simp only [Bool.false_eq_true, if_false]
      omega

namespace SwapContext

section Iterate

variable {ctx : SwapContext} {a b : SwapLoopState × TickSlab A} {c : StepComputations}
  {cs : List StepComputations}

theorem Iterates.crossed_tick (h : ctx.Invariant a) (hi : ctx.Iterates a c b) {k : Int}
    (hk : c.crossed = some k) :
    b.1.sqrtPriceX96 = getSqrtPriceAtTick k ∧
      b.1.tick = if ctx.zeroForOne then k - 1 else k := by
  have ht := h.target_spec hi.running
  have hspec := crossed_spec ht hi.advances hk
  rw [hi.next h]
  refine ⟨?_, ?_⟩
  · show c.next.sqrtPriceX96 = _
    rw [hspec.2.2.2, ht.price, hspec.2.1]
  · show c.next.tick = _
    rw [hi.advances.tick]
    unfold tickAfter
    rw [if_pos hspec.2.2.2, hspec.2.1]

theorem Iterates.netBelow_behind (h : ctx.Invariant a) (hi : ctx.Iterates a c b)
    (ha : Follows a) {t : Int} (ht : LeftBehind ctx.zeroForOne a.1.tick b.1.tick t) :
    netBelow a.2.snapshot t = a.1.liquidity := by
  have hpasses := hi.passes h
  rw [ha.active]
  apply netBelow_stay
  intro j info hj
  unfold LeftBehind at ht
  by_cases hk : c.crossed = some j
  · have htick := (hi.crossed_tick h hk).2
    have hside := (hpasses.pass j hk).2
    cases hz : ctx.zeroForOne <;> simp only [hz, if_true, Bool.false_eq_true, if_false] at * <;>
      omega
  · have hstay := hpasses.stay j info hj hk
    cases hz : ctx.zeroForOne <;> simp only [hz, if_true, Bool.false_eq_true, if_false] at * <;>
      omega

theorem run_netBelow_pos (h : Run ctx.Iterates a cs b) (ha : ctx.Invariant a) (hf : Follows a)
    {t : Int} (ht : LeftBehind ctx.zeroForOne a.1.tick b.1.tick t) :
    0 < netBelow a.2.snapshot t := by
  induction h with
  | nil a =>
      unfold LeftBehind at ht
      split at ht <;> omega
  | @cons a mid b c cs hone hrest ih =>
      rcases ht.split mid.1.tick with hfirst | hlast
      · have hrunning : a.1.liquidity ≠ 0 := fun hzero => hone.running (Or.inr hzero)
        rw [hone.netBelow_behind ha hf hfirst]
        omega
      · have hpos := ih (hone.invariant ha) (hone.follows ha hf) hlast
        rwa [hone.netBelow_eq ha] at hpos

theorem run_dry (h : Run ctx.Iterates a cs b) (ha : ctx.Invariant a)
    (hdry : b.1.liquidity = 0) :
    cs = [] ∨ exists k info, a.2.snapshot.get? k = some info ∧
      b.1.sqrtPriceX96 = getSqrtPriceAtTick k ∧
      b.1.tick = if ctx.zeroForOne then k - 1 else k := by
  induction h with
  | nil a =>
      exact Or.inl rfl
  | @cons a mid b c cs hone hrest ih =>
      right
      rcases ih (hone.invariant ha) hdry with hnil | ⟨k, info, hget, hprice, htick⟩
      · rw [hnil] at hrest
        cases hrest
        rcases hone.cases ha with ⟨_, hb, _⟩ | ⟨k, info, hsome, hget, _⟩
        · rw [hb, hone.advances.liquidity] at hdry
          exact absurd (Or.inr hdry) hone.running
        · exact ⟨k, info, hget, hone.crossed_tick ha hsome⟩
      · rcases (hone.initialized_iff ha).mp ⟨info, hget⟩ with ⟨info', hget'⟩
        exact ⟨k, info', hget', hprice, htick⟩

end Iterate

end SwapContext

namespace Pool

variable {P : Type} {p p' : Pool P A} {params : SwapParamsInner} {result : SwapResult}

/-- A move ends at the first price without liquidity: the nets up to the tick it ends
in sum to zero, those up to every tick it left behind do not, and it never started or
stands on the price of an initialized tick. -/
structure RunsDry (p p' : Pool P A) (zeroForOne : Bool) : Prop where
  dry : netBelow p.ticks.snapshot p'.state.tick = 0
  behind : forall t, LeftBehind zeroForOne p.state.tick p'.state.tick t ->
    0 < netBelow p.ticks.snapshot t
  boundary : p'.state.sqrtPriceX96 = p.state.sqrtPriceX96 ∧ p'.state.tick = p.state.tick ∨
    exists t info, p.ticks.snapshot.get? t = some info ∧
      p'.state.sqrtPriceX96 = getSqrtPriceAtTick t ∧
      p'.state.tick = if zeroForOne then t - 1 else t

theorem LoopRun.runsDry {ctx : SwapContext} {cs : List StepComputations}
    {b : SwapLoopState × TickSlab A} (h : LoopRun p params ctx cs b) (hp : p.Sound)
    (hdry : b.1.liquidity = 0) :
    RunsDry p
      { p with
        ticks := b.2
        state := p.state.set b.1.tick b.1.sqrtPriceX96 b.1.liquidity params.zeroForOne
          b.1.feeGrowthGlobalX128 } params.zeroForOne := by
  have hstart := h.start hp.toUsable
  have hz := h.zeroForOne
  refine ⟨?_, fun t ht => ?_, ?_⟩
  · have hnets := h.run.preserved (I := ctx.Invariant)
      (fun a => netBelow a.2.snapshot b.1.tick)
      (fun _ _ _ ha hi => ⟨hi.invariant ha, hi.netBelow_eq ha _⟩) hstart
    have hactive := (h.follows hp).active
    rw [hdry] at hactive
    exact hnets.symm.trans hactive.symm
  · rw [← hz] at ht
    exact SwapContext.run_netBelow_pos h.run hstart (hp.follows params) ht
  · rw [← hz]
    rcases SwapContext.run_dry h.run hstart hdry with hnil | hcrossed
    · have hrun := h.run
      rw [hnil] at hrun
      cases hrun
      exact Or.inl ⟨rfl, rfl⟩
    · exact Or.inr hcrossed

/-- A swap fills its amount, reaches its limit, or runs dry. -/
theorem swap_stops [PositionsAccess P] (hp : p.Accepted) (h : p.Swaps params (.ok result) p')
    (hamount : params.amountSpecified ≠ 0) :
    result.swapDelta.specified params = params.amountSpecified ∨
      p'.state.sqrtPriceX96 = params.sqrtPriceLimit ∨ RunsDry p p' params.zeroForOne := by
  rcases h with ⟨fuel, h⟩
  generalize hlist : p.swapComputations params fuel = list
  have hcases := swap_cases h
  rw [hlist] at hcases
  cases hcases with
  | empty hzero =>
      exact absurd hzero hamount
  | @done ctx cs b delta hrun hhalt hdelta =>
      rcases hrun.context with ⟨swapFee, _, hctx⟩
      have hspecified := ctx.swapDelta_specified (by rw [hctx]; rfl) (by rw [hctx]; rfl) hdelta
      rcases hhalt with (hfilled | hlimit) | hdry
      · rw [hfilled, sub_zero] at hspecified
        exact Or.inl hspecified
      · rw [hctx] at hlimit
        exact Or.inr (Or.inl hlimit)
      · exact Or.inr (Or.inr (hrun.runsDry hp.sound hdry))

end Pool

/-!
# A gap between two positions
-/

namespace Sample

def addAbove : ModifyLiquidityParams :=
  { tickLower := 120
    tickUpper := 180
    liquidityDelta := 10 ^ 18
    owner := 1
    salt := 0
    lowerInRange := by decide
    upperInRange := by decide
    deltaFits := add.deltaFits }

def gapped : Pool Positions :=
  (Pool.fromSnapshot (funded.modifyLiquidity addAbove).2.snapshot).getD funded

theorem gapped_accepted : gapped.Accepted := by
  have hok : (funded.modifyLiquidity addAbove).2.tryFork.isOk = true := by
    decide +kernel
  exact ⟨_, by decide +kernel, Outcome.eq_ok_getD hok funded⟩

def buy : SwapParamsInner :=
  { zeroForOne := false
    amountSpecified := -10 ^ 20
    sqrtPriceLimit := 2 ^ 97
    lpFeeOverride := none
    amountFits := by decide
    limitValid := by decide }

def bought : SwapResult :=
  { swapDelta := { amount0 := 2995354955910780, amount1 := -3013394245478362 }
    amountToProtocol := 0
    swapFee := swapFee.oneForZeroSwapFee
    sqrtPriceX96 := 79466191966197645195421774833
    tick := 60
    liquidity := 0 }

end Sample

theorem Pool.swap_stops_sample :
    Sample.bought.swapDelta.specified Sample.buy = Sample.buy.amountSpecified ∨
      (Sample.swapped Sample.gapped Sample.buy 3).state.sqrtPriceX96 =
          Sample.buy.sqrtPriceLimit ∨
        RunsDry Sample.gapped (Sample.swapped Sample.gapped Sample.buy 3) false := by
  have hresult : (Sample.gapped.swap Sample.buy 3).map Prod.fst = some (.ok Sample.bought) := by
    decide +kernel
  exact Pool.swap_stops Sample.gapped_accepted ⟨3, Sample.swap_eq hresult⟩ (by decide)

/-- A buy stops in the gap, short of its amount and its limit, though an initialized
tick lies ahead. -/
theorem swap_stops_in_gap :
    exists (p p' : Pool Positions) (params : SwapParamsInner) (result : SwapResult),
      p.Accepted ∧ params.LimitStrict ∧ params.amountSpecified ≠ 0 ∧
      p.Swaps params (.ok result) p' ∧ params.zeroForOne = false ∧
      result.swapDelta.specified params ≠ params.amountSpecified ∧
      p'.state.sqrtPriceX96 ≠ params.sqrtPriceLimit ∧
      exists t info, p'.ticks.snapshot.get? t = some info ∧ p'.state.tick < t ∧
        getSqrtPriceAtTick t < params.sqrtPriceLimit := by
  have hresult : (Sample.gapped.swap Sample.buy 3).map Prod.fst = some (.ok Sample.bought) := by
    decide +kernel
  have hprice : (Sample.swapped Sample.gapped Sample.buy 3).state.sqrtPriceX96 =
      79466191966197645195421774833 := by
    decide +kernel
  have htick : (Sample.swapped Sample.gapped Sample.buy 3).state.tick = 60 := by
    decide +kernel
  have hahead : ((Sample.swapped Sample.gapped Sample.buy 3).ticks.snapshot.get? 120).isSome =
      true := by
    decide +kernel
  rcases Option.isSome_iff_exists.mp hahead with ⟨info, hinfo⟩
  refine ⟨Sample.gapped, _, Sample.buy, Sample.bought, Sample.gapped_accepted, by decide,
    by decide, ⟨3, Sample.swap_eq hresult⟩, rfl, by decide, ?_, 120, info, hinfo, ?_, ?_⟩
  · rw [hprice]
    decide
  · rw [htick]
    decide
  · decide +kernel

end RmUniswap
