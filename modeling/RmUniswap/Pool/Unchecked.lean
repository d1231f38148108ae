import RmUniswap.Pool.OrderedTicks
import RmUniswap.Pool.Principal

/-!
# Pools built without validation

A pool may be built from a state that nobody checked: its tick need not be the tick of
its price, and its liquidity need not be the one of its ticks. Whatever the state, the
slab keeps standing for its ticks and every value keeps its type.
-/

namespace RmUniswap

open Foundation

variable {A : Type} [LawfulAllocator TickSlabValue A]

namespace Pool

/-- A pool from trusted state, with the spacing the slab of the source insists on. -/
def new (P : Type) [PositionsAccess P] (sqrtPriceX96 : Nat) (tick : Int) (liquidity : Nat)
    (swapFee : SwapFee) (tickSpacing : TickSpacing) (h : tickSpacing.IsPositive) : Pool P A :=
  { state :=
      { sqrtPriceX96
        tick
        liquidity
        feeGrowthGlobal0X128 := 0
        feeGrowthGlobal1X128 := 0 }
    swapFee
    tickSpacing
    ticks := TickSlab.new tickSpacing h
    positions := PositionsAccess.default }

/-- What the types of the source promise of a pool, and of its slab. -/
structure Typed (p : Pool Positions A) : Prop where
  ticks : p.ticks.Holds p.tickSpacing p.ticks.snapshot
  price : IsValidSqrtPrice p.state.sqrtPriceX96
  tick : minTick - 1 ≤ p.state.tick ∧ p.state.tick ≤ maxTick
  positions : forall i, (p.positions.stateAt i).liquidity < 2 ^ 128

theorem new_typed {sqrtPriceX96 : Nat} {tick : Int} (liquidity : Nat) (swapFee : SwapFee)
    {tickSpacing : TickSpacing} (h : tickSpacing.IsPositive)
    (hprice : IsValidSqrtPrice sqrtPriceX96) (htick : TickInRange tick) :
    (Pool.new Positions sqrtPriceX96 tick liquidity swapFee tickSpacing h :
      Pool Positions A).Typed where
  ticks := by
    have hnew : (TickSlab.new tickSpacing h : TickSlab A).Holds tickSpacing SortedMap.empty :=
      TickSlab.holds_new h
    show (TickSlab.new tickSpacing h : TickSlab A).Holds tickSpacing
      (TickSlab.new tickSpacing h).snapshot
    rw [hnew.snapshot]
    exact hnew
  price := hprice
  tick := by
    show minTick - 1 ≤ tick ∧ tick ≤ maxTick
    exact ⟨by have := htick.1; omega, htick.2⟩
  positions := fun i => by
    show (PositionState.default).liquidity < _
    decide

/-!
# Liquidity changes
-/

section Modify

variable {p : Pool Positions A} {params : ModifyLiquidityParams}

theorem realizeFees_lt (hp : p.Typed) (params : ModifyLiquidityParams)
    (lower upper : TickInfoInner) (i : PositionIndex) :
    ((p.realizeFees params (lower.boundary params.tickLower)
      (upper.boundary params.tickUpper)).2.stateAt i).liquidity < 2 ^ 128 := by
  have hput {position : PositionState} (h : position.liquidity < 2 ^ 128) :
      ((p.positions.put params.index position).stateAt i).liquidity < 2 ^ 128 := by
    unfold Positions.put Positions.stateAt
    rw [SortedMap.get?_insert]
    split
    · exact h
    · exact hp.positions i
  rcases realizeFees_cases (hp.positions params.index) lower upper with
    ⟨_, e, he⟩ | ⟨hupdate, he⟩
  · rw [he]
    exact hput (hp.positions params.index)
  · rw [he]
    apply hput
    have hsum := updated_liquidity hupdate (p.insideAt params lower upper)
    have hlt := hp.positions params.index
    unfold PositionState.Updatable at hupdate
    zify
    rw [hsum]
    split at hupdate
    · rename_i hzero
      rw [hzero, add_zero]
      exact_mod_cast hlt
    · exact hupdate.2

theorem Boundaries.holds_of_typed {lower upper : TickInfoInner} {slab : TickSlab A}
    {map : SortedMap Int TickInfoInner} (hp : p.Typed)
    (h : Boundaries p params lower upper slab map) : slab.Holds p.tickSpacing slab.snapshot := by
  cases h with
  | read _ =>
      exact hp.ticks
  | changed _ _ _ hslab =>
      rw [hslab.snapshot]
      exact hslab

theorem Typed.modify (hp : p.Typed) (params : ModifyLiquidityParams) :
    (p.modifyLiquidity params).2.Typed := by
  have hcases := modify_cases hp.ticks params
  generalize p.modifyLiquidity params = r at hcases
  have hself {slab : TickSlab A} {map : SortedMap Int TickInfoInner}
      (h : slab.Holds p.tickSpacing map) : slab.Holds p.tickSpacing slab.snapshot := by
    rw [h.snapshot]
    exact h
  have hstate {state : PoolState} (h : state = { p.state with liquidity := state.liquidity }) :
      IsValidSqrtPrice state.sqrtPriceX96 ∧
        minTick - 1 ≤ state.tick ∧ state.tick ≤ maxTick := by
    rw [h]
    exact ⟨hp.price, hp.tick⟩
  cases hcases with
  | rejected _ =>
      exact hp
  | lower _ _ _ hholds =>
      exact ⟨hself hholds, hp.price, hp.tick, hp.positions⟩
  | upper _ _ _ _ hholds =>
      exact ⟨hself hholds, hp.price, hp.tick, hp.positions⟩
  | @position e lower upper ticks map positions _ hb hfees =>
      have hslab := hb.holds_of_typed hp
      have hpos := realizeFees_lt hp params lower upper
      rw [hfees] at hpos
      exact ⟨hslab, hp.price, hp.tick, hpos⟩
  | @principal e lower upper ticks map positions feeDelta state _ hb hfees hprincipal =>
      have hslab := hb.holds_of_typed hp
      have hpos := realizeFees_lt hp params lower upper
      rw [hfees] at hpos
      have hkept := hstate (settlePrincipal_state hprincipal).1
      exact ⟨hslab, hkept.1, hkept.2, hpos⟩
  | @done lower upper ticks map positions feeDelta delta state _ hb hfees hprincipal =>
      have hslab := hb.holds_of_typed hp
      have hpos := realizeFees_lt hp params lower upper
      rw [hfees] at hpos
      have hkept := hstate (settlePrincipal_state hprincipal).1
      exact ⟨hslab, hkept.1, hkept.2, hpos⟩

end Modify

end Pool

/-!
# Swaps

The price of a step is the current one, the target, or one that passed the check of
its type, also where the state makes no sense.
-/

section Price

variable {current target liquidity amount : Nat} {fee : Fee} {s : SwapStep}

theorem getNextSqrtPriceFromInput_valid {z : Bool} {q : Nat}
    (h : getNextSqrtPriceFromInput current liquidity amount z = .ok q) : IsValidSqrtPrice q := by
  have hinto {r : Except Error Nat} (h : (r >>= intoSqrtPrice) = .ok q) :
      IsValidSqrtPrice q := by
    rcases bind_eq_ok.mp h with ⟨value, _, hvalue⟩
    have hq := intoSqrtPrice_eq_ok.mp hvalue
    rw [hq.1]
    exact hq.2
  unfold getNextSqrtPriceFromInput at h
  cases z with
  | false =>
      rcases bind_eq_ok.mp h with ⟨quotient, _, hrest⟩
      exact hinto hrest
  | true =>
      have hfallback {numerator1 : Nat}
          (h : amount0AddOverflowFallback numerator1 current amount = .ok q) :
          IsValidSqrtPrice q := by
        rcases bind_eq_ok.mp h with ⟨denominator, _, hvalue⟩
        have hq := intoSqrtPrice_eq_ok.mp hvalue
        rw [hq.1]
        exact hq.2
      unfold getNextSqrtPriceFromAmount0RoundingUp getNextSqrtPriceFromAmount0AddRoundingUp at h
      rw [if_pos rfl, if_pos rfl] at h
      dsimp only at h
      split at h
      · exact hinto h
      · split at h
        · split at h
          · exact hinto h
          · exact hfallback h
        · split at h
          · exact hinto h
          · exact hfallback h

theorem getNextSqrtPriceFromOutput_valid {z : Bool} {q : Nat}
    (h : getNextSqrtPriceFromOutput current liquidity amount z = .ok q) : IsValidSqrtPrice q := by
  unfold getNextSqrtPriceFromOutput at h
  cases z with
  | false =>
      rcases bind_eq_ok.mp h with ⟨product, _, hrest⟩
      split at hrest
      · cases hrest
      · rcases bind_eq_ok.mp hrest with ⟨value, _, hvalue⟩
        have hq := intoSqrtPrice_eq_ok.mp hvalue
        rw [hq.1]
        exact hq.2
  | true =>
      rcases bind_eq_ok.mp h with ⟨quotient, _, hrest⟩
      split at hrest
      · cases hrest
      · have hq := intoSqrtPrice_eq_ok.mp hrest
        rw [hq.1]
        exact hq.2

theorem computeSwapStep_valid {remaining : Int} (hcurrent : IsValidSqrtPrice current)
    (htarget : IsValidSqrtPrice target)
    (h : computeSwapStep current target liquidity remaining fee = .ok s) :
    IsValidSqrtPrice s.sqrtRatioNextX96 := by
  unfold computeSwapStep at h
  split at h
  · cases h
    exact hcurrent
  · dsimp only at h
    split at h
    · cases h
    · split at h
      · rcases bind_eq_ok.mp h with ⟨net, _, h⟩
        split at h
        · cases h
          exact hcurrent
        · rcases bind_eq_ok.mp h with ⟨most, _, h⟩
          dsimp only at h
          split at h
          · rcases bind_eq_ok.mp h with ⟨amountOut, _, h⟩
            rcases bind_eq_ok.mp h with ⟨charged, _, h⟩
            cases h
            exact htarget
          · rcases bind_eq_ok.mp h with ⟨next, hnext, h⟩
            rcases bind_eq_ok.mp h with ⟨amountOut, _, h⟩
            cases h
            exact getNextSqrtPriceFromInput_valid hnext
      · rcases bind_eq_ok.mp h with ⟨most, _, h⟩
        dsimp only at h
        split at h
        · rcases bind_eq_ok.mp h with ⟨amountIn, _, h⟩
          rcases bind_eq_ok.mp h with ⟨charged, _, h⟩
          cases h
          exact htarget
        · rcases bind_eq_ok.mp h with ⟨next, hnext, h⟩
          rcases bind_eq_ok.mp h with ⟨amountIn, _, h⟩
          rcases bind_eq_ok.mp h with ⟨charged, _, h⟩
          cases h
          exact getNextSqrtPriceFromOutput_valid hnext

end Price

namespace SwapContext

section Typed

variable {ctx : SwapContext} {s : SwapLoopState} {slab : TickSlab A}
  {ticks : SortedMap Int TickInfoInner} {t : Int}

theorem nearestKey_spec (ht : minTick - 1 ≤ t ∧ t ≤ maxTick) {k : Int}
    (hk : ctx.nearestKey ticks t = some k) :
    TickInRange k ∧ exists info, ticks.get? k = some info := by
  have hrange := ctx.wordBoundary_inRange t
  unfold nearestKey at hk
  rw [Option.filter_eq_some_iff] at hk
  rcases hk with ⟨hfound, hword⟩
  rcases Option.map_eq_some_iff.mp hfound with ⟨e, he, rfl⟩
  cases hz : ctx.zeroForOne with
  | false =>
      rw [hz, if_neg (by decide)] at he hword
      have hfind := SortedMap.findGT?_eq_some (k := e.1) (v := e.2) he
      have hle := of_decide_eq_true hword
      exact ⟨⟨by have := hfind.2.1; omega, hle.trans hrange.2⟩, e.2, hfind.1⟩
  | true =>
      rw [hz, if_pos rfl] at he hword
      have hfind := SortedMap.findLE?_eq_some (k := e.1) (v := e.2) he
      have hle := of_decide_eq_true hword
      exact ⟨⟨hrange.1.trans hle, hfind.2.1.trans ht.2⟩, e.2, hfind.1⟩

/-- The target of a step, whatever the state: a tick of the protocol at its price, with
the indexer of an initialized tick or none. -/
theorem targetOn_spec (h : slab.Holds ctx.tickSpacing ticks)
    (ht : minTick - 1 ≤ t ∧ t ≤ maxTick) :
    TickInRange (ctx.targetOn ticks t).tickIndex ∧
      (ctx.targetOn ticks t).sqrtPriceX96 = getSqrtPriceAtTick (ctx.targetOn ticks t).tickIndex ∧
      forall i, (ctx.targetOn ticks t).tickIndexer = some i ->
        exists info, ticks.get? (ctx.targetOn ticks t).tickIndex = some info ∧
          i = slab.indexer (ctx.targetOn ticks t).tickIndex := by
  unfold targetOn
  cases hk : ctx.nearestKey ticks t with
  | none =>
      exact ⟨ctx.wordBoundary_inRange t, rfl, fun i hi => by cases hi⟩
  | some k =>
      have hspec := nearestKey_spec ht hk
      refine ⟨hspec.1, rfl, fun i hi => ?_⟩
      rcases hspec.2 with ⟨info, hget⟩
      refine ⟨info, hget, ?_⟩
      cases hi
      show fromTick k ctx.tickSpacing.asU32 = fromTick k slab.tickSpacing.asU32
      rw [h.spacing]

structure LoopTyped (ctx : SwapContext) (s : SwapLoopState) (slab : TickSlab A) : Prop where
  ticks : slab.Holds ctx.tickSpacing slab.snapshot
  price : IsValidSqrtPrice s.sqrtPriceX96
  tick : minTick - 1 ≤ s.tick ∧ s.tick ≤ maxTick

theorem tickAfter_bounds (htick : minTick - 1 ≤ s.tick ∧ s.tick ≤ maxTick) {target : StepTarget}
    (hrange : TickInRange target.tickIndex) {p : Nat} (hp : IsValidSqrtPrice p) :
    minTick - 1 ≤ ctx.tickAfter target s p ∧ ctx.tickAfter target s p ≤ maxTick := by
  have hlo := hrange.1
  have hhi := hrange.2
  unfold tickAfter
  split
  · split
    · omega
    · omega
  · split
    · have hfloor := (getTickAtSqrtPrice_spec hp).1
      exact ⟨by have := hfloor.1; omega, hfloor.2⟩
    · exact htick

theorem clampedTarget_valid (hlimit : IsValidSqrtPrice ctx.sqrtPriceLimitX96)
    {target : StepTarget} (h : IsValidSqrtPrice target.sqrtPriceX96) :
    IsValidSqrtPrice (ctx.clampedTarget target) := by
  unfold clampedTarget getSqrtPriceTarget
  split
  · rcases max_choice target.sqrtPriceX96 ctx.sqrtPriceLimitX96 with heq | heq
    · rw [heq]
      exact h
    · rw [heq]
      exact hlimit
  · rcases min_choice target.sqrtPriceX96 ctx.sqrtPriceLimitX96 with heq | heq
    · rw [heq]
      exact h
    · rw [heq]
      exact hlimit

theorem LoopTyped.step (hlimit : IsValidSqrtPrice ctx.sqrtPriceLimitX96)
    (h : ctx.LoopTyped s slab) {result : Except Error SwapLoopState} {slab' : TickSlab A}
    (hstep : ctx.step s slab = (result, slab')) :
    slab'.Holds ctx.tickSpacing slab'.snapshot ∧
      forall s', result = .ok s' -> ctx.LoopTyped s' slab' := by
  have hbounds : -2 ^ 20 ≤ s.tick ∧ s.tick < 2 ^ 20 := by
    have ht := h.tick
    unfold minTick maxTick at ht
    omega
  have htarget := targetOn_spec h.ticks h.tick
  unfold SwapContext.step at hstep
  rw [stepTarget_eq h.ticks hbounds] at hstep
  dsimp only at hstep
  generalize ctx.targetOn slab.snapshot s.tick = target at hstep htarget
  cases hadvance : ctx.advance target s with
  | error e =>
      rw [hadvance] at hstep
      cases hstep
      exact ⟨h.ticks, fun s' hs' => by cases hs'⟩
  | ok c =>
      rw [hadvance] at hstep
      dsimp only at hstep
      have hc := advance_eq_ok hadvance
      have hprice : IsValidSqrtPrice c.next.sqrtPriceX96 := by
        rw [hc.price]
        exact computeSwapStep_valid h.price
          (clampedTarget_valid hlimit (htarget.2.1 ▸ price_valid htarget.1)) hc.swapStep
      have htick : minTick - 1 ≤ ctx.tickAfter target s c.next.sqrtPriceX96 ∧
          ctx.tickAfter target s c.next.sqrtPriceX96 ≤ maxTick :=
        tickAfter_bounds h.tick htarget.1 hprice
      rw [← hc.tick] at htick
      cases hcrossing : c.crossing with
      | none =>
          rw [hcrossing] at hstep
          cases hstep
          exact ⟨h.ticks, fun s' hs' => by cases hs'; exact ⟨h.ticks, hprice, htick⟩⟩
      | some i =>
          rw [hcrossing] at hstep
          dsimp only at hstep
          have hindexer : target.tickIndexer = some i := by
            unfold StepComputations.crossing at hcrossing
            rw [hc.toTarget] at hcrossing
            split at hcrossing
            · exact hcrossing
            · cases hcrossing
          rcases htarget.2.2 i hindexer with ⟨info, hget, hi⟩
          rcases cross_eq h.ticks hget s.liquidity c.next.feeGrowthGlobalX128 with
            ⟨ticks', hticks', heq⟩
          rw [← hi] at heq
          rw [heq] at hstep
          have hself : ticks'.Holds ctx.tickSpacing ticks'.snapshot := by
            rw [hticks'.snapshot]
            exact hticks'
          cases hadd : checkedAddSigned 128 s.liquidity (ctx.directed info.liquidityNet) with
          | none =>
              rw [hadd] at hstep
              cases hstep
              exact ⟨hself, fun s' hs' => by cases hs'⟩
          | some liquidity =>
              rw [hadd] at hstep
              cases hstep
              exact ⟨hself, fun s' hs' => by cases hs'; exact ⟨hself, hprice, htick⟩⟩

theorem LoopTyped.loop (hlimit : IsValidSqrtPrice ctx.sqrtPriceLimitX96) {fuel : Nat}
    (h : ctx.LoopTyped s slab) {result : Except Error SwapLoopState} {slab' : TickSlab A}
    (hloop : ctx.loop fuel s slab = some (result, slab')) :
    slab'.Holds ctx.tickSpacing slab'.snapshot ∧
      forall s', result = .ok s' -> ctx.LoopTyped s' slab' := by
  induction fuel generalizing s slab with
  | zero =>
      cases hloop
  | succ fuel ih =>
      unfold SwapContext.loop at hloop
      split at hloop
      · cases hloop
        exact ⟨h.ticks, fun s' hs' => by cases hs'; exact h⟩
      · cases hstep : ctx.step s slab with
        | mk r slab1 =>
            have hkept := LoopTyped.step hlimit h hstep
            rw [hstep] at hloop
            cases r with
            | error e =>
                cases hloop
                exact ⟨hkept.1, fun s' hs' => by cases hs'⟩
            | ok s1 =>
                exact ih (hkept.2 s1 rfl) hloop

end Typed

end SwapContext

namespace Pool

theorem Typed.swap {p p' : Pool Positions A} {params : SwapParamsInner} (hp : p.Typed)
    {result : Except Error SwapResult} (h : p.Swaps params result p') : p'.Typed := by
  rcases h with ⟨fuel, hswap⟩
  unfold Pool.swap Pool.runSwap at hswap
  cases hfee : p.resolveSwapFee params with
  | error e =>
      rw [hfee] at hswap
      cases hswap
      exact hp
  | ok swapFee =>
      rw [hfee] at hswap
      dsimp only at hswap
      unfold swapInner at hswap
      dsimp only at hswap
      split at hswap
      · cases hswap
        exact hp
      · split at hswap
        · cases hswap
          exact hp
        · rcases Option.map_eq_some_iff.mp hswap with ⟨⟨r, slab⟩, hloop, hfinish⟩
          have hstart : (p.swapContext .exclusive swapFee params).LoopTyped
              (p.swapStart params) p.ticks := ⟨hp.ticks, hp.price, hp.tick⟩
          have hkept := SwapContext.LoopTyped.loop params.limitValid hstart hloop
          cases r with
          | error e =>
              cases hfinish
              exact ⟨hkept.1, hp.price, hp.tick, hp.positions⟩
          | ok s =>
              have hs := hkept.2 s rfl
              dsimp only at hfinish
              unfold finishSwap at hfinish
              split at hfinish
              · cases hfinish
                exact ⟨hkept.1, hp.price, hp.tick, hp.positions⟩
              · cases hfinish
                exact ⟨hkept.1, hs.price, hs.tick, hp.positions⟩

end Pool

end RmUniswap
