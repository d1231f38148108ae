import RmUniswap.Pool.Operation

/-!
# The loop on ordered ticks

The same loop over the ordered map a slab stands for. The loop over a slab refines
it: equal results, and a slab that stands for the map the ordered loop leaves.
Results of a pool are read off its ordered ticks.
-/

namespace RmUniswap

open Foundation

variable {A : Type} [LawfulAllocator TickSlabValue A]

namespace SwapContext

def nearestKey (ctx : SwapContext) (ticks : SortedMap Int TickInfoInner) (t : Int) :
    Option Int :=
  ((if ctx.zeroForOne then ticks.findLE? t else ticks.findGT? t).map Prod.fst).filter fun k =>
    if ctx.zeroForOne then decide (ctx.wordBoundary t ≤ k) else decide (k ≤ ctx.wordBoundary t)

def targetOn (ctx : SwapContext) (ticks : SortedMap Int TickInfoInner) (t : Int) : StepTarget :=
  match ctx.nearestKey ticks t with
  | some k =>
      { tickIndex := k
        sqrtPriceX96 := getSqrtPriceAtTick k
        tickIndexer := some (fromTick k ctx.tickSpacing.asU32) }
  | none =>
      { tickIndex := ctx.wordBoundary t
        sqrtPriceX96 := getSqrtPriceAtTick (ctx.wordBoundary t)
        tickIndexer := none }

def crossOn (ctx : SwapContext) (s : SwapLoopState) (ticks : SortedMap Int TickInfoInner)
    (c : StepComputations) : Except Error SwapLoopState × SortedMap Int TickInfoInner :=
  match c.crossed with
  | none => (.ok c.next, ticks)
  | some k =>
      let info := tickAt ticks k
      ((okOr .liquidityUnderflow
          (checkedAddSigned 128 s.liquidity (ctx.directed info.liquidityNet))).map
          fun liquidity => { c.next with liquidity },
        ctx.access.crossed ticks k info (ctx.globals c.next.feeGrowthGlobalX128))

def stepOn (ctx : SwapContext) (s : SwapLoopState) (ticks : SortedMap Int TickInfoInner) :
    Except Error SwapLoopState × SortedMap Int TickInfoInner :=
  match ctx.advance (ctx.targetOn ticks s.tick) s with
  | .error e => (.error e, ticks)
  | .ok c => ctx.crossOn s ticks c

def loopOn (ctx : SwapContext) :
    Nat -> SwapLoopState -> SortedMap Int TickInfoInner ->
      Option (Except Error SwapLoopState × SortedMap Int TickInfoInner)
  | 0, _, _ => none
  | fuel + 1, s, ticks =>
      if ctx.Halted s then
        some (.ok s, ticks)
      else
        match ctx.stepOn s ticks with
        | (.error e, ticks) => some (.error e, ticks)
        | (.ok s, ticks) => ctx.loopOn fuel s ticks

/-!
# Refinement
-/

section Refine

variable {ctx : SwapContext} {slab : TickSlab A} {ticks : SortedMap Int TickInfoInner}
  {s : SwapLoopState} {t : Int}

theorem stepTarget_eq (h : slab.Holds ctx.tickSpacing ticks) (ht : -2 ^ 20 ≤ t ∧ t < 2 ^ 20) :
    ctx.stepTarget slab t = ctx.targetOn ticks t := by
  have hnext := nextTick_eq ctx h.keyed ht
  unfold stepTarget targetOn nearestKey
  rw [hnext, h.snapshot]
  generalize (if ctx.zeroForOne then ticks.findLE? t else ticks.findGT? t) = found
  cases found with
  | none => rfl
  | some e =>
      rw [Option.map_some, Option.filter_some, Option.filter_some]
      by_cases hword : (if ctx.zeroForOne then decide (ctx.wordBoundary t ≤ e.1)
          else decide (e.1 ≤ ctx.wordBoundary t)) = true
      · rw [if_pos hword, if_pos hword, Option.map_some]
        dsimp only [TickSlab.entryAt, TickInfo.withInner]
        have hindexer : slab.indexer e.1 = fromTick e.1 ctx.tickSpacing.asU32 := by
          rw [← h.spacing]
          rfl
        rw [hindexer]
      · rw [if_neg hword, if_neg hword]
        rfl

theorem step_refines (hready : ctx.Ready s) (hrun : ¬ ctx.Halted s)
    (h : slab.Holds ctx.tickSpacing ticks) :
    (ctx.step s slab).1 = (ctx.stepOn s ticks).1 ∧
      (ctx.step s slab).2.Holds ctx.tickSpacing (ctx.stepOn s ticks).2 := by
  unfold stepOn
  rw [← stepTarget_eq h hready.inTick.bounds]
  rcases step_cases hready hrun h with ⟨e, hadvance, hstep⟩ | ⟨c, hadvance, _, hcrosses⟩
  · rw [hadvance, hstep]
    exact ⟨rfl, h⟩
  · rw [hadvance]
    dsimp only
    unfold crossOn
    generalize hr : ctx.step s slab = r at hcrosses
    cases hcrosses with
    | stay hnone =>
        rw [hnone]
        exact ⟨rfl, h⟩
    | pass hsome hget hholds hsum hlt =>
        rw [hsome]
        dsimp only
        rw [tickAt_some hget, checkedAddSigned_eq_some.mpr ⟨hsum, hlt⟩]
        exact ⟨rfl, hholds⟩
    | underflow hsome hget hholds hnone =>
        rw [hsome]
        dsimp only
        rw [tickAt_some hget, hnone]
        exact ⟨rfl, hholds⟩

theorem loop_refines (fuel : Nat) (hready : ctx.Ready s)
    (h : slab.Holds ctx.tickSpacing ticks) :
    Option.Rel (fun r r' => r.1 = r'.1 ∧ r.2.Holds ctx.tickSpacing r'.2)
      (ctx.loop fuel s slab) (ctx.loopOn fuel s ticks) := by
  induction fuel generalizing s slab ticks with
  | zero =>
      exact Option.Rel.none
  | succ fuel ih =>
      unfold loop loopOn
      by_cases hhalt : ctx.Halted s
      · rw [if_pos hhalt, if_pos hhalt]
        exact Option.Rel.some ⟨rfl, h⟩
      · rw [if_neg hhalt, if_neg hhalt]
        have hstep := step_refines hready hhalt h
        cases hr : ctx.step s slab with
        | mk result slab' =>
            cases hr' : ctx.stepOn s ticks with
            | mk result' ticks' =>
                rw [hr, hr'] at hstep
                have hsame : result = result' := hstep.1
                rw [← hsame]
                cases result with
                | error e =>
                    exact Option.Rel.some ⟨rfl, hstep.2⟩
                | ok s' =>
                    rcases step_cases hready hhalt h with ⟨e, _, he⟩ | ⟨c, hc, _, _⟩
                    · rw [hr] at he
                      cases he
                    · have hkeyed := h.keyed
                      have hspacing := h.spacing
                      have hinvariant : ctx.Invariant (s, slab) := ⟨hready, hkeyed, hspacing⟩
                      have hi : ctx.Iterates (s, slab) c (s', slab') := ⟨hhalt, hc, hr⟩
                      exact ih (hi.invariant hinvariant).ready hstep.2

end Refine

end SwapContext

/-!
# Pools on ordered ticks
-/

namespace Pool

variable {P : Type} {p : Pool P A} {params : SwapParamsInner}

def finishOn (ctx : SwapContext) (state : PoolState)
    (r : Except Error SwapLoopState × SortedMap Int TickInfoInner) :
    Except Error SwapResult × PoolState × SortedMap Int TickInfoInner :=
  match r with
  | (.error e, ticks) => (.error e, state, ticks)
  | (.ok s, ticks) =>
      match ctx.swapDelta s with
      | .error e => (.error e, state, ticks)
      | .ok swapDelta =>
          (.ok (swapResult ctx swapDelta s),
            ctx.access.setState state s.tick s.sqrtPriceX96 s.liquidity ctx.zeroForOne
              s.feeGrowthGlobalX128,
            ticks)

/-- A swap on the ordered ticks: its result, the state and the ticks after it. -/
def runSwapOn (p : Pool P A) (access : Access) (params : SwapParamsInner) (fuel : Nat) :
    Option (Except Error SwapResult × PoolState × SortedMap Int TickInfoInner) :=
  match p.resolveSwapFee params with
  | .error e => some (.error e, p.state, p.ticks.snapshot)
  | .ok swapFee =>
      let ctx := p.swapContext access swapFee params
      let start := p.swapStart params
      if params.amountSpecified = 0 then
        some (.ok (swapResult ctx BalanceDelta.default start), p.state, p.ticks.snapshot)
      else
        match checkLimit params.zeroForOne p.state.sqrtPriceX96 params.sqrtPriceLimit with
        | .error e => some (.error e, p.state, p.ticks.snapshot)
        | .ok _ => (ctx.loopOn fuel start p.ticks.snapshot).map (finishOn ctx p.state)

/-- The parts of a pool after a swap that its ordered ticks determine. -/
structure Leaves (p : Pool P A) (r : Except Error SwapResult × Pool P A)
    (r' : Except Error SwapResult × PoolState × SortedMap Int TickInfoInner) : Prop where
  result : r.1 = r'.1
  state : r.2.state = r'.2.1
  ticks : r.2.ticks.Holds p.tickSpacing r'.2.2
  tickSpacing : r.2.tickSpacing = p.tickSpacing
  swapFee : r.2.swapFee = p.swapFee
  positions : r.2.positions = p.positions

theorem swapStart_ready (access : Access) (hp : p.Usable) {swapFee : SwapFee}
    (hfee : p.resolveSwapFee params = .ok swapFee)
    (hlimit : checkLimit params.zeroForOne p.state.sqrtPriceX96 params.sqrtPriceLimit = .ok ()) :
    (p.swapContext access swapFee params).Ready (p.swapStart params) := by
  have hside := checkLimit_eq_ok hlimit
  exact
    { spacing := hp.positive
      fee := (resolveSwapFee_consistent hp.fees hfee).1.isValid _
      limit := params.limitValid
      price := hp.price
      down := fun hz => le_of_lt (hside.1 hz)
      up := fun hz => le_of_lt (hside.2 hz)
      inTick := hp.inTick
      liquidity := hp.liquidity
      remaining := params.amountFits }

theorem runSwap_refines (hp : p.Usable) (access : Access) (params : SwapParamsInner)
    (fuel : Nat) :
    Option.Rel p.Leaves (p.runSwap access params fuel) (p.runSwapOn access params fuel) := by
  have hsame {result : Except Error SwapResult} :
      Option.Rel p.Leaves (some (result, p)) (some (result, p.state, p.ticks.snapshot)) :=
    Option.Rel.some ⟨rfl, rfl, hp.holds, rfl, rfl, rfl⟩
  unfold runSwap runSwapOn
  cases hfee : p.resolveSwapFee params with
  | error e =>
      exact hsame
  | ok swapFee =>
      dsimp only
      unfold swapInner
      dsimp only
      by_cases hzero : params.amountSpecified = 0
      · rw [if_pos hzero, if_pos hzero]
        exact hsame
      · rw [if_neg hzero, if_neg hzero]
        cases hlimit : checkLimit params.zeroForOne p.state.sqrtPriceX96 params.sqrtPriceLimit with
        | error e =>
            exact hsame
        | ok u =>
            have hloop := SwapContext.loop_refines fuel
              (swapStart_ready access hp hfee hlimit) hp.holds
            dsimp only
            generalize (p.swapContext access swapFee params).loop fuel (p.swapStart params)
              p.ticks = r at hloop ⊢
            generalize (p.swapContext access swapFee params).loopOn fuel (p.swapStart params)
              p.ticks.snapshot = r' at hloop ⊢
            cases hloop with
            | none =>
                exact Option.Rel.none
            | @some r r' h =>
                rcases r with ⟨result, slab⟩
                rcases r' with ⟨result', ticks⟩
                have heq : result = result' := h.1
                rw [← heq]
                refine Option.Rel.some ?_
                cases result with
                | error e =>
                    exact ⟨rfl, rfl, h.2, rfl, rfl, rfl⟩
                | ok s =>
                    unfold finishOn finishSwap
                    dsimp only
                    cases (p.swapContext access swapFee params).swapDelta s with
                    | error e => exact ⟨rfl, rfl, h.2, rfl, rfl, rfl⟩
                    | ok delta => exact ⟨rfl, rfl, h.2, rfl, rfl, rfl⟩

end Pool

end RmUniswap
