import RmUniswap.Pool.Capacity
import RmUniswap.Pool.Quote

/-!
# Saving and restoring pools

A pool answers every request from its snapshot alone, so a fork answers as the
pool does. A pool that a run reaches can be forked exactly when its tick is the
one validation computes from its price; a downward swap that stops on an
initialized tick leaves another one.
-/

namespace RmUniswap

open Foundation

variable {A : Type} [LawfulAllocator TickSlabValue A]

namespace Pool

/-- Two pools over slabs that hold the same ticks. -/
structure Twin {P : Type} (p q : Pool P A) : Prop where
  state : q.state = p.state
  swapFee : q.swapFee = p.swapFee
  tickSpacing : q.tickSpacing = p.tickSpacing
  ticks : q.ticks.snapshot = p.ticks.snapshot
  positions : q.positions = p.positions

section Twin

variable {P : Type} {p q : Pool P A}

theorem Twin.eq (h : Twin p q) : q = { p with ticks := q.ticks } := by
  rcases h with ⟨hstate, hfee, hspacing, _, hpositions⟩
  cases q
  cases hstate
  cases hfee
  cases hspacing
  cases hpositions
  rfl

theorem Twin.snapshot (h : Twin p q) (hp : p.Usable) (hq : q.Usable) :
    q.snapshot = p.snapshot := by
  unfold Pool.snapshot TickSlab.ownedSnapshot
  rw [h.state, h.swapFee, hq.spacing, hp.spacing, h.tickSpacing, h.ticks, h.positions]

/-!
# Swaps and quotes
-/

theorem Twin.runSwapOn (h : Twin p q) (access : Access) (params : SwapParamsInner) (fuel : Nat) :
    q.runSwapOn access params fuel = p.runSwapOn access params fuel := by
  have hticks := h.ticks
  rw [h.eq] at hticks ⊢
  unfold Pool.runSwapOn
  rw [hticks]
  rfl

theorem Twin.leaves (h : Twin p q) {r r' : Except Error SwapResult × Pool P A}
    {on : Except Error SwapResult × PoolState × SortedMap Int TickInfoInner}
    (hr : p.Leaves r on) (hr' : q.Leaves r' on) : r'.1 = r.1 ∧ Twin r.2 r'.2 := by
  refine ⟨hr'.result.trans hr.result.symm, ?_⟩
  exact
    { state := hr'.state.trans hr.state.symm
      swapFee := hr'.swapFee.trans (h.swapFee.trans hr.swapFee.symm)
      tickSpacing := hr'.tickSpacing.trans (h.tickSpacing.trans hr.tickSpacing.symm)
      ticks := hr'.ticks.snapshot.trans hr.ticks.snapshot.symm
      positions := hr'.positions.trans (h.positions.trans hr.positions.symm) }

theorem Twin.runSwap (h : Twin p q) (hp : p.Usable) (hq : q.Usable) (access : Access)
    (params : SwapParamsInner) (fuel : Nat) :
    Option.Rel (fun r r' => r'.1 = r.1 ∧ Twin r.2 r'.2) (p.runSwap access params fuel)
      (q.runSwap access params fuel) := by
  have hrel := runSwap_refines hp access params fuel
  have hrel' := runSwap_refines hq access params fuel
  rw [h.runSwapOn] at hrel'
  generalize p.runSwap access params fuel = run at hrel ⊢
  generalize q.runSwap access params fuel = run' at hrel' ⊢
  generalize p.runSwapOn access params fuel = on at hrel hrel'
  cases hrel with
  | none =>
      cases hrel'
      exact Option.Rel.none
  | some hr =>
      cases hrel' with
      | some hr' => exact Option.Rel.some (h.leaves hr hr')

end Twin

/-!
# Liquidity changes
-/

def changeOn (state : PoolState) (tickSpacing : TickSpacing) (ticks : SortedMap Int TickInfoInner)
    (params : ModifyLiquidityParams) :
    Except Error (TickBoundary × TickBoundary) × SortedMap Int TickInfoInner :=
  let lower := tickAt ticks params.tickLower
  let upper := tickAt ticks params.tickUpper
  let max := tickSpacing.maxLiquidityPerTick
  if params.liquidityDelta = 0 then
    (.ok ({ lower.boundary params.tickLower with sqrtPrice := minSqrtPrice },
      { upper.boundary params.tickUpper with sqrtPrice := minSqrtPrice }), ticks)
  else if ¬ lower.Admits max params.liquidityDelta false then
    (.error (lower.rejection max params.liquidityDelta), touchTick ticks params.tickLower)
  else if ¬ upper.Admits max params.liquidityDelta true then
    (.error (upper.rejection max params.liquidityDelta),
      touchTick (storeTick ticks params.tickLower (params.lowerAfter state ticks))
        params.tickUpper)
  else
    (.ok ((params.lowerAfter state ticks).boundary params.tickLower,
      (params.upperAfter state ticks).boundary params.tickUpper), params.changeTicks state ticks)

section Change

variable {P : Type} {p q : Pool P A} {params : ModifyLiquidityParams}

theorem updateBoundaries_refines (hp : p.Usable)
    (hrange : params.RangeValid p.tickSpacing) :
    (updateBoundaries p.state p.ticks params).1 =
        (changeOn p.state p.tickSpacing p.ticks.snapshot params).1 ∧
      (updateBoundaries p.state p.ticks params).2.Holds p.tickSpacing
        (changeOn p.state p.tickSpacing p.ticks.snapshot params).2 := by
  have hlower := storable_of_inRange hrange.2.1 params.lowerInRange
  have hupper := storable_of_inRange hrange.2.2 params.upperInRange
  have hslab := hp.holds
  unfold changeOn
  dsimp only
  rcases updateBoundaries_cases hslab hrange with ⟨hdelta, heq⟩ |
    ⟨hdelta, hadmits, slab, heq, hholds⟩ | ⟨hdelta, hadmits, hadmits', slab, heq, hholds⟩ |
    ⟨hdelta, slab, heq, hb⟩
  · rw [if_pos hdelta, heq, readTick_eq hslab hlower, readTick_eq hslab hupper]
    exact ⟨rfl, hslab⟩
  · rw [if_neg hdelta, if_pos hadmits, heq]
    exact ⟨rfl, hholds⟩
  · rw [if_neg hdelta, if_neg (not_not.mpr hadmits), if_pos hadmits', heq]
    exact ⟨rfl, hholds⟩
  · have hadmits := hb.admits hdelta
    rw [if_neg hdelta, if_neg (not_not.mpr hadmits.1), if_neg (not_not.mpr hadmits.2), heq]
    exact ⟨rfl, hb.holds hp⟩

theorem Twin.modifyLiquidity [PositionsAccess P] (h : Twin p q) (hp : p.Usable) (hq : q.Usable)
    (params : ModifyLiquidityParams) :
    (q.modifyLiquidity params).1 = (p.modifyLiquidity params).1 ∧
      Twin (p.modifyLiquidity params).2 (q.modifyLiquidity params).2 := by
  have hticks := h.ticks
  rw [h.eq] at hq hticks ⊢
  generalize q.ticks = slab at hq hticks ⊢
  unfold Pool.modifyLiquidity
  dsimp only
  cases hcheck : checkTicks params.tickLower params.tickUpper p.tickSpacing with
  | error e =>
      exact ⟨rfl, rfl, rfl, rfl, hticks, rfl⟩
  | ok u =>
      have hrange := checkTicks_eq_ok.mp hcheck
      have hchange := updateBoundaries_refines hp hrange
      have hchange' := updateBoundaries_refines hq hrange
      dsimp only at hchange' ⊢
      rw [hticks] at hchange'
      have hresult := hchange'.1.trans hchange.1.symm
      have hsame := hchange'.2.snapshot.trans hchange.2.snapshot.symm
      generalize updateBoundaries p.state p.ticks params = r at hresult hsame ⊢
      generalize updateBoundaries p.state slab params = r' at hresult hsame ⊢
      rcases r with ⟨result, after⟩
      rcases r' with ⟨result', after'⟩
      dsimp only at hresult hsame
      rw [hresult]
      cases result with
      | error e =>
          exact ⟨rfl, rfl, rfl, rfl, hsame, rfl⟩
      | ok boundaries =>
          rcases boundaries with ⟨lower, upper⟩
          have hfees (ticks : TickSlab A) :
              ({ p with ticks } : Pool P A).realizeFees params lower upper =
                p.realizeFees params lower upper := rfl
          dsimp only
          rw [hfees after', hfees after]
          generalize p.realizeFees params lower upper = fees
          rcases fees with ⟨fees, positions⟩
          cases fees with
          | error e =>
              exact ⟨rfl, rfl, rfl, rfl, hsame, rfl⟩
          | ok feeDelta =>
              dsimp only
              generalize settlePrincipal p.state params lower upper = settled
              rcases settled with ⟨delta, state⟩
              cases delta with
              | error e => exact ⟨rfl, rfl, rfl, rfl, hsame, rfl⟩
              | ok delta => exact ⟨rfl, rfl, rfl, rfl, hsame, rfl⟩

end Change

/-!
# Requests
-/

/-- Two pools that give the same answer to everything a caller may ask. -/
structure AnswersAlike {P : Type} [PositionsAccess P] (p q : Pool P A) : Prop where
  snapshot : q.snapshot = p.snapshot
  quoteSwap : forall params fuel, q.quoteSwap params fuel = p.quoteSwap params fuel
  swap : forall params fuel,
    (q.swap params fuel).map Prod.fst = (p.swap params fuel).map Prod.fst
  modifyLiquidity : forall params, (q.modifyLiquidity params).1 = (p.modifyLiquidity params).1
  quoteModifyLiquidity : forall params,
    q.quoteModifyLiquidity params = p.quoteModifyLiquidity params
  setProtocolFee : forall protocolFee,
    (q.setProtocolFee protocolFee).1 = (p.setProtocolFee protocolFee).1

section Requests

variable {P : Type} [PositionsAccess P] {p p' q : Pool P A} {request : Request}
  {requests : List Request}

theorem Twin.answersAlike (h : Twin p q) (hp : p.Usable) (hq : q.Usable) : p.AnswersAlike q := by
  have hrun (access : Access) (params : SwapParamsInner) (fuel : Nat) :
      (q.runSwap access params fuel).map Prod.fst =
        (p.runSwap access params fuel).map Prod.fst := by
    have hrel := h.runSwap hp hq access params fuel
    generalize p.runSwap access params fuel = run at hrel ⊢
    generalize q.runSwap access params fuel = run' at hrel ⊢
    cases hrel with
    | none => rfl
    | some hr => exact congrArg some hr.1
  refine
    { snapshot := h.snapshot hp hq
      quoteSwap := hrun .shared
      swap := hrun .exclusive
      modifyLiquidity := fun params => (h.modifyLiquidity hp hq params).1
      quoteModifyLiquidity := fun params => ?_
      setProtocolFee := fun protocolFee => ?_ }
  · unfold Pool.quoteModifyLiquidity
    rw [h.state, h.tickSpacing]
  · unfold Pool.setProtocolFee
    rw [h.swapFee]
    cases p.swapFee.setProtocolFee protocolFee <;> rfl

theorem Twin.attempts (h : Twin p q) (hp : p.Usable) (hq : q.Usable)
    (ha : Attempts p request p') : exists q', Attempts q request q' ∧ Twin p' q' := by
  cases ha with
  | modifyLiquidity params =>
      exact ⟨_, Attempts.modifyLiquidity params, (h.modifyLiquidity hp hq params).2⟩
  | @swap params result p' hswap =>
      rcases hswap with ⟨fuel, hswap⟩
      have hrel := h.runSwap hp hq .exclusive params fuel
      unfold Pool.swap at hswap
      rw [hswap] at hrel
      cases hrun : q.runSwap .exclusive params fuel with
      | none =>
          rw [hrun] at hrel
          cases hrel
      | some r' =>
          rw [hrun] at hrel
          cases hrel with
          | some hr =>
              have hresult : r'.1 = result := hr.1
              refine ⟨r'.2, @Attempts.swap A _ P _ q params result r'.2 ⟨fuel, ?_⟩, hr.2⟩
              unfold Pool.swap
              rw [hrun, ← hresult]
  | setProtocolFee protocolFee =>
      refine ⟨_, Attempts.setProtocolFee protocolFee, ?_⟩
      unfold Pool.setProtocolFee
      rw [h.swapFee]
      cases p.swapFee.setProtocolFee protocolFee with
      | error e => exact h
      | ok swapFee => exact ⟨h.state, rfl, h.tickSpacing, h.ticks, h.positions⟩
  | @setLpFee lpFee swapFee hfee =>
      refine ⟨{ q with swapFee }, @Attempts.setLpFee A _ P _ q lpFee swapFee ?_, ?_⟩
      · rw [h.swapFee]
        exact hfee
      · exact ⟨h.state, rfl, h.tickSpacing, h.ticks, h.positions⟩

theorem Twin.run (h : Twin p q) (hp : p.Usable) (hq : q.Usable)
    (hrun : Run Attempts p requests p') :
    exists q', Run Attempts q requests q' ∧ p'.AnswersAlike q' := by
  induction hrun generalizing q with
  | nil p =>
      exact ⟨q, Run.nil q, h.answersAlike hp hq⟩
  | cons ha _ ih =>
      rcases h.attempts hp hq ha with ⟨q1, hq1, htwin⟩
      rcases ih htwin (hp.attempts ha) (hq.attempts hq1) with ⟨q', hrun', halike⟩
      exact ⟨q', Run.cons hq1 hrun', halike⟩

/-!
# Forks
-/

theorem SwapFee.eq_of_consistent {f g : SwapFee} (hf : f.Consistent) (hg : g.Consistent)
    (hlp : g.lpFee = f.lpFee) (hprotocol : g.protocolFee = f.protocolFee) : g = f := by
  unfold SwapFee.Consistent at hf hg
  rw [hlp, hprotocol, hf] at hg
  injection hg with hg
  injection hg with hzero hone
  cases f
  cases g
  cases hlp
  cases hprotocol
  cases hzero
  cases hone
  rfl

theorem Usable.fork (hp : p.Usable) (h : p.tryFork = .ok q) : Twin p q ∧ q.Usable := by
  have hr := fromSnapshot_eq_ok h
  have htwin : Twin p q :=
    { state := hr.state
      swapFee := SwapFee.eq_of_consistent hp.fees hr.fees hr.lpFee hr.protocolFee
      tickSpacing := hr.tickSpacing
      ticks := hr.ticks.snapshot
      positions := hr.positions }
  exact ⟨htwin, (hr.sound hp.price).toUsable⟩

end Requests

/-- What validation asks of a pool beyond being backed by its positions. -/
structure Forkable (p : Pool Positions A) : Prop where
  tick : getTickAtSqrtPrice p.state.sqrtPriceX96 = p.state.tick
  protocolFee : p.swapFee.protocolFee.isValid = true
  sums : forall t info, p.ticks.snapshot.get? t = some info -> t ≤ p.state.tick ->
    FitsSigned 128 (netBelow p.ticks.snapshot t)

section Fork

variable {p p0 : Pool Positions A} {ops : List Operation}

theorem Backed.valid_iff (hp : p.Backed) : p.snapshot.Valid ↔ p.Forkable := by
  constructor
  · intro h
    exact ⟨h.tick, h.protocolFee, h.sums⟩
  · intro h
    exact
      { spacing := hp.sound.spacing
        protocolFee := h.protocolFee
        tick := h.tick
        aligned := fun t info hget => (hp.sound.holds.storable hget).aligned
        accounted := fun t info hget => hp.reconciled.accounted hget
        sums := h.sums
        active := hp.sound.active
        positions := Positions.validate_of_reconciled hp.sound.positive hp.sound.spacing
          hp.reconciled }

theorem Backed.fork_iff (hp : p.Backed) : (exists q, p.tryFork = .ok q) ↔ p.Forkable := by
  constructor
  · rintro ⟨q, hq⟩
    exact hp.valid_iff.mp (fromSnapshot_eq_ok hq).valid
  · intro h
    have hfee : SwapFee.fromLpFee p.snapshot.fee p.snapshot.protocolFee = .ok p.swapFee :=
      SwapFee.fromLpFee_eq_ok.mpr ⟨rfl, rfl, hp.sound.fees⟩
    exact fromSnapshot_complete (hp.valid_iff.mpr h) hp.sound.positive
      (fun t info hget => hp.sound.holds.storable hget) hfee

/-- A pool that a run of operations reaches can be saved and restored, into a fork
that answers every later request alike, exactly when its tick is the one of its
price, its protocol fee is valid and its net sums fit. Only a move down that stopped
at the price of a tick leaves another tick behind. -/
theorem run_fork_iff (h0 : p0.Accepted) (h : Run Performs p0 ops p) :
    ((exists q, p.tryFork = .ok q ∧ q.snapshot = p.snapshot ∧
      forall requests p', Run Attempts p requests p' ->
        exists q', Run Attempts q requests q' ∧ p'.AnswersAlike q') ↔ p.Forkable) ∧
      (getTickAtSqrtPrice p.state.sqrtPriceX96 = p.state.tick ∨
        p.state.sqrtPriceX96 = getSqrtPriceAtTick (p.state.tick + 1) ∧
          exists o, o ∈ ops ∧ o.LeavesDown p.state) := by
  have hp := h0.backed.run h
  refine ⟨?_, h0.run_floor h⟩
  constructor
  · rintro ⟨q, hq, _⟩
    exact hp.fork_iff.mp ⟨q, hq⟩
  · intro hforkable
    rcases hp.fork_iff.mpr hforkable with ⟨q, hq⟩
    have hfork := hp.sound.toUsable.fork hq
    exact ⟨q, hq, hfork.1.snapshot hp.sound.toUsable hfork.2,
      fun requests p' hrun => hfork.1.run hp.sound.toUsable hfork.2 hrun⟩

theorem run_fork_iff_sample :
    (exists q, Sample.sold.tryFork = .ok q ∧ q.snapshot = Sample.sold.snapshot ∧
      forall requests p', Run Attempts Sample.sold requests p' ->
        exists q', Run Attempts q requests q' ∧ p'.AnswersAlike q') ↔ Sample.sold.Forkable :=
  (run_fork_iff Sample.empty_fresh.accepted Sample.run).1

end Fork

end Pool

/-!
# A pool that cannot be restored

A sale with its limit on the lower tick of the only range stops there: the tick
is one below, the price is the one of the tick.
-/

namespace Sample

def sellToTick : SwapParamsInner :=
  { zeroForOne := true
    amountSpecified := -10 ^ 18
    sqrtPriceLimit := getSqrtPriceAtTick (-60)
    lpFeeOverride := none
    amountFits := by decide
    limitValid := by decide +kernel }

def stopped : Pool Positions := swapped funded sellToTick 3

def stoppedResult : SwapResult :=
  (((funded.swap sellToTick 3).map Prod.fst).bind Except.toOption).getD result

end Sample

/-- After adding a range and selling down to its lower tick a pool cannot be restored. -/
theorem fork_fails_on_tick :
    exists (p : Pool Positions) (ops : List Operation), Sample.empty.Fresh ∧
      Run Pool.Performs Sample.empty ops p ∧ (forall o, o ∈ ops -> o.LimitStrict) ∧
      p.tryFork = .err .invalidTick := by
  have hsome : (Sample.funded.swap Sample.sellToTick 3).map Prod.fst =
      some (.ok Sample.stoppedResult) := by
    decide +kernel
  have hswaps : Sample.funded.Swaps Sample.sellToTick (.ok Sample.stoppedResult) Sample.stopped :=
    ⟨3, Sample.swap_eq hsome⟩
  refine ⟨Sample.stopped, [.modifyLiquidity Sample.add Sample.added,
    .swap Sample.sellToTick Sample.stoppedResult], Sample.empty_fresh,
    Run.cons (Pool.Performs.modifyLiquidity Sample.empty_add)
      (Run.cons (Pool.Performs.swap hswaps) (Run.nil _)), ?_, ?_⟩
  · intro o ho
    rcases List.mem_cons.mp ho with rfl | ho
    · trivial
    · rcases List.mem_singleton.mp ho with rfl
      exact ⟨by decide +kernel, by decide +kernel⟩
  · have hvalidate : Sample.stopped.snapshot.validate = .err .invalidTick := by
      decide +kernel
    unfold Pool.tryFork Pool.fromSnapshot
    rw [hvalidate]
    rfl

end RmUniswap
