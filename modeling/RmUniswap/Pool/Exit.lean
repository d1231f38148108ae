import RmUniswap.Foundation.Simulation
import RmUniswap.Pool.Capacity
import RmUniswap.Pool.Collect
import RmUniswap.Pool.Limits
import RmUniswap.Pool.Solvency

/-!
# Leaving a pool

A removal of liquidity that a position holds passes every check of the ticks, of the
position and of the active liquidity. All that is left to fail is the width of what
it pays, and no payout is above what the pool holds. So whatever the pool went
through, its positions can be emptied in any order.
-/

namespace RmUniswap

open Foundation

variable {A : Type} [LawfulAllocator TickSlabValue A]

namespace ModifyLiquidityParams

/-- The liquidity a list of changes takes out of a position. -/
def withdrawn (i : PositionIndex) (exits : List ModifyLiquidityParams) : Int :=
  (exits.map fun e => if e.index = i then -e.liquidityDelta else 0).sum

theorem withdrawn_cons (i : PositionIndex) (e : ModifyLiquidityParams)
    (exits : List ModifyLiquidityParams) :
    withdrawn i (e :: exits) =
      (if e.index = i then -e.liquidityDelta else 0) + withdrawn i exits := rfl

theorem withdrawn_nonneg {exits : List ModifyLiquidityParams}
    (h : forall e, e ∈ exits -> e.liquidityDelta < 0) (i : PositionIndex) :
    0 ≤ withdrawn i exits := by
  apply List.sum_nonneg
  intro x hx
  rcases List.mem_map.mp hx with ⟨e, he, rfl⟩
  have hneg := h e he
  split <;> omega

end ModifyLiquidityParams

namespace Pool

open ModifyLiquidityParams

/-!
# One removal
-/

structure Removes (p : Pool Positions A) (params : ModifyLiquidityParams) : Prop where
  negative : params.liquidityDelta < 0
  held : 0 ≤ ((p.positions.stateAt params.index).liquidity : Int) + params.liquidityDelta

/-- The principal and the fees of a payout each fit the amounts of a delta. -/
def PayoutFits (p : Pool Positions A) (params : ModifyLiquidityParams) (token0 : Bool) : Prop :=
  (params.principalDelta p.state).amount token0 < 2 ^ 127 ∧
    ofToken token0 ((p.positions.stateAt params.index).earned (p.insideRead params)) < 2 ^ 127

section Removes

variable {p p' : Pool Positions A} {params : ModifyLiquidityParams}

theorem Removes.funded (h : p.Removes params) :
    (p.positions.stateAt params.index).liquidity ≠ 0 := by
  have hneg := h.negative
  have hheld := h.held
  omega

theorem Removes.not_adds (h : p.Removes params) : params.adds = false := by
  have hneg := h.negative
  unfold ModifyLiquidityParams.adds
  rw [decide_eq_false_iff_not]
  omega

theorem Backed.rangeValid (hp : p.Backed)
    (hl : (p.positions.stateAt params.index).liquidity ≠ 0) :
    params.RangeValid p.tickSpacing := by
  refine ⟨(hp.funded hl).ordered, ?_⟩
  unfold Positions.stateAt at hl
  cases hget : p.positions.map.get? params.index with
  | none =>
      rw [hget] at hl
      exact absurd rfl hl
  | some position =>
      exact hp.reconciled.aligned params.index position hget

theorem Backed.stateAt_le_gross (hp : p.Backed) {i : PositionIndex} {t : Int}
    (ht : i.tickLower = t ∨ i.tickUpper = t) :
    (p.positions.stateAt i).liquidity ≤ (tickAt p.ticks.snapshot t).liquidityGross := by
  have hgross := hp.reconciled.gross t
  unfold Positions.stateAt
  cases hget : p.positions.map.get? i with
  | none =>
      exact Nat.zero_le _
  | some position =>
      have hle := Positions.le_grossAt hget ht
      show position.liquidity ≤ _
      omega

/-- A tick takes every change that leaves its gross liquidity within the cap. -/
theorem Backed.admits (hp : p.Backed) {t delta : Int}
    (hheld : 0 ≤ ((tickAt p.ticks.snapshot t).liquidityGross : Int) + delta)
    (hroom : ((tickAt p.ticks.snapshot t).liquidityGross : Int) + delta ≤
      p.tickSpacing.maxLiquidityPerTick) (upper : Bool) :
    (tickAt p.ticks.snapshot t).Admits p.tickSpacing.maxLiquidityPerTick delta upper := by
  have hcap := hp.reconciled.cap t
  have hnet := p.positions.netAt_le t
  have htwice := TickSpacing.two_mul_maxLiquidityPerTick_lt hp.sound.positive
  rw [← hp.reconciled.gross t, ← hp.reconciled.net t] at hnet
  refine ⟨hheld, ?_, fun _ => hroom, ?_⟩
  · norm_num at htwice ⊢
    omega
  · unfold FitsSigned TickInfoInner.netAfter
    norm_num at htwice ⊢
    split <;> omega

theorem Removes.admits (h : p.Removes params) (hp : p.Backed) {t : Int}
    (ht : params.tickLower = t ∨ params.tickUpper = t) (upper : Bool) :
    (tickAt p.ticks.snapshot t).Admits p.tickSpacing.maxLiquidityPerTick
      params.liquidityDelta upper := by
  have hneg := h.negative
  have hheld := h.held
  have hle := hp.stateAt_le_gross (i := params.index) ht
  have hcap := hp.reconciled.cap t
  exact hp.admits (by omega) (by omega) upper

theorem Removes.principal_eq (h : p.Removes params) (token0 : Bool) :
    (params.principalDelta p.state).amount token0 = ofToken token0 (params.principal p.state) := by
  unfold ModifyLiquidityParams.principalDelta BalanceDelta.amount
  rw [h.not_adds]
  cases token0 <;> rfl

theorem Removes.payout_eq (h : p.Removes params) (hp : p.Backed) (token0 : Bool) :
    p.payout params token0 = ofToken token0 (params.principal p.state) +
      ((p.positions.stateAt params.index).liquidity * p.growthSince token0 params.index /
        2 ^ 128 : Nat) := by
  unfold payout
  rw [hp.earned_eq, h.principal_eq]

theorem Backed.earned_changed (hp : p.Backed) (hdelta : params.liquidityDelta ≠ 0)
    (token0 : Bool) :
    ofToken token0 ((p.positions.stateAt params.index).earned
      (p.insideAt params (params.lowerAfter p.state p.ticks.snapshot)
        (params.upperAfter p.state p.ticks.snapshot))) =
      (p.positions.stateAt params.index).liquidity * p.growthSince token0 params.index /
        2 ^ 128 := by
  rw [← hp.earned_eq]
  unfold insideRead changedBounds
  rw [if_neg hdelta]

/-- A removal is accepted exactly when what it pays fits. -/
theorem Removes.permits_iff (h : p.Removes params) (hp : p.Backed) :
    p.Permits params ↔ forall token0, p.PayoutFits params token0 := by
  have hneg := h.negative
  have hheld := h.held
  have hdelta : params.liquidityDelta ≠ 0 := ne_of_lt hneg
  have hearned (token0 : Bool) := (hp.earned_changed hdelta token0).trans
    (hp.earned_eq params token0).symm
  have hfits (token0 : Bool) : p.PayoutFits params token0 ↔
      ofToken token0 (params.principal p.state) < 2 ^ 127 ∧
        ofToken token0 ((p.positions.stateAt params.index).earned
          (p.insideAt params (params.lowerAfter p.state p.ticks.snapshot)
            (params.upperAfter p.state p.ticks.snapshot))) < 2 ^ 127 := by
    unfold PayoutFits
    rw [h.principal_eq, hearned]
    norm_cast
  have hprincipal : (PrincipalFits params.adds (params.principal p.state).1 ∧
      PrincipalFits params.adds (params.principal p.state).2) ↔
        (params.principal p.state).1 < 2 ^ 127 ∧ (params.principal p.state).2 < 2 ^ 127 := by
    unfold PrincipalFits
    rw [h.not_adds, if_neg (by decide), if_neg (by decide)]
  rw [forall_token, hfits, hfits]
  constructor
  · intro hpermits
    have hamounts := hprincipal.mp hpermits.principal
    exact ⟨⟨hamounts.1, hpermits.fees.1⟩, hamounts.2, hpermits.fees.2⟩
  · rintro ⟨⟨hprincipal0, hfees0⟩, hprincipal1, hfees1⟩
    refine
      { range := hp.rangeValid h.funded
        lower := h.admits hp (Or.inl rfl) false
        upper := h.admits hp (Or.inr rfl) true
        position := ?_
        fees := ⟨hfees0, hfees1⟩
        active := fun hin => ?_
        principal := hprincipal.mpr ⟨hprincipal0, hprincipal1⟩ }
    · have hlt := hp.position_lt params.index
      unfold PositionState.Updatable
      rw [if_neg (by omega)]
      norm_num at hlt ⊢
      omega
    · have hle := hp.stateAt_le (i := params.index) hin
      have hlt := hp.sound.liquidity
      norm_num at hlt ⊢
      omega

theorem Removes.payoutFits (h : p.Removes params) {token0 : Bool}
    (hlt : p.payout params token0 < 2 ^ 127) : p.PayoutFits params token0 := by
  unfold PayoutFits
  unfold payout at hlt
  rw [h.principal_eq] at hlt ⊢
  norm_num at hlt ⊢
  omega

theorem Removes.succeeds_iff (h : p.Removes params) (hp : p.Backed) :
    (exists result p', p.modifyLiquidity params = (.ok result, p')) ↔
      forall token0, p.PayoutFits params token0 := by
  have hdelta : params.liquidityDelta ≠ 0 := ne_of_lt h.negative
  rw [← h.permits_iff hp]
  constructor
  · rintro ⟨result, p', hok⟩
    exact (modify_permitted hp.sound.holds hp.sound.price (hp.position_lt params.index) hdelta
      hok).1
  · exact modify_ok_of_permits hp.sound.holds hp.sound.price (hp.position_lt params.index) hdelta

theorem Backed.liquidity_modify {result : ModifyLiquidityResult} (hp : p.Backed)
    (h : p.modifyLiquidity params = (.ok result, p')) (i : PositionIndex) :
    ((p'.positions.stateAt i).liquidity : Int) = (p.positions.stateAt i).liquidity +
      if params.index = i then params.liquidityDelta else 0 := by
  have hrealizes := hp.realizes h
  rw [hrealizes.positions]
  by_cases hi : i = params.index
  · rw [hi, stateAt_put_self, if_pos rfl]
    exact updated_liquidity hrealizes.updatable _
  · rw [stateAt_put_ne _ hi, if_neg (fun heq => hi heq.symm), add_zero]

end Removes

/-!
# Removals one after the other
-/

/-- Removals that the positions of a pool hold, in any order. -/
structure Exits (p : Pool Positions A) (exits : List ModifyLiquidityParams) : Prop where
  negative : forall e, e ∈ exits -> e.liquidityDelta < 0
  held : forall i, withdrawn i exits ≤ (p.positions.stateAt i).liquidity

section Exits

variable {p0 p p' : Pool Positions A} {ops : List Operation} {e : ModifyLiquidityParams}
  {exits : List ModifyLiquidityParams} {result : ModifyLiquidityResult}

theorem Exits.head (h : p.Exits (e :: exits)) : p.Removes e := by
  have hheld := h.held e.index
  have hrest := withdrawn_nonneg (fun e he => h.negative e (List.mem_cons_of_mem _ he)) e.index
  rw [withdrawn_cons, if_pos rfl] at hheld
  exact ⟨h.negative e List.mem_cons_self, by omega⟩

theorem Exits.tail (h : p.Exits (e :: exits)) (hp : p.Backed)
    (hm : p.modifyLiquidity e = (.ok result, p')) : p'.Exits exits := by
  refine ⟨fun e he => h.negative e (List.mem_cons_of_mem _ he), fun i => ?_⟩
  have hheld := h.held i
  rw [hp.liquidity_modify hm i]
  rw [withdrawn_cons] at hheld
  split at hheld
  · rename_i hi
    rw [if_pos hi]
    omega
  · rename_i hi
    rw [if_neg hi]
    omega

/-- After a run from an empty pool that holds less than a delta can tell, a removal
succeeds and leaves it with no more. -/
theorem Removes.run_succeeds (h : p.Removes e) (h0 : p0.Fresh) (hrun : Run Performs p0 ops p)
    (hsmall : forall token0, Operation.balance ops token0 < 2 ^ 127) :
    exists result p', p.modifyLiquidity e = (.ok result, p') ∧
      forall token0, Operation.balance (ops ++ [.modifyLiquidity e result]) token0 < 2 ^ 127 := by
  have hp := (h0.accruing.run hrun).toBacked
  rcases run_records hrun with ⟨entries, hrecords, rfl⟩
  have hpayout (token0 : Bool) := (run_balanced h0 hrecords token0).payout_le_of_keeps hp
    h.funded h.held
  rcases (h.succeeds_iff hp).mpr
    (fun token0 => h.payoutFits ((hpayout token0).trans_lt (hsmall token0))) with ⟨result, p', hm⟩
  refine ⟨result, p', hm, fun token0 => ?_⟩
  have hpaid := hp.payout_eq (ne_of_lt h.negative) hm token0
  have hnonneg : 0 ≤ p.payout e token0 := by
    rw [h.payout_eq hp]
    positivity
  have hreceived : Operation.received token0 (.modifyLiquidity e result) =
      -p.payout e token0 := by
    rw [← hpaid]
    rfl
  have hlt := hsmall token0
  unfold Operation.balance at hlt ⊢
  rw [List.map_append, List.sum_append, List.map_singleton, List.sum_singleton, hreceived]
  omega

/-- A pool on the way out: reached by a run it can still pay for, with the rest of the
removals to serve. -/
structure Leaving (p0 p : Pool Positions A) (exits rest : List ModifyLiquidityParams)
    (s : Pool Positions A) : Prop where
  reached : exists ops, Run Performs p0 ops s ∧
    forall token0, Operation.balance ops token0 < 2 ^ 127
  ahead : s.Exits rest
  left : forall i, ((s.positions.stateAt i).liquidity : Int) - withdrawn i rest =
    (p.positions.stateAt i).liquidity - withdrawn i exits

theorem Leaving.serve {s : Pool Positions A} {rest : List ModifyLiquidityParams} (h0 : p0.Fresh)
    (h : Leaving p0 p exits (e :: rest) s) :
    exists o s', Performs s o s' ∧ o.request = Request.modifyLiquidity e ∧
      Leaving p0 p exits rest s' := by
  rcases h.reached with ⟨ops, hrun, hsmall⟩
  have hp := (h0.accruing.run hrun).toBacked
  rcases h.ahead.head.run_succeeds h0 hrun hsmall with ⟨result, s', hm, hsmall'⟩
  have hperforms : Performs s (.modifyLiquidity e result) s' := Performs.modifyLiquidity hm
  refine ⟨_, s', hperforms, rfl, ⟨_, hrun.snoc hperforms, hsmall'⟩, h.ahead.tail hp hm,
    fun i => ?_⟩
  rw [← h.left i, hp.liquidity_modify hm i, withdrawn_cons]
  split <;> ring

theorem Balanced.fees_covered {entries : List Entry} {token0 : Bool}
    (h : Balanced p entries token0) :
    ((entries.map Entry.operation).map (Operation.realized token0)).sum +
        ((entries.map Entry.operation).map (Operation.toProtocol token0)).sum ≤
      (entries.map (Entry.collected token0)).sum := by
  have hfees := h.fees_nonneg
  have hcollected := h.collected
  have hprovided : (entries.map (Entry.provided token0)).sum =
      (entries.map (Entry.retained token0)).sum +
        ((entries.map Entry.operation).map (Operation.realized token0)).sum := by
    rw [List.map_map, ← List.sum_map_add]
    exact congrArg List.sum (List.map_congr_left fun e _ => (sub_add_cancel _ _).symm)
  omega

theorem Fresh.balance_nonneg (h0 : p0.Fresh) (hrun : Run Performs p0 ops p) (token0 : Bool) :
    0 ≤ Operation.balance ops token0 := by
  rcases run_records hrun with ⟨entries, hrecords, rfl⟩
  have hbacked := (h0.accruing.run hrun).toBacked
  have hbalanced := run_balanced h0 hrecords token0
  have hreserve : (0 : Int) ≤ (entries.map (Entry.principal token0)).sum := by
    exact_mod_cast (hbacked.reserve_nonneg token0).trans hbalanced.principal
  have hfees := hbalanced.fees_nonneg
  rw [hbalanced.received]
  omega

/-- Over any run from a pool without liquidity, a pool has received at least what it
paid out, its fees cover those it realized and those of the protocol, and it holds what
the removal of any position pays. The removal leaves nothing owed, and it succeeds
exactly when both parts of what it pays fit a delta, as they do when the payout does. -/
theorem solvent (h0 : p0.Fresh) (h : Run Performs p0 ops p) :
    (forall token0, 0 ≤ Operation.balance ops token0) ∧
      (forall entries token0, Run Records p0 entries p -> entries.map Entry.operation = ops ->
        (ops.map (Operation.realized token0)).sum + (ops.map (Operation.toProtocol token0)).sum ≤
          (entries.map (Entry.collected token0)).sum) ∧
      forall params : ModifyLiquidityParams,
        (p.positions.stateAt params.index).liquidity ≠ 0 ->
        params.liquidityDelta = -(p.positions.stateAt params.index).liquidity ->
        (forall token0, p.payout params token0 ≤ Operation.balance ops token0) ∧
          ((exists result p', p.modifyLiquidity params = (.ok result, p')) ↔
            forall token0, p.PayoutFits params token0) ∧
          (forall token0, p.payout params token0 < 2 ^ 127 -> p.PayoutFits params token0) ∧
          forall result p', p.modifyLiquidity params = (.ok result, p') -> forall token0,
            result.delta.amount token0 + result.feeDelta.amount token0 = p.payout params token0 ∧
              0 ≤ Operation.balance (ops ++ [.modifyLiquidity params result]) token0 := by
  have hp := (h0.accruing.run h).toBacked
  refine ⟨h0.balance_nonneg h, fun entries token0 hrecords hmap => ?_,
    fun params hl hburn => ?_⟩
  · rw [← hmap]
    exact (run_balanced h0 hrecords token0).fees_covered
  · have hremoves : p.Removes params := ⟨by omega, by omega⟩
    refine ⟨fun token0 => ?_, hremoves.succeeds_iff hp, fun token0 => hremoves.payoutFits,
      fun result p' hm token0 => ⟨hp.payout_eq (by omega) hm token0,
        h0.balance_nonneg (h.snoc (Performs.modifyLiquidity hm)) token0⟩⟩
    rcases run_records h with ⟨entries, hrecords, rfl⟩
    exact (run_balanced h0 hrecords token0).payout_le hp hl hburn

/-- Nobody can be locked in: after any run from an empty pool whose holdings a delta can
tell, the positions can be emptied in any order and in any parts, and the pool pays
for all of it out of what it has received. -/
theorem run_exit (h0 : p0.Fresh) (hrun : Run Performs p0 ops p)
    (hsmall : forall token0, Operation.balance ops token0 < 2 ^ 127) (hexits : p.Exits exits) :
    exists paid p', Run Performs p paid p' ∧
      paid.map Operation.request = exits.map Request.modifyLiquidity ∧
      (forall i, ((p'.positions.stateAt i).liquidity : Int) =
        (p.positions.stateAt i).liquidity - withdrawn i exits) ∧
      forall token0, 0 ≤ Operation.balance (ops ++ paid) token0 := by
  have hstart : Leaving p0 p exits exits p := ⟨⟨ops, hrun, hsmall⟩, hexits, fun _ => rfl⟩
  rcases Run.exists_of_serves (I := Leaving p0 p exits) (fun _ _ _ hs => hs.serve h0) hstart with
    ⟨paid, p', hpaid, hmap, hend⟩
  refine ⟨paid, p', hpaid, hmap, fun i => ?_, h0.balance_nonneg (hrun.append hpaid)⟩
  rw [← hend.left i]
  exact (sub_zero _).symm

end Exits

end Pool

/-!
# Example
-/

namespace Sample

def burn : ModifyLiquidityParams :=
  { add with liquidityDelta := -10 ^ 18, deltaFits := by decide }

end Sample

theorem Pool.solvent_sample :
    exists result p', Sample.sold.modifyLiquidity Sample.burn = (.ok result, p') ∧
      forall token0, 0 ≤ Operation.balance
        ([.modifyLiquidity Sample.add Sample.added, .swap Sample.sell Sample.result] ++
          [.modifyLiquidity Sample.burn result]) token0 := by
  rcases (Pool.solvent Sample.empty_fresh Sample.run).2.2 Sample.burn (by decide +kernel)
    (by decide +kernel) with ⟨_, hsucceeds, hsmall, hpays⟩
  have hpayout (token0 : Bool) : Sample.sold.payout Sample.burn token0 < 2 ^ 127 := by
    revert token0
    decide +kernel
  rcases hsucceeds.mpr (fun token0 => hsmall token0 (hpayout token0)) with ⟨result, p', hm⟩
  exact ⟨result, p', hm, fun token0 => (hpays result p' hm token0).2⟩

namespace Sample

def addWide : ModifyLiquidityParams :=
  { add with
    tickLower := -887220
    tickUpper := 887220
    liquidityDelta := 2 ^ 64
    lowerInRange := by decide
    upperInRange := by decide
    deltaFits := by decide }

def addedWide : ModifyLiquidityResult :=
  { delta := { amount0 := -18446744073709551615, amount1 := -18446744073709551615 }
    feeDelta := BalanceDelta.default }

def sellMost : SwapParamsInner :=
  { sell with
    amountSpecified := -(2 ^ 127 - 1)
    amountFits := by decide }

def soldMost (amount1 : Int) (sqrtPriceX96 : Nat) (tick : Int) : SwapResult :=
  { swapDelta := { amount0 := -(2 ^ 127 - 1), amount1 }
    amountToProtocol := 0
    swapFee := result.swapFee
    sqrtPriceX96
    tick
    liquidity := 2 ^ 64 }

def wide : Pool Positions := (empty.modifyLiquidity addWide).2

def soldOnce : Pool Positions := swapped wide sellMost 60

def soldTwice : Pool Positions := swapped soldOnce sellMost 4

theorem soldTwice_run : Run Pool.Performs empty [.modifyLiquidity addWide addedWide,
    .swap sellMost (soldMost 18446744073709551589 8615781938 (-873350)),
    .swap sellMost (soldMost 0 4307890969 (-887213))] soldTwice := by
  have hadd : (empty.modifyLiquidity addWide).1 = .ok addedWide := by
    decide +kernel
  have hfirst : (wide.swap sellMost 60).map Prod.fst =
      some (.ok (soldMost 18446744073709551589 8615781938 (-873350))) := by
    decide +kernel
  have hsecond : (soldOnce.swap sellMost 4).map Prod.fst =
      some (.ok (soldMost 0 4307890969 (-887213))) := by
    decide +kernel
  have hfunded : empty.modifyLiquidity addWide = (.ok addedWide, wide) := Prod.ext hadd rfl
  exact Run.cons (Pool.Performs.modifyLiquidity hfunded)
    (Run.cons (Pool.Performs.swap ⟨60, swap_eq hfirst⟩)
      (Run.cons (Pool.Performs.swap ⟨4, swap_eq hsecond⟩) (Run.nil _)))

def burnWide : ModifyLiquidityParams :=
  { addWide with liquidityDelta := -2 ^ 64, deltaFits := by decide }

end Sample

/-- A position whose payout does not fit a delta cannot be burned at once. -/
theorem burn_overflows :
    exists (p p' q : Pool Positions) (ops : List Operation) (params : ModifyLiquidityParams),
      p.Fresh ∧ Run Pool.Performs p ops p' ∧ (forall o, o ∈ ops -> o.LimitStrict) ∧
      (p'.positions.stateAt params.index).liquidity ≠ 0 ∧
      params.liquidityDelta = -(p'.positions.stateAt params.index).liquidity ∧
      p'.modifyLiquidity params = (.error .amountOverflow, q) := by
  have hburn : (Sample.soldTwice.modifyLiquidity Sample.burnWide).1 = .error .amountOverflow := by
    decide +kernel
  refine ⟨Sample.empty, Sample.soldTwice, _, _, Sample.burnWide, Sample.empty_fresh,
    Sample.soldTwice_run, fun o ho => ?_, by decide +kernel, by decide +kernel,
    Prod.ext hburn rfl⟩
  have hlimit : Sample.sellMost.LimitStrict := ⟨by decide, by decide⟩
  rcases List.mem_cons.mp ho with rfl | ho
  · trivial
  · rcases List.mem_cons.mp ho with rfl | ho
    · exact hlimit
    · rcases List.mem_singleton.mp ho with rfl
      exact hlimit

namespace Sample

/-- Two parts of the only position, the larger one last. -/
def leave : List ModifyLiquidityParams :=
  [{ add with liquidityDelta := -4 * 10 ^ 17, deltaFits := by decide },
    { add with liquidityDelta := -6 * 10 ^ 17, deltaFits := by decide }]

theorem sold_exits : sold.Exits leave := by
  have hliquidity : (sold.positions.stateAt add.index).liquidity = 10 ^ 18 := by
    decide +kernel
  refine ⟨by decide, fun i => ?_⟩
  by_cases hi : i = add.index
  · rw [hi, hliquidity]
    decide
  · have hzero : ModifyLiquidityParams.withdrawn i leave = 0 := by
      unfold leave
      rw [ModifyLiquidityParams.withdrawn_cons, ModifyLiquidityParams.withdrawn_cons,
        if_neg (fun h => hi h.symm), if_neg (fun h => hi h.symm)]
      rfl
    rw [hzero]
    exact Int.natCast_nonneg _

end Sample

theorem Pool.run_exit_sample :
    exists paid p', Run Pool.Performs Sample.sold paid p' ∧
      paid.map Operation.request = Sample.leave.map Request.modifyLiquidity ∧
      (p'.positions.stateAt Sample.add.index).liquidity = 0 := by
  have hliquidity : (Sample.sold.positions.stateAt Sample.add.index).liquidity = 10 ^ 18 := by
    decide +kernel
  rcases Pool.run_exit Sample.empty_fresh Sample.run (fun token0 => by cases token0 <;> decide)
    Sample.sold_exits with ⟨paid, p', hpaid, hmap, hleft, _⟩
  refine ⟨paid, p', hpaid, hmap, ?_⟩
  have h := hleft Sample.add.index
  rw [hliquidity] at h
  have hall : ModifyLiquidityParams.withdrawn Sample.add.index Sample.leave = 10 ^ 18 := by
    decide
  rw [hall] at h
  omega

end RmUniswap
