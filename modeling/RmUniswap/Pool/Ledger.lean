import RmUniswap.Pool.Accrual
import RmUniswap.Pool.SwapAmounts

/-!
# What operations pay in and out

Every operation of a run is entered with the iterations of its swap. What the pool
receives of a token splits into the principal it holds for the ticks and the fees it
holds for the positions, and the fees a position can still realize are covered by
the fees that were provided and not yet realized.
-/

namespace RmUniswap

open Foundation

variable {A : Type} [LawfulAllocator TickSlabValue A]

namespace Operation

def received (token0 : Bool) : Operation -> Int
  | .modifyLiquidity _ result => -(result.delta.amount token0 + result.feeDelta.amount token0)
  | .swap params result =>
      -result.swapDelta.amount token0 -
        if token0 = params.zeroForOne then (result.amountToProtocol : Int) else 0
  | .setProtocolFee _ => 0

/-- The fees an operation pays to a position. -/
def realized (token0 : Bool) : Operation -> Int
  | .modifyLiquidity _ result => result.feeDelta.amount token0
  | .swap _ _ => 0
  | .setProtocolFee _ => 0

/-- The share of the protocol that an operation charges. -/
def toProtocol (token0 : Bool) : Operation -> Int
  | .modifyLiquidity _ _ => 0
  | .swap params result => if token0 = params.zeroForOne then result.amountToProtocol else 0
  | .setProtocolFee _ => 0

/-- What the pool received over a run minus what it paid out. -/
def balance (ops : List Operation) (token0 : Bool) : Int := (ops.map (received token0)).sum

end Operation

/-- An operation with the iterations of its swap. -/
structure Entry where
  operation : Operation
  computations : List StepComputations

namespace Entry

/-- The fees the steps of a swap charged in a token. -/
def collected (token0 : Bool) (e : Entry) : Int :=
  match e.operation with
  | .modifyLiquidity _ _ => 0
  | .swap params _ =>
      if token0 = params.zeroForOne then
        ((e.computations.map fun c => c.swapStep.feeAmount).sum : Nat) else 0
  | .setProtocolFee _ => 0

def provided (token0 : Bool) (e : Entry) : Int :=
  match e.operation with
  | .modifyLiquidity _ _ => 0
  | .swap params _ =>
      if token0 = params.zeroForOne then
        ((e.computations.map StepComputations.feeAmount).sum : Nat) else 0
  | .setProtocolFee _ => 0

def retained (token0 : Bool) (e : Entry) : Int :=
  e.provided token0 - e.operation.realized token0

def principal (token0 : Bool) (e : Entry) : Int :=
  match e.operation with
  | .modifyLiquidity _ result => -result.delta.amount token0
  | .swap params _ =>
      if token0 = params.zeroForOne then
        ((e.computations.map fun c => c.swapStep.amountIn).sum : Nat)
      else -((e.computations.map fun c => c.swapStep.amountOut).sum : Nat)
  | .setProtocolFee _ => 0

end Entry

theorem BalanceDelta.amount_eq (delta : BalanceDelta) (token0 zeroForOne : Bool) :
    delta.amount token0 =
      if token0 = zeroForOne then -delta.input zeroForOne else delta.output zeroForOne := by
  unfold amount input output ofToken
  cases token0 <;> cases zeroForOne <;> simp

namespace Pool

/-- An operation that succeeds, with the iterations it made. -/
inductive Records (p : Pool Positions A) : Entry -> Pool Positions A -> Prop
  | modifyLiquidity {params : ModifyLiquidityParams} {result : ModifyLiquidityResult}
      {p' : Pool Positions A} : p.modifyLiquidity params = (.ok result, p') ->
      Records p ⟨.modifyLiquidity params result, []⟩ p'
  | swap {params : SwapParamsInner} {fuel : Nat} {result : SwapResult} {p' : Pool Positions A} :
      p.swap params fuel = some (.ok result, p') ->
      Records p ⟨.swap params result, p.swapComputations params fuel⟩ p'
  | setProtocolFee {protocolFee : ProtocolFee} {p' : Pool Positions A} :
      p.setProtocolFee protocolFee = (.ok (), p') ->
      Records p ⟨.setProtocolFee protocolFee, []⟩ p'

section Records

variable {p p' : Pool Positions A} {e : Entry} {entries : List Entry} {ops : List Operation}

theorem Records.performs (h : Records p e p') : Performs p e.operation p' := by
  cases h with
  | modifyLiquidity h => exact Performs.modifyLiquidity h
  | swap h => exact Performs.swap ⟨_, h⟩
  | setProtocolFee h => exact Performs.setProtocolFee h

theorem Performs.records {o : Operation} (h : Performs p o p') :
    exists e, Records p e p' ∧ e.operation = o := by
  cases h with
  | modifyLiquidity h =>
      exact ⟨_, Records.modifyLiquidity h, rfl⟩
  | swap h =>
      rcases h with ⟨fuel, h⟩
      exact ⟨_, Records.swap h, rfl⟩
  | setProtocolFee h =>
      exact ⟨_, Records.setProtocolFee h, rfl⟩

theorem run_records (h : Run Performs p ops p') :
    exists entries, Run Records p entries p' ∧ entries.map Entry.operation = ops := by
  induction h with
  | nil p =>
      exact ⟨[], Run.nil p, rfl⟩
  | cons ho _ ih =>
      rcases ho.records with ⟨e, he, heq⟩
      rcases ih with ⟨entries, hentries, hmap⟩
      exact ⟨e :: entries, Run.cons he hentries, by rw [List.map_cons, heq, hmap]⟩

/-!
# Two accounts
-/

theorem Records.received (hp : p.Usable) (h : Records p e p') (token0 : Bool) :
    e.operation.received token0 = e.principal token0 + e.retained token0 := by
  unfold Entry.retained
  cases h with
  | modifyLiquidity h =>
      unfold Entry.principal Entry.provided
      unfold Operation.received Operation.realized
      dsimp only
      ring
  | setProtocolFee h =>
      rfl
  | @swap params fuel result p' h =>
      unfold Entry.principal Entry.provided
      unfold Operation.received Operation.realized
      dsimp only
      generalize hlist : p.swapComputations params fuel = list
      have hcases := swap_cases h
      rw [hlist] at hcases
      cases hcases with
      | @empty ctx hzero =>
          have hside : BalanceDelta.default.amount token0 = 0 := by
            cases token0 <;> rfl
          unfold swapResult swapStart
          dsimp only
          rw [hside]
          simp
      | @done ctx cs b delta hrun hhalt hdelta =>
          have hamounts := hrun.swapDelta hp hdelta
          have hprotocol := SwapContext.run_amountToProtocol hrun.run (hrun.start hp)
          have hstart : (p.swapStart params).amountToProtocol = 0 := rfl
          dsimp only at hprotocol
          rw [hstart, Nat.zero_add] at hprotocol
          unfold swapResult
          dsimp only
          rw [BalanceDelta.amount_eq delta token0 params.zeroForOne, hamounts.1, hamounts.2,
            List.sum_map_add]
          split <;> omega

theorem Records.collected (hp : p.Usable) (h : Records p e p') (token0 : Bool) :
    e.collected token0 = e.provided token0 + e.operation.toProtocol token0 := by
  cases h with
  | modifyLiquidity h => rfl
  | setProtocolFee h => rfl
  | @swap params fuel result p' h =>
      unfold Entry.collected Entry.provided
      unfold Operation.toProtocol
      dsimp only
      generalize hlist : p.swapComputations params fuel = list
      have hcases := swap_cases h
      rw [hlist] at hcases
      cases hcases with
      | @empty ctx hzero =>
          unfold swapResult swapStart
          simp
      | @done ctx cs b delta hrun hhalt hdelta =>
          have hprotocol := SwapContext.run_amountToProtocol hrun.run (hrun.start hp)
          have hstart : (p.swapStart params).amountToProtocol = 0 := rfl
          dsimp only at hprotocol
          rw [hstart, Nat.zero_add] at hprotocol
          unfold swapResult
          dsimp only
          split <;> omega

end Records

/-!
# Fees owed to positions
-/

section Owed

variable {p p' : Pool Positions A} {e : Entry} {entries : List Entry}
  {swap : SwapParamsInner} {ctx : SwapContext} {cs : List StepComputations}
  {b : SwapLoopState × TickSlab A} {params : ModifyLiquidityParams}

def owed (p : Pool Positions A) (token0 : Bool) : Int :=
  p.positions.map.weighted Positions.size fun i => (p.growthSince token0 i : Int)

theorem owed_nonneg (p : Pool Positions A) (token0 : Bool) : 0 ≤ p.owed token0 :=
  SortedMap.weighted_nonneg Positions.size_nonneg fun _ => Int.natCast_nonneg _

theorem weighted_growthWithin (positions : Positions) (cs : List StepComputations) :
    (positions.map.weighted Positions.size fun i =>
        (growthWithin cs i.tickLower i.tickUpper : Int)) =
      (cs.map fun c => (c.growth : Int) * positions.activeAt c.start.tick).sum := by
  induction cs with
  | nil =>
      unfold SortedMap.weighted growthWithin
      apply List.sum_eq_zero
      intro x hx
      rcases List.mem_map.mp hx with ⟨_, _, rfl⟩
      exact mul_zero _
  | cons c cs ih =>
      rw [List.map_cons, List.sum_cons, ← ih]
      unfold Positions.activeAt
      rw [← SortedMap.weighted_mul, ← SortedMap.weighted_add]
      apply SortedMap.weighted_congr
      intro i _ _ _
      rw [growthWithin_cons]
      unfold Positions.covering
      split <;> push_cast <;> ring

theorem LoopRun.covered (h : LoopRun p swap ctx cs b) (hp : p.Backed) :
    forall c, c ∈ cs ->
      (c.growth : Int) * p.positions.activeAt c.start.tick ≤ (c.feeAmount : Int) * 2 ^ 128 := by
  have hstep (a : SwapLoopState × TickSlab A) (c : StepComputations)
      (b : SwapLoopState × TickSlab A)
      (ha : ctx.Invariant a ∧ SwapContext.Follows a ∧
        forall t, netBelow a.2.snapshot t = netBelow p.ticks.snapshot t)
      (hi : ctx.Iterates a c b) :
      (ctx.Invariant b ∧ SwapContext.Follows b ∧
        forall t, netBelow b.2.snapshot t = netBelow p.ticks.snapshot t) ∧
      (c.growth : Int) * p.positions.activeAt c.start.tick ≤ (c.feeAmount : Int) * 2 ^ 128 := by
    refine ⟨⟨hi.invariant ha.1, hi.follows ha.1 ha.2.1, fun t => ?_⟩, ?_⟩
    · exact (hi.netBelow_eq ha.1 t).trans (ha.2.2 t)
    · have hliquidity : p.positions.activeAt c.start.tick = (c.start.liquidity : Int) := by
        rw [hi.advances.fromStart, ha.2.1.active, ha.2.2, hp.reconciled.netBelow_eq]
      rw [hliquidity]
      unfold StepComputations.growth
      exact_mod_cast Nat.div_mul_le_self (c.feeAmount * 2 ^ 128) c.start.liquidity
  exact h.run.forall_labels hstep ⟨h.start hp.sound.toUsable, hp.sound.follows swap, fun _ => rfl⟩

theorem LoopRun.owed_le (h : LoopRun p swap ctx cs b) (hp : p.Accruing) (token0 : Bool) :
    (p.committed swap b).owed token0 ≤ p.owed token0 + (2 ^ 128 : Int) *
      if token0 = swap.zeroForOne then ((cs.map StepComputations.feeAmount).sum : Int) else 0 := by
  have hsplit : (p.committed swap b).owed token0 = p.owed token0 +
      p.positions.map.weighted Positions.size fun i => (inflow swap cs token0 i : Int) := by
    unfold owed
    rw [← SortedMap.weighted_add]
    apply SortedMap.weighted_congr
    intro i position hget hne
    have hl : (p.positions.stateAt i).liquidity ≠ 0 := by
      have hget : p.positions.map.get? i = some position := hget
      unfold Positions.stateAt
      rw [hget]
      exact fun h0 => hne (by rw [Positions.size]; exact_mod_cast h0)
    rw [h.growthSince hp hl]
    exact Nat.cast_add _ _
  have hsum : (cs.map fun c => (c.growth : Int) * p.positions.activeAt c.start.tick).sum ≤
      2 ^ 128 * ((cs.map StepComputations.feeAmount).sum : Nat) := by
    rw [Nat.cast_list_sum, List.map_map, ← List.sum_map_mul_left]
    apply List.sum_le_sum
    intro c hc
    have hle := h.covered hp.toBacked c hc
    rw [mul_comm] at hle ⊢
    dsimp only [Function.comp_apply]
    linarith
  rw [hsplit]
  unfold inflow
  split
  · rw [weighted_growthWithin]
    exact add_le_add_right hsum _
  · have hzero : (p.positions.map.weighted Positions.size fun _ => (((0 : Nat)) : Int)) = 0 := by
      have hmul : (p.positions.map.weighted Positions.size fun _ => (0 : Int) * 1) =
          0 * p.positions.total := SortedMap.weighted_mul 0
      rw [zero_mul, zero_mul] at hmul
      exact hmul
    rw [hzero, mul_zero]

theorem size_ne_zero {positions : Positions} {i : PositionIndex} {position : PositionState}
    (hget : positions.map.get? i = some position) (hne : Positions.size position ≠ 0) :
    (positions.stateAt i).liquidity ≠ 0 := by
  unfold Positions.stateAt
  rw [hget]
  exact fun h0 => hne (by rw [Positions.size]; exact_mod_cast h0)

theorem sizeAt_eq (positions : Positions) (i : PositionIndex) :
    positions.map.sizeAt Positions.size i = (positions.stateAt i).liquidity := by
  unfold SortedMap.sizeAt Positions.stateAt
  cases positions.map.get? i <;> rfl

theorem Realizes.owed {result : ModifyLiquidityResult} (h : Realizes p p' params result)
    (token0 : Bool) :
    p'.owed token0 + (p.positions.stateAt params.index).liquidity *
      p.growthSince token0 params.index = p.owed token0 := by
  have herase : p'.positions.map.erase params.index = p.positions.map.erase params.index := by
    rw [h.positions]
    apply SortedMap.ext
    intro j
    unfold Positions.put
    rw [SortedMap.get?_erase, SortedMap.get?_erase, SortedMap.get?_insert]
    split <;> rfl
  have hothers : ((p.positions.map.erase params.index).weighted Positions.size fun i =>
        (p'.growthSince token0 i : Int)) =
      (p.positions.map.erase params.index).weighted Positions.size fun i =>
        (p.growthSince token0 i : Int) := by
    apply SortedMap.weighted_congr
    intro j position hget hne
    rw [SortedMap.get?_erase] at hget
    split at hget
    · cases hget
    · rename_i hj
      rw [h.others token0 j hj (size_ne_zero hget hne)]
  have hself : p'.positions.map.sizeAt Positions.size params.index *
      (p'.growthSince token0 params.index : Int) = 0 := by
    rw [sizeAt_eq]
    by_cases hl : (p'.positions.stateAt params.index).liquidity = 0
    · rw [hl, Nat.cast_zero, zero_mul]
    · rw [h.restarts token0 hl, Nat.cast_zero, mul_zero]
  unfold Pool.owed
  rw [SortedMap.weighted_erase p'.positions.map Positions.size _ params.index,
    SortedMap.weighted_erase p.positions.map Positions.size _ params.index, hself, herase, hothers,
    sizeAt_eq, add_zero]

theorem Records.owed_le (hp : p.Accruing) (h : Records p e p') (token0 : Bool) :
    p'.owed token0 ≤ p.owed token0 + 2 ^ 128 * e.retained token0 := by
  unfold Entry.retained
  cases h with
  | @modifyLiquidity params result p' h =>
      have hrealizes := hp.realizes h
      have howed := hrealizes.owed token0
      have hpaid : result.feeDelta.amount token0 * 2 ^ 128 ≤
          ((p.positions.stateAt params.index).liquidity *
            p.growthSince token0 params.index : Nat) := by
        rw [hrealizes.fees token0]
        exact_mod_cast Nat.div_mul_le_self _ (2 ^ 128)
      show _ ≤ _ + 2 ^ 128 * (0 - result.feeDelta.amount token0)
      push_cast at hpaid
      linarith
  | setProtocolFee h =>
      rcases setProtocolFee_ok h with ⟨swapFee, _, rfl⟩
      exact le_of_eq (by
        show _ = _ + 2 ^ 128 * ((0 : Int) - 0)
        rw [sub_zero, mul_zero, add_zero]
        rfl)
  | @swap swap fuel result p' h =>
      unfold Entry.provided Operation.realized
      dsimp only
      rw [sub_zero]
      generalize hlist : p.swapComputations swap fuel = list
      have hcases := swap_cases h
      rw [hlist] at hcases
      cases hcases with
      | @empty ctx hzero =>
          simp
      | @done ctx cs b delta hrun hhalt hdelta =>
          exact hrun.owed_le hp token0

end Owed

end Pool

end RmUniswap
