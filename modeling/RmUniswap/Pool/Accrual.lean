import RmUniswap.Pool.Growth
import RmUniswap.Pool.Principal

/-!
# Growth since the last update of a position

A position with liquidity keeps the growth inside its range at its last update. What
has been added since never exceeds the global growth, which is checked, so the
difference modulo the width of a growth is the difference itself: a swap adds to it
the fees of the steps in the range, and a change of another position nothing.
-/

namespace RmUniswap

open Foundation

variable {A : Type} [LawfulAllocator TickSlabValue A]

def PositionState.last (position : PositionState) (token0 : Bool) : Nat :=
  ofToken token0 (position.feeGrowthInside0LastX128, position.feeGrowthInside1LastX128)

/-- One side of a delta. -/
def BalanceDelta.amount (delta : BalanceDelta) (token0 : Bool) : Int :=
  ofToken token0 (delta.amount0, delta.amount1)

theorem PositionState.earned_token (position : PositionState) (inside : Nat × Nat)
    (token0 : Bool) :
    ofToken token0 (position.earned inside) =
      wrappingSub 256 (ofToken token0 inside) (position.last token0) * position.liquidity /
        2 ^ 128 := by
  cases token0 <;> rfl

theorem PositionState.updated_last (position : PositionState) (liquidityDelta : Int)
    (inside : Nat × Nat) (token0 : Bool) :
    (position.updated liquidityDelta inside).last token0 = ofToken token0 inside := by
  cases token0 <;> rfl

theorem wrappingSub_self {x : Nat} (hx : x < 2 ^ 256) : wrappingSub 256 x x = 0 := by
  rw [wrappingSub_of_le (le_refl x) hx, Nat.sub_self]

/-!
# Growth over a run of the loop
-/

namespace SwapContext

variable {ctx : SwapContext} {a b : SwapLoopState × TickSlab A} {cs : List StepComputations}

theorem run_growth (h : Run ctx.Iterates a cs b) (ha : ctx.Invariant a) :
    b.1.feeGrowthGlobalX128 =
      a.1.feeGrowthGlobalX128 + (cs.map StepComputations.growth).sum :=
  h.sum_eq (f := fun a => a.1.feeGrowthGlobalX128)
    (fun _ _ _ hs hi => ⟨Iterates.invariant hs hi, Iterates.growth hs hi⟩) ha

theorem Iterates.growth_lt {c : StepComputations} (h : ctx.Invariant a)
    (hi : ctx.Iterates a c b) : b.1.feeGrowthGlobalX128 < 2 ^ 256 := by
  have hl : 0 < a.1.liquidity := Nat.pos_of_ne_zero fun hz => hi.running (Or.inr hz)
  have hgrow := hi.advances.growth
  have hnext : b.1.feeGrowthGlobalX128 = c.next.feeGrowthGlobalX128 := by
    rw [hi.next h]
  rw [hnext]
  unfold growFee at hgrow
  rw [if_pos hl] at hgrow
  split at hgrow
  · have hadd := checkedAdd_eq_some.mp (okOr_eq_ok.mp hgrow)
    rw [hadd.1]
    exact hadd.2
  · cases hgrow

theorem run_growth_lt (h : Run ctx.Iterates a cs b) (ha : ctx.Invariant a)
    (hlt : a.1.feeGrowthGlobalX128 < 2 ^ 256) : b.1.feeGrowthGlobalX128 < 2 ^ 256 := by
  have hkept := h.invariant
    (I := fun a => ctx.Invariant a ∧ a.1.feeGrowthGlobalX128 < 2 ^ 256)
    (fun _ _ _ hs hi => ⟨Iterates.invariant hs.1 hi, Iterates.growth_lt hs.1 hi⟩) ⟨ha, hlt⟩
  exact hkept.2

end SwapContext

theorem growthWithin_le (cs : List StepComputations) (lower upper : Int) :
    growthWithin cs lower upper ≤ (cs.map StepComputations.growth).sum := by
  induction cs with
  | nil =>
      exact le_refl 0
  | cons c cs ih =>
      rw [growthWithin_cons, List.map_cons, List.sum_cons]
      split <;> omega

/-!
# Pools whose growth never wraps
-/

namespace Pool

/-- The growth inside the range of a position since its last update. -/
def growthSince (p : Pool Positions A) (token0 : Bool) (i : PositionIndex) : Nat :=
  wrappingSub 256 (p.growthInside token0 i.tickLower i.tickUpper)
    ((p.positions.stateAt i).last token0)

structure Accruing (p : Pool Positions A) : Prop extends Backed p where
  growth : forall token0, p.state.growth token0 < 2 ^ 256
  since : forall token0 i, (p.positions.stateAt i).liquidity ≠ 0 ->
    p.growthSince token0 i ≤ p.state.growth token0

section Accruing

variable {p p' : Pool Positions A} {params : ModifyLiquidityParams} {i : PositionIndex}
  {token0 : Bool}

structure Funded (p : Pool Positions A) (i : PositionIndex) : Prop where
  ordered : i.tickLower < i.tickUpper
  lower : exists info, p.ticks.snapshot.get? i.tickLower = some info
  upper : exists info, p.ticks.snapshot.get? i.tickUpper = some info

theorem Backed.funded (hp : p.Backed) (hl : (p.positions.stateAt i).liquidity ≠ 0) :
    p.Funded i := by
  unfold Positions.stateAt at hl
  cases hget : p.positions.map.get? i with
  | none =>
      rw [hget] at hl
      exact absurd rfl hl
  | some position =>
      rw [hget] at hl
      have hticks (t : Int) (ht : i.tickLower = t ∨ i.tickUpper = t) :
          exists info, p.ticks.snapshot.get? t = some info :=
        hp.reconciled.initialized_iff.mpr ⟨i, position, hget, hl, ht⟩
      exact ⟨hp.reconciled.ordered i position hget, hticks _ (Or.inl rfl), hticks _ (Or.inr rfl)⟩

theorem Backed.gross_ne_zero (hp : p.Backed) {t : Int}
    (h : exists info, p.ticks.snapshot.get? t = some info) :
    (tickAt p.ticks.snapshot t).liquidityGross ≠ 0 := by
  rcases h with ⟨info, hget⟩
  have hpos := hp.reconciled.positive t info hget
  rw [tickAt_some hget]
  omega

/-!
# Swaps
-/

theorem wrappingSub_add {x x' last g : Nat} (h : (x' : ZMod (2 ^ 256)) = x + g)
    (hlt : wrappingSub 256 x last + g < 2 ^ 256) :
    wrappingSub 256 x' last = wrappingSub 256 x last + g := by
  have hcast : ((wrappingSub 256 x' last : Nat) : ZMod (2 ^ 256)) =
      ((wrappingSub 256 x last + g : Nat) : ZMod (2 ^ 256)) := by
    rw [Nat.cast_add, cast_wrappingSub, cast_wrappingSub, h]
    ring
  have hmod := (ZMod.natCast_eq_natCast_iff _ _ _).mp hcast
  exact Nat.ModEq.eq_of_lt_of_lt hmod (wrappingSub_lt _ _ _) hlt

section Loop

variable {swap : SwapParamsInner} {ctx : SwapContext} {cs : List StepComputations}
  {b : SwapLoopState × TickSlab A}

theorem committed_growth (p : Pool Positions A) (swap : SwapParamsInner)
    (b : SwapLoopState × TickSlab A) (token0 : Bool) :
    (p.committed swap b).state.growth token0 =
      if token0 = swap.zeroForOne then b.1.feeGrowthGlobalX128 else p.state.growth token0 := by
  unfold committed PoolState.set PoolState.growth ofToken
  dsimp only
  cases swap.zeroForOne <;> cases token0 <;> rfl

theorem swapStart_growth (p : Pool Positions A) (swap : SwapParamsInner) :
    (p.swapStart swap).feeGrowthGlobalX128 = p.state.growth swap.zeroForOne := rfl

theorem LoopRun.growth (h : LoopRun p swap ctx cs b) (hp : p.Usable) (token0 : Bool) :
    (p.committed swap b).state.growth token0 = p.state.growth token0 +
      if token0 = swap.zeroForOne then (cs.map StepComputations.growth).sum else 0 := by
  rw [committed_growth]
  split
  · rename_i htoken
    rw [SwapContext.run_growth h.run (h.start hp), swapStart_growth, htoken]
  · rw [Nat.add_zero]

theorem LoopRun.growth_lt (h : LoopRun p swap ctx cs b) (hp : p.Accruing) (token0 : Bool) :
    (p.committed swap b).state.growth token0 < 2 ^ 256 := by
  rw [committed_growth]
  split
  · refine SwapContext.run_growth_lt h.run (h.start hp.sound.toUsable) ?_
    rw [swapStart_growth]
    exact hp.growth _
  · exact hp.growth token0

def inflow (swap : SwapParamsInner) (cs : List StepComputations) (token0 : Bool)
    (i : PositionIndex) : Nat :=
  if token0 = swap.zeroForOne then growthWithin cs i.tickLower i.tickUpper else 0

theorem LoopRun.inflow_le (h : LoopRun p swap ctx cs b) (hp : p.Usable) (token0 : Bool)
    (i : PositionIndex) :
    p.state.growth token0 + inflow swap cs token0 i ≤
      (p.committed swap b).state.growth token0 := by
  have hwithin := growthWithin_le cs i.tickLower i.tickUpper
  rw [h.growth hp]
  unfold inflow
  split <;> omega

theorem LoopRun.growthSince (h : LoopRun p swap ctx cs b) (hp : p.Accruing)
    (hl : (p.positions.stateAt i).liquidity ≠ 0) (token0 : Bool) :
    (p.committed swap b).growthSince token0 i =
      p.growthSince token0 i + inflow swap cs token0 i := by
  have hfunded := hp.funded hl
  have hsince := hp.since token0 i hl
  have hinflow := h.inflow_le hp.sound.toUsable token0 i
  have hgrowth := h.growth_lt hp token0
  have hfits : p.growthSince token0 i + inflow swap cs token0 i < 2 ^ 256 := by omega
  have hinside := h.growthInside hp.sound.toUsable hfunded.ordered hfunded.lower hfunded.upper
    token0
  refine wrappingSub_add ?_ hfits
  unfold inflow
  rw [hinside]
  split
  · rfl
  · rw [Nat.cast_zero]

theorem LoopRun.accruing (h : LoopRun p swap ctx cs b) (hp : p.Accruing)
    (hbacked : (p.committed swap b).Backed) : (p.committed swap b).Accruing := by
  refine ⟨hbacked, h.growth_lt hp, fun token0 i hl => ?_⟩
  have hl : (p.positions.stateAt i).liquidity ≠ 0 := hl
  have hsince := hp.since token0 i hl
  have hinflow := h.inflow_le hp.sound.toUsable token0 i
  rw [h.growthSince hp hl]
  omega

end Loop

theorem Accruing.swap {swap : SwapParamsInner} {result : SwapResult} (hp : p.Accruing)
    (h : p.Swaps swap (.ok result) p') : p'.Accruing := by
  have hbacked := hp.toBacked.swap h
  rcases h with ⟨fuel, h⟩
  generalize hlist : p.swapComputations swap fuel = list
  have hcases := swap_cases h
  rw [hlist] at hcases
  cases hcases with
  | empty _ =>
      exact hp
  | done hrun _ _ =>
      exact hrun.accruing hp hbacked

/-!
# Liquidity changes
-/

def changedBounds (p : Pool Positions A) (params : ModifyLiquidityParams) :
    TickInfoInner × TickInfoInner :=
  if params.liquidityDelta = 0 then
    (tickAt p.ticks.snapshot params.tickLower, tickAt p.ticks.snapshot params.tickUpper)
  else
    (params.lowerAfter p.state p.ticks.snapshot, params.upperAfter p.state p.ticks.snapshot)

def insideRead (p : Pool Positions A) (params : ModifyLiquidityParams) : Nat × Nat :=
  p.insideAt params (p.changedBounds params).1 (p.changedBounds params).2

theorem Boundaries.bounds {lower upper : TickInfoInner} {slab : TickSlab A}
    {map : SortedMap Int TickInfoInner} (h : Boundaries p params lower upper slab map) :
    p.changedBounds params = (lower, upper) := by
  unfold changedBounds
  cases h with
  | changed hne _ _ _ => rw [if_neg hne]
  | read hzero => rw [if_pos hzero]

theorem changedBounds_outside
    (hlower : (tickAt p.ticks.snapshot params.tickLower).liquidityGross ≠ 0)
    (hupper : (tickAt p.ticks.snapshot params.tickUpper).liquidityGross ≠ 0) (token0 : Bool) :
    (p.changedBounds params).1.outside token0 =
        (tickAt p.ticks.snapshot params.tickLower).outside token0 ∧
      (p.changedBounds params).2.outside token0 =
        (tickAt p.ticks.snapshot params.tickUpper).outside token0 := by
  unfold changedBounds
  split
  · exact ⟨rfl, rfl⟩
  · exact ⟨TickInfoInner.change_outside hlower _ _ _ _ _,
      TickInfoInner.change_outside hupper _ _ _ _ _⟩

theorem Backed.insideRead_eq (hp : p.Backed)
    (hl : (p.positions.stateAt params.index).liquidity ≠ 0) (token0 : Bool) :
    ofToken token0 (p.insideRead params) =
      p.growthInside token0 params.tickLower params.tickUpper := by
  have hfunded := hp.funded hl
  have houtside := changedBounds_outside (hp.gross_ne_zero hfunded.lower)
    (hp.gross_ne_zero hfunded.upper) token0
  exact feeGrowthInside_congr rfl rfl houtside.1 houtside.2

theorem insideRead_lt (p : Pool Positions A) (params : ModifyLiquidityParams) (token0 : Bool) :
    ofToken token0 (p.insideRead params) < 2 ^ 256 := feeGrowthInside_lt _ _ _ _ _ _

/-- What an accepted change does to the positions and to what they have accrued. -/
structure Realizes (p p' : Pool Positions A) (params : ModifyLiquidityParams)
    (result : ModifyLiquidityResult) : Prop where
  range : params.RangeValid p.tickSpacing
  updatable : (p.positions.stateAt params.index).Updatable params.liquidityDelta
  fees : forall token0, result.feeDelta.amount token0 =
    ((p.positions.stateAt params.index).liquidity * p.growthSince token0 params.index /
      2 ^ 128 : Nat)
  positions : p'.positions = p.positions.put params.index
    ((p.positions.stateAt params.index).updated params.liquidityDelta (p.insideRead params))
  restarts : forall token0, (p'.positions.stateAt params.index).liquidity ≠ 0 ->
    p'.growthSince token0 params.index = 0
  others : forall token0 j, j ≠ params.index -> (p.positions.stateAt j).liquidity ≠ 0 ->
    p'.growthSince token0 j = p.growthSince token0 j
  growth : forall token0, p'.state.growth token0 = p.state.growth token0

theorem stateAt_put_self (positions : Positions) (i : PositionIndex) (position : PositionState) :
    (positions.put i position).stateAt i = position := by
  unfold Positions.stateAt Positions.put
  rw [SortedMap.get?_insert_self]
  rfl

theorem stateAt_put_ne (positions : Positions) {i j : PositionIndex} (h : j ≠ i)
    (position : PositionState) : (positions.put i position).stateAt j = positions.stateAt j := by
  unfold Positions.stateAt Positions.put
  rw [SortedMap.get?_insert_ne _ h]

theorem Backed.earned_eq (hp : p.Backed) (params : ModifyLiquidityParams) (token0 : Bool) :
    ofToken token0 ((p.positions.stateAt params.index).earned (p.insideRead params)) =
      (p.positions.stateAt params.index).liquidity * p.growthSince token0 params.index /
        2 ^ 128 := by
  rw [PositionState.earned_token, mul_comm]
  by_cases hl : (p.positions.stateAt params.index).liquidity = 0
  · rw [hl, Nat.zero_mul, Nat.zero_mul]
  · rw [hp.insideRead_eq hl]
    rfl

section Boundaries

variable {lower upper : TickInfoInner} {slab : TickSlab A} {map : SortedMap Int TickInfoInner}

theorem Boundaries.outside (h : Boundaries p params lower upper slab map) {t : Int}
    (hbefore : (tickAt p.ticks.snapshot t).liquidityGross ≠ 0)
    (hafter : (tickAt map t).liquidityGross ≠ 0) (token0 : Bool) :
    (tickAt map t).outside token0 = (tickAt p.ticks.snapshot t).outside token0 := by
  cases h with
  | changed _ _ _ _ => exact params.changeTicks_outside hbefore hafter token0
  | read _ => rfl

theorem Boundaries.stored (h : Boundaries p params lower upper slab map)
    (hlt : params.tickLower < params.tickUpper)
    (hlower : (tickAt map params.tickLower).liquidityGross ≠ 0)
    (hupper : (tickAt map params.tickUpper).liquidityGross ≠ 0) :
    tickAt map params.tickLower = lower ∧ tickAt map params.tickUpper = upper := by
  cases h with
  | changed _ _ _ _ =>
      unfold ModifyLiquidityParams.changeTicks at hlower hupper ⊢
      rw [tickAt_storeTick_ne (ne_of_lt hlt)] at hlower ⊢
      rw [tickAt_storeTick_gross] at hlower hupper
      exact ⟨tickAt_storeTick_self hlower, tickAt_storeTick_self hupper⟩
  | read _ => exact ⟨rfl, rfl⟩

end Boundaries

theorem Backed.realizes {result : ModifyLiquidityResult} (hp : p.Backed)
    (h : p.modifyLiquidity params = (.ok result, p')) : Realizes p p' params result := by
  have hp' := hp.modify h
  have hcases := modify_cases hp.sound.holds params
  rw [h] at hcases
  cases hcases with
  | @done lower upper ticks map positions feeDelta delta state hrange hb hfees hprincipal =>
      have hposition := realizeFees_ok hp hfees
      have hread : p.insideAt params lower upper = p.insideRead params := by
        unfold insideRead
        rw [hb.bounds]
      rw [hread] at hposition
      have hmap : ticks.snapshot = map := (hb.holds hp.sound.toUsable).snapshot
      have hstate := (settlePrincipal_ok hprincipal).1
      have htick : state.tick = p.state.tick := by rw [hstate]
      have hgrowth (token0 : Bool) : state.growth token0 = p.state.growth token0 := by
        rw [hstate]
        rfl
      have hgross {t : Int} (ht : exists info, ticks.snapshot.get? t = some info) :
          (tickAt map t).liquidityGross ≠ 0 := hmap ▸ hp'.gross_ne_zero ht
      refine
        { range := hrange
          updatable := hposition.1
          fees := fun token0 => ?_
          positions := hposition.2.2
          restarts := fun token0 hl => ?_
          others := fun token0 j hj hl => ?_
          growth := hgrowth }
      · have hpaid := (fromU256_eq_ok.mp hposition.2.1).2
        have hearned := hp.earned_eq params token0
        rw [hpaid, ← hearned]
        cases token0 <;> rfl
      · have hfunded := hp'.funded hl
        have hstored := hb.stored hrange.1 (hgross hfunded.lower) (hgross hfunded.upper)
        have hinside : ({ p with ticks, positions, state } : Pool Positions A).growthInside token0
            params.tickLower params.tickUpper = ofToken token0 (p.insideRead params) := by
          rw [← hread]
          refine feeGrowthInside_congr htick (hgrowth token0) ?_ ?_
          · rw [hmap, hstored.1]
          · rw [hmap, hstored.2]
        unfold growthSince
        show wrappingSub 256 (({ p with ticks, positions, state } : Pool Positions A).growthInside
          token0 params.tickLower params.tickUpper)
            ((positions.stateAt params.index).last token0) = 0
        rw [hinside, hposition.2.2, stateAt_put_self, PositionState.updated_last]
        exact wrappingSub_self (insideRead_lt p params token0)
      · have hkept : positions.stateAt j = p.positions.stateAt j := by
          rw [hposition.2.2, stateAt_put_ne _ hj]
        have hfunded := hp.funded hl
        have hl' : (positions.stateAt j).liquidity ≠ 0 := by rwa [hkept]
        have hfunded' := hp'.funded hl'
        have hinside : ({ p with ticks, positions, state } : Pool Positions A).growthInside token0
            j.tickLower j.tickUpper = p.growthInside token0 j.tickLower j.tickUpper := by
          refine feeGrowthInside_congr htick (hgrowth token0) ?_ ?_
          · rw [hmap]
            exact hb.outside (hp.gross_ne_zero hfunded.lower) (hgross hfunded'.lower) token0
          · rw [hmap]
            exact hb.outside (hp.gross_ne_zero hfunded.upper) (hgross hfunded'.upper) token0
        unfold growthSince
        rw [hinside, hkept]

theorem Accruing.modify {result : ModifyLiquidityResult} (hp : p.Accruing)
    (h : p.modifyLiquidity params = (.ok result, p')) : p'.Accruing := by
  have hrealizes := hp.realizes h
  refine ⟨hp.toBacked.modify h, fun token0 => ?_, fun token0 j hl => ?_⟩
  · rw [hrealizes.growth]
    exact hp.growth token0
  · rw [hrealizes.growth]
    by_cases hj : j = params.index
    · rw [hj] at hl ⊢
      rw [hrealizes.restarts token0 hl]
      exact Nat.zero_le _
    · rw [hrealizes.positions, stateAt_put_ne _ hj] at hl
      rw [hrealizes.others token0 j hj hl]
      exact hp.since token0 j hl

/-!
# Runs
-/

theorem Accruing.performs {o : Operation} (hp : p.Accruing) (h : Performs p o p') :
    p'.Accruing := by
  have hbacked := hp.toBacked.performs h
  cases h with
  | modifyLiquidity h =>
      exact hp.modify h
  | swap h =>
      exact hp.swap h
  | setProtocolFee h =>
      rcases setProtocolFee_ok h with ⟨swapFee, _, rfl⟩
      exact ⟨hbacked, hp.growth, hp.since⟩

theorem Accruing.run {ops : List Operation} (hp : p.Accruing) (h : Run Performs p ops p') :
    p'.Accruing :=
  h.invariant (fun _ _ _ hs ho => hs.performs ho) hp

theorem Fresh.accruing (hp : p.Fresh) : p.Accruing := by
  refine ⟨hp.accepted.backed, fun token0 => ?_, fun token0 i hl => ?_⟩
  · rcases hp with ⟨_, _, _, _, _, _, _, _, hnew⟩
    rw [(fromSnapshot_eq_ok hnew).state]
    cases token0 <;> exact Nat.two_pow_pos 256
  · rw [hp.positions] at hl
    exact absurd rfl hl

end Accruing

end Pool

end RmUniswap
