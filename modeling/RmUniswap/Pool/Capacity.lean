import RmUniswap.Pool.InStep
import RmUniswap.Pool.Underflow
import RmUniswap.Types.LiquidityCap

/-!
# Ticks and positions of fresh pools

Every run from an empty pool keeps its ticks reconciled with its positions. Each
position counts in two ticks of the tick range, and all of them at the cap hold
less than twice the positive half of a signed word.
-/

namespace RmUniswap

open Foundation

variable {A : Type} [LawfulAllocator TickSlabValue A]

namespace Pool

def Ranged (p : Pool Positions A) : Prop :=
  forall i position, p.positions.map.get? i = some position ->
    TickInRange i.tickLower ∧ TickInRange i.tickUpper

section Ranged

variable {p p' : Pool Positions A} {o : Operation} {ops : List Operation}

theorem Fresh.ranged (h : p.Fresh) : p.Ranged := by
  intro i position hi
  rw [h.positions] at hi
  cases hi

theorem Ranged.performs (hp : p.Backed) (hr : p.Ranged) (h : Performs p o p') : p'.Ranged := by
  cases h with
  | @modifyLiquidity params result p' h =>
      have hcases := modify_cases hp.sound.holds params
      rw [h] at hcases
      cases hcases with
      | done _ _ hfees _ =>
          have hpositions := (realizeFees_ok hp hfees).2.2
          intro i position hi
          dsimp only at hi
          rw [hpositions] at hi
          unfold Positions.put at hi
          rw [SortedMap.get?_insert] at hi
          split at hi
          · rename_i heq
            rw [heq]
            exact ⟨params.lowerInRange, params.upperInRange⟩
          · exact hr i position hi
  | swap h =>
      rcases h with ⟨fuel, h⟩
      generalize hlist : p.swapComputations _ fuel = list
      have hcases := swap_cases h
      rw [hlist] at hcases
      cases hcases with
      | empty _ => exact hr
      | done _ _ _ => exact hr
  | setProtocolFee h =>
      rcases setProtocolFee_ok h with ⟨swapFee, _, rfl⟩
      exact hr

theorem Fresh.run (hp : p.Fresh) (h : Run Performs p ops p') : p'.Backed ∧ p'.Ranged :=
  h.invariant (I := fun q => q.Backed ∧ q.Ranged)
    (fun _ _ _ hs ho => ⟨hs.1.performs ho, hs.2.performs hs.1 ho⟩)
    ⟨hp.accepted.backed, hp.ranged⟩

/-- Ticks and active liquidity reconcile with positions after every run from an
empty pool. -/
theorem run_reconciled (hp : p.Fresh) (h : Run Performs p ops p') :
    (forall t, (exists info, p'.ticks.snapshot.get? t = some info) ↔
      exists i position, p'.positions.map.get? i = some position ∧ position.liquidity ≠ 0 ∧
        (i.tickLower = t ∨ i.tickUpper = t)) ∧
    (forall t info, p'.ticks.snapshot.get? t = some info ->
      (info.liquidityGross : Int) = p'.positions.grossAt t ∧
      info.liquidityNet = p'.positions.netAt t ∧
      0 < info.liquidityGross ∧ info.liquidityGross ≤ p'.tickSpacing.maxLiquidityPerTick ∧
      info.liquidityNet.natAbs ≤ info.liquidityGross) ∧
    (p'.state.liquidity : Int) = p'.positions.activeAt p'.state.tick := by
  have hbacked := hp.accepted.backed.run h
  have hr := hbacked.reconciled
  refine ⟨fun t => hr.initialized_iff, fun t info hget => ?_, ?_⟩
  · have haccounted := hr.accounted hget
    have hgross := hr.gross t
    have hnet := hr.net t
    rw [tickAt_some hget] at hgross hnet
    exact ⟨hgross, hnet, haccounted.positive, haccounted.gross, haccounted.net⟩
  · rw [hbacked.sound.active, hr.netBelow_eq]

theorem run_reconciled_sample :
    (exists info, Sample.sold.ticks.snapshot.get? (-60) = some info) ∧
      (Sample.sold.state.liquidity : Int) =
        Sample.sold.positions.activeAt Sample.sold.state.tick := by
  have h := run_reconciled Sample.empty_fresh Sample.run
  have hposition : Sample.sold.positions.map.get? Sample.add.index =
      some { liquidity := 10 ^ 18, feeGrowthInside0LastX128 := 0,
             feeGrowthInside1LastX128 := 0 } := by
    decide +kernel
  exact ⟨(h.1 (-60)).mpr ⟨Sample.add.index, _, hposition, by decide, Or.inl rfl⟩, h.2.2⟩

end Ranged

end Pool

/-!
# Double counting
-/

namespace Positions

theorem activeAt_le_total (positions : Positions) (t : Int) :
    positions.activeAt t ≤ positions.total := by
  apply SortedMap.weighted_le_weighted size_nonneg
  intro i _ _
  unfold covering
  split <;> norm_num

theorem activeAt_nonneg (positions : Positions) (t : Int) : 0 ≤ positions.activeAt t := by
  apply SortedMap.weighted_nonneg size_nonneg
  intro i
  unfold covering
  split <;> norm_num

end Positions

namespace Pool

section Capacity

variable {p : Pool Positions A}

theorem Backed.sum_gross (hp : p.Backed) :
    ∑ t ∈ p.ticks.snapshot.keys, p.positions.grossAt t = 2 * p.positions.total := by
  unfold Positions.grossAt Positions.total
  rw [SortedMap.weighted_finset_sum, ← SortedMap.weighted_mul]
  apply SortedMap.weighted_congr
  intro i position hi hne
  have hmem (t : Int) (ht : i.tickLower = t ∨ i.tickUpper = t) : t ∈ p.ticks.snapshot.keys := by
    rw [SortedMap.mem_keys, hp.reconciled.initialized_iff]
    exact ⟨i, position, hi, fun h0 => hne (by rw [Positions.size, h0]; rfl), ht⟩
  unfold Positions.touching
  rw [Finset.sum_add_distrib, Finset.sum_ite_eq, Finset.sum_ite_eq,
    if_pos (hmem _ (Or.inl rfl)), if_pos (hmem _ (Or.inr rfl))]
  norm_num

theorem Ranged.total_le (hr : p.Ranged) (hp : p.Backed) :
    p.positions.total ≤ 2 ^ 127 - 1 := by
  have hcard : (p.ticks.snapshot.keys.card : Int) ≤ p.tickSpacing.numTicks := by
    apply TickSpacing.card_aligned_le hp.sound.positive
    intro t ht
    rcases SortedMap.mem_keys.mp ht with ⟨info, hget⟩
    refine ⟨(hp.sound.holds.storable hget).aligned, ?_⟩
    rcases hp.reconciled.initialized_iff.mp ⟨info, hget⟩ with ⟨i, position, hi, _, hti⟩
    have hrange := hr i position hi
    rcases hti with rfl | rfl
    · exact hrange.1
    · exact hrange.2
  have hcap : ∑ t ∈ p.ticks.snapshot.keys, p.positions.grossAt t ≤
      p.ticks.snapshot.keys.card * (p.tickSpacing.maxLiquidityPerTick : Int) := by
    rw [← nsmul_eq_mul]
    apply Finset.sum_le_card_nsmul
    intro t _
    rw [← hp.reconciled.gross]
    exact_mod_cast hp.reconciled.cap t
  have hall := TickSpacing.numTicks_mul_cap_le hp.sound.positive
  have hmul : (p.ticks.snapshot.keys.card : Int) * p.tickSpacing.maxLiquidityPerTick ≤
      p.tickSpacing.numTicks * p.tickSpacing.maxLiquidityPerTick :=
    Int.mul_le_mul_of_nonneg_right hcard (Int.natCast_nonneg _)
  rw [hp.sum_gross] at hcap
  norm_num at hall ⊢
  omega

theorem Ranged.netBelow_bounds (hr : p.Ranged) (hp : p.Backed) (t : Int) :
    0 ≤ netBelow p.ticks.snapshot t ∧ netBelow p.ticks.snapshot t ≤ 2 ^ 127 - 1 := by
  rw [hp.reconciled.netBelow_eq]
  exact ⟨p.positions.activeAt_nonneg t, (p.positions.activeAt_le_total t).trans (hr.total_le hp)⟩

theorem Backed.net_fits (hp : p.Backed) {t : Int} {info : TickInfoInner}
    (hget : p.ticks.snapshot.get? t = some info) : FitsSigned 128 (-info.liquidityNet) := by
  have haccounted := hp.reconciled.accounted hget
  have hcap := TickSpacing.maxLiquidityPerTick_lt hp.sound.positive
  have hnet := haccounted.net
  have hgross := haccounted.gross
  unfold FitsSigned
  norm_num at hcap ⊢
  omega

theorem Ranged.validateTicks (hr : p.Ranged) (hp : p.Backed) :
    validateTicks p.tickSpacing p.tickSpacing.maxLiquidityPerTick p.state.tick
      p.ticks.snapshot.entries 0 = .ok p.state.liquidity := by
  have hvalid : TicksValid p.tickSpacing p.tickSpacing.maxLiquidityPerTick p.state.tick
      p.ticks.snapshot.entries 0 := by
    refine ticksValid_iff.mpr ⟨fun t info hget => (hp.sound.holds.storable hget).aligned,
      fun t info hget => hp.reconciled.accounted hget, fun t info _ _ => ?_⟩
    have hbounds := hr.netBelow_bounds hp t
    unfold FitsSigned
    norm_num at hbounds ⊢
    omega
  rw [validateTicks_complete (fun _ _ => hp.sound.positive.not_traps _) p.ticks.snapshot.sorted
    hvalid, zero_add, netUpTo_entries, ← hp.sound.active]

theorem Backed.stateAt_le (hp : p.Backed) {i : PositionIndex}
    (hi : i.tickLower ≤ p.state.tick ∧ p.state.tick < i.tickUpper) :
    ((p.positions.stateAt i).liquidity : Int) ≤ p.state.liquidity := by
  rw [hp.sound.active, hp.reconciled.netBelow_eq]
  unfold Positions.stateAt
  cases hget : p.positions.map.get? i with
  | none =>
      exact p.positions.activeAt_nonneg _
  | some position =>
      have hle : Positions.size position * Positions.covering p.state.tick i ≤
          p.positions.activeAt p.state.tick := by
        apply SortedMap.le_weighted Positions.size_nonneg _ hget
        intro j
        unfold Positions.covering
        split <;> norm_num
      rw [Positions.covering, if_pos hi, mul_one] at hle
      exact hle

theorem Ranged.changeActive (hr : p.Ranged) (hp : p.Backed) {params : ModifyLiquidityParams}
    {boundaries : TickBoundary × TickBoundary} {ticks : TickSlab A} {feeDelta : BalanceDelta}
    {positions : Positions} (hrange : params.RangeValid p.tickSpacing)
    (hboundaries : updateBoundaries p.state p.ticks params = (.ok boundaries, ticks))
    (hfees : ({ p with ticks } : Pool Positions A).realizeFees params boundaries.1 boundaries.2 =
      (.ok feeDelta, positions)) :
    exists state, changeActiveLiquidity p.state params = .ok state := by
  unfold changeActiveLiquidity
  split
  · rename_i hin
    have hactive := (hr.netBelow_bounds hp p.state.tick).2
    rw [← hp.sound.active] at hactive
    have hfits : 0 ≤ (p.state.liquidity : Int) + params.liquidityDelta ∧
        (p.state.liquidity : Int) + params.liquidityDelta < 2 ^ 128 := by
      rcases updateBoundaries_cases hp.sound.holds hrange with ⟨hdelta, _⟩ |
        ⟨_, _, slab, heq, _⟩ | ⟨_, _, _, slab, heq, _⟩ | ⟨hdelta, slab, heq, hb⟩
      · rw [hdelta]
        norm_num at hactive ⊢
        omega
      · rw [heq] at hboundaries
        cases hboundaries
      · rw [heq] at hboundaries
        cases hboundaries
      · rw [heq] at hboundaries
        cases hboundaries
        have hupdate := (realizeFees_ok hp hfees).1
        have hposition := hp.stateAt_le (i := params.index) hin
        have hcap := TickSpacing.maxLiquidityPerTick_lt hp.sound.positive
        unfold PositionState.Updatable at hupdate
        rw [if_neg hdelta] at hupdate
        have hgross := (hb.admits hdelta).1.cap
        norm_num at hactive hcap ⊢
        omega
    have hsum : checkedAddSigned 128 p.state.liquidity params.liquidityDelta =
        some ((p.state.liquidity : Int) + params.liquidityDelta).toNat := by
      rw [checkedAddSigned_eq_some]
      omega
    rw [hsum, okOr_some, ok_bind]
    exact ⟨_, rfl⟩
  · exact ⟨_, rfl⟩

/-- In every pool reached from an empty one the liquidity arithmetic stays in range:
the active liquidity at any tick, a crossing in either direction, the sums of the
validation and the change of the active liquidity. -/
theorem run_liquidity_in_range {p0 : Pool Positions A} {ops : List Operation} (h0 : p0.Fresh)
    (h : Run Performs p0 ops p) :
    (forall t, p.positions.activeAt t ≤ 2 ^ 127 - 1 ∧
      netBelow p.ticks.snapshot t = p.positions.activeAt t) ∧
    (forall params fuel q, p.swap params fuel ≠ some (.error .liquidityUnderflow, q)) ∧
    (forall t info, p.ticks.snapshot.get? t = some info -> FitsSigned 128 (-info.liquidityNet)) ∧
    RmUniswap.validateTicks p.tickSpacing p.tickSpacing.maxLiquidityPerTick p.state.tick
      p.ticks.snapshot.entries 0 = .ok p.state.liquidity ∧
    (forall (params : ModifyLiquidityParams) boundaries ticks feeDelta positions,
      params.RangeValid p.tickSpacing ->
      updateBoundaries p.state p.ticks params = (.ok boundaries, ticks) ->
      ({ p with ticks } : Pool Positions A).realizeFees params boundaries.1 boundaries.2 =
        (.ok feeDelta, positions) ->
      exists state, changeActiveLiquidity p.state params = .ok state) := by
  have hp := h0.run h
  refine ⟨fun t => ⟨(p.positions.activeAt_le_total t).trans (hp.2.total_le hp.1),
    hp.1.reconciled.netBelow_eq t⟩, fun params fuel q hswap => ?_,
    fun t info hget => hp.1.net_fits hget, hp.2.validateTicks hp.1,
    fun params boundaries ticks feeDelta positions hrange hb hfees =>
      hp.2.changeActive hp.1 hrange hb hfees⟩
  rcases hp.1.sound.underflow hswap with ⟨t, ht⟩
  have hbounds := hp.2.netBelow_bounds hp.1 t
  norm_num at hbounds ht
  omega

theorem run_liquidity_in_range_sample :
    Sample.sold.positions.activeAt 0 ≤ 2 ^ 127 - 1 ∧
      forall params fuel q,
        Sample.sold.swap params fuel ≠ some (.error .liquidityUnderflow, q) := by
  have h := run_liquidity_in_range Sample.empty_fresh Sample.run
  exact ⟨(h.1 0).1, h.2.1⟩

end Capacity

end Pool

end RmUniswap
