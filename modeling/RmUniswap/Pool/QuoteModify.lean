import RmUniswap.Pool.Operation
import RmUniswap.Pool.Principal

/-!
# Quotes of liquidity changes

A quote computes the prices of both boundaries from their ticks, a change reads them
from the slab. They agree because every stored tick carries its own price.
-/

namespace RmUniswap

open Foundation

variable {A : Type} [LawfulAllocator TickSlabValue A]

namespace Pool

theorem Usable.stored {P : Type} {p : Pool P A} (hp : p.Usable) {i : Nat}
    (hi : p.ticks.pages.Key i) :
    exists info, p.ticks.get i = some info ∧
      info.tickIndex = toTick i p.ticks.tickSpacing.asU32 ∧
        i = p.ticks.indexer info.tickIndex ∧
          info.sqrtPriceX96 = getSqrtPriceAtTick info.tickIndex := by
  rcases hp.keyed.key_indexer_eq hi with ⟨info, hlt, hget, hst, heq⟩
  have hprice := (hp.keyed i info hlt hget).2.2
  refine ⟨info, hget, ?_, heq, hprice⟩
  conv_rhs => rw [heq]
  exact (TickSlab.toTick_indexer hst).symm

section Quote

variable {P : Type} [PositionsAccess P] {p p' : Pool P A} {params : ModifyLiquidityParams}
  {result : ModifyLiquidityResult}

theorem principal_zero (hzero : params.liquidityDelta = 0) (state : PoolState) :
    params.principal state = (0, 0) := by
  have hnone0 (up : Bool) (a b : Nat) : amount0Between up 0 a b = 0 := by
    unfold amount0Between
    rw [Nat.zero_mul, Nat.mul_zero, roundDiv_zero]
  have hnone1 (up : Bool) (a b : Nat) : amount1Between up 0 a b = 0 := by
    unfold amount1Between
    rw [Nat.zero_mul, roundDiv_zero]
  unfold ModifyLiquidityParams.principal
  dsimp only
  rw [hzero, Int.natAbs_zero, hnone0, hnone0, hnone1, hnone1, ite_self, ite_self]

theorem Usable.quoteModifyLiquidity (hp : p.Usable)
    (h : p.modifyLiquidity params = (.ok result, p')) :
    p.quoteModifyLiquidity params = .ok result.delta := by
  have hcases := modify_cases hp.holds params
  rw [h] at hcases
  cases hcases with
  | done hrange _ _ hprincipal =>
      have hsettled := settlePrincipal_ok hprincipal
      unfold Pool.quoteModifyLiquidity
      rw [checkTicks_eq_ok.mpr hrange, ok_bind]
      by_cases hzero : params.liquidityDelta = 0
      · rw [ModifyLiquidityParams.fromLiquidityPrincipal_eq_ok hp.price,
          principal_zero hzero, (hsettled.2.2.1 hzero).2]
        refine ⟨⟨principalFits_zero _, principalFits_zero _⟩, ?_⟩
        unfold ModifyLiquidityParams.principalDelta
        rw [principal_zero hzero, signedPrincipal_zero]
        rfl
      · exact hsettled.2.2.2.2 hzero

/-- In a reachable pool the quote just before a change is the principal it commits,
and every stored tick carries its own tick and price. -/
theorem modify_quoted (hp : p.Reachable) :
    (forall params result p', p.modifyLiquidity params = (.ok result, p') ->
      p.quoteModifyLiquidity params = .ok result.delta) ∧
    forall i, p.ticks.pages.Key i -> exists info, p.ticks.get i = some info ∧
      info.tickIndex = toTick i p.ticks.tickSpacing.asU32 ∧
        i = p.ticks.indexer info.tickIndex ∧
          info.sqrtPriceX96 = getSqrtPriceAtTick info.tickIndex :=
  ⟨fun _ _ _ h => hp.usable.quoteModifyLiquidity h, fun _ hi => hp.usable.stored hi⟩

end Quote

theorem modify_quoted_sample :
    Sample.restored.quoteModifyLiquidity Sample.add = .ok Sample.added.delta := by
  have hadd : (Sample.restored.modifyLiquidity Sample.add).1 = .ok Sample.added := by
    decide +kernel
  exact (modify_quoted Sample.restored_accepted.reachable).1 _ _ _ (Prod.ext hadd rfl)

end Pool

end RmUniswap
