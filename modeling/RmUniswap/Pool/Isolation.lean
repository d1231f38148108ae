import RmUniswap.Pool.Collect
import RmUniswap.Pool.Ledger

/-!
# Positions are out of reach of the others

Operations that are not changes of a position leave its record as it is. What the
position accrues meanwhile is what the steps of the swaps inside its range left for a
unit of liquidity: nothing that others do with their own positions adds to it or takes
from it, and it is paid in full to the next change of the position.
-/

namespace RmUniswap

open Foundation

variable {A : Type} [LawfulAllocator TickSlabValue A]

/-- What an operation adds to the growth inside the range of a position. -/
def Entry.accrued (token0 : Bool) (i : PositionIndex) (e : Entry) : Nat :=
  match e.operation with
  | .modifyLiquidity _ _ => 0
  | .swap params _ => Pool.inflow params e.computations token0 i
  | .setProtocolFee _ => 0

namespace Pool

section Isolation

variable {p0 p p' : Pool Positions A} {history : List Operation} {e : Entry}
  {entries : List Entry} {i : PositionIndex}

/-- The record of a position and the growth it has accrued, before and after. -/
structure Accrues (i : PositionIndex) (gain : Bool -> Nat) (p p' : Pool Positions A) : Prop where
  record : p'.positions.stateAt i = p.positions.stateAt i
  growth : (p.positions.stateAt i).liquidity ≠ 0 -> forall token0,
    p'.growthSince token0 i = p.growthSince token0 i + gain token0

theorem Accrues.refl (i : PositionIndex) (p : Pool Positions A) : Accrues i (fun _ => 0) p p :=
  ⟨rfl, fun _ _ => rfl⟩

theorem Accrues.trans {p'' : Pool Positions A} {gain gain' : Bool -> Nat}
    (h : Accrues i gain p p') (h' : Accrues i gain' p' p'') :
    Accrues i (fun token0 => gain token0 + gain' token0) p p'' := by
  refine ⟨h'.record.trans h.record, fun hl token0 => ?_⟩
  have hl' : (p'.positions.stateAt i).liquidity ≠ 0 := by
    rw [h.record]
    exact hl
  rw [h'.growth hl', h.growth hl, Nat.add_assoc]

theorem Records.accrues (hp : p.Accruing) (h : Records p e p')
    (hothers : e.operation.changes i = false) :
    Accrues i (fun token0 => e.accrued token0 i) p p' := by
  cases h with
  | @modifyLiquidity params result p' h =>
      have hrealizes := hp.toBacked.realizes h
      have hne : i ≠ params.index := fun heq => of_decide_eq_false hothers heq.symm
      refine ⟨?_, fun hl token0 => hrealizes.others token0 i hne hl⟩
      rw [hrealizes.positions, stateAt_put_ne _ hne]
  | setProtocolFee h =>
      rcases setProtocolFee_ok h with ⟨swapFee, _, rfl⟩
      exact ⟨rfl, fun _ _ => rfl⟩
  | @swap params fuel result p' h =>
      unfold Entry.accrued
      dsimp only
      generalize hlist : p.swapComputations params fuel = list
      have hcases := swap_cases h
      rw [hlist] at hcases
      cases hcases with
      | @empty ctx hzero =>
          refine ⟨rfl, fun _ token0 => ?_⟩
          unfold inflow
          split <;> rfl
      | @done ctx cs b delta hrun hhalt hdelta =>
          exact ⟨rfl, fun hl token0 => hrun.growthSince hp hl token0⟩

theorem Accruing.run_accrues (hp : p.Accruing) (h : Run Records p entries p')
    (hothers : forall e, e ∈ entries -> e.operation.changes i = false) :
    Accrues i (fun token0 => (entries.map (Entry.accrued token0 i)).sum) p p' := by
  induction h with
  | nil p =>
      exact Accrues.refl i p
  | cons he _ ih =>
      have hfirst := he.accrues hp (hothers _ List.mem_cons_self)
      exact hfirst.trans (ih (hp.performs he.performs)
        fun e' hmem => hothers e' (List.mem_cons_of_mem _ hmem))

/-- In a run of others the record of a position stays, it accrues exactly the fees of the
steps inside its range, and its next change is paid all it has accrued. -/
theorem run_isolated (h0 : p0.Fresh) (hhistory : Run Performs p0 history p)
    (h : Run Records p entries p')
    (hothers : forall e, e ∈ entries -> e.operation.changes i = false) :
    p'.positions.stateAt i = p.positions.stateAt i ∧
      ((p.positions.stateAt i).liquidity ≠ 0 -> forall token0,
        p'.growthSince token0 i =
          p.growthSince token0 i + (entries.map (Entry.accrued token0 i)).sum) ∧
      forall (params : ModifyLiquidityParams) (result : ModifyLiquidityResult)
        (p'' : Pool Positions A), params.index = i ->
        p'.modifyLiquidity params = (.ok result, p'') -> forall token0,
        result.feeDelta.amount token0 = ((p.positions.stateAt i).liquidity *
          (p.growthSince token0 i + (entries.map (Entry.accrued token0 i)).sum) /
            2 ^ 128 : Nat) := by
  have hp := h0.accruing.run hhistory
  have haccrues := hp.run_accrues h hothers
  refine ⟨haccrues.record, haccrues.growth, fun params result p'' hi hm token0 => ?_⟩
  have hp' : p'.Accruing :=
    h.invariant (fun _ _ _ hs he => hs.performs he.performs) hp
  rw [(hp'.toBacked.realizes hm).fees token0, hi, haccrues.record]
  by_cases hl : (p.positions.stateAt i).liquidity = 0
  · rw [hl, Nat.zero_mul, Nat.zero_mul]
  · rw [haccrues.growth hl]

theorem run_isolated_sample :
    Sample.sold.positions.stateAt Sample.add.index =
        Sample.funded.positions.stateAt Sample.add.index ∧
      Sample.collected.feeDelta.amount true =
        ((Sample.funded.positions.stateAt Sample.add.index).liquidity *
          (Sample.funded.growthSince true Sample.add.index +
            ([⟨.swap Sample.sell Sample.result, Sample.funded.swapComputations Sample.sell 3⟩].map
              (Entry.accrued true Sample.add.index)).sum) / 2 ^ 128 : Nat) := by
  have hresult : (Sample.funded.swap Sample.sell 3).map Prod.fst = some (.ok Sample.result) := by
    decide +kernel
  have hhistory : Run Performs Sample.empty [.modifyLiquidity Sample.add Sample.added]
      Sample.funded :=
    Run.cons (Performs.modifyLiquidity Sample.empty_add) (Run.nil Sample.funded)
  have h : Run Records Sample.funded
      [⟨.swap Sample.sell Sample.result, Sample.funded.swapComputations Sample.sell 3⟩]
      Sample.sold :=
    Run.cons (Records.swap (Sample.swap_eq hresult)) (Run.nil Sample.sold)
  have hisolated := run_isolated (i := Sample.add.index) Sample.empty_fresh hhistory h
    fun e he => by
      rw [List.mem_singleton.mp he]
      rfl
  exact ⟨hisolated.1, hisolated.2.2 Sample.collect _ _ rfl Sample.sold_collect true⟩

end Isolation

end Pool

end RmUniswap
