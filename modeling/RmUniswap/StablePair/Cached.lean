import RmUniswap.Foundation.Transition
import RmUniswap.StablePair.Hook

/-!
# The fee within a block

The first call of a block writes the price and the decaying fee it computed, and
every later call reads them back. Both paths take the same fee from them, so the
prices inside a block do not move the fee.
-/

namespace RmUniswap

open Foundation

/-- A call of the hook before a swap. -/
structure FeeCall where
  env : HookEnv
  zeroForOne : Bool
deriving DecidableEq

namespace StablePairHook

variable {hook hook' : StablePairHook} {env : HookEnv} {zeroForOne : Bool} {fee : Nat}

/-- A call that returns a fee and leaves a hook. -/
def Charges (hook : StablePairHook) (call : FeeCall × Nat) (hook' : StablePairHook) : Prop :=
  hook.beforeSwapFee call.1.env call.1.zeroForOne = some (call.2, hook')

def isNewBlock (hook : StablePairHook) (env : HookEnv) : Bool :=
  decide (env.blockNumber > hook.state.blockNumber) || hook.state.sqrtAmmPriceX96 == 0

theorem beforeSwapFee_new (hnew : hook.isNewBlock env = true)
    (h : hook.beforeSwapFee env zeroForOne = some (fee, hook')) :
    exists lpFee decaying,
      hook.getFee env.poolState.sqrtPriceX96 true zeroForOne env.blockNumber =
        some (lpFee, decaying) ∧
      toFeeE6 lpFee = some fee ∧
      hook' = { hook with
        state :=
          { decayingFeeE12 := decaying
            sqrtAmmPriceX96 := env.poolState.sqrtPriceX96
            blockNumber := env.blockNumber } } := by
  unfold isNewBlock at hnew
  unfold beforeSwapFee at h
  rw [hnew] at h
  rcases Option.bind_eq_some_iff.mp h with ⟨⟨lpFee, decaying⟩, hget, h⟩
  rcases Option.bind_eq_some_iff.mp h with ⟨fee', hfee, h⟩
  cases h
  exact ⟨lpFee, decaying, hget, hfee, rfl⟩

theorem beforeSwapFee_cached (hold : hook.isNewBlock env = false) :
    hook.beforeSwapFee env zeroForOne =
      (do
        let fees <- hook.getFee hook.state.sqrtAmmPriceX96 false zeroForOne env.blockNumber
        let fee <- toFeeE6 fees.1
        some (fee, hook)) := by
  unfold isNewBlock at hold
  unfold beforeSwapFee
  rw [hold]
  rfl

theorem getFee_cached (hook : StablePairHook) (price : Nat) (zeroForOne : Bool)
    (block block' : Nat) :
    hook.getFee price false zeroForOne block = hook.getFee price false zeroForOne block' := by
  unfold getFee
  simp only [Bool.false_eq_true, if_false]

theorem getFee_readBack {price block decaying lpFee : Nat}
    (h : hook.getFee price true zeroForOne block = some (lpFee, decaying)) (block' : Nat) :
    StablePairHook.getFee
        { hook with
          state :=
            { decayingFeeE12 := decaying
              sqrtAmmPriceX96 := price
              blockNumber := block } } price false zeroForOne block' =
      some (lpFee, decaying) := by
  unfold getFee at h ⊢
  rcases Option.bind_eq_some_iff.mp h with ⟨priceRatio, hratio, h⟩
  rcases Option.bind_eq_some_iff.mp h with ⟨close, hclose, h⟩
  dsimp only at hclose ⊢
  rw [hratio, Option.bind_eq_bind, Option.bind_some, hclose, Option.bind_eq_bind,
    Option.bind_some]
  split
  · rename_i hinside
    rw [if_pos hinside] at h
    exact h
  · rename_i hinside
    rw [if_neg hinside] at h
    dsimp only at h ⊢
    rw [if_pos rfl] at h
    rw [if_neg (by decide)]
    rcases Option.bind_eq_some_iff.mp h with ⟨far, _, h⟩
    rcases Option.bind_eq_some_iff.mp h with ⟨decaying', _, h⟩
    cases h
    rfl

theorem isNewBlock_after {env' : HookEnv} (hprice : env.poolState.sqrtPriceX96 ≠ 0)
    (h : hook.beforeSwapFee env zeroForOne = some (fee, hook'))
    (hblock : env'.blockNumber = env.blockNumber) : hook'.isNewBlock env' = false := by
  cases hnew : hook.isNewBlock env with
  | true =>
      rcases beforeSwapFee_new hnew h with ⟨_, _, _, _, rfl⟩
      unfold isNewBlock
      dsimp only
      rw [hblock, decide_eq_false (lt_irrefl _), Bool.false_or, beq_eq_false_iff_ne]
      exact hprice
  | false =>
      rw [beforeSwapFee_cached hnew] at h
      rcases Option.bind_eq_some_iff.mp h with ⟨_, _, h⟩
      rcases Option.bind_eq_some_iff.mp h with ⟨_, _, h⟩
      cases h
      unfold isNewBlock at hnew ⊢
      rw [hblock]
      exact hnew

def blockFee (hook : StablePairHook) (zeroForOne : Bool) : Option Nat := do
  let fees <- hook.getFee hook.state.sqrtAmmPriceX96 false zeroForOne hook.state.blockNumber
  toFeeE6 fees.1

theorem blockFee_first (h : hook.beforeSwapFee env zeroForOne = some (fee, hook')) :
    hook'.blockFee zeroForOne = some fee := by
  cases hnew : hook.isNewBlock env with
  | true =>
      rcases beforeSwapFee_new hnew h with ⟨lpFee, decaying, hget, hfee, rfl⟩
      have hback := getFee_readBack hget env.blockNumber
      unfold blockFee
      dsimp only
      rw [hback, Option.bind_eq_bind, Option.bind_some]
      exact hfee
  | false =>
      rw [beforeSwapFee_cached hnew] at h
      rcases Option.bind_eq_some_iff.mp h with ⟨fees, hget, h⟩
      rcases Option.bind_eq_some_iff.mp h with ⟨fee', hfee, h⟩
      cases h
      unfold blockFee
      rw [getFee_cached hook _ _ _ env.blockNumber, hget, Option.bind_eq_bind, Option.bind_some]
      exact hfee

theorem charges_later (hold : hook.isNewBlock env = false)
    (h : hook.beforeSwapFee env zeroForOne = some (fee, hook')) :
    hook' = hook ∧ hook.blockFee zeroForOne = some fee := by
  have hfee := blockFee_first h
  rw [beforeSwapFee_cached hold] at h
  rcases Option.bind_eq_some_iff.mp h with ⟨_, _, h⟩
  rcases Option.bind_eq_some_iff.mp h with ⟨_, _, h⟩
  cases h
  exact ⟨rfl, hfee⟩

theorem run_later {calls : List (FeeCall × Nat)}
    (hold : forall call, call ∈ calls -> hook.isNewBlock call.1.env = false)
    (h : Run Charges hook calls hook') :
    hook' = hook ∧
      forall call, call ∈ calls -> hook.blockFee call.1.zeroForOne = some call.2 := by
  induction h with
  | nil hook =>
      refine ⟨rfl, ?_⟩
      intro call hcall
      cases hcall
  | @cons hook middle hook' call calls hcall _ ih =>
      have hone := charges_later (hold call List.mem_cons_self) hcall
      rcases hone with ⟨rfl, hfee⟩
      have hrest := ih fun c hc => hold c (List.mem_cons_of_mem _ hc)
      refine ⟨hrest.1, ?_⟩
      intro c hc
      rcases List.mem_cons.mp hc with rfl | hc
      · exact hfee
      · exact hrest.2 c hc

/-- In a block only the first call changes the hook, and calls in one direction
charge one fee, whatever prices the later ones are given. -/
theorem same_block_fee {start hook : StablePairHook} {first : FeeCall × Nat}
    {calls : List (FeeCall × Nat)}
    (hfirst : start.Charges first hook)
    (hprice : IsValidSqrtPrice first.1.env.poolState.sqrtPriceX96)
    (hrun : Run Charges hook calls hook')
    (hblock : forall call, call ∈ calls ->
      call.1.env.blockNumber = first.1.env.blockNumber) :
    hook' = hook ∧
      forall c, c ∈ first :: calls -> forall d, d ∈ first :: calls ->
        c.1.zeroForOne = d.1.zeroForOne -> c.2 = d.2 := by
  have hne : first.1.env.poolState.sqrtPriceX96 ≠ 0 := Nat.pos_iff_ne_zero.mp hprice.pos
  have hlater := run_later (fun call hcall => isNewBlock_after hne hfirst (hblock call hcall)) hrun
  refine ⟨hlater.1, ?_⟩
  have hfee (c : FeeCall × Nat) (hc : c ∈ first :: calls) :
      hook.blockFee c.1.zeroForOne = some c.2 := by
    rcases List.mem_cons.mp hc with rfl | hc
    · exact blockFee_first hfirst
    · exact hlater.2 c hc
  intro c hc d hd hside
  have hc' := hfee c hc
  rw [hside, hfee d hd] at hc'
  exact (Option.some_inj.mp hc').symm

end StablePairHook

namespace Sample

def feeConfig : StableFeeConfig :=
  { k := 11744051
    optimalFeeE6 := 100
    targetMultiplier := 30
    referenceSqrtPriceX96 := 2 ^ 96 }

def freshHook : StablePairHook := { config := feeConfig, state := StableFeeState.reset 0 }

/-- A call in a block at a price. -/
def feeCall (blockNumber sqrtPriceX96 : Nat) (zeroForOne : Bool) : FeeCall :=
  { env :=
      { blockNumber
        poolState :=
          { sqrtPriceX96
            tick := 0
            liquidity := 0
            feeGrowthGlobal0X128 := 0
            feeGrowthGlobal1X128 := 0 } }
    zeroForOne }

/-- The hook a call leaves. -/
def charged (hook : StablePairHook) (call : FeeCall) : StablePairHook :=
  ((hook.beforeSwapFee call.env call.zeroForOne).map Prod.snd).getD hook

theorem charges_of_fee {hook : StablePairHook} {call : FeeCall} {fee : Nat}
    (h : (hook.beforeSwapFee call.env call.zeroForOne).map Prod.fst = some fee) :
    hook.Charges (call, fee) (charged hook call) := by
  rcases Option.map_eq_some_iff.mp h with ⟨⟨fee', hook'⟩, heq, rfl⟩
  unfold StablePairHook.Charges charged
  dsimp only
  rw [heq]
  rfl

/-- A price above the reference opens the block. -/
def opening : FeeCall := feeCall 7 (2 ^ 96 * 101 / 100) true

/-- A price far below it comes later in the block. -/
def later : FeeCall := feeCall 7 (2 ^ 96 * 3 / 4) true

theorem same_block_fee_sample :
    charged (charged freshHook opening) later = charged freshHook opening ∧
      forall c, c ∈ [(opening, 14405), (later, 14405)] ->
        forall d, d ∈ [(opening, 14405), (later, 14405)] ->
          c.1.zeroForOne = d.1.zeroForOne -> c.2 = d.2 := by
  have hopening : freshHook.Charges (opening, 14405) (charged freshHook opening) :=
    charges_of_fee (by decide +kernel)
  have hlater : (charged freshHook opening).Charges (later, 14405)
      (charged (charged freshHook opening) later) := charges_of_fee (by decide +kernel)
  apply StablePairHook.same_block_fee hopening (by decide) (Run.cons hlater (Run.nil _))
  intro call hcall
  rcases List.mem_singleton.mp hcall with rfl
  rfl

end Sample

end RmUniswap
