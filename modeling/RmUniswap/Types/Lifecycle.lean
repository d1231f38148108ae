import RmUniswap.Types.Hooks

/-!
# The lifecycle of a hook

A hook may act before and after changes of liquidity, swaps and donations. The
adapter picks the callbacks of a change by the sign of its liquidity, and leaves to
the caller what the hook does not claim.
-/

namespace RmUniswap

open Foundation

def BalanceDelta.checkedAdd (delta other : BalanceDelta) : Except Error BalanceDelta := do
  let amount0 <- okOr .i128Overflow (checkedSigned 128 (delta.amount0 + other.amount0))
  let amount1 <- okOr .i128Overflow (checkedSigned 128 (delta.amount1 + other.amount1))
  .ok { amount0, amount1 }

/-- All callbacks of a hook with a state of its own. -/
structure LifecycleHooks (H : Type) extends Hooks H where
  beforeAddLiquidity : H -> Nat -> PoolKey -> ModifyLiquidityParams -> List UInt8 ->
    Except Error Unit × H
  afterAddLiquidity : H -> Nat -> PoolKey -> ModifyLiquidityParams -> BalanceDelta ->
    BalanceDelta -> List UInt8 -> Except Error BalanceDelta × H
  beforeRemoveLiquidity : H -> Nat -> PoolKey -> ModifyLiquidityParams -> List UInt8 ->
    Except Error Unit × H
  afterRemoveLiquidity : H -> Nat -> PoolKey -> ModifyLiquidityParams -> BalanceDelta ->
    BalanceDelta -> List UInt8 -> Except Error BalanceDelta × H
  beforeDonate : H -> Nat -> PoolKey -> Nat -> Nat -> List UInt8 -> Except Error Unit × H
  afterDonate : H -> Nat -> PoolKey -> Nat -> Nat -> List UInt8 -> Except Error Unit × H

namespace HooksImpl

variable {H : Type}

def beforeModifyLiquidity (impl : LifecycleHooks H) (hook : H) (sender : Nat)
    (poolKey : PoolKey) (params : ModifyLiquidityParams) (hookData : List UInt8) :
    Except Error Unit × H :=
  if params.liquidityDelta > 0 then
    impl.beforeAddLiquidity hook sender poolKey params hookData
  else
    impl.beforeRemoveLiquidity hook sender poolKey params hookData

def afterModifyLiquidity (impl : LifecycleHooks H) (hook : H) (sender : Nat)
    (poolKey : PoolKey) (params : ModifyLiquidityParams) (delta feesAccrued : BalanceDelta)
    (hookData : List UInt8) : Except Error (BalanceDelta × BalanceDelta) × H :=
  let (hookDelta, hook) :=
    if params.liquidityDelta > 0 then
      impl.afterAddLiquidity hook sender poolKey params delta feesAccrued hookData
    else
      impl.afterRemoveLiquidity hook sender poolKey params delta feesAccrued hookData
  let deltas : Except Error (BalanceDelta × BalanceDelta) := do
    let hookDelta <- hookDelta
    let callerDelta <- delta.checkedSub hookDelta
    .ok (callerDelta, hookDelta)
  (deltas, hook)

end HooksImpl

/-!
# Watching a hook

A watched hook behaves as the hook, and notes down which of its callbacks ran and
what each of them claimed for the hook.
-/

inductive HookPhase
  | before
  | after
deriving DecidableEq

inductive HookKind
  | addLiquidity
  | removeLiquidity
  | swap
  | donate
deriving DecidableEq

structure HookEvent where
  phase : HookPhase
  kind : HookKind
  claim : BalanceDelta
deriving DecidableEq

namespace LifecycleHooks

variable {H T : Type}

def note (phase : HookPhase) (kind : HookKind) (claim : T -> BalanceDelta)
    (ran : Except Error T × H) (log : List HookEvent) : Except Error T × (H × List HookEvent) :=
  let claimed := (ran.1.toOption.map claim).getD BalanceDelta.default
  (ran.1, (ran.2, log ++ [{ phase, kind, claim := claimed }]))

/-- Both swap callbacks claim on the side of the caller's amount and on the other. -/
def watched (impl : LifecycleHooks H) : LifecycleHooks (H × List HookEvent) where
  beforeSwap hook sender poolKey params env hookData :=
    note .before .swap
      (fun r => HooksImpl.hookDelta params r.1.specifiedDelta r.1.unspecifiedDelta)
      (impl.beforeSwap hook.1 sender poolKey params env hookData) hook.2
  afterSwap hook sender poolKey params delta hookData :=
    note .after .swap (HooksImpl.hookDelta params 0)
      (impl.afterSwap hook.1 sender poolKey params delta hookData) hook.2
  beforeAddLiquidity hook sender poolKey params hookData :=
    note .before .addLiquidity (fun _ => BalanceDelta.default)
      (impl.beforeAddLiquidity hook.1 sender poolKey params hookData) hook.2
  afterAddLiquidity hook sender poolKey params delta feesAccrued hookData :=
    note .after .addLiquidity id
      (impl.afterAddLiquidity hook.1 sender poolKey params delta feesAccrued hookData) hook.2
  beforeRemoveLiquidity hook sender poolKey params hookData :=
    note .before .removeLiquidity (fun _ => BalanceDelta.default)
      (impl.beforeRemoveLiquidity hook.1 sender poolKey params hookData) hook.2
  afterRemoveLiquidity hook sender poolKey params delta feesAccrued hookData :=
    note .after .removeLiquidity id
      (impl.afterRemoveLiquidity hook.1 sender poolKey params delta feesAccrued hookData) hook.2
  beforeDonate hook sender poolKey amount0 amount1 hookData :=
    note .before .donate (fun _ => BalanceDelta.default)
      (impl.beforeDonate hook.1 sender poolKey amount0 amount1 hookData) hook.2
  afterDonate hook sender poolKey amount0 amount1 hookData :=
    note .after .donate (fun _ => BalanceDelta.default)
      (impl.afterDonate hook.1 sender poolKey amount0 amount1 hookData) hook.2

theorem note_nothing (phase : HookPhase) (kind : HookKind) (ran : Except Error T × H)
    (log : List HookEvent) :
    note phase kind (fun _ => BalanceDelta.default) ran log =
      (ran.1, (ran.2, log ++ [{ phase, kind, claim := BalanceDelta.default }])) := by
  rcases ran with ⟨e | t, hook⟩ <;> rfl

end LifecycleHooks

def ModifyLiquidityParams.hookKind (params : ModifyLiquidityParams) : HookKind :=
  if params.liquidityDelta > 0 then .addLiquidity else .removeLiquidity

namespace HooksImpl

open LifecycleHooks

variable {H : Type} (impl : LifecycleHooks H) (hook : H) (log : List HookEvent) (sender : Nat)
  (poolKey : PoolKey) (hookData : List UInt8)

theorem beforeModifyLiquidity_watched (params : ModifyLiquidityParams) :
    beforeModifyLiquidity impl.watched (hook, log) sender poolKey params hookData =
      ((beforeModifyLiquidity impl hook sender poolKey params hookData).1,
        ((beforeModifyLiquidity impl hook sender poolKey params hookData).2,
          log ++
            [{ phase := .before, kind := params.hookKind, claim := BalanceDelta.default }])) := by
  unfold beforeModifyLiquidity ModifyLiquidityParams.hookKind
  split
  · exact note_nothing _ _ _ _
  · exact note_nothing _ _ _ _

theorem afterModifyLiquidity_watched (params : ModifyLiquidityParams)
    (delta feesAccrued : BalanceDelta) :
    exists claim,
      afterModifyLiquidity impl.watched (hook, log) sender poolKey params delta feesAccrued
          hookData =
        ((afterModifyLiquidity impl hook sender poolKey params delta feesAccrued hookData).1,
          ((afterModifyLiquidity impl hook sender poolKey params delta feesAccrued hookData).2,
            log ++ [{ phase := .after, kind := params.hookKind, claim }])) ∧
      forall deltas,
        (afterModifyLiquidity impl hook sender poolKey params delta feesAccrued hookData).1 =
          .ok deltas -> delta.checkedSub claim = .ok deltas.1 := by
  unfold afterModifyLiquidity ModifyLiquidityParams.hookKind
  have hreturned {r : Except Error BalanceDelta} {deltas : BalanceDelta × BalanceDelta}
      (h : (do
        let hookDelta <- r
        let callerDelta <- delta.checkedSub hookDelta
        Except.ok (callerDelta, hookDelta)) = .ok deltas) :
      delta.checkedSub ((r.toOption.map id).getD BalanceDelta.default) = .ok deltas.1 := by
    rcases bind_eq_ok.mp h with ⟨hookDelta, hr, hrest⟩
    rcases bind_eq_ok.mp hrest with ⟨callerDelta, hcaller, hok⟩
    cases hok
    rw [hr]
    exact hcaller
  by_cases hadd : params.liquidityDelta > 0
  · rw [if_pos hadd, if_pos hadd, if_pos hadd]
    exact ⟨_, rfl, fun _ => hreturned⟩
  · rw [if_neg hadd, if_neg hadd, if_neg hadd]
    exact ⟨_, rfl, fun _ => hreturned⟩

section Swap

variable (params : SwapParams)

theorem beforeSwap_watched (env : HookEnv) :
    exists claim,
      beforeSwap impl.watched.toHooks (hook, log) sender poolKey params env hookData =
        ((beforeSwap impl.toHooks hook sender poolKey params env hookData).1,
          ((beforeSwap impl.toHooks hook sender poolKey params env hookData).2,
            log ++ [{ phase := .before, kind := .swap, claim }])) ∧
      forall executed,
        (beforeSwap impl.toHooks hook sender poolKey params env hookData).1 = .ok executed ->
          claim = hookDelta params executed.2.1.specifiedDelta executed.2.1.unspecifiedDelta := by
  unfold beforeSwap
  dsimp only [watched, note]
  rcases impl.beforeSwap hook sender poolKey params env hookData with ⟨e | ⟨before, fee⟩, hook'⟩
  · exact ⟨_, rfl, fun executed h => by cases h⟩
  · dsimp only
    cases adjust params before.specifiedDelta with
    | error e => exact ⟨_, rfl, fun executed h => by cases h⟩
    | ok amountToSwap =>
        refine ⟨_, rfl, fun executed h => ?_⟩
        cases h
        rfl

theorem afterSwap_watched (swapDelta : BalanceDelta) (before : BeforeSwapDelta) :
    exists claim,
      afterSwap impl.watched.toHooks (hook, log) sender poolKey params swapDelta hookData before =
        ((afterSwap impl.toHooks hook sender poolKey params swapDelta hookData before).1,
          ((afterSwap impl.toHooks hook sender poolKey params swapDelta hookData before).2,
            log ++ [{ phase := .after, kind := .swap, claim }])) ∧
      forall deltas,
        (afterSwap impl.toHooks hook sender poolKey params swapDelta hookData before).1 =
          .ok deltas -> exists after,
            claim = hookDelta params 0 after ∧
            swapDelta.checkedSub (hookDelta params before.specifiedDelta
              (before.unspecifiedDelta + after)) = .ok deltas.1 := by
  unfold afterSwap
  dsimp only [watched, note]
  rcases impl.afterSwap hook sender poolKey params swapDelta hookData with ⟨e | after, hook'⟩
  · exact ⟨_, rfl, fun deltas h => by cases h⟩
  · refine ⟨_, rfl, fun deltas h => ⟨after, rfl, ?_⟩⟩
    rcases bind_eq_ok.mp h with ⟨unspecified, hunspecified, hrest⟩
    rcases bind_eq_ok.mp hrest with ⟨callerDelta, hcaller, hok⟩
    have hsum := (checkedSigned_eq_some.mp (okOr_eq_ok.mp hunspecified)).1
    cases hok
    rw [← hsum]
    exact hcaller

end Swap

end HooksImpl

end RmUniswap
