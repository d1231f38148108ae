import RmUniswap.Pool.SwapEnd
import RmUniswap.Types.Hooks

/-!
# Swaps through the pool manager

The manager runs the hook before the swap, executes the adjusted amount, and
runs the hook after it. A caller whose adjusted amount is filled settles what it
asked for in its own token, and in the other what the hook leaves of the pool's.
-/

namespace RmUniswap

open Foundation

variable {A : Type} [LawfulAllocator TickSlabValue A]

structure SinglePoolManager (H : Type) (A : Type := Arena TickSlabValue)
    [LawfulAllocator TickSlabValue A] where
  pool : Pool Positions A
  hooks : Option (PoolKey × H)
  blockNumber : Nat

namespace SinglePoolManager

variable {H : Type}

def env (m : SinglePoolManager H A) : HookEnv :=
  { blockNumber := m.blockNumber, poolState := m.pool.state }

def executable (params : SwapParams) (amountToSwap : I256) (lpFeeOverride : Option Fee) :
    SwapParamsInner :=
  { zeroForOne := params.zeroForOne
    amountSpecified := amountToSwap.val
    sqrtPriceLimit := params.sqrtPriceLimit
    lpFeeOverride
    amountFits := amountToSwap.fits
    limitValid := params.limitValid }

/-- A swap; {lit}`none` means the loop ran out of fuel. -/
def swap (impl : Hooks H) (m : SinglePoolManager H A) (sender : Nat) (params : SwapParams)
    (hookData : List UInt8) (fuel : Nat) :
    Option (Except Error BalanceDelta × SinglePoolManager H A) :=
  if params.amountSpecified = 0 then
    some (.error .zeroValue, m)
  else
    match m.hooks with
    | none =>
        let executableParams := executable params ⟨params.amountSpecified, params.amountFits⟩ none
        (m.pool.swap executableParams fuel).map fun (result, pool) =>
          (result.map SwapResult.swapDelta, { m with pool })
    | some (poolKey, hook) =>
        match HooksImpl.beforeSwap impl hook sender poolKey params m.env hookData with
        | (.error e, hook) => some (.error e, { m with hooks := some (poolKey, hook) })
        | (.ok (amountToSwap, before, lpFeeOverride), hook) =>
            (m.pool.swap (executable params amountToSwap lpFeeOverride) fuel).map fun
              | (.error e, pool) => (.error e, { m with pool, hooks := some (poolKey, hook) })
              | (.ok result, pool) =>
                  match HooksImpl.afterSwap impl hook sender poolKey params result.swapDelta
                      hookData before with
                  | (.error e, hook) =>
                      (.error e, { m with pool, hooks := some (poolKey, hook) })
                  | (.ok (callerDelta, _), hook) =>
                      (.ok callerDelta, { m with pool, hooks := some (poolKey, hook) })

end SinglePoolManager

def Pool.leftover {P : Type} (p : Pool P A) (params : SwapParamsInner) (fuel : Nat) : Option Int :=
  if params.amountSpecified = 0 then
    some 0
  else
    match p.resolveSwapFee params with
    | .error _ => none
    | .ok swapFee =>
        match (p.swapContext .exclusive swapFee params).loop fuel (p.swapStart params) p.ticks with
        | some (.ok s, _) => some s.amountSpecifiedRemaining
        | _ => none

theorem Pool.specified_add_leftover {P : Type} {p p' : Pool P A} {params : SwapParamsInner}
    {fuel : Nat} {result : SwapResult} (h : p.swap params fuel = some (.ok result, p')) :
    exists rest, p.leftover params fuel = some rest ∧
      result.swapDelta.specified params + rest = params.amountSpecified := by
  unfold swap runSwap at h
  unfold leftover
  cases hfee : p.resolveSwapFee params with
  | error e =>
      rw [hfee] at h
      cases h
  | ok swapFee =>
      rw [hfee] at h
      dsimp only at h ⊢
      unfold swapInner at h
      dsimp only at h
      by_cases hzero : params.amountSpecified = 0
      · rw [if_pos hzero] at h ⊢
        cases h
        refine ⟨0, rfl, ?_⟩
        rw [hzero, add_zero]
        unfold BalanceDelta.specified
        split <;> rfl
      · rw [if_neg hzero] at h ⊢
        split at h
        · cases h
        · rcases Option.map_eq_some_iff.mp h with ⟨⟨s, ticks⟩, hloop, h⟩
          rw [hloop]
          cases s with
          | error e =>
              cases h
          | ok s =>
              dsimp only at h ⊢
              refine ⟨_, rfl, ?_⟩
              unfold finishSwap at h
              split at h
              · cases h
              · rename_i delta hdelta
                cases h
                have hspecified : delta.specified params =
                    params.amountSpecified - s.amountSpecifiedRemaining :=
                  SwapContext.swapDelta_specified rfl rfl hdelta
                show delta.specified params + s.amountSpecifiedRemaining = _
                omega

/-!
# What the caller settles
-/

namespace SinglePoolManager

variable {H : Type}

/-- The callbacks and the pool swap behind a successful swap of the manager. -/
structure HookedSwap (impl : Hooks H) (m : SinglePoolManager H A) (sender : Nat)
    (params : SwapParams) (hookData : List UInt8) (fuel : Nat) where
  poolKey : PoolKey
  hook : H
  hookBefore : H
  hookAfter : H
  before : BeforeSwapDelta
  fee : Fee
  amountToSwap : I256
  result : SwapResult
  pool : Pool Positions A
  after : Int
  installed : m.hooks = some (poolKey, hook)
  ranBefore : impl.beforeSwap hook sender poolKey params m.env hookData =
    (.ok (before, fee), hookBefore)
  adjusted : amountToSwap.val = params.amountSpecified + before.specifiedDelta
  swapped : m.pool.swap
      (executable params amountToSwap (if poolKey.isDynamicFee then some fee else none)) fuel =
    some (.ok result, pool)
  ranAfter : impl.afterSwap hookBefore sender poolKey params result.swapDelta hookData =
    (.ok after, hookAfter)

namespace HookedSwap

variable {impl : Hooks H} {m : SinglePoolManager H A} {sender : Nat} {params : SwapParams}
  {hookData : List UInt8} {fuel : Nat}

def executed (run : HookedSwap impl m sender params hookData fuel) : SwapParamsInner :=
  executable params run.amountToSwap (if run.poolKey.isDynamicFee then some run.fee else none)

/-- What the hook settles: its specified delta, and both of its unspecified ones. -/
def hookDelta (run : HookedSwap impl m sender params hookData fuel) : BalanceDelta :=
  HooksImpl.hookDelta params run.before.specifiedDelta (run.before.unspecifiedDelta + run.after)

/-- Whether the pool filled the whole of the adjusted amount. -/
def Filled (run : HookedSwap impl m sender params hookData fuel) : Prop :=
  m.pool.leftover run.executed fuel = some 0

end HookedSwap

variable {impl : Hooks H} {m m' : SinglePoolManager H A} {sender : Nat} {params : SwapParams}
  {hookData : List UInt8} {fuel : Nat} {callerDelta : BalanceDelta}

theorem swap_eq_ok {poolKey : PoolKey} {hook : H} (hhooks : m.hooks = some (poolKey, hook))
    (h : m.swap impl sender params hookData fuel = some (.ok callerDelta, m')) :
    exists run : HookedSwap impl m sender params hookData fuel,
      params.amountSpecified ≠ 0 ∧
      (params.amountSpecified < 0 -> run.amountToSwap.val ≤ 0) ∧
      (0 ≤ params.amountSpecified -> 0 ≤ run.amountToSwap.val) ∧
      run.result.swapDelta.checkedSub run.hookDelta = .ok callerDelta := by
  unfold swap at h
  split at h
  · cases h
  · rename_i hzero
    rw [hhooks] at h
    dsimp only at h
    rcases hbefore : HooksImpl.beforeSwap impl hook sender poolKey params m.env hookData with
      ⟨e | ⟨amountToSwap, before, lpFeeOverride⟩, hookBefore⟩
    · rw [hbefore] at h
      cases h
    · rw [hbefore] at h
      dsimp only at h
      rcases Option.map_eq_some_iff.mp h with ⟨⟨e | result, pool⟩, hswap, h⟩
      · cases h
      · dsimp only at h
        rcases hafter : HooksImpl.afterSwap impl hookBefore sender poolKey params
            result.swapDelta hookData before with ⟨e | ⟨caller, delta⟩, hookAfter⟩
        · rw [hafter] at h
          cases h
        · rw [hafter] at h
          cases h
          rcases HooksImpl.beforeSwap_eq_ok hbefore with ⟨fee, hran, rfl, hadjust⟩
          rcases HooksImpl.afterSwap_eq_ok hafter with ⟨after, hranAfter, rfl, hcaller⟩
          have hadjusted := HooksImpl.adjust_eq_ok hadjust
          exact
            ⟨{ poolKey
               hook
               hookBefore
               hookAfter
               before
               fee
               amountToSwap
               result
               pool
               after
               installed := hhooks
               ranBefore := hran
               adjusted := hadjusted.1
               swapped := hswap
               ranAfter := hranAfter },
              hzero, hadjusted.2.1, hadjusted.2.2, hcaller⟩

/-- The pool picks its specified token by the adjusted amount; unless that is
zero it is the token of the caller. -/
theorem specified_executed (run : HookedSwap impl m sender params hookData fuel)
    (hin : params.amountSpecified < 0 -> run.amountToSwap.val ≤ 0)
    (hout : 0 ≤ params.amountSpecified -> 0 ≤ run.amountToSwap.val)
    (hne : run.amountToSwap.val ≠ 0) (delta : BalanceDelta) :
    delta.specified run.executed = params.specified delta := by
  have hside : decide (run.executed.amountSpecified < 0) = decide (params.amountSpecified < 0) := by
    show decide (run.amountToSwap.val < 0) = _
    rw [decide_eq_decide]
    omega
  unfold BalanceDelta.specified SwapParams.specified
  rw [hside]
  rfl

theorem swapDelta_of_zero {p p' : Pool Positions A} {inner : SwapParamsInner} {result : SwapResult}
    (hzero : inner.amountSpecified = 0) (h : p.swap inner fuel = some (.ok result, p')) :
    result.swapDelta = BalanceDelta.default := by
  unfold Pool.swap Pool.runSwap at h
  split at h
  · cases h
  · unfold Pool.swapInner at h
    dsimp only at h
    rw [if_pos hzero] at h
    cases h
    rfl

theorem specified_of_filled (run : HookedSwap impl m sender params hookData fuel)
    (hin : params.amountSpecified < 0 -> run.amountToSwap.val ≤ 0)
    (hout : 0 ≤ params.amountSpecified -> 0 ≤ run.amountToSwap.val) (hfilled : run.Filled) :
    params.specified run.result.swapDelta = run.amountToSwap.val := by
  by_cases hne : run.amountToSwap.val = 0
  · rw [swapDelta_of_zero hne run.swapped, hne]
    unfold SwapParams.specified
    split <;> rfl
  · rcases Pool.specified_add_leftover run.swapped with ⟨rest, hrest, hsum⟩
    have hzero : rest = 0 := Option.some_inj.mp (hrest.symm.trans hfilled)
    rw [hzero, add_zero] at hsum
    rw [← specified_executed run hin hout hne]
    exact hsum

/-- The caller and the hook together settle the delta of the pool. The caller
pays or gets in the other token what the hook leaves of the pool's amount, and,
when the pool fills the adjusted amount, exactly its own amount in its token. -/
theorem hooked_swap_settles {poolKey : PoolKey} {hook : H}
    (hhooks : m.hooks = some (poolKey, hook))
    (h : m.swap impl sender params hookData fuel = some (.ok callerDelta, m')) :
    exists run : HookedSwap impl m sender params hookData fuel,
      callerDelta.amount0 + run.hookDelta.amount0 = run.result.swapDelta.amount0 ∧
      callerDelta.amount1 + run.hookDelta.amount1 = run.result.swapDelta.amount1 ∧
      params.unspecified callerDelta = params.unspecified run.result.swapDelta -
        (run.before.unspecifiedDelta + run.after) ∧
      (run.Filled -> params.specified callerDelta = params.amountSpecified) := by
  rcases swap_eq_ok hhooks h with ⟨run, hzero, hin, hout, hcaller⟩
  have hsum := BalanceDelta.checkedSub_eq_ok hcaller
  have hsides : params.specified callerDelta + params.specified run.hookDelta =
        params.specified run.result.swapDelta ∧
      params.unspecified callerDelta + params.unspecified run.hookDelta =
        params.unspecified run.result.swapDelta := by
    unfold SwapParams.specified SwapParams.unspecified
    split
    · exact hsum
    · exact hsum.symm
  have hhookSpecified : params.specified run.hookDelta = run.before.specifiedDelta :=
    HooksImpl.specified_hookDelta _ _ _
  have hhookUnspecified : params.unspecified run.hookDelta =
    run.before.unspecifiedDelta + run.after := HooksImpl.unspecified_hookDelta _ _ _
  refine ⟨run, hsum.1, hsum.2, by omega, fun hfilled => ?_⟩
  have hpool := specified_of_filled run hin hout hfilled
  have hadjusted := run.adjusted
  omega

end SinglePoolManager

namespace Sample

/-- A hook that takes twelve of the input and ten of the output. -/
def takingHook : Hooks Unit :=
  { beforeSwap := fun hook _ _ _ _ _ =>
      (.ok ({ specifiedDelta := 12, unspecifiedDelta := 7 }, Fee.zero), hook)
    afterSwap := fun hook _ _ _ _ _ => (.ok 3, hook) }

def poolKey : PoolKey :=
  { currency0 := 1, currency1 := 2, fee := some 3000, tickSpacing := 60, hooks := 3 }

def manager : SinglePoolManager Unit :=
  { pool := funded, hooks := some (poolKey, ()), blockNumber := 0 }

def hookedSell : SwapParams :=
  { zeroForOne := true
    amountSpecified := -10 ^ 15 - 12
    sqrtPriceLimit := minSqrtPrice + 1
    amountFits := by decide
    limitValid := sell.limitValid }

def settled : BalanceDelta := { amount0 := -10 ^ 15 - 12, amount1 := 996006981039893 }

theorem hookedSell_executed
    (run : SinglePoolManager.HookedSwap takingHook manager 1 hookedSell [] 3) :
    run.executed = sell := by
  rcases run with
    ⟨_, _, _, _, before, fee, ⟨amount, _⟩, _, _, _, hinstalled, hbefore, hadjusted, _, _⟩
  cases hinstalled
  cases hbefore
  cases hadjusted
  rfl

theorem hooked_swap_settles_sample :
    exists run : SinglePoolManager.HookedSwap takingHook manager 1 hookedSell [] 3,
      run.Filled ∧ hookedSell.specified settled = -10 ^ 15 - 12 ∧
        settled.amount1 + run.hookDelta.amount1 = run.result.swapDelta.amount1 := by
  have hrun : (manager.swap takingHook 1 hookedSell [] 3).map Prod.fst = some (.ok settled) := by
    decide +kernel
  rcases Option.map_eq_some_iff.mp hrun with ⟨⟨r, m'⟩, hswap, hr⟩
  dsimp only at hr
  rw [hr] at hswap
  have hhooks : manager.hooks = some (poolKey, ()) := rfl
  rcases SinglePoolManager.hooked_swap_settles hhooks hswap with
    ⟨run, _, hsum, _, hfill⟩
  have hfilled : run.Filled := by
    unfold SinglePoolManager.HookedSwap.Filled
    rw [hookedSell_executed run]
    decide +kernel
  exact ⟨run, hfilled, hfill hfilled, hsum⟩

end Sample

end RmUniswap
