import RmUniswap.Types.Params

/-!
# Hooks around a swap

A hook is whatever its callbacks return. The adapter turns what it returns into
the amount the pool executes, and splits the delta of the pool into what the
caller and what the hook settles.
-/

namespace RmUniswap

open Foundation

structure SwapParams where
  zeroForOne : Bool
  amountSpecified : Int
  sqrtPriceLimit : Nat
  amountFits : FitsSigned 256 amountSpecified
  limitValid : IsValidSqrtPrice sqrtPriceLimit

structure PoolKey where
  currency0 : Nat
  currency1 : Nat
  fee : Option Nat
  tickSpacing : Nat
  hooks : Nat
deriving DecidableEq, Repr

def PoolKey.isDynamicFee (key : PoolKey) : Bool :=
  match key.fee with
  | none => true
  | some fee => fee == dynamicFeeFlag

/-- What a hook reads of the chain and of the pool before the swap. -/
structure HookEnv where
  blockNumber : Nat
  poolState : PoolState
deriving DecidableEq

structure BeforeSwapDelta where
  specifiedDelta : Int
  unspecifiedDelta : Int
deriving DecidableEq, Repr

def BalanceDelta.checkedSub (delta other : BalanceDelta) : Except Error BalanceDelta := do
  let amount0 <- okOr .i128Overflow (checkedSigned 128 (delta.amount0 - other.amount0))
  let amount1 <- okOr .i128Overflow (checkedSigned 128 (delta.amount1 - other.amount1))
  .ok { amount0, amount1 }

/-- The swap callbacks of a hook with a state of its own. -/
structure Hooks (H : Type) where
  beforeSwap : H -> Nat -> PoolKey -> SwapParams -> HookEnv -> List UInt8 ->
    Except Error (BeforeSwapDelta × Fee) × H
  afterSwap : H -> Nat -> PoolKey -> SwapParams -> BalanceDelta -> List UInt8 ->
    Except Error Int × H

structure I256 where
  val : Int
  fits : FitsSigned 256 val

def I256.checkedAdd (a : I256) (b : Int) : Option I256 :=
  if h : FitsSigned 256 (a.val + b) then some ⟨a.val + b, h⟩ else none

theorem I256.val_checkedAdd {a c : I256} {b : Int} (h : a.checkedAdd b = some c) :
    c.val = a.val + b := by
  unfold checkedAdd at h
  split at h
  · cases h
    rfl
  · cases h

namespace HooksImpl

/-- Apply the specified delta; it must not turn an exact input into an exact
output or back. -/
def adjust (params : SwapParams) (specifiedDelta : Int) : Except Error I256 :=
  let amountSpecified : I256 := ⟨params.amountSpecified, params.amountFits⟩
  if specifiedDelta ≠ 0 then do
    let exactInput := decide (params.amountSpecified < 0)
    let amountToSwap <- okOr .amountOverflow (amountSpecified.checkedAdd specifiedDelta)
    if exactInput then
      if amountToSwap.val > 0 then .error .amountOverflow else .ok amountToSwap
    else
      if amountToSwap.val < 0 then .error .amountOverflow else .ok amountToSwap
  else
    .ok amountSpecified

variable {H : Type}

/-- The amount to execute, the delta of the hook and the fee override. -/
def beforeSwap (impl : Hooks H) (hook : H) (sender : Nat) (poolKey : PoolKey)
    (params : SwapParams) (env : HookEnv) (hookData : List UInt8) :
    Except Error (I256 × BeforeSwapDelta × Option Fee) × H :=
  match impl.beforeSwap hook sender poolKey params env hookData with
  | (.error e, hook) => (.error e, hook)
  | (.ok (beforeSwapDelta, fee), hook) =>
      let lpFeeOverride := if poolKey.isDynamicFee then some fee else none
      match adjust params beforeSwapDelta.specifiedDelta with
      | .error e => (.error e, hook)
      | .ok amountToSwap => (.ok (amountToSwap, beforeSwapDelta, lpFeeOverride), hook)

/-- The two sides of a hook as amounts of the two tokens. -/
def hookDelta (params : SwapParams) (specified unspecified : Int) : BalanceDelta :=
  if decide (params.amountSpecified < 0) = params.zeroForOne then
    { amount0 := specified, amount1 := unspecified }
  else
    { amount0 := unspecified, amount1 := specified }

/-- The caller delta and the hook delta of a swap. -/
def afterSwap (impl : Hooks H) (hook : H) (sender : Nat) (poolKey : PoolKey)
    (params : SwapParams) (swapDelta : BalanceDelta) (hookData : List UInt8)
    (before : BeforeSwapDelta) : Except Error (BalanceDelta × BalanceDelta) × H :=
  match impl.afterSwap hook sender poolKey params swapDelta hookData with
  | (.error e, hook) => (.error e, hook)
  | (.ok unspecified, hook) =>
      let deltas : Except Error (BalanceDelta × BalanceDelta) := do
        let unspecified <-
          okOr .i128Overflow (checkedSigned 128 (before.unspecifiedDelta + unspecified))
        let hookDelta := hookDelta params before.specifiedDelta unspecified
        let callerDelta <- swapDelta.checkedSub hookDelta
        .ok (callerDelta, hookDelta)
      (deltas, hook)

end HooksImpl

/-!
# Deltas by side

The amount of a swap is given in one token; the other side follows from it.
-/

/-- The amount of the token in which the caller gave its amount. -/
def SwapParams.specified (params : SwapParams) (delta : BalanceDelta) : Int :=
  if params.zeroForOne = decide (params.amountSpecified < 0) then delta.amount0
  else delta.amount1

def SwapParams.unspecified (params : SwapParams) (delta : BalanceDelta) : Int :=
  if params.zeroForOne = decide (params.amountSpecified < 0) then delta.amount1
  else delta.amount0

theorem BalanceDelta.checkedSub_eq_ok {delta other rest : BalanceDelta}
    (h : delta.checkedSub other = .ok rest) :
    rest.amount0 + other.amount0 = delta.amount0 ∧
      rest.amount1 + other.amount1 = delta.amount1 := by
  unfold checkedSub at h
  rcases bind_eq_ok.mp h with ⟨amount0, h0, h⟩
  rcases bind_eq_ok.mp h with ⟨amount1, h1, h⟩
  have heq0 := (checkedSigned_eq_some.mp (okOr_eq_ok.mp h0)).1
  have heq1 := (checkedSigned_eq_some.mp (okOr_eq_ok.mp h1)).1
  cases h
  dsimp only
  omega

namespace HooksImpl

variable {params : SwapParams} {specified unspecified : Int}

theorem specified_hookDelta (params : SwapParams) (specified unspecified : Int) :
    params.specified (hookDelta params specified unspecified) = specified := by
  unfold SwapParams.specified hookDelta
  by_cases hside : params.zeroForOne = decide (params.amountSpecified < 0)
  · rw [if_pos hside, if_pos hside.symm]
  · rw [if_neg hside, if_neg fun h => hside h.symm]

theorem unspecified_hookDelta (params : SwapParams) (specified unspecified : Int) :
    params.unspecified (hookDelta params specified unspecified) = unspecified := by
  unfold SwapParams.unspecified hookDelta
  by_cases hside : params.zeroForOne = decide (params.amountSpecified < 0)
  · rw [if_pos hside, if_pos hside.symm]
  · rw [if_neg hside, if_neg fun h => hside h.symm]

theorem adjust_eq_ok {amountToSwap : I256} (h : adjust params specified = .ok amountToSwap) :
    amountToSwap.val = params.amountSpecified + specified ∧
      (params.amountSpecified < 0 -> amountToSwap.val ≤ 0) ∧
      (0 ≤ params.amountSpecified -> 0 ≤ amountToSwap.val) := by
  unfold adjust at h
  dsimp only at h
  split at h
  · rcases bind_eq_ok.mp h with ⟨amount, hamount, h⟩
    have heq := I256.val_checkedAdd (okOr_eq_ok.mp hamount)
    by_cases hin : params.amountSpecified < 0
    · rw [decide_eq_true hin, if_pos rfl] at h
      split at h
      · cases h
      · rename_i hle
        cases h
        exact ⟨heq, fun _ => not_lt.mp hle, fun hout => absurd hin (not_lt.mpr hout)⟩
    · rw [decide_eq_false hin, if_neg (by decide)] at h
      split at h
      · cases h
      · rename_i hge
        cases h
        exact ⟨heq, fun hin' => absurd hin' hin, fun _ => not_lt.mp hge⟩
  · rename_i hzero
    rw [ne_eq, not_not] at hzero
    cases h
    rw [hzero, add_zero]
    exact ⟨rfl, le_of_lt, id⟩

section Callbacks

variable {H : Type} {impl : Hooks H} {hook hook' : H} {sender : Nat} {poolKey : PoolKey}
  {hookData : List UInt8} {before : BeforeSwapDelta}

theorem beforeSwap_eq_ok {env : HookEnv} {amountToSwap : I256} {lpFeeOverride : Option Fee}
    (h : beforeSwap impl hook sender poolKey params env hookData =
      (.ok (amountToSwap, before, lpFeeOverride), hook')) :
    exists fee, impl.beforeSwap hook sender poolKey params env hookData =
        (.ok (before, fee), hook') ∧
      lpFeeOverride = (if poolKey.isDynamicFee then some fee else none) ∧
      adjust params before.specifiedDelta = .ok amountToSwap := by
  unfold beforeSwap at h
  rcases hran : impl.beforeSwap hook sender poolKey params env hookData with
    ⟨e | ⟨before, fee⟩, hook1⟩
  · rw [hran] at h
    cases h
  · rw [hran] at h
    dsimp only at h
    cases hadjust : adjust params before.specifiedDelta with
    | error e =>
        rw [hadjust] at h
        cases h
    | ok amount =>
        rw [hadjust] at h
        cases h
        exact ⟨fee, rfl, rfl, hadjust⟩

theorem afterSwap_eq_ok {swapDelta callerDelta delta : BalanceDelta}
    (h : afterSwap impl hook sender poolKey params swapDelta hookData before =
      (.ok (callerDelta, delta), hook')) :
    exists after, impl.afterSwap hook sender poolKey params swapDelta hookData =
        (.ok after, hook') ∧
      delta = hookDelta params before.specifiedDelta (before.unspecifiedDelta + after) ∧
      swapDelta.checkedSub delta = .ok callerDelta := by
  unfold afterSwap at h
  rcases hran : impl.afterSwap hook sender poolKey params swapDelta hookData with ⟨e | after, hook1⟩
  · rw [hran] at h
    cases h
  · rw [hran] at h
    dsimp only at h
    rcases Prod.mk.inj h with ⟨hdeltas, rfl⟩
    rcases bind_eq_ok.mp hdeltas with ⟨unspecified, hunspecified, hdeltas⟩
    rcases bind_eq_ok.mp hdeltas with ⟨caller, hcaller, hdeltas⟩
    have hsum := (checkedSigned_eq_some.mp (okOr_eq_ok.mp hunspecified)).1
    cases hdeltas
    rw [hsum] at hcaller ⊢
    exact ⟨after, rfl, rfl, hcaller⟩

end Callbacks

end HooksImpl

end RmUniswap
