import RmUniswap.Pool.Erasure
import RmUniswap.Pool.Extraction
import RmUniswap.Pool.PoolManager
import RmUniswap.Types.Lifecycle

/-!
# The lifecycle of the pool manager

The manager runs the matching callback of its hook before an operation of the pool
and another one after it. What a hook returns decides whether and with which amount
the pool is called, and what is left to the caller; the pool itself only ever sees
requests that anyone could have made.
-/

namespace RmUniswap

open Foundation

variable {A : Type} [LawfulAllocator TickSlabValue A]

namespace SinglePoolManager

variable {H : Type}

/-- A manager of an existing pool; it keeps positions of its own. -/
def new (pool : Pool Unit A) (hooks : Option (PoolKey × H)) : SinglePoolManager H A :=
  { pool :=
      { state := pool.state
        swapFee := pool.swapFee
        tickSpacing := pool.tickSpacing
        ticks := pool.ticks
        positions := PositionsAccess.default }
    hooks
    blockNumber := 0 }

def setBlockNumber (m : SinglePoolManager H A) (blockNumber : Nat) : SinglePoolManager H A :=
  { m with blockNumber }

def beforeModify (impl : LifecycleHooks H) (m : SinglePoolManager H A)
    (params : ModifyLiquidityParams) (hookData : List UInt8) :
    Except Error Unit × Option (PoolKey × H) :=
  match m.hooks with
  | none => (.ok (), none)
  | some (poolKey, hook) =>
      let (ran, hook) :=
        HooksImpl.beforeModifyLiquidity impl hook params.owner poolKey params hookData
      (ran, some (poolKey, hook))

def afterModify (impl : LifecycleHooks H) (hooks : Option (PoolKey × H))
    (params : ModifyLiquidityParams) (callerDelta feeDelta : BalanceDelta)
    (hookData : List UInt8) : Except Error BalanceDelta × Option (PoolKey × H) :=
  match hooks with
  | none => (.ok callerDelta, none)
  | some (poolKey, hook) =>
      let (ran, hook) := HooksImpl.afterModifyLiquidity impl hook params.owner poolKey params
        callerDelta feeDelta hookData
      (ran.map Prod.fst, some (poolKey, hook))

def modifyLiquidity (impl : LifecycleHooks H) (m : SinglePoolManager H A)
    (params : ModifyLiquidityParams) (hookData : List UInt8) :
    Except Error ModifyLiquidityResult × SinglePoolManager H A :=
  match m.beforeModify impl params hookData with
  | (.error e, hooks) => (.error e, { m with hooks })
  | (.ok _, hooks) =>
      match m.pool.modifyLiquidity params with
      | (.error e, pool) => (.error e, { m with pool, hooks })
      | (.ok poolResult, pool) =>
          match poolResult.delta.checkedAdd poolResult.feeDelta with
          | .error e => (.error e, { m with pool, hooks })
          | .ok callerDelta =>
              match afterModify impl hooks params callerDelta poolResult.feeDelta hookData with
              | (.error e, hooks) => (.error e, { m with pool, hooks })
              | (.ok callerDelta, hooks) =>
                  (.ok { delta := callerDelta, feeDelta := poolResult.feeDelta },
                    { m with pool, hooks })

/-- A donation runs its callbacks and leaves the pool alone. -/
def donate (impl : LifecycleHooks H) (m : SinglePoolManager H A) (sender amount0 amount1 : Nat)
    (hookData : List UInt8) : Except Error BalanceDelta × SinglePoolManager H A :=
  match m.hooks with
  | none => (.ok BalanceDelta.default, m)
  | some (poolKey, hook) =>
      match impl.beforeDonate hook sender poolKey amount0 amount1 hookData with
      | (.error e, hook) => (.error e, { m with hooks := some (poolKey, hook) })
      | (.ok _, hook) =>
          match impl.afterDonate hook sender poolKey amount0 amount1 hookData with
          | (.error e, hook) => (.error e, { m with hooks := some (poolKey, hook) })
          | (.ok _, hook) => (.ok BalanceDelta.default, { m with hooks := some (poolKey, hook) })

end SinglePoolManager

/-!
# Calls and their events
-/

/-- Calls of the manager. {lit}`poolMut` is one request to the pool behind its mutable
reference: one of the four methods that check what they are given. Whoever holds the
reference may also write the fields of the pool, which no call stands for. -/
inductive ManagerCall
  | modifyLiquidity (params : ModifyLiquidityParams) (hookData : List UInt8)
  | swap (sender : Nat) (params : SwapParams) (hookData : List UInt8)
  | donate (sender amount0 amount1 : Nat) (hookData : List UInt8)
  | setBlockNumber (blockNumber : Nat)
  | poolMut (request : Request)

namespace ManagerCall

def kind? : ManagerCall -> Option HookKind
  | .modifyLiquidity params _ => some params.hookKind
  | .swap _ _ _ => some .swap
  | .donate _ _ _ _ => some .donate
  | .setBlockNumber _ => none
  | .poolMut _ => none

end ManagerCall

namespace SinglePoolManager

variable {H : Type}

/-- A call, with what it returned for the caller to settle. -/
inductive Calls (impl : LifecycleHooks H) (m : SinglePoolManager H A) :
    ManagerCall × Except Error BalanceDelta -> SinglePoolManager H A -> Prop
  | modifyLiquidity (params : ModifyLiquidityParams) (hookData : List UInt8) :
      Calls impl m (.modifyLiquidity params hookData,
        (m.modifyLiquidity impl params hookData).1.map ModifyLiquidityResult.delta)
        (m.modifyLiquidity impl params hookData).2
  | swap {sender : Nat} {params : SwapParams} {hookData : List UInt8} {fuel : Nat}
      {result : Except Error BalanceDelta} {m' : SinglePoolManager H A} :
      m.swap impl.toHooks sender params hookData fuel = some (result, m') ->
      Calls impl m (.swap sender params hookData, result) m'
  | donate (sender amount0 amount1 : Nat) (hookData : List UInt8) :
      Calls impl m (.donate sender amount0 amount1 hookData,
        (m.donate impl sender amount0 amount1 hookData).1)
        (m.donate impl sender amount0 amount1 hookData).2
  | setBlockNumber (blockNumber : Nat) :
      Calls impl m (.setBlockNumber blockNumber, .ok BalanceDelta.default)
        (m.setBlockNumber blockNumber)
  | poolMut {request : Request} {pool : Pool Positions A} : m.pool.Attempts request pool ->
      Calls impl m (.poolMut request, .ok BalanceDelta.default) { m with pool }

end SinglePoolManager

/-- What callbacks claimed of a token. -/
def HookEvent.claims (events : List HookEvent) (token0 : Bool) : Int :=
  (events.map fun e => e.claim.amount token0).sum

def Announced (installed : Bool) (phase : HookPhase) (kind : HookKind)
    (events : List HookEvent) : Prop :=
  if installed then exists claim, events = [{ phase, kind, claim }] else events = []

/-- What a call can do: to the pool, to its caller and to the hook. -/
inductive Session (installed : Bool) (p : Pool Positions A) (call : ManagerCall) :
    Except Error BalanceDelta -> List HookEvent -> Pool Positions A -> Prop
  | idle : call.kind? = none -> Session installed p call (.ok BalanceDelta.default) [] p
  | direct {request : Request} {p' : Pool Positions A} : call = .poolMut request ->
      p.Attempts request p' -> Session installed p call (.ok BalanceDelta.default) [] p'
  | rejected {e : Error} : Session installed p call (.error e) [] p
  | refused {kind : HookKind} {before : List HookEvent} {e : Error} :
      call.kind? = some kind -> Announced installed .before kind before ->
      Session installed p call (.error e) before p
  | failed {kind : HookKind} {before : List HookEvent} {e : Error} {request : Request}
      {p' : Pool Positions A} : call.kind? = some kind -> Announced installed .before kind before ->
      p.Attempts request p' -> Session installed p call (.error e) before p'
  | unsettled {kind : HookKind} {before after : List HookEvent} {e : Error}
      {ops : List Operation} {p' : Pool Positions A} : call.kind? = some kind ->
      Announced installed .before kind before -> Announced installed .after kind after ->
      Run Pool.Performs p ops p' -> ops.length ≤ 1 ->
      Session installed p call (.error e) (before ++ after) p'
  | settled {kind : HookKind} {before after : List HookEvent} {callerDelta : BalanceDelta}
      {ops : List Operation} {p' : Pool Positions A} : call.kind? = some kind ->
      Announced installed .before kind before -> Announced installed .after kind after ->
      Run Pool.Performs p ops p' -> ops.length ≤ 1 ->
      (forall token0, callerDelta.amount token0 + HookEvent.claims (before ++ after) token0 =
        Operation.gains ops token0) ->
      Session installed p call (.ok callerDelta) (before ++ after) p'

/-!
# Every call is a session
-/

section Events

variable {installed : Bool} {phase : HookPhase} {kind : HookKind} {token0 : Bool}

theorem HookEvent.claims_append (events events' : List HookEvent) (token0 : Bool) :
    claims (events ++ events') token0 = claims events token0 + claims events' token0 := by
  unfold claims
  rw [List.map_append, List.sum_append]

theorem HookEvent.claims_one (e : HookEvent) (token0 : Bool) :
    claims [e] token0 = e.claim.amount token0 := by
  unfold claims
  rw [List.map_singleton, List.sum_singleton]

theorem BalanceDelta.amount_default (token0 : Bool) : BalanceDelta.default.amount token0 = 0 := by
  cases token0 <;> rfl

theorem BalanceDelta.amount_checkedAdd {delta other sum : BalanceDelta}
    (h : delta.checkedAdd other = .ok sum) (token0 : Bool) :
    sum.amount token0 = delta.amount token0 + other.amount token0 := by
  unfold checkedAdd at h
  rcases bind_eq_ok.mp h with ⟨amount0, h0, hrest⟩
  rcases bind_eq_ok.mp hrest with ⟨amount1, h1, hok⟩
  have heq0 := (checkedSigned_eq_some.mp (okOr_eq_ok.mp h0)).1
  have heq1 := (checkedSigned_eq_some.mp (okOr_eq_ok.mp h1)).1
  cases hok
  cases token0
  · exact heq1
  · exact heq0

theorem BalanceDelta.amount_checkedSub {delta other rest : BalanceDelta}
    (h : delta.checkedSub other = .ok rest) (token0 : Bool) :
    rest.amount token0 + other.amount token0 = delta.amount token0 := by
  have hsum := checkedSub_eq_ok h
  cases token0
  · exact hsum.2
  · exact hsum.1

theorem HooksImpl.amount_hookDelta (params : SwapParams) (specified before after : Int)
    (token0 : Bool) :
    (hookDelta params specified before).amount token0 +
        (hookDelta params 0 after).amount token0 =
      (hookDelta params specified (before + after)).amount token0 := by
  unfold hookDelta
  by_cases hside : decide (params.amountSpecified < 0) = params.zeroForOne
  · rw [if_pos hside, if_pos hside, if_pos hside]
    cases token0
    · rfl
    · exact add_zero _
  · rw [if_neg hside, if_neg hside, if_neg hside]
    cases token0
    · exact add_zero _
    · rfl

end Events

namespace SinglePoolManager

variable {H : Type} {impl : LifecycleHooks H} {m m' : SinglePoolManager H A}

def watchHooks (hooks : Option (PoolKey × H)) (log : List HookEvent) :
    Option (PoolKey × (H × List HookEvent)) :=
  hooks.map fun installed => (installed.1, (installed.2, log))

/-- The manager of a watched hook that has noted some events. -/
def watch (m : SinglePoolManager H A) (log : List HookEvent) :
    SinglePoolManager (H × List HookEvent) A :=
  { pool := m.pool, hooks := watchHooks m.hooks log, blockNumber := m.blockNumber }

theorem beforeModify_watch (impl : LifecycleHooks H) (m : SinglePoolManager H A)
    (params : ModifyLiquidityParams) (hookData : List UInt8) (log : List HookEvent) :
    exists events,
      (m.watch log).beforeModify impl.watched params hookData =
        ((m.beforeModify impl params hookData).1,
          watchHooks (m.beforeModify impl params hookData).2 (log ++ events)) ∧
      (m.beforeModify impl params hookData).2.isSome = m.hooks.isSome ∧
      Announced m.hooks.isSome .before params.hookKind events ∧
      forall token0, HookEvent.claims events token0 = 0 := by
  rcases m with ⟨pool, _ | ⟨poolKey, hook⟩, blockNumber⟩
  · refine ⟨[], ?_, rfl, rfl, fun _ => rfl⟩
    rfl
  · have hwatched := HooksImpl.beforeModifyLiquidity_watched impl hook log params.owner poolKey
      hookData params
    refine ⟨_, ?_, rfl, ⟨BalanceDelta.default, rfl⟩, fun token0 => ?_⟩
    · unfold beforeModify watch watchHooks
      dsimp only [Option.map_some]
      rw [hwatched]
    · rw [HookEvent.claims_one]
      exact BalanceDelta.amount_default token0

theorem afterModify_watch (impl : LifecycleHooks H) (hooks : Option (PoolKey × H))
    (params : ModifyLiquidityParams) (callerDelta feeDelta : BalanceDelta)
    (hookData : List UInt8) (log : List HookEvent) :
    exists events,
      afterModify impl.watched (watchHooks hooks log) params callerDelta feeDelta hookData =
        ((afterModify impl hooks params callerDelta feeDelta hookData).1,
          watchHooks (afterModify impl hooks params callerDelta feeDelta hookData).2
            (log ++ events)) ∧
      (afterModify impl hooks params callerDelta feeDelta hookData).2.isSome = hooks.isSome ∧
      Announced hooks.isSome .after params.hookKind events ∧
      forall rest, (afterModify impl hooks params callerDelta feeDelta hookData).1 = .ok rest ->
        forall token0, rest.amount token0 + HookEvent.claims events token0 =
          callerDelta.amount token0 := by
  rcases hooks with _ | ⟨poolKey, hook⟩
  · refine ⟨[], rfl, rfl, rfl, fun rest hrest token0 => ?_⟩
    cases hrest
    exact add_zero _
  · rcases HooksImpl.afterModifyLiquidity_watched impl hook log params.owner poolKey hookData
      params callerDelta feeDelta with ⟨claim, hwatched, hclaim⟩
    refine ⟨_, ?_, rfl, ⟨claim, rfl⟩, fun rest hrest token0 => ?_⟩
    · unfold afterModify watchHooks
      dsimp only [Option.map_some]
      rw [hwatched]
    · unfold afterModify at hrest
      dsimp only at hrest
      cases hran : (HooksImpl.afterModifyLiquidity impl hook params.owner poolKey params
          callerDelta feeDelta hookData).1 with
      | error e =>
          rw [hran] at hrest
          cases hrest
      | ok deltas =>
          rw [hran] at hrest
          cases hrest
          rw [HookEvent.claims_one]
          exact BalanceDelta.amount_checkedSub (hclaim deltas hran) token0

theorem modifyLiquidity_watch (impl : LifecycleHooks H) (m : SinglePoolManager H A)
    (params : ModifyLiquidityParams) (hookData : List UInt8) (log : List HookEvent) :
    exists events,
      (m.watch log).modifyLiquidity impl.watched params hookData =
        ((m.modifyLiquidity impl params hookData).1,
          (m.modifyLiquidity impl params hookData).2.watch (log ++ events)) ∧
      (m.modifyLiquidity impl params hookData).2.hooks.isSome = m.hooks.isSome ∧
      Session m.hooks.isSome m.pool (.modifyLiquidity params hookData)
        ((m.modifyLiquidity impl params hookData).1.map ModifyLiquidityResult.delta) events
        (m.modifyLiquidity impl params hookData).2.pool := by
  rcases beforeModify_watch impl m params hookData log with
    ⟨before, hbefore, hinstalled, hannounced, hnothing⟩
  unfold modifyLiquidity
  rw [hbefore]
  generalize m.beforeModify impl params hookData = ran at hinstalled
  rcases ran with ⟨e | u, hooks⟩
  · exact ⟨before, rfl, hinstalled, Session.refused rfl hannounced⟩
  · dsimp only [watch] at hinstalled ⊢
    rcases hpool : m.pool.modifyLiquidity params with ⟨e | poolResult, pool⟩
    · have hattempts := Pool.Attempts.modifyLiquidity (p := m.pool) params
      rw [hpool] at hattempts
      exact ⟨before, rfl, hinstalled, Session.failed rfl hannounced hattempts⟩
    · dsimp only
      cases hsum : poolResult.delta.checkedAdd poolResult.feeDelta with
      | error e =>
          have hattempts := Pool.Attempts.modifyLiquidity (p := m.pool) params
          rw [hpool] at hattempts
          exact ⟨before, rfl, hinstalled, Session.failed rfl hannounced hattempts⟩
      | ok callerDelta =>
          dsimp only
          rcases afterModify_watch impl hooks params callerDelta poolResult.feeDelta hookData
            (log ++ before) with ⟨after, hafter, hinstalled', hannounced', hrest⟩
          rw [hafter]
          have hperforms := Run.cons (Pool.Performs.modifyLiquidity hpool) (Run.nil pool)
          generalize afterModify impl hooks params callerDelta poolResult.feeDelta hookData = ran
            at hinstalled' hrest
          rw [hinstalled] at hinstalled' hannounced'
          rcases ran with ⟨e | rest, hooks'⟩
          · refine ⟨before ++ after, ?_, hinstalled',
              Session.unsettled rfl hannounced hannounced' hperforms (le_refl 1)⟩
            rw [List.append_assoc]
          · refine ⟨before ++ after, ?_, hinstalled',
              Session.settled rfl hannounced hannounced' hperforms (le_refl 1) fun token0 => ?_⟩
            · rw [List.append_assoc]
            · have hgain := hrest rest rfl token0
              have hpaid := BalanceDelta.amount_checkedAdd hsum token0
              have hclaims := hnothing token0
              rw [HookEvent.claims_append]
              show _ = (Operation.gain token0 (.modifyLiquidity params poolResult)) + 0
              unfold Operation.gain
              dsimp only
              omega

theorem donate_watch (impl : LifecycleHooks H) (m : SinglePoolManager H A)
    (sender amount0 amount1 : Nat) (hookData : List UInt8) (log : List HookEvent) :
    exists events,
      (m.watch log).donate impl.watched sender amount0 amount1 hookData =
        ((m.donate impl sender amount0 amount1 hookData).1,
          (m.donate impl sender amount0 amount1 hookData).2.watch (log ++ events)) ∧
      (m.donate impl sender amount0 amount1 hookData).2.hooks.isSome = m.hooks.isSome ∧
      Session m.hooks.isSome m.pool (.donate sender amount0 amount1 hookData)
        (m.donate impl sender amount0 amount1 hookData).1 events
        (m.donate impl sender amount0 amount1 hookData).2.pool := by
  rcases m with ⟨pool, _ | ⟨poolKey, hook⟩, blockNumber⟩
  · refine ⟨[], rfl, rfl, @Session.settled A _ _ _ _ _ [] [] _ _ _ rfl rfl rfl (Run.nil pool)
      (Nat.zero_le 1) fun token0 => ?_⟩
    exact (add_zero _).trans (BalanceDelta.amount_default token0)
  · unfold donate watch watchHooks
    dsimp only [Option.map_some, LifecycleHooks.watched]
    rw [LifecycleHooks.note_nothing]
    rcases impl.beforeDonate hook sender poolKey amount0 amount1 hookData with ⟨e | u, hook'⟩
    · exact ⟨_, rfl, rfl, Session.refused rfl ⟨BalanceDelta.default, rfl⟩⟩
    · dsimp only
      rw [LifecycleHooks.note_nothing, List.append_assoc]
      rcases impl.afterDonate hook' sender poolKey amount0 amount1 hookData with ⟨e | u, hook''⟩
      · exact ⟨_, rfl, rfl, Session.unsettled rfl ⟨BalanceDelta.default, rfl⟩
          ⟨BalanceDelta.default, rfl⟩ (Run.nil pool) (Nat.zero_le 1)⟩
      · refine ⟨_, rfl, rfl, Session.settled rfl ⟨BalanceDelta.default, rfl⟩
          ⟨BalanceDelta.default, rfl⟩ (Run.nil pool) (Nat.zero_le 1) fun token0 => ?_⟩
        rw [HookEvent.claims_append, HookEvent.claims_one, HookEvent.claims_one]
        dsimp only
        rw [BalanceDelta.amount_default]
        rfl

theorem swap_watch {sender : Nat} {params : SwapParams} {hookData : List UInt8} {fuel : Nat}
    {result : Except Error BalanceDelta} (log : List HookEvent)
    (h : m.swap impl.toHooks sender params hookData fuel = some (result, m')) :
    exists events,
      (m.watch log).swap impl.watched.toHooks sender params hookData fuel =
        some (result, m'.watch (log ++ events)) ∧
      m'.hooks.isSome = m.hooks.isSome ∧
      Session m.hooks.isSome m.pool (.swap sender params hookData) result events m'.pool := by
  rcases m with ⟨pool, _ | ⟨poolKey, hook⟩, blockNumber⟩
  · unfold swap at h ⊢
    dsimp only [watch, watchHooks, Option.map_none] at h ⊢
    split at h
    · rename_i hzero
      cases h
      exact ⟨[], by rw [if_pos hzero]; rfl, rfl, Session.rejected⟩
    · rename_i hzero
      rw [if_neg hzero]
      rcases Option.map_eq_some_iff.mp h with ⟨⟨r, pool'⟩, hswap, hr⟩
      cases hr
      rw [hswap]
      refine ⟨[], rfl, rfl, ?_⟩
      cases r with
      | error e =>
          exact @Session.failed A _ _ _ _ _ [] _ _ _ rfl rfl (Pool.Attempts.swap ⟨fuel, hswap⟩)
      | ok r =>
          exact @Session.settled A _ _ _ _ _ [] [] _ _ _ rfl rfl rfl
            (Run.cons (Pool.Performs.swap ⟨fuel, hswap⟩) (Run.nil pool')) (le_refl 1)
            fun token0 => rfl
  · unfold swap at h ⊢
    dsimp only [watch, watchHooks, Option.map_some] at h ⊢
    split at h
    · rename_i hzero
      cases h
      rw [if_pos hzero]
      refine ⟨[], ?_, rfl, Session.rejected⟩
      rw [List.append_nil]
      rfl
    · rename_i hzero
      rw [if_neg hzero]
      rcases HooksImpl.beforeSwap_watched impl hook log sender poolKey hookData params
        (env { pool, hooks := some (poolKey, hook), blockNumber }) with ⟨claim, hbefore, hclaim⟩
      have henv : env { pool, hooks := some (poolKey, (hook, log)), blockNumber } =
          env { pool, hooks := some (poolKey, hook), blockNumber } := rfl
      rw [henv, hbefore]
      generalize HooksImpl.beforeSwap impl.toHooks hook sender poolKey params
        (env { pool, hooks := some (poolKey, hook), blockNumber }) hookData = ran at h hclaim
      rcases ran with ⟨e | ⟨amountToSwap, before, lpFeeOverride⟩, hook'⟩
      · cases h
        exact ⟨_, rfl, rfl, Session.refused rfl ⟨claim, rfl⟩⟩
      · dsimp only at h hclaim ⊢
        have hclaim := hclaim _ rfl
        rcases Option.map_eq_some_iff.mp h with ⟨⟨e | swapResult, pool'⟩, hswap, h⟩
        · cases h
          rw [hswap]
          exact ⟨_, rfl, rfl, Session.failed rfl ⟨claim, rfl⟩ (Pool.Attempts.swap ⟨fuel, hswap⟩)⟩
        · rw [hswap]
          dsimp only [Option.map_some] at h ⊢
          rcases HooksImpl.afterSwap_watched impl hook'
            (log ++ [{ phase := .before, kind := .swap, claim }]) sender poolKey hookData params
            swapResult.swapDelta before with ⟨claim', hafter, hclaim'⟩
          rw [hafter, List.append_assoc]
          have hperforms := Run.cons (Pool.Performs.swap ⟨fuel, hswap⟩) (Run.nil pool')
          generalize HooksImpl.afterSwap impl.toHooks hook' sender poolKey params
            swapResult.swapDelta hookData before = ran at h hclaim'
          rcases ran with ⟨e | ⟨callerDelta, hookDelta⟩, hook''⟩
          · cases h
            exact ⟨_, rfl, rfl, Session.unsettled rfl ⟨claim, rfl⟩ ⟨claim', rfl⟩ hperforms
              (le_refl 1)⟩
          · cases h
            refine ⟨_, rfl, rfl, Session.settled rfl ⟨claim, rfl⟩ ⟨claim', rfl⟩ hperforms
              (le_refl 1) fun token0 => ?_⟩
            rcases hclaim' _ rfl with ⟨after, hafterClaim, hcaller⟩
            have hdelta := HooksImpl.amount_hookDelta params before.specifiedDelta
              before.unspecifiedDelta after token0
            have hgain := BalanceDelta.amount_checkedSub hcaller token0
            rw [← hdelta] at hgain
            rw [HookEvent.claims_append, HookEvent.claims_one, HookEvent.claims_one, hclaim,
              hafterClaim]
            dsimp only at hgain ⊢
            show _ = swapResult.swapDelta.amount token0 + 0
            omega

theorem Calls.watch {call : ManagerCall} {result : Except Error BalanceDelta}
    (h : Calls impl m (call, result) m') (log : List HookEvent) :
    exists events,
      Calls impl.watched (m.watch log) (call, result) (m'.watch (log ++ events)) ∧
      m'.hooks.isSome = m.hooks.isSome ∧
      Session m.hooks.isSome m.pool call result events m'.pool := by
  cases h with
  | modifyLiquidity params hookData =>
      rcases modifyLiquidity_watch impl m params hookData log with
        ⟨events, hwatch, hinstalled, hsession⟩
      have hcall := @Calls.modifyLiquidity A _ _ impl.watched (m.watch log) params hookData
      rw [hwatch] at hcall
      exact ⟨events, hcall, hinstalled, hsession⟩
  | swap h =>
      rcases swap_watch log h with ⟨events, hwatch, hinstalled, hsession⟩
      exact ⟨events, Calls.swap hwatch, hinstalled, hsession⟩
  | donate sender amount0 amount1 hookData =>
      rcases donate_watch impl m sender amount0 amount1 hookData log with
        ⟨events, hwatch, hinstalled, hsession⟩
      have hcall := @Calls.donate A _ _ impl.watched (m.watch log) sender amount0 amount1 hookData
      rw [hwatch] at hcall
      exact ⟨events, hcall, hinstalled, hsession⟩
  | setBlockNumber blockNumber =>
      have hcall := @Calls.setBlockNumber A _ _ impl.watched (m.watch log) blockNumber
      refine ⟨[], ?_, rfl, Session.idle rfl⟩
      rw [List.append_nil]
      exact hcall
  | poolMut h =>
      have hcall := @Calls.poolMut A _ _ impl.watched (m.watch log) _ _ h
      refine ⟨[], ?_, rfl, Session.direct rfl h⟩
      rw [List.append_nil]
      exact hcall

end SinglePoolManager

/-!
# What a session says
-/

def HookEvent.steps (events : List HookEvent) : List (HookPhase × HookKind) :=
  events.map fun e => (e.phase, e.kind)

/-- The callbacks of a call in their order, and both of them if the call succeeds. -/
def ManagerCall.Orderly (label : ManagerCall × Except Error BalanceDelta)
    (events : List HookEvent) : Prop :=
  match label.1.kind? with
  | none => events = []
  | some kind =>
      HookEvent.steps events <+: [(.before, kind), (.after, kind)] ∧
        forall callerDelta, label.2 = .ok callerDelta ->
          HookEvent.steps events = [(.before, kind), (.after, kind)]

theorem Announced.steps {phase : HookPhase} {kind : HookKind} {events : List HookEvent}
    (h : Announced true phase kind events) : HookEvent.steps events = [(phase, kind)] := by
  rcases h with ⟨claim, rfl⟩
  rfl

section Session

variable {installed : Bool} {p p' : Pool Positions A} {call : ManagerCall}
  {result : Except Error BalanceDelta} {events : List HookEvent}

theorem Session.orderly (h : Session true p call result events p') :
    ManagerCall.Orderly (call, result) events := by
  unfold ManagerCall.Orderly
  have hboth {kind : HookKind} {before after : List HookEvent}
      (hbefore : Announced true .before kind before) (hafter : Announced true .after kind after) :
      HookEvent.steps (before ++ after) = [(.before, kind), (.after, kind)] := by
    have hsteps := hbefore.steps
    have hsteps' := hafter.steps
    unfold HookEvent.steps at hsteps hsteps' ⊢
    rw [List.map_append, hsteps, hsteps']
    rfl
  cases h with
  | idle hkind =>
      rw [hkind]
  | direct hcall _ =>
      rw [hcall]
      rfl
  | rejected =>
      cases call.kind? with
      | none => rfl
      | some kind => exact ⟨List.nil_prefix, fun _ h => by cases h⟩
  | refused hkind hbefore =>
      rw [hkind]
      refine ⟨?_, fun _ h => by cases h⟩
      rw [hbefore.steps]
      exact ⟨_, rfl⟩
  | failed hkind hbefore _ =>
      rw [hkind]
      refine ⟨?_, fun _ h => by cases h⟩
      rw [hbefore.steps]
      exact ⟨_, rfl⟩
  | unsettled hkind hbefore hafter _ _ =>
      rw [hkind]
      refine ⟨?_, fun _ h => by cases h⟩
      rw [hboth hbefore hafter]
  | settled hkind hbefore hafter _ _ _ =>
      rw [hkind]
      exact ⟨by rw [hboth hbefore hafter], fun _ _ => hboth hbefore hafter⟩

theorem Pool.Performs.attempts {o : Operation} (h : Pool.Performs p o p') :
    exists request, p.Attempts request p' := by
  cases h with
  | @modifyLiquidity params result p' h =>
      have hattempts := Pool.Attempts.modifyLiquidity (p := p) params
      rw [h] at hattempts
      exact ⟨_, hattempts⟩
  | swap h =>
      exact ⟨_, Pool.Attempts.swap h⟩
  | @setProtocolFee protocolFee p' h =>
      have hattempts := Pool.Attempts.setProtocolFee (p := p) protocolFee
      rw [h] at hattempts
      exact ⟨_, hattempts⟩

theorem Pool.run_attempts {ops : List Operation} (h : Run Pool.Performs p ops p') :
    exists requests, requests.length = ops.length ∧ Run Pool.Attempts p requests p' := by
  induction h with
  | nil p =>
      exact ⟨[], rfl, Run.nil p⟩
  | cons ho _ ih =>
      rcases ho.attempts with ⟨request, hrequest⟩
      rcases ih with ⟨requests, hlength, hrun⟩
      exact ⟨request :: requests, by rw [List.length_cons, hlength, List.length_cons],
        Run.cons hrequest hrun⟩

theorem Session.requests (h : Session installed p call result events p') :
    exists requests, requests.length ≤ 1 ∧ Run Pool.Attempts p requests p' := by
  have hperforms {ops : List Operation} {p' : Pool Positions A} (h : Run Pool.Performs p ops p')
      (hlength : ops.length ≤ 1) :
      exists requests, requests.length ≤ 1 ∧ Run Pool.Attempts p requests p' := by
    rcases Pool.run_attempts h with ⟨requests, heq, hrun⟩
    exact ⟨requests, heq.trans_le hlength, hrun⟩
  cases h with
  | idle _ => exact ⟨[], Nat.zero_le 1, Run.nil _⟩
  | rejected => exact ⟨[], Nat.zero_le 1, Run.nil _⟩
  | refused _ _ => exact ⟨[], Nat.zero_le 1, Run.nil _⟩
  | direct _ h => exact ⟨[_], le_refl 1, Run.cons h (Run.nil _)⟩
  | failed _ _ h => exact ⟨[_], le_refl 1, Run.cons h (Run.nil _)⟩
  | unsettled _ _ _ hrun hlength => exact hperforms hrun hlength
  | settled _ _ _ hrun hlength _ => exact hperforms hrun hlength

theorem Session.operations {callerDelta : BalanceDelta}
    (h : Session installed p call (.ok callerDelta) events p')
    (hcall : forall request, call ≠ .poolMut request) :
    exists ops, Run Pool.Performs p ops p' ∧ forall token0,
      callerDelta.amount token0 + HookEvent.claims events token0 =
        Operation.gains ops token0 := by
  cases h with
  | idle _ =>
      exact ⟨[], Run.nil p, fun token0 => (add_zero _).trans (BalanceDelta.amount_default token0)⟩
  | direct heq _ =>
      exact absurd heq (hcall _)
  | settled _ _ _ hrun _ hsum =>
      exact ⟨_, hrun, hsum⟩

end Session

/-!
# Runs of the manager
-/

namespace SinglePoolManager

variable {H : Type} {impl : LifecycleHooks H} {m m' : SinglePoolManager H A}
  {calls : List (ManagerCall × Except Error BalanceDelta)}

/-- In every run of the manager each call runs its callbacks in their order, the one
before and then the one after, and a call that succeeds has run both. -/
theorem run_lifecycle (hinstalled : m.hooks.isSome) (h : Run (Calls impl) m calls m') :
    exists sessions,
      Run (Calls impl.watched) (m.watch []) calls (m'.watch sessions.flatten) ∧
      List.Forall₂ ManagerCall.Orderly calls sessions := by
  refine h.noted (I := fun m => m.hooks.isSome) watch
    (fun m call m' log (hm : m.hooks.isSome = true) hcall => ?_) hinstalled []
  rcases hcall.watch log with ⟨events, hwatch, hkept, hsession⟩
  rw [hm] at hkept hsession
  exact ⟨hkept, events, hwatch, hsession.orderly⟩

theorem run_requests (h : Run (Calls impl) m calls m') :
    exists requests, requests.length ≤ calls.length ∧
      Run Pool.Attempts m.pool requests m'.pool := by
  induction h with
  | nil m =>
      exact ⟨[], le_refl 0, Run.nil m.pool⟩
  | cons hcall _ ih =>
      rcases hcall.watch [] with ⟨events, _, _, hsession⟩
      rcases hsession.requests with ⟨requests, hlength, hrun⟩
      rcases ih with ⟨requests', hlength', hrun'⟩
      refine ⟨requests ++ requests', ?_, hrun.append hrun'⟩
      rw [List.length_append, List.length_cons]
      omega

theorem new_usable {p : Pool Unit A} (hp : p.Usable) (hooks : Option (PoolKey × H)) :
    (new p hooks).pool.Usable :=
  { keyed := hp.keyed
    spacing := hp.spacing
    fees := hp.fees
    price := hp.price
    inTick := hp.inTick
    liquidity := hp.liquidity }

/-- No hook breaks the pool of its manager: after any calls it is usable, and one
that no more requests than calls lead to. -/
theorem run_usable {p : Pool Unit A} {hooks : Option (PoolKey × H)} (hp : p.Accepted)
    (h : Run (Calls impl) (new p hooks) calls m) :
    m.pool.Usable ∧ exists requests, requests.length ≤ calls.length ∧
      Run Pool.Attempts (new p hooks).pool requests m.pool := by
  rcases run_requests h with ⟨requests, hlength, hrun⟩
  have hnew := new_usable (H := H) hp.sound.toUsable hooks
  exact ⟨hnew.run hrun, requests, hlength, hrun⟩

/-!
# What is settled
-/

/-- What a call left to its caller of a token. -/
def callerAmount (token0 : Bool) (label : ManagerCall × Except Error BalanceDelta) : Int :=
  (label.2.toOption.map fun delta => delta.amount token0).getD 0

/-- A call of the manager itself that succeeded. -/
def Settled (label : ManagerCall × Except Error BalanceDelta) : Prop :=
  (exists callerDelta, label.2 = .ok callerDelta) ∧ forall request, label.1 ≠ .poolMut request

theorem run_operations (h : Run (Calls impl) m calls m')
    (hsettled : forall label, label ∈ calls -> Settled label) (log : List HookEvent) :
    exists events ops,
      Run (Calls impl.watched) (m.watch log) calls (m'.watch (log ++ events)) ∧
      Run Pool.Performs m.pool ops m'.pool ∧ forall token0,
        (calls.map (callerAmount token0)).sum + HookEvent.claims events token0 =
          Operation.gains ops token0 := by
  induction h generalizing log with
  | nil m =>
      refine ⟨[], [], ?_, Run.nil m.pool, fun _ => rfl⟩
      rw [List.append_nil]
      exact Run.nil _
  | @cons m mid m' label calls hcall _ ih =>
      rcases hsettled label List.mem_cons_self with ⟨⟨callerDelta, hok⟩, hdirect⟩
      rcases label with ⟨call, result⟩
      dsimp only at hok hdirect
      rw [hok] at hcall
      rcases hcall.watch log with ⟨events, hwatch, _, hsession⟩
      rcases hsession.operations hdirect with ⟨ops, hops, hsum⟩
      rcases ih (fun label hmem => hsettled label (List.mem_cons_of_mem _ hmem)) (log ++ events)
        with ⟨events', ops', hrest, hops', hsum'⟩
      refine ⟨events ++ events', ops ++ ops', ?_, hops.append hops', fun token0 => ?_⟩
      · rw [← List.append_assoc, hok]
        exact Run.cons hwatch hrest
      · have hfirst := hsum token0
        have hlast := hsum' token0
        unfold Operation.gains at hfirst hlast ⊢
        rw [List.map_append, List.sum_append, List.map_cons, List.sum_cons,
          HookEvent.claims_append]
        have hamount : callerAmount token0 (call, result) = callerDelta.amount token0 := by
          rw [hok]
          rfl
        rw [hamount]
        omega

theorem new_fresh {p : Pool Unit A} (hp : p.Fresh) (hooks : Option (PoolKey × H)) :
    (new p hooks).pool.Fresh := by
  rcases hp with ⟨sqrtPriceX96, tick, liquidity, swapFee, tickSpacing, ticks, hprice, hempty, hnew⟩
  refine ⟨sqrtPriceX96, tick, liquidity, swapFee, tickSpacing, ticks, hprice, hempty, ?_⟩
  unfold Pool.tryNew Pool.fromSnapshot at hnew ⊢
  rcases Outcome.bind_eq_ok.mp hnew with ⟨u, hvalidate, hrest⟩
  rcases Outcome.bind_eq_ok.mp hrest with ⟨restored, hrestored, hrest⟩
  rcases Outcome.bind_eq_ok.mp hrest with ⟨fee, hfee, hok⟩
  cases hok
  -- There are neither ticks nor positions to disagree.
  have hpositions : PositionsAccess.validateAgainstTicks (PositionsAccess.default : Positions)
      ticks.ownedSnapshot = .ok () := by
    show Positions.validateAgainstTicks { map := SortedMap.empty } ticks.ownedSnapshot = .ok ()
    unfold Positions.validateAgainstTicks Positions.validateInOrder TickSlab.ownedSnapshot
    dsimp only
    rw [hempty]
    rfl
  unfold PoolSnapshot.validate PoolSnapshot.validateWith at hvalidate ⊢
  dsimp only at hvalidate hrestored hfee ⊢
  rw [hpositions]
  show (_ >>= _) = _
  have hunit : PositionsAccess.validateAgainstTicks (PositionsAccess.default : Unit)
      ticks.ownedSnapshot = .ok () := rfl
  rw [hunit] at hvalidate
  rw [hvalidate, Outcome.ok_bind, hrestored, Outcome.ok_bind, hfee, Outcome.ok_bind]
  rfl

/-- The callers of a manager and its hook never take out more, all in all, than they
pay in. -/
theorem run_solvent {p : Pool Unit A} {hooks : Option (PoolKey × H)} (hp : p.Fresh)
    (h : Run (Calls impl) (new p hooks) calls m)
    (hsettled : forall label, label ∈ calls -> Settled label) :
    exists events, Run (Calls impl.watched) ((new p hooks).watch []) calls (m.watch events) ∧
      forall token0,
        (calls.map (callerAmount token0)).sum + HookEvent.claims events token0 ≤ 0 := by
  rcases run_operations h hsettled [] with ⟨events, ops, hwatch, hops, hsum⟩
  refine ⟨events, hwatch, fun token0 => ?_⟩
  rcases Pool.run_records hops with ⟨entries, hrecords, hmap⟩
  have hfresh := new_fresh (H := H) hp hooks
  have hbalanced := Pool.run_balanced hfresh hrecords token0
  have hbacked := (hfresh.accruing.run hops).toBacked
  have hreserve : (0 : Int) ≤ (entries.map (Entry.principal token0)).sum := by
    exact_mod_cast (hbacked.reserve_nonneg token0).trans hbalanced.principal
  have hfees := hbalanced.fees_nonneg
  have hreceived := hbalanced.received
  have hgains := Operation.gains_le ops token0
  rw [hmap] at hreceived
  rw [hsum]
  omega

end SinglePoolManager

/-!
# A sample manager

A hook that also claims of every change of liquidity, on a pool without ticks.
-/

namespace Sample

def claimingHook : LifecycleHooks Unit where
  toHooks := takingHook
  beforeAddLiquidity := fun hook _ _ _ _ => (.ok (), hook)
  afterAddLiquidity := fun hook _ _ _ _ _ _ => (.ok { amount0 := 1, amount1 := -2 }, hook)
  beforeRemoveLiquidity := fun hook _ _ _ _ => (.ok (), hook)
  afterRemoveLiquidity := fun hook _ _ _ _ _ _ => (.ok BalanceDelta.default, hook)
  beforeDonate := fun hook _ _ _ _ _ => (.ok (), hook)
  afterDonate := fun hook _ _ _ _ _ => (.ok (), hook)

def newManager : SinglePoolManager Unit :=
  SinglePoolManager.new empty.erase (some (poolKey, ()))

def addedDelta : BalanceDelta := { amount0 := -2995354955910782, amount1 := -2995354955910779 }

def addedManager : SinglePoolManager Unit := (newManager.modifyLiquidity claimingHook add []).2

def soldManager : SinglePoolManager Unit :=
  ((addedManager.swap takingHook 1 hookedSell [] 3).map Prod.snd).getD addedManager

def managerCalls : List (ManagerCall × Except Error BalanceDelta) :=
  [(.modifyLiquidity add [], .ok addedDelta), (.swap 1 hookedSell [], .ok settled)]

theorem managerRun : Run (SinglePoolManager.Calls claimingHook) newManager managerCalls
    soldManager := by
  have hadd := @SinglePoolManager.Calls.modifyLiquidity _ _ _ claimingHook newManager add []
  have hadded : (newManager.modifyLiquidity claimingHook add []).1.map
      ModifyLiquidityResult.delta = .ok addedDelta := by
    decide +kernel
  have hsold : (addedManager.swap takingHook 1 hookedSell [] 3).map Prod.fst =
      some (.ok settled) := by
    decide +kernel
  rw [hadded] at hadd
  rcases Option.map_eq_some_iff.mp hsold with ⟨⟨r, m⟩, hswap, rfl⟩
  have hlast : m = soldManager := by
    unfold soldManager
    rw [hswap]
    rfl
  rw [hlast] at hswap
  exact Run.cons hadd (Run.cons (SinglePoolManager.Calls.swap hswap) (Run.nil soldManager))

end Sample

namespace SinglePoolManager

theorem run_lifecycle_sample : exists sessions,
    Run (Calls Sample.claimingHook.watched) (Sample.newManager.watch []) Sample.managerCalls
      (Sample.soldManager.watch sessions.flatten) ∧
    List.Forall₂ ManagerCall.Orderly Sample.managerCalls sessions :=
  run_lifecycle rfl Sample.managerRun

theorem run_usable_sample : Sample.soldManager.pool.Usable :=
  (run_usable (p := Sample.empty.erase) Sample.empty_fresh.accepted.erase Sample.managerRun).1

theorem run_solvent_sample : exists events,
    Run (Calls Sample.claimingHook.watched) (Sample.newManager.watch []) Sample.managerCalls
      (Sample.soldManager.watch events) ∧
    forall token0, (Sample.managerCalls.map (callerAmount token0)).sum +
      HookEvent.claims events token0 ≤ 0 := by
  refine run_solvent (p := Sample.empty.erase) Sample.empty_fresh.erase Sample.managerRun ?_
  intro label hlabel
  rcases List.mem_cons.mp hlabel with rfl | hlabel
  · exact ⟨⟨_, rfl⟩, fun request h => by cases h⟩
  · rcases List.mem_singleton.mp hlabel with rfl
    exact ⟨⟨_, rfl⟩, fun request h => by cases h⟩

end SinglePoolManager

end RmUniswap
