import RmUniswap.Foundation.Simulation
import RmUniswap.Pool.Lifecycle
import RmUniswap.StablePair.NoTrap

/-!
# The stable pair behind its manager

The callbacks of the stable pair hook only price swaps. A manager with the hook and
a dynamic fee is therefore its pool with a fee a swap: it answers every call as the
pool does, and its hook never traps and never makes a call fail.
-/

namespace RmUniswap

open Foundation

variable {A : Type} [LawfulAllocator TickSlabValue A]

def BeforeSwapDelta.zero : BeforeSwapDelta := { specifiedDelta := 0, unspecifiedDelta := 0 }

/-- The callbacks of the hook; {lit}`none` is a hook that trapped. -/
def StablePairHook.callbacks : LifecycleHooks (Option StablePairHook) where
  beforeSwap hook _ _ params env _ :=
    match hook.bind fun hook => hook.beforeSwapFee env params.zeroForOne with
    | none => (.error .invalidLpFee, none)
    | some (fee, hook) =>
        ((okOr .invalidLpFee (Fee.new fee)).map fun fee => (BeforeSwapDelta.zero, fee), some hook)
  afterSwap hook _ _ _ _ _ := (.ok 0, hook)
  beforeAddLiquidity hook _ _ _ _ := (.ok (), hook)
  afterAddLiquidity hook _ _ _ _ _ _ := (.ok BalanceDelta.default, hook)
  beforeRemoveLiquidity hook _ _ _ _ := (.ok (), hook)
  afterRemoveLiquidity hook _ _ _ _ _ _ := (.ok BalanceDelta.default, hook)
  beforeDonate hook _ _ _ _ _ := (.ok (), hook)
  afterDonate hook _ _ _ _ _ := (.ok (), hook)

/-!
# A pool with a fee a swap
-/

structure StablePool (A : Type := Arena TickSlabValue) [LawfulAllocator TickSlabValue A] where
  pool : Pool Positions A
  hook : StablePairHook
  blockNumber : Nat

/-- A call with what it returned, and the fee if it was priced. -/
structure PricedCall where
  call : ManagerCall
  result : Except Error BalanceDelta
  fee : Option Nat

namespace PricedCall

def label (c : PricedCall) : ManagerCall × Except Error BalanceDelta := (c.call, c.result)

def charge? (c : PricedCall) : Option (Bool × Nat) :=
  match c.call with
  | .swap _ params _ => c.fee.map fun fee => (params.zeroForOne, fee)
  | _ => none

end PricedCall

namespace StablePool

def env (s : StablePool A) : HookEnv :=
  { blockNumber := s.blockNumber, poolState := s.pool.state }

/-- The manager of the pool. -/
def manager (key : PoolKey) (s : StablePool A) : SinglePoolManager (Option StablePairHook) A :=
  { pool := s.pool, hooks := some (key, some s.hook), blockNumber := s.blockNumber }

/-- The pool does what it is asked, and swaps at the fee of its hook. -/
inductive Serves (s : StablePool A) : PricedCall -> StablePool A -> Prop
  | modifyLiquidity (params : ModifyLiquidityParams) (hookData : List UInt8) :
      Serves s
        { call := .modifyLiquidity params hookData
          result := (s.pool.modifyLiquidity params).1.bind fun r => r.delta.checkedAdd r.feeDelta
          fee := none }
        { s with pool := (s.pool.modifyLiquidity params).2 }
  | rejected {sender : Nat} {params : SwapParams} {hookData : List UInt8} :
      params.amountSpecified = 0 ->
      Serves s
        { call := .swap sender params hookData, result := .error .zeroValue, fee := none } s
  | swap {sender fee : Nat} {params : SwapParams} {hookData : List UInt8} {lpFee : Fee}
      {hook : StablePairHook} {result : Except Error SwapResult} {pool : Pool Positions A} :
      params.amountSpecified ≠ 0 ->
      s.hook.Charges ({ env := s.env, zeroForOne := params.zeroForOne }, fee) hook ->
      Fee.new fee = some lpFee ->
      s.pool.Swaps (SinglePoolManager.executable params
        ⟨params.amountSpecified, params.amountFits⟩ (some lpFee)) result pool ->
      Serves s
        { call := .swap sender params hookData
          result := result.map SwapResult.swapDelta
          fee := some fee }
        { s with pool, hook }
  | donate (sender amount0 amount1 : Nat) (hookData : List UInt8) :
      Serves s
        { call := .donate sender amount0 amount1 hookData
          result := .ok BalanceDelta.default
          fee := none } s
  | setBlockNumber (blockNumber : Nat) :
      Serves s
        { call := .setBlockNumber blockNumber, result := .ok BalanceDelta.default, fee := none }
        { s with blockNumber }
  | poolMut {request : Request} {pool : Pool Positions A} : s.pool.Attempts request pool ->
      Serves s
        { call := .poolMut request, result := .ok BalanceDelta.default, fee := none }
        { s with pool }

/-- A state a call may find: the pool is usable, the hook settled and the block number
one of the chain. -/
structure Ready (s : StablePool A) : Prop where
  pool : s.pool.Usable
  hook : s.hook.Settled
  block : s.blockNumber < 2 ^ 64

end StablePool

/-- Block numbers are words of the chain. -/
def ManagerCall.InChain (call : ManagerCall) : Prop :=
  forall blockNumber, call = .setBlockNumber blockNumber -> blockNumber < 2 ^ 64

/-!
# Deltas that no hook touches
-/

namespace BalanceDelta

variable {delta other sum : BalanceDelta}

theorem default_fits : default.Fits :=
  ⟨by decide, by decide⟩

theorem checkedSub_default (h : delta.Fits) : delta.checkedSub default = .ok delta := by
  unfold checkedSub default
  dsimp only
  rw [sub_zero, sub_zero, checkedSigned_eq_some.mpr ⟨rfl, h.1⟩,
    checkedSigned_eq_some.mpr ⟨rfl, h.2⟩]
  rfl

theorem checkedAdd_fits (h : delta.checkedAdd other = .ok sum) : sum.Fits := by
  unfold checkedAdd at h
  rcases bind_eq_ok.mp h with ⟨amount0, h0, hrest⟩
  rcases bind_eq_ok.mp hrest with ⟨amount1, h1, hok⟩
  have hfits0 := checkedSigned_eq_some.mp (okOr_eq_ok.mp h0)
  have hfits1 := checkedSigned_eq_some.mp (okOr_eq_ok.mp h1)
  rw [← hfits0.1] at hfits0
  rw [← hfits1.1] at hfits1
  cases hok
  exact ⟨hfits0.2, hfits1.2⟩

end BalanceDelta

theorem Pool.swap_fits {p p' : Pool Positions A} {params : SwapParamsInner} {fuel : Nat}
    {result : SwapResult} (h : p.swap params fuel = some (.ok result, p')) :
    result.swapDelta.Fits := by
  have hcases := swap_cases h
  generalize p.swapComputations params fuel = cs at hcases
  cases hcases with
  | empty _ => exact BalanceDelta.default_fits
  | done _ _ hdelta => exact SwapContext.swapDelta_fits hdelta

/-!
# Calls of the manager
-/

namespace StablePool

variable {s s' : StablePool A} {key : PoolKey} {params : SwapParams} {hookData : List UInt8}
  {sender fee : Nat}

section Callbacks

open StablePairHook

theorem beforeSwap_callbacks {env : HookEnv} {hook hook' : StablePairHook} {lpFee : Fee}
    (hcharge : hook.Charges ({ env, zeroForOne := params.zeroForOne }, fee) hook')
    (hfee : Fee.new fee = some lpFee) (hkey : key.isDynamicFee = true) :
    HooksImpl.beforeSwap callbacks.toHooks (some hook) sender key params env hookData =
      (.ok (⟨params.amountSpecified, params.amountFits⟩, BeforeSwapDelta.zero, some lpFee),
        some hook') := by
  unfold Charges at hcharge
  dsimp only at hcharge
  unfold HooksImpl.beforeSwap callbacks
  dsimp only [Option.bind_some]
  rw [hcharge]
  dsimp only
  rw [hfee, hkey]
  rfl

theorem afterSwap_callbacks {hook : Option StablePairHook} {delta : BalanceDelta}
    (h : delta.Fits) :
    HooksImpl.afterSwap callbacks.toHooks hook sender key params delta hookData
      BeforeSwapDelta.zero = (.ok (delta, BalanceDelta.default), hook) := by
  have hnothing : HooksImpl.hookDelta params 0 0 = BalanceDelta.default := by
    unfold HooksImpl.hookDelta
    split <;> rfl
  have hsum : checkedSigned 128 (BeforeSwapDelta.zero.unspecifiedDelta + 0) = some 0 := by
    decide
  unfold HooksImpl.afterSwap callbacks
  dsimp only
  rw [hsum]
  show (do
    let callerDelta <- delta.checkedSub (HooksImpl.hookDelta params 0 0)
    Except.ok (callerDelta, HooksImpl.hookDelta params 0 0), hook) = _
  rw [hnothing, BalanceDelta.checkedSub_default h]
  rfl

end Callbacks

theorem swap_manager {lpFee : Fee} {hook : StablePairHook} (hkey : key.isDynamicFee = true)
    (hne : params.amountSpecified ≠ 0)
    (hcharge : s.hook.Charges ({ env := s.env, zeroForOne := params.zeroForOne }, fee) hook)
    (hfee : Fee.new fee = some lpFee) (fuel : Nat) :
    (s.manager key).swap StablePairHook.callbacks.toHooks sender params hookData fuel =
      (s.pool.swap (SinglePoolManager.executable params
        ⟨params.amountSpecified, params.amountFits⟩ (some lpFee)) fuel).map fun r =>
          (r.1.map SwapResult.swapDelta, manager key { s with pool := r.2, hook }) := by
  unfold SinglePoolManager.swap manager
  rw [if_neg hne]
  dsimp only
  have hbefore : HooksImpl.beforeSwap StablePairHook.callbacks.toHooks (some s.hook) sender key
      params s.env hookData = _ := beforeSwap_callbacks hcharge hfee hkey
  unfold SinglePoolManager.env
  dsimp only
  unfold env at hbefore
  rw [hbefore]
  dsimp only
  cases hswap : s.pool.swap (SinglePoolManager.executable params
      ⟨params.amountSpecified, params.amountFits⟩ (some lpFee)) fuel with
  | none => rfl
  | some r =>
      rcases r with ⟨e | result, pool⟩
      · rfl
      · rw [Option.map_some, Option.map_some]
        dsimp only
        rw [afterSwap_callbacks (Pool.swap_fits hswap)]
        rfl

theorem modifyLiquidity_manager (s : StablePool A) (key : PoolKey)
    (params : ModifyLiquidityParams) (hookData : List UInt8) :
    ((s.manager key).modifyLiquidity StablePairHook.callbacks params hookData).1.map
        ModifyLiquidityResult.delta =
      ((s.pool.modifyLiquidity params).1.bind fun r => r.delta.checkedAdd r.feeDelta) ∧
    ((s.manager key).modifyLiquidity StablePairHook.callbacks params hookData).2 =
      manager key { s with pool := (s.pool.modifyLiquidity params).2 } := by
  have hbefore : HooksImpl.beforeModifyLiquidity StablePairHook.callbacks (some s.hook)
      params.owner key params hookData = (.ok (), some s.hook) := by
    unfold HooksImpl.beforeModifyLiquidity
    split <;> rfl
  have hafter {delta feesAccrued : BalanceDelta} (h : delta.Fits) :
      HooksImpl.afterModifyLiquidity StablePairHook.callbacks (some s.hook) params.owner key
        params delta feesAccrued hookData = (.ok (delta, BalanceDelta.default), some s.hook) := by
    have hrest := BalanceDelta.checkedSub_default h
    unfold HooksImpl.afterModifyLiquidity StablePairHook.callbacks
    dsimp only
    rw [ite_self]
    show (do
      let callerDelta <- delta.checkedSub BalanceDelta.default
      Except.ok (callerDelta, BalanceDelta.default), some s.hook) = _
    rw [hrest]
    rfl
  unfold SinglePoolManager.modifyLiquidity SinglePoolManager.beforeModify manager
  dsimp only
  rw [hbefore]
  dsimp only
  rcases hmodify : s.pool.modifyLiquidity params with ⟨e | r, pool⟩
  · exact ⟨rfl, rfl⟩
  · dsimp only
    show _ = r.delta.checkedAdd r.feeDelta ∧ _
    cases hsum : r.delta.checkedAdd r.feeDelta with
    | error e => exact ⟨rfl, rfl⟩
    | ok callerDelta =>
        unfold SinglePoolManager.afterModify
        dsimp only
        rw [hafter (BalanceDelta.checkedAdd_fits hsum)]
        exact ⟨rfl, rfl⟩

theorem Ready.charge (h : s.Ready) (zeroForOne : Bool) :
    exists fee lpFee hook, s.hook.Charges ({ env := s.env, zeroForOne }, fee) hook ∧
      fee ≤ 999998 ∧ Fee.new fee = some lpFee ∧ hook.Settled := by
  have hvalid : FeeCall.Valid { env := s.env, zeroForOne } := ⟨h.block, h.pool.price⟩
  rcases h.hook.charge hvalid with ⟨fee, hook, ⟨hcharge, _, hle, lpFee, hfee⟩, hsettled⟩
  exact ⟨fee, lpFee, hook, hcharge, hle, hfee, hsettled⟩

theorem Ready.serves {c : PricedCall} (h : s.Ready) (hchain : c.call.InChain)
    (hc : s.Serves c s') : s'.Ready ∧ forall fee, c.fee = some fee -> fee ≤ 999998 := by
  cases hc with
  | modifyLiquidity params _ =>
      exact ⟨⟨h.pool.modify params, h.hook, h.block⟩, fun _ hnone => by cases hnone⟩
  | rejected _ =>
      exact ⟨h, fun _ hnone => by cases hnone⟩
  | @swap sender fee params hookData lpFee hook result pool _ hcharge _ hswap =>
      rcases h.charge params.zeroForOne with ⟨fee', _, hook', hcharge', hle, _, hsettled⟩
      unfold StablePairHook.Charges at hcharge hcharge'
      rw [hcharge] at hcharge'
      cases hcharge'
      refine ⟨⟨h.pool.swap hswap, hsettled, h.block⟩, fun fee' hsome => ?_⟩
      cases hsome
      exact hle
  | donate _ _ _ _ =>
      exact ⟨h, fun _ hnone => by cases hnone⟩
  | setBlockNumber blockNumber =>
      exact ⟨⟨h.pool, h.hook, hchain _ rfl⟩, fun _ hnone => by cases hnone⟩
  | poolMut hrequest =>
      exact ⟨⟨h.pool.attempts hrequest, h.hook, h.block⟩, fun _ hnone => by cases hnone⟩

theorem calls_iff {m : SinglePoolManager (Option StablePairHook) A}
    {label : ManagerCall × Except Error BalanceDelta} (h : s.Ready)
    (hkey : key.isDynamicFee = true) :
    SinglePoolManager.Calls StablePairHook.callbacks (s.manager key) label m <->
      exists c s', c.label = label ∧ s'.manager key = m ∧ s.Serves c s' := by
  constructor
  · intro hcall
    cases hcall with
    | modifyLiquidity params hookData =>
        rcases modifyLiquidity_manager s key params hookData with ⟨hresult, hmanager⟩
        rw [hresult, hmanager]
        exact ⟨_, _, rfl, rfl, Serves.modifyLiquidity params hookData⟩
    | @swap sender params hookData fuel result m hswap =>
        by_cases hzero : params.amountSpecified = 0
        · unfold SinglePoolManager.swap at hswap
          rw [if_pos hzero] at hswap
          cases hswap
          exact ⟨_, s, rfl, rfl, Serves.rejected hzero⟩
        · rcases h.charge params.zeroForOne with ⟨fee, lpFee, hook, hcharge, _, hfee, _⟩
          rw [swap_manager hkey hzero hcharge hfee] at hswap
          rcases Option.map_eq_some_iff.mp hswap with ⟨⟨r, pool⟩, hpool, hr⟩
          cases hr
          exact ⟨_, _, rfl, rfl, Serves.swap hzero hcharge hfee ⟨fuel, hpool⟩⟩
    | donate sender amount0 amount1 hookData =>
        exact ⟨_, s, rfl, rfl, Serves.donate sender amount0 amount1 hookData⟩
    | setBlockNumber blockNumber =>
        exact ⟨_, _, rfl, rfl, Serves.setBlockNumber blockNumber⟩
    | @poolMut request pool hrequest =>
        have hserves : s.Serves _ { s with pool } := Serves.poolMut hrequest
        exact ⟨_, _, rfl, rfl, hserves⟩
  · rintro ⟨c, s', rfl, rfl, hc⟩
    cases hc with
    | modifyLiquidity params hookData =>
        rcases modifyLiquidity_manager s key params hookData with ⟨hresult, hmanager⟩
        have hcall := @SinglePoolManager.Calls.modifyLiquidity _ _ _ StablePairHook.callbacks
          (s.manager key) params hookData
        rw [hresult, hmanager] at hcall
        exact hcall
    | @rejected sender params hookData hzero =>
        have hswap : (s.manager key).swap StablePairHook.callbacks.toHooks sender params hookData
            0 = some (.error .zeroValue, s.manager key) := by
          unfold SinglePoolManager.swap
          rw [if_pos hzero]
        exact SinglePoolManager.Calls.swap hswap
    | @swap sender fee params hookData lpFee hook result pool hne hcharge hfee hswap =>
        rcases hswap with ⟨fuel, hswap⟩
        have hmanager : (s.manager key).swap StablePairHook.callbacks.toHooks sender params
            hookData fuel =
            some (result.map SwapResult.swapDelta, manager key { s with pool, hook }) := by
          rw [swap_manager hkey hne hcharge hfee, hswap]
          rfl
        exact SinglePoolManager.Calls.swap hmanager
    | donate sender amount0 amount1 hookData =>
        exact SinglePoolManager.Calls.donate sender amount0 amount1 hookData
    | setBlockNumber blockNumber =>
        exact SinglePoolManager.Calls.setBlockNumber blockNumber
    | poolMut hrequest =>
        exact SinglePoolManager.Calls.poolMut hrequest

/-!
# Runs
-/

/-- The state of a new manager over a pool, with a new hook. -/
def new (p : Pool Unit A) (hook : StablePairHook) : StablePool A :=
  { pool := (SinglePoolManager.new p (none : Option (PoolKey × Unit))).pool
    hook
    blockNumber := 0 }

theorem new_ready {p : Pool Unit A} {hook : StablePairHook} {config : StableFeeConfig}
    {block : Nat} (hp : p.Accepted)
    (hnew : StablePairHook.new config (StableFeeState.reset block) = .ok hook) :
    (new p hook).Ready := by
  unfold StablePairHook.new at hnew
  split at hnew
  · rename_i hvalid
    cases hnew
    exact
      { pool := SinglePoolManager.new_usable (H := Unit) hp.sound.toUsable none
        hook := ⟨StableFeeConfig.bounded_of_validate hvalid, Or.inl ⟨rfl, rfl⟩⟩
        block := Nat.two_pow_pos 64 }
  · cases hnew

theorem run_iff {m : SinglePoolManager (Option StablePairHook) A}
    {calls : List (ManagerCall × Except Error BalanceDelta)} (h : s.Ready)
    (hkey : key.isDynamicFee = true) (hcalls : forall label, label ∈ calls -> label.1.InChain) :
    Run (SinglePoolManager.Calls StablePairHook.callbacks) (s.manager key) calls m <->
      exists priced s', priced.map PricedCall.label = calls ∧ s'.manager key = m ∧
        Run Serves s priced s' :=
  Run.viewed_iff (fun _ _ _ hs _ => calls_iff hs hkey)
    (fun _ _ _ hs hc hserves => (hs.serves hc hserves).1) h hcalls

theorem Ready.run {priced : List PricedCall} (h : s.Ready)
    (hcalls : forall c, c ∈ priced -> c.call.InChain) (hrun : Run Serves s priced s') :
    s'.Ready ∧ forall c, c ∈ priced -> forall fee, c.fee = some fee -> fee ≤ 999998 := by
  induction hrun with
  | nil s =>
      exact ⟨h, fun c hc => by cases hc⟩
  | @cons s mid s' c priced hc _ ih =>
      have hone := h.serves (hcalls c List.mem_cons_self) hc
      have hrest := ih hone.1 fun c hc => hcalls c (List.mem_cons_of_mem _ hc)
      refine ⟨hrest.1, fun c' hc' => ?_⟩
      rcases List.mem_cons.mp hc' with rfl | hc'
      · exact hone.2
      · exact hrest.2 c' hc'

theorem inChain_of_labels {priced : List PricedCall}
    {calls : List (ManagerCall × Except Error BalanceDelta)}
    (hcalls : forall label, label ∈ calls -> label.1.InChain)
    (hmap : priced.map PricedCall.label = calls) : forall c, c ∈ priced -> c.call.InChain := by
  intro c hc
  rw [← hmap] at hcalls
  exact hcalls c.label (List.mem_map_of_mem hc)

/-- The manager of a stable pair and its pool with a fee a swap have the same runs,
and every fee is one the pool takes. -/
theorem run_priced {p : Pool Unit A} {hook : StablePairHook} {config : StableFeeConfig}
    {block : Nat} {m : SinglePoolManager (Option StablePairHook) A}
    {calls : List (ManagerCall × Except Error BalanceDelta)} (hp : p.Accepted)
    (hnew : StablePairHook.new config (StableFeeState.reset block) = .ok hook)
    (hkey : key.isDynamicFee = true) (hcalls : forall label, label ∈ calls -> label.1.InChain) :
    Run (SinglePoolManager.Calls StablePairHook.callbacks)
        (SinglePoolManager.new p (some (key, some hook))) calls m <->
      exists priced s', priced.map PricedCall.label = calls ∧ s'.manager key = m ∧
        Run Serves (new p hook) priced s' ∧ s'.Ready ∧
        forall c, c ∈ priced -> forall fee, c.fee = some fee -> fee ≤ 999998 := by
  have hready := new_ready hp hnew
  have hiff := run_iff (m := m) hready hkey hcalls
  constructor
  · intro h
    rcases hiff.mp h with ⟨priced, s', hmap, hm, hrun⟩
    have hend := hready.run (inChain_of_labels hcalls hmap) hrun
    exact ⟨priced, s', hmap, hm, hrun, hend.1, hend.2⟩
  · rintro ⟨priced, s', hmap, hm, hrun, _, _⟩
    exact hiff.mpr ⟨priced, s', hmap, hm, hrun⟩

/-!
# The fee of a block
-/

/-- A call of a block that has started keeps the hook, and swaps at the fee of the
block. -/
theorem Serves.later {c : PricedCall} (hold : s.hook.isNewBlock s.env = false)
    (hblock : forall blockNumber, c.call ≠ .setBlockNumber blockNumber) (hc : s.Serves c s') :
    s'.hook = s.hook ∧ s'.blockNumber = s.blockNumber ∧
      forall zeroForOne fee, c.charge? = some (zeroForOne, fee) ->
        s.hook.blockFee zeroForOne = some fee := by
  cases hc with
  | modifyLiquidity _ _ => exact ⟨rfl, rfl, fun _ _ h => by cases h⟩
  | rejected _ => exact ⟨rfl, rfl, fun _ _ h => by cases h⟩
  | swap _ hcharge _ _ =>
      rcases StablePairHook.charges_later hold hcharge with ⟨rfl, hfee⟩
      refine ⟨rfl, rfl, fun _ _ h => ?_⟩
      cases h
      exact hfee
  | donate _ _ _ _ => exact ⟨rfl, rfl, fun _ _ h => by cases h⟩
  | setBlockNumber _ => exact absurd rfl (hblock _)
  | poolMut _ => exact ⟨rfl, rfl, fun _ _ h => by cases h⟩

variable {priced : List PricedCall}

theorem run_later
    (hold : s.hook.isNewBlock s.env = false)
    (hblock : forall c, c ∈ priced -> forall blockNumber, c.call ≠ .setBlockNumber blockNumber)
    (h : Run Serves s priced s') :
    forall c, c ∈ priced -> forall zeroForOne fee, c.charge? = some (zeroForOne, fee) ->
      s.hook.blockFee zeroForOne = some fee := by
  induction h with
  | nil s =>
      intro c hc
      cases hc
  | @cons s mid s' c priced hc _ ih =>
      rcases hc.later hold (hblock c List.mem_cons_self) with ⟨hhook, hnumber, hfirst⟩
      have hold' : mid.hook.isNewBlock mid.env = false := by
        rw [hhook]
        unfold StablePairHook.isNewBlock env at hold ⊢
        rw [hnumber]
        exact hold
      have hrest := ih hold' fun c hc => hblock c (List.mem_cons_of_mem _ hc)
      rw [hhook] at hrest
      intro c' hc'
      rcases List.mem_cons.mp hc' with rfl | hc'
      · exact hfirst
      · exact hrest c' hc'

theorem Ready.block_fee (h : s.Ready)
    (hblock : forall c, c ∈ priced -> forall blockNumber, c.call ≠ .setBlockNumber blockNumber)
    (hrun : Run Serves s priced s') :
    exists hook : StablePairHook, forall c, c ∈ priced -> forall zeroForOne fee,
      c.charge? = some (zeroForOne, fee) -> hook.blockFee zeroForOne = some fee := by
  induction hrun with
  | nil s =>
      refine ⟨s.hook, ?_⟩
      intro c hc
      cases hc
  | @cons s mid s' c priced hc hlast ih =>
      have hchain : c.call.InChain :=
        fun blockNumber hcall => absurd hcall (hblock c List.mem_cons_self blockNumber)
      have hblock' := fun c hc => hblock c (List.mem_cons_of_mem _ hc)
      rcases ih (h.serves hchain hc).1 hblock' with ⟨hook, hrest⟩
      have hunpriced (hnone : c.charge? = none) :
          exists hook : StablePairHook, forall c', c' ∈ c :: priced -> forall zeroForOne fee,
            c'.charge? = some (zeroForOne, fee) -> hook.blockFee zeroForOne = some fee := by
        refine ⟨hook, fun c' hc' => ?_⟩
        rcases List.mem_cons.mp hc' with rfl | hc'
        · intro zeroForOne fee hsome
          rw [hnone] at hsome
          cases hsome
        · exact hrest c' hc'
      cases hc with
      | modifyLiquidity _ _ => exact hunpriced rfl
      | rejected _ => exact hunpriced rfl
      | donate _ _ _ _ => exact hunpriced rfl
      | setBlockNumber _ => exact hunpriced rfl
      | poolMut _ => exact hunpriced rfl
      | @swap sender fee params hookData lpFee hook result pool _ hcharge _ _ =>
          have hprice : s.pool.state.sqrtPriceX96 ≠ 0 := Nat.pos_iff_ne_zero.mp h.pool.price.pos
          have hold : hook.isNewBlock (env { s with pool, hook }) = false :=
            StablePairHook.isNewBlock_after hprice hcharge rfl
          have hlater := run_later hold hblock' hlast
          refine ⟨hook, fun c' hc' => ?_⟩
          rcases List.mem_cons.mp hc' with rfl | hc'
          · intro zeroForOne fee' hsome
            cases hsome
            exact StablePairHook.blockFee_first hcharge
          · exact hlater c' hc'

/-- Between two changes of the block number the hook sets one LP fee for all swaps in one
direction, whatever else the pool is asked; the protocol fee comes on top of it. -/
theorem run_block_fee {p : Pool Unit A} {hook : StablePairHook} {config : StableFeeConfig}
    {block : Nat} {m m' : SinglePoolManager (Option StablePairHook) A}
    {calls later : List (ManagerCall × Except Error BalanceDelta)} (hp : p.Accepted)
    (hnew : StablePairHook.new config (StableFeeState.reset block) = .ok hook)
    (hkey : key.isDynamicFee = true) (hcalls : forall label, label ∈ calls -> label.1.InChain)
    (h : Run (SinglePoolManager.Calls StablePairHook.callbacks)
      (SinglePoolManager.new p (some (key, some hook))) calls m)
    (hlater : forall label, label ∈ later ->
      forall blockNumber, label.1 ≠ .setBlockNumber blockNumber)
    (h' : Run (SinglePoolManager.Calls StablePairHook.callbacks) m later m') :
    exists priced s s', priced.map PricedCall.label = later ∧ s.manager key = m ∧
      s'.manager key = m' ∧ Run Serves s priced s' ∧
      forall c, c ∈ priced -> forall d, d ∈ priced -> forall zeroForOne fee fee',
        c.charge? = some (zeroForOne, fee) -> d.charge? = some (zeroForOne, fee') ->
          fee = fee' := by
  have hstart := new_ready hp hnew
  rcases (run_iff hstart hkey hcalls).mp h with ⟨before, s, hbefore, rfl, hrun⟩
  have hready := (hstart.run (inChain_of_labels hcalls hbefore) hrun).1
  have hchain : forall label, label ∈ later -> label.1.InChain :=
    fun label hlabel blockNumber hcall => absurd hcall (hlater label hlabel blockNumber)
  rcases (run_iff hready hkey hchain).mp h' with ⟨priced, s', hmap, hm, hpriced⟩
  have hblock : forall c, c ∈ priced -> forall blockNumber,
      c.call ≠ .setBlockNumber blockNumber := by
    intro c hc
    rw [← hmap] at hlater
    exact hlater c.label (List.mem_map_of_mem hc)
  rcases hready.block_fee hblock hpriced with ⟨kept, hkept⟩
  refine ⟨priced, s, s', hmap, rfl, hm, hpriced, ?_⟩
  intro c hc d hd zeroForOne fee fee' hfee hfee'
  have hone := hkept c hc zeroForOne fee hfee
  rw [hkept d hd zeroForOne fee' hfee'] at hone
  exact (Option.some_inj.mp hone).symm

end StablePool

/-!
# A sample stable pair

Liquidity is added, a block starts and two swaps follow each other in it.
-/

namespace Sample

def stableKey : PoolKey := { poolKey with fee := none }

def stableManager : SinglePoolManager (Option StablePairHook) :=
  SinglePoolManager.new empty.erase (some (stableKey, some freshHook))

def stableOpened : SinglePoolManager (Option StablePairHook) :=
  (stableManager.modifyLiquidity StablePairHook.callbacks add []).2.setBlockNumber 7

def stableSold (m : SinglePoolManager (Option StablePairHook)) :
    SinglePoolManager (Option StablePairHook) :=
  ((m.swap StablePairHook.callbacks.toHooks 1 hookedSell [] 3).map Prod.snd).getD m

def stableCalls : List (ManagerCall × Except Error BalanceDelta) :=
  [(.modifyLiquidity add [],
      .ok { amount0 := -2995354955910781, amount1 := -2995354955910781 }),
    (.setBlockNumber 7, .ok BalanceDelta.default)]

def stableSales : List (ManagerCall × Except Error BalanceDelta) :=
  [(.swap 1 hookedSell [], .ok { amount0 := -1000000000000012, amount1 := 998901198691439 }),
    (.swap 1 hookedSell [], .ok { amount0 := -1000000000000012, amount1 := 996907582907141 })]

theorem stableCalls_run : Run (SinglePoolManager.Calls StablePairHook.callbacks) stableManager
    stableCalls stableOpened := by
  have hadd := @SinglePoolManager.Calls.modifyLiquidity _ _ _ StablePairHook.callbacks stableManager
    add []
  have hadded : (stableManager.modifyLiquidity StablePairHook.callbacks add []).1.map
      ModifyLiquidityResult.delta =
        .ok { amount0 := -2995354955910781, amount1 := -2995354955910781 } := by
    decide +kernel
  rw [hadded] at hadd
  exact Run.cons hadd (Run.cons (SinglePoolManager.Calls.setBlockNumber 7) (Run.nil stableOpened))

theorem stableSold_calls {m : SinglePoolManager (Option StablePairHook)} {delta : BalanceDelta}
    (h : (m.swap StablePairHook.callbacks.toHooks 1 hookedSell [] 3).map Prod.fst =
      some (.ok delta)) :
    SinglePoolManager.Calls StablePairHook.callbacks m (.swap 1 hookedSell [], .ok delta)
      (stableSold m) := by
  rcases Option.map_eq_some_iff.mp h with ⟨⟨result, m'⟩, hswap, rfl⟩
  have hsold : stableSold m = m' := by
    unfold stableSold
    rw [hswap]
    rfl
  rw [hsold]
  exact SinglePoolManager.Calls.swap hswap

theorem stableSales_run : Run (SinglePoolManager.Calls StablePairHook.callbacks) stableOpened
    stableSales (stableSold (stableSold stableOpened)) := by
  have hfirst : (stableOpened.swap StablePairHook.callbacks.toHooks 1 hookedSell [] 3).map
      Prod.fst = some (.ok { amount0 := -1000000000000012, amount1 := 998901198691439 }) := by
    decide +kernel
  have hsecond : ((stableSold stableOpened).swap StablePairHook.callbacks.toHooks 1 hookedSell []
      3).map Prod.fst =
        some (.ok { amount0 := -1000000000000012, amount1 := 996907582907141 }) := by
    decide +kernel
  exact Run.cons (stableSold_calls hfirst) (Run.cons (stableSold_calls hsecond) (Run.nil _))

theorem freshHook_new :
    StablePairHook.new feeConfig (StableFeeState.reset 0) = .ok freshHook := by
  decide +kernel

theorem stableCalls_inChain : forall label, label ∈ stableCalls -> label.1.InChain := by
  intro label hlabel blockNumber hcall
  rcases List.mem_cons.mp hlabel with rfl | hlabel
  · cases hcall
  · rcases List.mem_singleton.mp hlabel with rfl
    cases hcall
    decide

theorem stableSales_sameBlock : forall label, label ∈ stableSales ->
    forall blockNumber, label.1 ≠ .setBlockNumber blockNumber := by
  intro label hlabel blockNumber hcall
  rcases List.mem_cons.mp hlabel with rfl | hlabel
  · cases hcall
  · rcases List.mem_singleton.mp hlabel with rfl
    cases hcall

end Sample

namespace StablePool

theorem run_priced_sample :
    exists priced s',
      priced.map PricedCall.label = Sample.stableCalls ++ Sample.stableSales ∧
      s'.manager Sample.stableKey = Sample.stableSold (Sample.stableSold Sample.stableOpened) ∧
      Run Serves (new Sample.empty.erase Sample.freshHook) priced s' ∧ s'.Ready ∧
      forall c, c ∈ priced -> forall fee, c.fee = some fee -> fee ≤ 999998 := by
  refine (run_priced Sample.empty_fresh.accepted.erase Sample.freshHook_new rfl ?_).mp
    (Sample.stableCalls_run.append Sample.stableSales_run)
  intro label hlabel
  rcases List.mem_append.mp hlabel with hlabel | hlabel
  · exact Sample.stableCalls_inChain label hlabel
  · exact fun blockNumber hcall =>
      absurd hcall (Sample.stableSales_sameBlock label hlabel blockNumber)

theorem run_block_fee_sample :
    exists priced s s', priced.map PricedCall.label = Sample.stableSales ∧
      s.manager Sample.stableKey = Sample.stableOpened ∧
      s'.manager Sample.stableKey = Sample.stableSold (Sample.stableSold Sample.stableOpened) ∧
      Run Serves s priced s' ∧
      forall c, c ∈ priced -> forall d, d ∈ priced -> forall zeroForOne fee fee',
        c.charge? = some (zeroForOne, fee) -> d.charge? = some (zeroForOne, fee') ->
          fee = fee' :=
  run_block_fee Sample.empty_fresh.accepted.erase Sample.freshHook_new rfl
    Sample.stableCalls_inChain Sample.stableCalls_run Sample.stableSales_sameBlock
    Sample.stableSales_run

end StablePool

end RmUniswap
