import RmUniswap.Pool.Backed

/-!
# Operations and their runs

The public operations of a pool as the labels of a transition system. A run of
successful operations keeps a pool backed by its positions.
-/

namespace RmUniswap

open Foundation

variable {A : Type} [LawfulAllocator TickSlabValue A]

inductive Operation
  | modifyLiquidity (params : ModifyLiquidityParams) (result : ModifyLiquidityResult)
  | swap (params : SwapParamsInner) (result : SwapResult)
  | setProtocolFee (protocolFee : ProtocolFee)

/-- Every price limit stays strictly inside the protocol range. -/
def Operation.LimitStrict : Operation -> Prop
  | .modifyLiquidity _ _ => True
  | .swap params _ => params.LimitStrict
  | .setProtocolFee _ => True

namespace Pool

/-- One operation that succeeds with the result of its label. -/
inductive Performs {P : Type} [PositionsAccess P] (p : Pool P A) : Operation -> Pool P A -> Prop
  | modifyLiquidity {params : ModifyLiquidityParams} {result : ModifyLiquidityResult}
      {p' : Pool P A} : p.modifyLiquidity params = (.ok result, p') ->
      Performs p (.modifyLiquidity params result) p'
  | swap {params : SwapParamsInner} {result : SwapResult} {p' : Pool P A} :
      p.Swaps params (.ok result) p' -> Performs p (.swap params result) p'
  | setProtocolFee {protocolFee : ProtocolFee} {p' : Pool P A} :
      p.setProtocolFee protocolFee = (.ok (), p') -> Performs p (.setProtocolFee protocolFee) p'

theorem setProtocolFee_ok {P : Type} {p p' : Pool P A} {protocolFee : ProtocolFee}
    (h : p.setProtocolFee protocolFee = (.ok (), p')) :
    exists swapFee, p.swapFee.setProtocolFee protocolFee = .ok swapFee ∧
      p' = { p with swapFee } := by
  unfold setProtocolFee at h
  cases hfee : p.swapFee.setProtocolFee protocolFee with
  | error e =>
      rw [hfee] at h
      cases h
  | ok swapFee =>
      rw [hfee] at h
      cases h
      exact ⟨swapFee, rfl, rfl⟩

/-!
# What operations keep
-/

section Keep

variable {p p' : Pool Positions A} {o : Operation} {ops : List Operation}

theorem Backed.performs (hp : p.Backed) (h : Performs p o p') : p'.Backed := by
  cases h with
  | modifyLiquidity h =>
      exact hp.modify h
  | swap h =>
      exact hp.swap h
  | setProtocolFee h =>
      rcases setProtocolFee_ok h with ⟨swapFee, hfee, rfl⟩
      refine ⟨⟨?_, hp.sound.active, hp.sound.negatable⟩, hp.reconciled⟩
      exact
        { keyed := hp.sound.keyed
          spacing := hp.sound.spacing
          fees := (SwapFee.setProtocolFee_consistent hp.sound.fees hfee).1
          price := hp.sound.price
          inTick := hp.sound.inTick
          liquidity := hp.sound.liquidity }

theorem Backed.run (hp : p.Backed) (h : Run Performs p ops p') : p'.Backed :=
  h.invariant (fun _ _ _ hs ho => hs.performs ho) hp

theorem modifyLiquidity_state {params : ModifyLiquidityParams} {result : ModifyLiquidityResult}
    (hp : p.Backed) (h : p.modifyLiquidity params = (.ok result, p')) :
    p'.state = { p.state with liquidity := p'.state.liquidity } := by
  have hcases := modify_cases hp.sound.holds params
  rw [h] at hcases
  cases hcases with
  | done _ _ _ hprincipal =>
      exact (settlePrincipal_ok hprincipal).1

theorem Performs.tickInRange (hp : p.Backed) (ht : TickInRange p.state.tick)
    (h : Performs p o p') (hlimit : o.LimitStrict) : TickInRange p'.state.tick := by
  cases h with
  | modifyLiquidity h =>
      rw [modifyLiquidity_state hp h]
      exact ht
  | swap h =>
      exact hp.sound.swap_tick ht hlimit h
  | setProtocolFee h =>
      rcases setProtocolFee_ok h with ⟨swapFee, _, rfl⟩
      exact ht

theorem Backed.run_tickInRange (hp : p.Backed) (ht : TickInRange p.state.tick)
    (h : Run Performs p ops p') (hlimit : forall o, o ∈ ops -> o.LimitStrict) :
    TickInRange p'.state.tick := by
  induction h with
  | nil s =>
      exact ht
  | cons ho _ ih =>
      exact ih (hp.performs ho) (Performs.tickInRange hp ht ho (hlimit _ List.mem_cons_self))
        (fun o ho => hlimit o (List.mem_cons_of_mem _ ho))

end Keep

/-!
# Requests

A caller may also send operations that fail, and may set the fee of the providers
directly. None of them makes a pool unusable.
-/

end Pool

inductive Request
  | modifyLiquidity (params : ModifyLiquidityParams)
  | swap (params : SwapParamsInner)
  | setProtocolFee (protocolFee : ProtocolFee)
  | setLpFee (lpFee : Fee)

namespace Pool

/-- What a request leaves behind, however it ends. -/
inductive Attempts {P : Type} [PositionsAccess P] (p : Pool P A) : Request -> Pool P A -> Prop
  | modifyLiquidity (params : ModifyLiquidityParams) :
      Attempts p (.modifyLiquidity params) (p.modifyLiquidity params).2
  | swap {params : SwapParamsInner} {result : Except Error SwapResult} {p' : Pool P A} :
      p.Swaps params result p' -> Attempts p (.swap params) p'
  | setProtocolFee (protocolFee : ProtocolFee) :
      Attempts p (.setProtocolFee protocolFee) (p.setProtocolFee protocolFee).2
  | setLpFee {lpFee : Fee} {swapFee : SwapFee} : p.swapFee.setLpFee lpFee = .ok swapFee ->
      Attempts p (.setLpFee lpFee) { p with swapFee }

section Attempts

variable {P : Type} {p p' : Pool P A} {requests : List Request}

theorem Usable.withFee (hp : p.Usable) {swapFee : SwapFee} (hfee : swapFee.Consistent) :
    ({ p with swapFee } : Pool P A).Usable :=
  { keyed := hp.keyed
    spacing := hp.spacing
    fees := hfee
    price := hp.price
    inTick := hp.inTick
    liquidity := hp.liquidity }

theorem Boundaries.holds {params : ModifyLiquidityParams} {lower upper : TickInfoInner}
    {slab : TickSlab A} {map : SortedMap Int TickInfoInner} (hp : p.Usable)
    (h : Boundaries p params lower upper slab map) : slab.Holds p.tickSpacing map := by
  cases h with
  | read _ => exact hp.holds
  | changed _ _ _ hslab => exact hslab

variable [PositionsAccess P]

theorem Usable.modify (hp : p.Usable) (params : ModifyLiquidityParams) :
    (p.modifyLiquidity params).2.Usable := by
  have hcases := modify_cases hp.holds params
  generalize p.modifyLiquidity params = r at hcases
  have hkept {ticks : TickSlab A} {map : SortedMap Int TickInfoInner} {positions : P}
      {state : PoolState} (hholds : ticks.Holds p.tickSpacing map)
      (hstate : state = { p.state with liquidity := state.liquidity } ∧
        (p.state.liquidity < 2 ^ 128 -> state.liquidity < 2 ^ 128)) :
      ({ p with ticks, positions, state } : Pool P A).Usable :=
    { keyed := hholds.keyed
      spacing := hholds.spacing
      fees := hp.fees
      price := by
        show IsValidSqrtPrice state.sqrtPriceX96
        rw [hstate.1]
        exact hp.price
      inTick := by
        show PriceInTick state.tick state.sqrtPriceX96
        rw [hstate.1]
        exact hp.inTick
      liquidity := hstate.2 hp.liquidity }
  have hsame : p.state = { p.state with liquidity := p.state.liquidity } ∧
      (p.state.liquidity < 2 ^ 128 -> p.state.liquidity < 2 ^ 128) := ⟨rfl, fun hlt => hlt⟩
  cases hcases with
  | rejected _ =>
      exact hp
  | lower _ _ _ hholds =>
      exact hkept hholds hsame
  | upper _ _ _ _ hholds =>
      exact hkept hholds hsame
  | position _ hb _ =>
      exact hkept (Boundaries.holds hp hb) hsame
  | principal _ hb _ hprincipal =>
      exact hkept (Boundaries.holds hp hb) (settlePrincipal_state hprincipal)
  | done _ hb _ hprincipal =>
      exact hkept (Boundaries.holds hp hb) (settlePrincipal_state hprincipal)

theorem Usable.attempts (hp : p.Usable) {request : Request} (h : Attempts p request p') :
    p'.Usable := by
  cases h with
  | modifyLiquidity params =>
      exact hp.modify params
  | swap h =>
      exact hp.swap h
  | setProtocolFee protocolFee =>
      unfold setProtocolFee
      cases hfee : p.swapFee.setProtocolFee protocolFee with
      | error e => exact hp
      | ok swapFee => exact hp.withFee (SwapFee.setProtocolFee_consistent hp.fees hfee).1
  | setLpFee hfee =>
      exact hp.withFee (SwapFee.setLpFee_consistent hp.fees hfee).1

theorem Usable.run (hp : p.Usable) (h : Run Attempts p requests p') : p'.Usable :=
  h.invariant (fun _ _ _ hs ho => hs.attempts ho) hp

/-- A pool that any requests lead to from an accepted one. -/
def Reachable (p : Pool P A) : Prop :=
  exists (p0 : Pool P A) (requests : List Request), p0.Accepted ∧ Run Attempts p0 requests p

theorem Reachable.usable (h : p.Reachable) : p.Usable := by
  rcases h with ⟨p0, requests, hp0, hrun⟩
  exact hp0.sound.toUsable.run hrun

theorem Accepted.reachable (h : p.Accepted) : p.Reachable :=
  ⟨p, [], h, Run.nil p⟩

theorem Reachable.attempts (h : p.Reachable) {request : Request} (ha : Attempts p request p') :
    p'.Reachable := by
  rcases h with ⟨p0, requests, hp0, hrun⟩
  exact ⟨p0, requests ++ [request], hp0, hrun.snoc ha⟩

end Attempts

/-!
# Pools without positions
-/

/-- A pool built from empty ticks. -/
def Fresh {P : Type} [PositionsAccess P] (p : Pool P A) : Prop :=
  exists (sqrtPriceX96 : Nat) (tick : Int) (liquidity : Nat) (swapFee : SwapFee)
    (tickSpacing : TickSpacing) (ticks : TickSlab A),
    IsValidSqrtPrice sqrtPriceX96 ∧ ticks.snapshot = SortedMap.empty ∧
      tryNew sqrtPriceX96 tick liquidity swapFee tickSpacing ticks = .ok p

section Fresh

variable {P : Type} [PositionsAccess P] {p : Pool P A}

theorem Fresh.accepted (h : p.Fresh) : p.Accepted := by
  rcases h with ⟨_, _, _, _, _, _, hprice, _, hnew⟩
  exact ⟨_, hprice, hnew⟩

theorem Fresh.positions (h : p.Fresh) : p.positions = PositionsAccess.default := by
  rcases h with ⟨_, _, _, _, _, _, _, _, hnew⟩
  exact (fromSnapshot_eq_ok hnew).positions

theorem Fresh.ticks (h : p.Fresh) : p.ticks.snapshot = SortedMap.empty := by
  rcases h with ⟨_, _, _, _, _, ticks, _, hempty, hnew⟩
  rw [(fromSnapshot_eq_ok hnew).ticks.snapshot]
  exact hempty

end Fresh

end Pool

/-!
# A sample run

An empty pool at price one takes a range around it and then sells token0 into it.
-/

namespace Sample

def tickSpacing : TickSpacing := sampleSnapshot.tickSpacing

theorem tickSpacing_isPositive : tickSpacing.IsPositive := by
  decide

def swapFee : SwapFee :=
  { lpFee := some ⟨3000, 997000, Or.inl ⟨by decide, rfl⟩⟩
    protocolFee := { zeroForOneFee := 0, oneForZeroFee := 0 }
    zeroForOneSwapFee := ⟨3000, 997000, Or.inl ⟨by decide, rfl⟩⟩
    oneForZeroSwapFee := ⟨3000, 997000, Or.inl ⟨by decide, rfl⟩⟩ }

def empty : Pool Positions :=
  { state :=
      { sqrtPriceX96 := 2 ^ 96
        tick := 0
        liquidity := 0
        feeGrowthGlobal0X128 := 0
        feeGrowthGlobal1X128 := 0 }
    swapFee
    tickSpacing
    ticks := TickSlab.new tickSpacing tickSpacing_isPositive
    positions := PositionsAccess.default }

theorem empty_fresh : empty.Fresh := by
  refine ⟨2 ^ 96, 0, 0, swapFee, tickSpacing, TickSlab.new tickSpacing (by decide), by decide,
    TickSlab.snapshot_new _, ?_⟩
  have hvalidate : empty.snapshot.validate = .ok () := by
    decide +kernel
  have hticks : TickSlab.fromSnapshot tickSpacing SortedMap.empty = .ok empty.ticks := by
    unfold TickSlab.fromSnapshot
    rw [dif_pos (by decide)]
    rfl
  have hfee : SwapFee.fromLpFee swapFee.lpFee swapFee.protocolFee = .ok swapFee := by
    decide
  show Pool.fromSnapshot empty.snapshot = _
  unfold Pool.fromSnapshot
  rw [hvalidate, Outcome.ok_bind]
  show (TickSlab.fromSnapshot tickSpacing SortedMap.empty >>= _) = _
  rw [hticks, Outcome.ok_bind]
  show (Outcome.ofExcept (SwapFee.fromLpFee swapFee.lpFee swapFee.protocolFee) >>= _) = _
  rw [hfee]
  rfl

def add : ModifyLiquidityParams :=
  { tickLower := -60
    tickUpper := 60
    liquidityDelta := 10 ^ 18
    owner := 1
    salt := 0
    lowerInRange := by decide
    upperInRange := by decide
    deltaFits := by decide }

def sell : SwapParamsInner :=
  { zeroForOne := true
    amountSpecified := -10 ^ 15
    sqrtPriceLimit := minSqrtPrice + 1
    lpFeeOverride := none
    amountFits := by decide
    limitValid := by decide }

theorem maxSqrtPrice_sub_one_valid : IsValidSqrtPrice (maxSqrtPrice - 1) := by
  decide

theorem fitsSigned_neg_add : FitsSigned 256 (-10 ^ 18) := by
  decide

def added : ModifyLiquidityResult :=
  { delta := { amount0 := -2995354955910781, amount1 := -2995354955910781 }
    feeDelta := BalanceDelta.default }

def funded : Pool Positions := (empty.modifyLiquidity add).2

def result : SwapResult :=
  { swapDelta := { amount0 := -10 ^ 15, amount1 := 996006981039903 }
    amountToProtocol := 0
    swapFee := ⟨3000, 997000, Or.inl ⟨by decide, rfl⟩⟩
    sqrtPriceX96 := 79149250711305166342700278159
    tick := -20
    liquidity := 10 ^ 18 }

/-- The pool a swap leaves. -/
def swapped {P : Type} (p : Pool P) (params : SwapParamsInner) (fuel : Nat) : Pool P :=
  ((p.swap params fuel).map Prod.snd).getD p

theorem swap_eq {P : Type} {p : Pool P} {params : SwapParamsInner} {fuel : Nat}
    {r : Except Error SwapResult} (h : (p.swap params fuel).map Prod.fst = some r) :
    p.swap params fuel = some (r, swapped p params fuel) := by
  rcases Option.map_eq_some_iff.mp h with ⟨⟨r', p'⟩, heq, rfl⟩
  unfold swapped
  rw [heq]
  rfl

def sold : Pool Positions := swapped funded sell 3

/-- The funded pool, saved and restored. -/
def restored : Pool Positions := (Pool.fromSnapshot funded.snapshot).getD funded

theorem restored_accepted : restored.Accepted := by
  have hok : funded.tryFork.isOk = true := by
    decide +kernel
  exact ⟨funded.snapshot, by decide +kernel, Outcome.eq_ok_getD hok funded⟩

theorem empty_add : empty.modifyLiquidity add = (.ok added, funded) := by
  have hresult : (empty.modifyLiquidity add).1 = .ok added := by
    decide +kernel
  exact Prod.ext hresult rfl

theorem funded_sell : funded.Swaps sell (.ok result) sold := by
  have hresult : (funded.swap sell 3).map Prod.fst = some (.ok result) := by
    decide +kernel
  exact ⟨3, swap_eq hresult⟩

theorem run : Run Pool.Performs empty [.modifyLiquidity add added, .swap sell result] sold :=
  Run.cons (Pool.Performs.modifyLiquidity empty_add)
    (Run.cons (Pool.Performs.swap funded_sell) (Run.nil sold))

theorem run_limitStrict :
    forall o, o ∈ [Operation.modifyLiquidity add added, Operation.swap sell result] ->
      o.LimitStrict := by
  intro o ho
  rcases List.mem_cons.mp ho with rfl | ho
  · trivial
  · rcases List.mem_singleton.mp ho with rfl
    exact ⟨by decide, by decide⟩

end Sample

end RmUniswap
