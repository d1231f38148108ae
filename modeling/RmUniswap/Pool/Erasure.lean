import RmUniswap.Pool.Operation

/-!
# Pools without positions

A pool may keep no positions. It then does what the pool with positions does, as
long as the positions accept the changes: positions only ever refuse a change or
realize its fees.
-/

namespace RmUniswap

open Foundation

variable {A : Type} [LawfulAllocator TickSlabValue A]

/-- An operation as a pool without positions reports it. -/
def Operation.withoutFees : Operation -> Operation
  | .modifyLiquidity params result =>
      .modifyLiquidity params { result with feeDelta := BalanceDelta.default }
  | .swap params result => .swap params result
  | .setProtocolFee protocolFee => .setProtocolFee protocolFee

namespace Pool

def erase (p : Pool Positions A) : Pool Unit A :=
  { state := p.state
    swapFee := p.swapFee
    tickSpacing := p.tickSpacing
    ticks := p.ticks
    positions := () }

variable {p p' : Pool Positions A} {params : SwapParamsInner} {o : Operation}
  {ops : List Operation}

/-!
# Swaps
-/

theorem runSwap_erase (p : Pool Positions A) (access : Access) (params : SwapParamsInner)
    (fuel : Nat) :
    p.erase.runSwap access params fuel =
      (p.runSwap access params fuel).map fun r => (r.1, r.2.erase) := by
  unfold runSwap
  have hfee : p.erase.resolveSwapFee params = p.resolveSwapFee params := rfl
  rw [hfee]
  cases p.resolveSwapFee params with
  | error e => rfl
  | ok swapFee =>
      dsimp only
      unfold swapInner
      have hctx : p.erase.swapContext access swapFee params =
          p.swapContext access swapFee params := rfl
      have hstart : p.erase.swapStart params = p.swapStart params := rfl
      have hprice : p.erase.state = p.state := rfl
      have hticks : p.erase.ticks = p.ticks := rfl
      dsimp only
      rw [hctx, hstart, hprice, hticks]
      split
      · rfl
      · cases checkLimit params.zeroForOne p.state.sqrtPriceX96 params.sqrtPriceLimit with
        | error e => rfl
        | ok u =>
            dsimp only
            rw [Option.map_map]
            congr 1
            funext ⟨s, ticks⟩
            cases s with
            | error e => rfl
            | ok s =>
                dsimp only [Function.comp_apply]
                unfold finishSwap
                cases (p.swapContext access swapFee params).swapDelta s <;> rfl

theorem swap_erase (p : Pool Positions A) (params : SwapParamsInner) (fuel : Nat) :
    p.erase.swap params fuel = (p.swap params fuel).map fun r => (r.1, r.2.erase) :=
  runSwap_erase p .exclusive params fuel

theorem quoteSwap_erase (p : Pool Positions A) (params : SwapParamsInner) (fuel : Nat) :
    p.erase.quoteSwap params fuel = p.quoteSwap params fuel := by
  unfold quoteSwap
  rw [runSwap_erase, Option.map_map]
  rfl

/-!
# Liquidity changes
-/

theorem realizeFees_unit (p : Pool Unit A) (params : ModifyLiquidityParams)
    (lower upper : TickBoundary) :
    p.realizeFees params lower upper = (.ok BalanceDelta.default, ()) := rfl

theorem modifyLiquidity_erase {params : ModifyLiquidityParams} {result : ModifyLiquidityResult}
    (h : p.modifyLiquidity params = (.ok result, p')) :
    p.erase.modifyLiquidity params =
      (.ok { result with feeDelta := BalanceDelta.default }, p'.erase) := by
  have hspacing : p.erase.tickSpacing = p.tickSpacing := rfl
  have hstate : p.erase.state = p.state := rfl
  have hticks : p.erase.ticks = p.ticks := rfl
  unfold modifyLiquidity at h ⊢
  rw [hspacing, hstate, hticks]
  cases hrange : checkTicks params.tickLower params.tickUpper p.tickSpacing with
  | error e =>
      rw [hrange] at h
      cases h
  | ok u =>
      rw [hrange] at h
      dsimp only at h ⊢
      rcases hb : updateBoundaries p.state p.ticks params with ⟨e | ⟨lower, upper⟩, ticks⟩
      · rw [hb] at h
        cases h
      · rw [hb] at h
        dsimp only at h ⊢
        rw [realizeFees_unit]
        split at h
        · cases h
        · rename_i feeDelta positions _
          split at h
          · cases h
          · rename_i delta state hprincipal
            cases h
            rfl

theorem setProtocolFee_erase (p : Pool Positions A) (protocolFee : ProtocolFee) :
    p.erase.setProtocolFee protocolFee =
      ((p.setProtocolFee protocolFee).1, (p.setProtocolFee protocolFee).2.erase) := by
  unfold setProtocolFee
  have hfee : p.erase.swapFee = p.swapFee := rfl
  rw [hfee]
  cases p.swapFee.setProtocolFee protocolFee <;> rfl

/-!
# Runs
-/

theorem Performs.erase (h : Performs p o p') : Performs p.erase o.withoutFees p'.erase := by
  cases h with
  | modifyLiquidity h =>
      exact Performs.modifyLiquidity (modifyLiquidity_erase h)
  | swap h =>
      rcases h with ⟨fuel, h⟩
      refine Performs.swap ⟨fuel, ?_⟩
      rw [swap_erase, h]
      rfl
  | setProtocolFee h =>
      refine Performs.setProtocolFee ?_
      rw [setProtocolFee_erase, h]

/-- A pool without positions follows one with positions through any run, and then
swaps and quotes as it does, whether these succeed or fail. -/
theorem run_erase (h : Run Performs p ops p') :
    Run Performs p.erase (ops.map Operation.withoutFees) p'.erase ∧
      forall params fuel,
        p'.erase.swap params fuel = (p'.swap params fuel).map (fun r => (r.1, r.2.erase)) ∧
          p'.erase.quoteSwap params fuel = p'.quoteSwap params fuel := by
  refine ⟨?_, fun params fuel => ⟨swap_erase p' params fuel, quoteSwap_erase p' params fuel⟩⟩
  induction h with
  | nil p =>
      exact Run.nil p.erase
  | cons ho _ ih =>
      exact Run.cons ho.erase ih

theorem run_erase_sample : Run Performs Sample.empty.erase
    [.modifyLiquidity Sample.add Sample.added, .swap Sample.sell Sample.result]
    Sample.sold.erase :=
  (run_erase Sample.run).1

/-!
# Construction
-/

end Pool

def PoolSnapshot.erase (s : PoolSnapshot Positions) : PoolSnapshot Unit :=
  { state := s.state
    fee := s.fee
    protocolFee := s.protocolFee
    tickSpacing := s.tickSpacing
    ticks := s.ticks
    positions := () }

namespace Pool

variable {p : Pool Positions A}

theorem fromSnapshot_erase {s : PoolSnapshot Positions} (h : fromSnapshot s = .ok p) :
    fromSnapshot s.erase = .ok p.erase := by
  have hrestored := fromSnapshot_eq_ok h
  have hvalid : s.erase.Valid :=
    { spacing := hrestored.valid.spacing
      protocolFee := hrestored.valid.protocolFee
      tick := hrestored.valid.tick
      aligned := hrestored.valid.aligned
      accounted := hrestored.valid.accounted
      sums := hrestored.valid.sums
      active := hrestored.valid.active
      positions := rfl }
  unfold fromSnapshot at h ⊢
  rcases Outcome.bind_eq_ok.mp h with ⟨_, _, hrest⟩
  rcases Outcome.bind_eq_ok.mp hrest with ⟨ticks, hticks, hrest⟩
  rcases Outcome.bind_eq_ok.mp hrest with ⟨swapFee, hfee, hok⟩
  cases hok
  rw [hvalid.validate hrestored.ticks.positive, Outcome.ok_bind]
  unfold PoolSnapshot.erase
  dsimp only
  rw [hticks, Outcome.ok_bind, hfee]
  rfl

theorem Accepted.erase (h : p.Accepted) : p.erase.Accepted := by
  rcases h with ⟨s, hprice, hs⟩
  exact ⟨s.erase, hprice, fromSnapshot_erase hs⟩

theorem Fresh.erase (h : p.Fresh) : p.erase.Fresh := by
  rcases h with ⟨sqrtPriceX96, tick, liquidity, swapFee, tickSpacing, ticks, hprice, hempty, hnew⟩
  exact ⟨sqrtPriceX96, tick, liquidity, swapFee, tickSpacing, ticks, hprice, hempty,
    fromSnapshot_erase hnew⟩

end Pool

end RmUniswap
