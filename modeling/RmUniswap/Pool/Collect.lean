import RmUniswap.Foundation.Instalments
import RmUniswap.Pool.Accrual

/-!
# Collecting often or seldom

Two runs make the same requests, but the second one also collects the fees of one
position now and then. Only what that position has on record differs between the
pools, so every other result is the same, and what the position is paid differs by the
rounding of the payments the first run does not make.
-/

namespace RmUniswap

open Foundation

variable {A : Type} [LawfulAllocator TickSlabValue A]

/-!
# The outcome of a swap
-/

theorem SwapContext.loop_add {ctx : SwapContext} {fuel : Nat} (k : Nat) {s : SwapLoopState}
    {ticks : TickSlab A} {r : Except Error SwapLoopState × TickSlab A}
    (h : ctx.loop fuel s ticks = some r) : ctx.loop (fuel + k) s ticks = some r := by
  induction fuel generalizing s ticks with
  | zero =>
      cases h
  | succ fuel ih =>
      rw [Nat.succ_add]
      unfold loop at h ⊢
      split
      · rename_i hhalt
        rw [if_pos hhalt] at h
        exact h
      · rename_i hrun
        rw [if_neg hrun] at h
        cases hstep : ctx.step s ticks with
        | mk result ticks' =>
            rw [hstep] at h
            cases result with
            | error e => exact h
            | ok s' => exact ih h

namespace Pool

section Swap

variable {P : Type} {p p' p'' : Pool P A} {params : SwapParamsInner}
  {result result' : Except Error SwapResult}

theorem swap_add {fuel : Nat} (k : Nat) {r : Except Error SwapResult × Pool P A}
    (h : p.swap params fuel = some r) : p.swap params (fuel + k) = some r := by
  unfold swap runSwap at h ⊢
  cases hfee : p.resolveSwapFee params with
  | error e =>
      rw [hfee] at h
      exact h
  | ok swapFee =>
      rw [hfee] at h
      unfold swapInner at h ⊢
      dsimp only at h ⊢
      split
      · rename_i hzero
        rw [if_pos hzero] at h
        exact h
      · rename_i hamount
        rw [if_neg hamount] at h
        cases hlimit : checkLimit params.zeroForOne p.state.sqrtPriceX96 params.sqrtPriceLimit with
        | error e =>
            rw [hlimit] at h
            exact h
        | ok u =>
            rw [hlimit] at h
            dsimp only at h ⊢
            rcases Option.map_eq_some_iff.mp h with ⟨last, hloop, hr⟩
            rw [SwapContext.loop_add k hloop, Option.map_some, hr]

theorem Swaps.unique (h : p.Swaps params result p') (h' : p.Swaps params result' p'') :
    result' = result ∧ p'' = p' := by
  rcases h with ⟨fuel, h⟩
  rcases h' with ⟨fuel', h'⟩
  have hlast := swap_add fuel' h
  have hlast' := swap_add fuel h'
  rw [Nat.add_comm fuel' fuel, hlast] at hlast'
  injection hlast' with heq
  injection heq with hresult hpool
  exact ⟨hresult.symm, hpool.symm⟩

theorem Swaps.positions {done : SwapResult} (h : p.Swaps params (.ok done) p') :
    p'.positions = p.positions := by
  rcases h with ⟨fuel, h⟩
  generalize hlist : p.swapComputations params fuel = list
  have hcases := swap_cases h
  rw [hlist] at hcases
  cases hcases with
  | empty _ => rfl
  | done _ _ _ => rfl

theorem Swaps.withPositions (h : p.Swaps params result p') (positions : P) :
    ({ p with positions } : Pool P A).Swaps params result { p' with positions } := by
  rcases h with ⟨fuel, h⟩
  refine ⟨fuel, ?_⟩
  unfold swap runSwap at h ⊢
  have hfees :
      ({ p with positions } : Pool P A).resolveSwapFee params = p.resolveSwapFee params := rfl
  rw [hfees]
  cases hfee : p.resolveSwapFee params with
  | error e =>
      rw [hfee] at h
      cases h
      rfl
  | ok swapFee =>
      rw [hfee] at h
      unfold swapInner at h ⊢
      dsimp only at h ⊢
      split
      · rename_i hzero
        rw [if_pos hzero] at h
        cases h
        rfl
      · rename_i hamount
        rw [if_neg hamount] at h
        cases hlimit : checkLimit params.zeroForOne p.state.sqrtPriceX96 params.sqrtPriceLimit with
        | error e =>
            rw [hlimit] at h
            cases h
            rfl
        | ok u =>
            rw [hlimit] at h
            dsimp only at h ⊢
            have hctx : ({ p with positions } : Pool P A).swapContext .exclusive swapFee params =
                p.swapContext .exclusive swapFee params := rfl
            have hstart :
                ({ p with positions } : Pool P A).swapStart params = p.swapStart params := rfl
            rw [hctx, hstart]
            rcases Option.map_eq_some_iff.mp h with ⟨last, hloop, hr⟩
            rw [hloop, Option.map_some]
            rcases last with ⟨ending, ticks⟩
            cases ending with
            | error e =>
                cases hr
                rfl
            | ok s =>
                dsimp only at hr ⊢
                unfold finishSwap at hr ⊢
                cases hdelta : (p.swapContext .exclusive swapFee params).swapDelta s with
                | error e =>
                    rw [hdelta] at hr
                    cases hr
                    rfl
                | ok delta =>
                    rw [hdelta] at hr
                    cases hr
                    rfl

end Swap

/-!
# Pools that differ in one position
-/

/-- Two pools that differ at most in what one position has on record. -/
structure Siblings (i : PositionIndex) (p q : Pool Positions A) : Prop where
  rest : q = { p with positions := q.positions }
  others : SortedMap.AgreeOff p.positions.map q.positions.map i
  liquidity : (q.positions.stateAt i).liquidity = (p.positions.stateAt i).liquidity

section Siblings

variable {i : PositionIndex} {p p' q q' : Pool Positions A} {params : ModifyLiquidityParams}
  {result result' : ModifyLiquidityResult} {token0 : Bool}

theorem Siblings.refl (i : PositionIndex) (p : Pool Positions A) : Siblings i p p :=
  ⟨rfl, fun _ _ => rfl, rfl⟩

theorem Siblings.state (h : Siblings i p q) : q.state = p.state := by rw [h.rest]

theorem Siblings.ticks (h : Siblings i p q) : q.ticks = p.ticks := by rw [h.rest]

theorem Siblings.growthInside (h : Siblings i p q) (token0 : Bool) (lower upper : Int) :
    q.growthInside token0 lower upper = p.growthInside token0 lower upper := by
  unfold Pool.growthInside
  rw [h.state, h.ticks]

theorem Siblings.insideRead (h : Siblings i p q) (params : ModifyLiquidityParams) :
    q.insideRead params = p.insideRead params := by
  unfold Pool.insideRead insideAt changedBounds
  rw [h.state, h.ticks]

theorem Siblings.stateAt (h : Siblings i p q) {j : PositionIndex} (hj : j ≠ i) :
    q.positions.stateAt j = p.positions.stateAt j := by
  unfold Positions.stateAt
  rw [h.others j hj]

theorem Siblings.growthSince (h : Siblings i p q) {j : PositionIndex} (hj : j ≠ i) :
    q.growthSince token0 j = p.growthSince token0 j := by
  unfold Pool.growthSince
  rw [h.growthInside, h.stateAt hj]

theorem modify_withPositions (positions : Positions)
    (h : p.modifyLiquidity params = (.ok result, p'))
    (h' : ({ p with positions } : Pool Positions A).modifyLiquidity params = (.ok result', q')) :
    result'.delta = result.delta ∧ q' = { p' with positions := q'.positions } := by
  unfold modifyLiquidity at h h'
  cases hcheck : checkTicks params.tickLower params.tickUpper p.tickSpacing with
  | error e =>
      rw [hcheck] at h
      cases h
  | ok u =>
      dsimp only at h'
      rw [hcheck] at h h'
      dsimp only at h h'
      rcases hbounds : updateBoundaries p.state p.ticks params with ⟨bounds, ticks⟩
      rw [hbounds] at h h'
      cases bounds with
      | error e => cases h
      | ok bounds =>
          rcases bounds with ⟨lower, upper⟩
          dsimp only at h h'
          generalize
            ({ p with ticks } : Pool Positions A).realizeFees params lower upper = fees at h
          generalize ({ p with positions, ticks } : Pool Positions A).realizeFees params lower
            upper = fees' at h'
          rcases fees with ⟨fees, kept⟩
          rcases fees' with ⟨fees', kept'⟩
          cases fees with
          | error e => cases h
          | ok feeDelta =>
              cases fees' with
              | error e => cases h'
              | ok feeDelta' =>
                  dsimp only at h h'
                  rcases hprincipal : settlePrincipal p.state params lower upper with
                    ⟨delta, state⟩
                  rw [hprincipal] at h h'
                  cases delta with
                  | error e => cases h
                  | ok delta =>
                      cases h
                      cases h'
                      exact ⟨rfl, rfl⟩

theorem Siblings.modify (h : Siblings i p q) (hm : p.modifyLiquidity params = (.ok result, p'))
    (hm' : q.modifyLiquidity params = (.ok result', q')) :
    result'.delta = result.delta ∧ q' = { p' with positions := q'.positions } := by
  rw [h.rest] at hm'
  exact modify_withPositions q.positions hm hm'

theorem BalanceDelta.ext_amount {d d' : BalanceDelta}
    (h : forall token0, d'.amount token0 = d.amount token0) : d' = d := by
  have h0 := h true
  have h1 := h false
  unfold BalanceDelta.amount ofToken at h0 h1
  rcases d with ⟨amount0, amount1⟩
  rcases d' with ⟨amount0', amount1'⟩
  cases h0
  cases h1
  rfl

theorem Siblings.modify_other (h : Siblings i p q) (hp : p.Backed) (hq : q.Backed)
    (hj : params.index ≠ i) (hm : p.modifyLiquidity params = (.ok result, p'))
    (hm' : q.modifyLiquidity params = (.ok result', q')) : result' = result ∧ Siblings i p' q' := by
  have hsame := h.modify hm hm'
  have hr := hp.realizes hm
  have hr' := hq.realizes hm'
  have hfees : result'.feeDelta = result.feeDelta := by
    apply BalanceDelta.ext_amount
    intro token0
    rw [hr'.fees, hr.fees, h.stateAt hj, h.growthSince hj]
  refine ⟨?_, hsame.2, fun j hji => ?_, ?_⟩
  · rcases result with ⟨delta, feeDelta⟩
    rcases result' with ⟨delta', feeDelta'⟩
    cases hsame.1
    cases hfees
    rfl
  · rw [hr.positions, hr'.positions, h.stateAt hj, h.insideRead]
    unfold Positions.put
    rw [SortedMap.get?_insert, SortedMap.get?_insert, h.others j hji]
  · rw [hr.positions, hr'.positions, stateAt_put_ne _ (Ne.symm hj), stateAt_put_ne _ (Ne.symm hj)]
    exact h.liquidity

theorem Siblings.modify_self (h : Siblings i p q) (hp : p.Backed) (hq : q.Backed)
    (hi : params.index = i) (hm : p.modifyLiquidity params = (.ok result, p'))
    (hm' : q.modifyLiquidity params = (.ok result', q')) : q' = p' := by
  have hsame := h.modify hm hm'
  have hr := hp.realizes hm
  have hr' := hq.realizes hm'
  have hupdated : (q.positions.stateAt params.index).updated params.liquidityDelta
        (q.insideRead params) =
      (p.positions.stateAt params.index).updated params.liquidityDelta (p.insideRead params) := by
    unfold PositionState.updated
    rw [h.insideRead, hi, h.liquidity]
  have hpositions : q'.positions = p'.positions := by
    rw [hr.positions, hr'.positions, hupdated, hi]
    unfold Positions.put
    congr 1
    apply SortedMap.ext
    intro j
    rw [SortedMap.get?_insert, SortedMap.get?_insert]
    split
    · rfl
    · rename_i hj
      exact h.others j hj
  rw [hsame.2, hpositions]

theorem modify_zero (hzero : params.liquidityDelta = 0)
    (h : q.modifyLiquidity params = (.ok result, q')) :
    q' = { q with positions := q'.positions } := by
  unfold modifyLiquidity updateBoundaries at h
  rw [if_neg (not_not.mpr hzero)] at h
  dsimp only at h
  split at h
  · cases h
  · split at h
    · cases h
    · unfold settlePrincipal at h
      rw [if_neg (not_not.mpr hzero)] at h
      cases h
      rfl

theorem Siblings.collect (h : Siblings i p q) (hq : q.Backed) (hi : params.index = i)
    (hzero : params.liquidityDelta = 0) (hm' : q.modifyLiquidity params = (.ok result', q')) :
    Siblings i p q' := by
  have hr' := hq.realizes hm'
  have hrest := modify_zero hzero hm'
  refine ⟨?_, fun j hj => ?_, ?_⟩
  · rw [hrest, h.rest]
  · rw [hr'.positions]
    unfold Positions.put
    rw [SortedMap.get?_insert_ne _ (by rw [hi]; exact hj)]
    exact h.others j hj
  · rw [hr'.positions, hi, stateAt_put_self, ← h.liquidity]
    unfold PositionState.updated
    dsimp only
    rw [hzero, add_zero, Int.toNat_natCast]

end Siblings

/-!
# What the position is paid
-/

theorem Accruing.swap_inside {p p' : Pool Positions A} {swap : SwapParamsInner}
    {result : SwapResult} (hp : p.Accruing) (h : p.Swaps swap (.ok result) p') {i : PositionIndex}
    (hl : (p.positions.stateAt i).liquidity ≠ 0) (token0 : Bool) :
    exists added : Nat,
      (p'.growthInside token0 i.tickLower i.tickUpper : ZMod (2 ^ 256)) =
        p.growthInside token0 i.tickLower i.tickUpper + added ∧
      p.state.growth token0 + added ≤ p'.state.growth token0 := by
  have husable := hp.sound.toUsable
  have hfunded := hp.funded hl
  rcases h with ⟨fuel, h⟩
  generalize hlist : p.swapComputations swap fuel = list
  have hcases := swap_cases h
  rw [hlist] at hcases
  cases hcases with
  | empty _ =>
      exact ⟨0, by rw [Nat.cast_zero, add_zero], le_refl _⟩
  | done hrun _ _ =>
      refine ⟨inflow swap list token0 i, ?_, hrun.inflow_le husable token0 i⟩
      have hinside := hrun.growthInside husable hfunded.ordered hfunded.lower hfunded.upper token0
      refine hinside.trans ?_
      unfold inflow
      split
      · rfl
      · rw [Nat.cast_zero]

/-- The first pool has paid a position {lit}`a`, the second one {lit}`b` in
{lit}`k` payments more. -/
structure Follows (i : PositionIndex) (k : Nat) (a b : Bool -> Int) (p q : Pool Positions A) :
    Prop where
  siblings : Siblings i p q
  first : p.Accruing
  second : q.Accruing
  paid : forall token0, exists x : Nat,
    (p.positions.stateAt i).liquidity * p.growthSince token0 i =
        x + (p.positions.stateAt i).liquidity * q.growthSince token0 i ∧
      Instalments (2 ^ 128) k (a token0) (b token0) x

section Follows

variable {i : PositionIndex} {k : Nat} {a b : Bool -> Int} {p p' q q' : Pool Positions A}
  {params : ModifyLiquidityParams} {result result' : ModifyLiquidityResult}

theorem Follows.refl (i : PositionIndex) (hp : p.Accruing) :
    Follows i 0 (fun _ => 0) (fun _ => 0) p p :=
  ⟨Siblings.refl i p, hp, hp, fun _ => ⟨0, (Nat.zero_add _).symm, Instalments.refl _ _⟩⟩

theorem Follows.other (h : Follows i k a b p q) (hj : params.index ≠ i)
    (hm : p.modifyLiquidity params = (.ok result, p'))
    (hm' : q.modifyLiquidity params = (.ok result', q')) :
    result' = result ∧ Follows i k a b p' q' := by
  have hsame := h.siblings.modify_other h.first.toBacked h.second.toBacked hj hm hm'
  have hr := h.first.realizes hm
  have hr' := h.second.realizes hm'
  refine ⟨hsame.1, hsame.2, h.first.modify hm, h.second.modify hm', fun token0 => ?_⟩
  rcases h.paid token0 with ⟨x, hx, hpaid⟩
  refine ⟨x, ?_, hpaid⟩
  have hkept : p'.positions.stateAt i = p.positions.stateAt i := by
    rw [hr.positions, stateAt_put_ne _ (Ne.symm hj)]
  rw [hkept]
  by_cases hl : (p.positions.stateAt i).liquidity = 0
  · rw [hl, Nat.zero_mul, Nat.zero_mul] at hx ⊢
    exact hx
  · have hl' : (q.positions.stateAt i).liquidity ≠ 0 := by rwa [h.siblings.liquidity]
    rw [hr.others token0 i (Ne.symm hj) hl, hr'.others token0 i (Ne.symm hj) hl']
    exact hx

theorem Follows.self (h : Follows i k a b p q) (hi : params.index = i)
    (hm : p.modifyLiquidity params = (.ok result, p'))
    (hm' : q.modifyLiquidity params = (.ok result', q')) :
    q' = p' ∧ Follows i k (fun token0 => a token0 + result.feeDelta.amount token0)
      (fun token0 => b token0 + result'.feeDelta.amount token0) p' q' := by
  have hsame := h.siblings.modify_self h.first.toBacked h.second.toBacked hi hm hm'
  have hr := h.first.realizes hm
  have hr' := h.second.realizes hm'
  refine ⟨hsame, ?_⟩
  rw [hsame]
  refine ⟨Siblings.refl i p', h.first.modify hm, h.first.modify hm, fun token0 => ?_⟩
  rcases h.paid token0 with ⟨x, hx, hpaid⟩
  refine ⟨0, (Nat.zero_add _).symm, ?_⟩
  rw [hr.fees, hr'.fees, hi, h.siblings.liquidity, hx]
  exact hpaid.both _

theorem Follows.collect (h : Follows i k a b p q) (hi : params.index = i)
    (hzero : params.liquidityDelta = 0)
    (hm' : q.modifyLiquidity params = (.ok result', q')) :
    Follows i (k + 1) a (fun token0 => b token0 + result'.feeDelta.amount token0) p q' := by
  have hsame := h.siblings.collect h.second.toBacked hi hzero hm'
  have hr' := h.second.realizes hm'
  have hl : (p.positions.stateAt i).liquidity ≠ 0 := by
    have hupdatable := hr'.updatable
    unfold PositionState.Updatable at hupdatable
    rw [if_pos hzero, hi, h.siblings.liquidity] at hupdatable
    exact hupdatable
  have hl' : (q'.positions.stateAt params.index).liquidity ≠ 0 := by
    rwa [hi, hsame.liquidity]
  refine ⟨hsame, h.first, h.second.modify hm', fun token0 => ?_⟩
  rcases h.paid token0 with ⟨x, hx, hpaid⟩
  refine ⟨x + (p.positions.stateAt i).liquidity * q.growthSince token0 i, ?_, ?_⟩
  · have hrestart := hr'.restarts token0 hl'
    rw [hi] at hrestart
    rw [hrestart, Nat.mul_zero, Nat.add_zero]
    exact hx
  · rw [hr'.fees, hi, h.siblings.liquidity]
    exact hpaid.second _

theorem Follows.swap {swap : SwapParamsInner} {result result' : SwapResult}
    (h : Follows i k a b p q) (hs : p.Swaps swap (.ok result) p')
    (hs' : q.Swaps swap (.ok result') q') : result' = result ∧ Follows i k a b p' q' := by
  have hq := hs.withPositions q.positions
  rw [← h.siblings.rest] at hq
  have hsame := hq.unique hs'
  have hp' := h.first.swap hs
  have hq' := h.second.swap hs'
  have hresult : result' = result := by
    injection hsame.1
  have hkept := hs.positions
  have hsiblings : Siblings i p' q' := by
    rw [hsame.2]
    refine ⟨rfl, ?_, ?_⟩
    · rw [hkept]
      exact h.siblings.others
    · rw [hkept]
      exact h.siblings.liquidity
  refine ⟨hresult, hsiblings, hp', hq', fun token0 => ?_⟩
  rcases h.paid token0 with ⟨x, hx, hpaid⟩
  refine ⟨x, ?_, hpaid⟩
  rw [hkept]
  by_cases hl : (p.positions.stateAt i).liquidity = 0
  · rw [hl, Nat.zero_mul, Nat.zero_mul] at hx ⊢
    exact hx
  · have hl' : (q.positions.stateAt i).liquidity ≠ 0 := by rwa [h.siblings.liquidity]
    rcases h.first.swap_inside hs hl token0 with ⟨added, hinside, hgrowth⟩
    have hlt := hp'.growth token0
    have hsince := h.first.since token0 i hl
    have hsince' := h.second.since token0 i hl'
    rw [h.siblings.state] at hsince'
    have hfits : p.growthSince token0 i + added < 2 ^ 256 := by omega
    have hfits' : q.growthSince token0 i + added < 2 ^ 256 := by omega
    have hadd : p'.growthSince token0 i = p.growthSince token0 i + added := by
      unfold Pool.growthSince at hfits ⊢
      rw [hkept]
      exact wrappingSub_add hinside hfits
    have hadd' : q'.growthSince token0 i = q.growthSince token0 i + added := by
      have hpositions : q'.positions = q.positions := by rw [hsame.2]
      rw [← h.siblings.growthInside, ← hsiblings.growthInside] at hinside
      unfold Pool.growthSince at hfits' ⊢
      rw [hpositions]
      exact wrappingSub_add hinside hfits'
    rw [hadd, hadd', Nat.mul_add, Nat.mul_add, hx, Nat.add_assoc]

theorem Follows.setProtocolFee {protocolFee : ProtocolFee} (h : Follows i k a b p q)
    (hs : p.setProtocolFee protocolFee = (.ok (), p'))
    (hs' : q.setProtocolFee protocolFee = (.ok (), q')) : Follows i k a b p' q' := by
  have hp' := h.first.performs (Performs.setProtocolFee hs)
  have hq' := h.second.performs (Performs.setProtocolFee hs')
  rcases setProtocolFee_ok hs with ⟨swapFee, hfee, rfl⟩
  rcases setProtocolFee_ok hs' with ⟨swapFee', hfee', rfl⟩
  have hsame : swapFee' = swapFee := by
    have hq : q.swapFee = p.swapFee := by rw [h.siblings.rest]
    rw [hq, hfee] at hfee'
    injection hfee' with heq
    exact heq.symm
  refine ⟨⟨?_, h.siblings.others, h.siblings.liquidity⟩, hp', hq', h.paid⟩
  rw [hsame, h.siblings.rest]

end Follows

end Pool

/-!
# Runs
-/

namespace Operation

/-- What a caller asked for. -/
def request : Operation -> Request
  | .modifyLiquidity params _ => .modifyLiquidity params
  | .swap params _ => .swap params
  | .setProtocolFee protocolFee => .setProtocolFee protocolFee

/-- The operation changes this position. -/
def changes (i : PositionIndex) : Operation -> Bool
  | .modifyLiquidity params _ => decide (params.index = i)
  | .swap _ _ => false
  | .setProtocolFee _ => false

def pays (i : PositionIndex) (token0 : Bool) : Operation -> Int
  | .modifyLiquidity params result =>
      if params.index = i then result.feeDelta.amount token0 else 0
  | .swap _ _ => 0
  | .setProtocolFee _ => 0

theorem pays_self {i : PositionIndex} {params : ModifyLiquidityParams} (hi : params.index = i)
    (result : ModifyLiquidityResult) (token0 : Bool) :
    pays i token0 (.modifyLiquidity params result) = result.feeDelta.amount token0 := if_pos hi

/-- The fees a run pays to one position. -/
def paid (i : PositionIndex) (token0 : Bool) (ops : List Operation) : Int :=
  (ops.map (pays i token0)).sum

/-- The results of a run for everyone but one position. -/
def elsewhere (i : PositionIndex) (ops : List Operation) : List Operation :=
  ops.filter fun o => !o.changes i

end Operation

/-- The second run makes the requests of the first one, and {lit}`k` changes of
nothing on one position besides. -/
inductive Weaves (i : PositionIndex) : Nat -> List Operation -> List Operation -> Prop
  | nil : Weaves i 0 [] []
  | keep {k : Nat} {o o' : Operation} {ops ops' : List Operation} : o'.request = o.request ->
      Weaves i k ops ops' -> Weaves i k (o :: ops) (o' :: ops')
  | collect {k : Nat} {params : ModifyLiquidityParams} {result : ModifyLiquidityResult}
      {ops ops' : List Operation} : params.index = i -> params.liquidityDelta = 0 ->
      Weaves i k ops ops' -> Weaves i (k + 1) ops (.modifyLiquidity params result :: ops')

namespace Pool

section Weaves

variable {i : PositionIndex} {k n : Nat} {a b : Bool -> Int} {p p' q q' : Pool Positions A}
  {o o' : Operation} {ops ops' : List Operation}

theorem Follows.performs (h : Follows i k a b p q) (hrequest : o'.request = o.request)
    (ho : Performs p o p') (ho' : Performs q o' q') :
    Follows i k (fun token0 => a token0 + o.pays i token0)
        (fun token0 => b token0 + o'.pays i token0) p' q' ∧
      o'.changes i = o.changes i ∧ (o.changes i = false -> o' = o) := by
  have hsame {a' b' : Bool -> Int} (hpay : forall token0, a' token0 = 0 ∧ b' token0 = 0)
      (hf : Follows i k a b p' q') : Follows i k (fun token0 => a token0 + a' token0)
        (fun token0 => b token0 + b' token0) p' q' := by
    have ha : (fun token0 => a token0 + a' token0) = a := funext fun token0 => by
      rw [(hpay token0).1, add_zero]
    have hb : (fun token0 => b token0 + b' token0) = b := funext fun token0 => by
      rw [(hpay token0).2, add_zero]
    rw [ha, hb]
    exact hf
  cases ho with
  | @modifyLiquidity params result p' hm =>
      cases ho' with
      | @modifyLiquidity params' result' q' hm' =>
          injection hrequest with hparams
          rw [hparams] at hm' ⊢
          by_cases hi : params.index = i
          · have hself := (h.self hi hm hm').2
            simp only [Operation.pays_self hi]
            exact ⟨hself, rfl, fun hf => absurd hi (of_decide_eq_false hf)⟩
          · have hother := h.other hi hm hm'
            refine ⟨hsame (fun token0 => ⟨if_neg hi, if_neg hi⟩) hother.2, rfl, fun _ => ?_⟩
            rw [hother.1]
      | swap _ => cases hrequest
      | setProtocolFee _ => cases hrequest
  | @swap params result p' hs =>
      cases ho' with
      | modifyLiquidity _ => cases hrequest
      | @swap params' result' q' hs' =>
          injection hrequest with hparams
          rw [hparams] at hs' ⊢
          have hswap := h.swap hs hs'
          refine ⟨hsame (fun _ => ⟨rfl, rfl⟩) hswap.2, rfl, fun _ => ?_⟩
          rw [hswap.1]
      | setProtocolFee _ => cases hrequest
  | @setProtocolFee protocolFee p' hs =>
      cases ho' with
      | modifyLiquidity _ => cases hrequest
      | swap _ => cases hrequest
      | @setProtocolFee protocolFee' q' hs' =>
          injection hrequest with hfee
          rw [hfee] at hs' ⊢
          exact ⟨hsame (fun _ => ⟨rfl, rfl⟩) (h.setProtocolFee hs hs'), rfl, fun _ => rfl⟩

/-- Whole runs: the second one pays its extra payments, and all else is as in the
first one. -/
theorem Follows.run (h : Follows i n a b p q) (hw : Weaves i k ops ops')
    (hrun : Run Performs p ops p') (hrun' : Run Performs q ops' q') :
    Follows i (n + k) (fun token0 => a token0 + Operation.paid i token0 ops)
        (fun token0 => b token0 + Operation.paid i token0 ops') p' q' ∧
      Operation.elsewhere i ops' = Operation.elsewhere i ops := by
  induction hw generalizing n a b p q with
  | nil =>
      cases hrun
      cases hrun'
      have hnone {c : Bool -> Int} : (fun token0 => c token0 + Operation.paid i token0 []) = c :=
        funext fun token0 => add_zero _
      rw [hnone, hnone]
      exact ⟨h, rfl⟩
  | @keep k o o' ops ops' hrequest hw ih =>
      cases hrun with
      | cons ho hrest =>
          cases hrun' with
          | cons ho' hrest' =>
              have hone := h.performs hrequest ho ho'
              have hmore := ih hone.1 hrest hrest'
              have hpaid {c : Bool -> Int} {o : Operation} {ops : List Operation} :
                  (fun token0 => c token0 + o.pays i token0 + Operation.paid i token0 ops) =
                    fun token0 => c token0 + Operation.paid i token0 (o :: ops) :=
                funext fun token0 => by
                  unfold Operation.paid
                  rw [List.map_cons, List.sum_cons, add_assoc]
              rw [hpaid, hpaid] at hmore
              refine ⟨hmore.1, ?_⟩
              unfold Operation.elsewhere at hmore ⊢
              rw [List.filter_cons, List.filter_cons, hone.2.1, hmore.2]
              cases hchanges : o.changes i with
              | true => rfl
              | false => rw [hone.2.2 hchanges]
  | @collect k params result ops ops' hi hzero hw ih =>
      cases hrun' with
      | cons ho' hrest' =>
          cases ho' with
          | modifyLiquidity hm' =>
              have hmore := ih (h.collect hi hzero hm') hrun hrest'
              have hpaid : (fun token0 => b token0 + result.feeDelta.amount token0 +
                    Operation.paid i token0 ops') =
                  fun token0 => b token0 + Operation.paid i token0
                    (.modifyLiquidity params result :: ops') :=
                funext fun token0 => by
                  unfold Operation.paid
                  rw [List.map_cons, List.sum_cons, ← add_assoc, Operation.pays_self hi]
              rw [hpaid, Nat.add_right_comm, Nat.add_assoc] at hmore
              refine ⟨hmore.1, ?_⟩
              unfold Operation.elsewhere at hmore ⊢
              rw [List.filter_cons, ← hmore.2]
              have hchanges : Operation.changes i (.modifyLiquidity params result) = true :=
                decide_eq_true hi
              rw [hchanges]
              rfl

/-- Collecting the fees of a position more often changes nothing else, and loses the
position at most one unit of each token for each extra time. -/
theorem collect_often {p0 p p' p'' q' q'' : Pool Positions A} {history : List Operation}
    {final : ModifyLiquidityParams} {result result' : ModifyLiquidityResult} (h0 : p0.Fresh)
    (hhistory : Run Performs p0 history p)
    (hw : Weaves final.index k ops ops') (hrun : Run Performs p ops p')
    (hrun' : Run Performs p ops' q') (hfinal : p'.modifyLiquidity final = (.ok result, p''))
    (hfinal' : q'.modifyLiquidity final = (.ok result', q'')) :
    (q'.state = p'.state ∧ q'.ticks = p'.ticks ∧ q'' = p'') ∧
      Operation.elsewhere final.index ops' = Operation.elsewhere final.index ops ∧
      forall token0,
        Operation.paid final.index token0 ops' + result'.feeDelta.amount token0 ≤
            Operation.paid final.index token0 ops + result.feeDelta.amount token0 ∧
          Operation.paid final.index token0 ops + result.feeDelta.amount token0 ≤
            Operation.paid final.index token0 ops' + result'.feeDelta.amount token0 + k := by
  have hp := h0.accruing.run hhistory
  have hfollows := (Follows.refl final.index hp).run hw hrun hrun'
  have hlast := hfollows.1.self rfl hfinal hfinal'
  refine ⟨⟨hfollows.1.siblings.state, hfollows.1.siblings.ticks, hlast.1⟩, hfollows.2,
    fun token0 => ?_⟩
  rcases hlast.2.paid token0 with ⟨x, hx, hpaid⟩
  rw [hlast.1] at hx
  have hzero : x = 0 := by omega
  rw [hzero] at hpaid
  have hle := hpaid.le
  simp only [zero_add] at hle
  exact hle

end Weaves

end Pool

namespace Sample

/-- Collecting the fees of `add`. -/
def collect : ModifyLiquidityParams :=
  { add with
    liquidityDelta := 0
    deltaFits := by decide }

def collected : ModifyLiquidityResult :=
  { delta := BalanceDelta.default
    feeDelta := { amount0 := 2999999999999, amount1 := 0 } }

def recollected : ModifyLiquidityResult :=
  { delta := BalanceDelta.default
    feeDelta := BalanceDelta.default }

def paidOut : Pool Positions := (sold.modifyLiquidity collect).2

theorem sold_collect : sold.modifyLiquidity collect = (.ok collected, paidOut) := by
  have hresult : (sold.modifyLiquidity collect).1 = .ok collected := by
    decide +kernel
  exact Prod.ext hresult rfl

theorem paidOut_collect :
    paidOut.modifyLiquidity collect = (.ok recollected, (paidOut.modifyLiquidity collect).2) := by
  have hresult : (paidOut.modifyLiquidity collect).1 = .ok recollected := by
    decide +kernel
  exact Prod.ext hresult rfl

end Sample

theorem Pool.collect_often_sample :
    Operation.paid Sample.collect.index true
          [.swap Sample.sell Sample.result, .modifyLiquidity Sample.collect Sample.collected] + 0 ≤
        Operation.paid Sample.collect.index true [.swap Sample.sell Sample.result] +
          2999999999999 ∧
      Operation.paid Sample.collect.index true [.swap Sample.sell Sample.result] + 2999999999999 ≤
        Operation.paid Sample.collect.index true
          [.swap Sample.sell Sample.result, .modifyLiquidity Sample.collect Sample.collected] + 0 +
            1 := by
  have hweaves : Weaves Sample.collect.index 1 [.swap Sample.sell Sample.result]
      [.swap Sample.sell Sample.result, .modifyLiquidity Sample.collect Sample.collected] :=
    Weaves.keep rfl (Weaves.collect rfl rfl Weaves.nil)
  have hsell := Performs.swap Sample.funded_sell
  exact (collect_often Sample.empty_fresh
    (Run.cons (Performs.modifyLiquidity Sample.empty_add) (Run.nil Sample.funded)) hweaves
    (Run.cons hsell (Run.nil Sample.sold))
    (Run.cons hsell (Run.cons (Performs.modifyLiquidity Sample.sold_collect)
      (Run.nil Sample.paidOut)))
    Sample.sold_collect Sample.paidOut_collect).2.2 true

end RmUniswap
