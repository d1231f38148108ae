import RmUniswap.Pool.Ledger
import RmUniswap.Pool.RoundTrip

/-!
# Solvency

What the ticks of a pool hold of a token from the current price to the end of the
prices is its reserve. Every operation pays in at least what it adds to the reserve,
and takes out no more than it removes, so the principal a pool received covers its
reserve. The fees it kept cover what its positions are owed.
-/

namespace RmUniswap

open Foundation

variable {A : Type} [LawfulAllocator TickSlabValue A]

/-!
# Principal against the prices of a range
-/

def clampPrice (lower upper p : Nat) : Nat := max lower (min p upper)

theorem signedPrincipal_le {liquidityDelta : Int} {up : Bool} {amount : Nat} {unit : ℚ}
    (hup : up = decide (liquidityDelta ≥ 0))
    (hpays : up = true -> (liquidityDelta.natAbs : ℚ) * unit ≤ amount)
    (hpaid : up = false -> (amount : ℚ) ≤ liquidityDelta.natAbs * unit) :
    (liquidityDelta : ℚ) * unit ≤ -(signedPrincipal up amount : ℚ) := by
  unfold signedPrincipal
  by_cases hsign : liquidityDelta ≥ 0
  · rw [decide_eq_true hsign] at hup
    have hle := hpays hup
    have habs : (liquidityDelta.natAbs : ℚ) = liquidityDelta := by
      rw [← Int.cast_natCast, Int.natAbs_of_nonneg hsign]
    rw [hup, if_pos rfl, Int.cast_neg, neg_neg, Int.cast_natCast, ← habs]
    exact hle
  · rw [decide_eq_false hsign] at hup
    have hle := hpaid hup
    have habs : (liquidityDelta.natAbs : ℚ) = -liquidityDelta := by
      rw [← Int.cast_natCast, Int.ofNat_natAbs_of_nonpos (by omega), Int.cast_neg]
    rw [habs] at hle
    rw [hup, if_neg (by decide), Int.cast_natCast]
    linarith

theorem roundDiv_bounds (n : Nat) {d : Nat} (hd : 0 < d) :
    (n : ℚ) / d ≤ (roundDiv true n d : Nat) ∧ ((roundDiv false n d : Nat) : ℚ) ≤ n / d := by
  have hd' : (0 : ℚ) < d := by exact_mod_cast hd
  rw [roundDiv_true, roundDiv_false]
  constructor
  · rw [div_le_iff₀ hd']
    exact_mod_cast le_divCeil_mul hd
  · rw [le_div_iff₀ hd']
    exact_mod_cast Nat.div_mul_le_self n d

section Between

variable {a b : Nat}

theorem amount0Between_bounds (liquidity : Nat) (ha : 0 < a) (hab : a ≤ b) :
    (liquidity : ℚ) * held (unitReserve true) (fun _ => 1) a b ≤ amount0Between true liquidity a b ∧
      (amount0Between false liquidity a b : ℚ) ≤
        liquidity * held (unitReserve true) (fun _ => 1) a b := by
  have heq : (liquidity : ℚ) * held (unitReserve true) (fun _ => 1) a b =
      ((2 ^ 96 * (liquidity * (b - a)) : Nat) : ℚ) / (a * b : Nat) := by
    rw [held_token0 ha hab]
    push_cast [hab]
    ring
  unfold amount0Between
  rw [heq, max_eq_right hab, min_eq_left hab]
  exact roundDiv_bounds _ (Nat.mul_pos ha (ha.trans_le hab))

theorem amount1Between_bounds (liquidity : Nat) (hab : a ≤ b) :
    (liquidity : ℚ) * held (unitReserve false) (fun _ => 1) a b ≤
        amount1Between true liquidity a b ∧
      (amount1Between false liquidity a b : ℚ) ≤
        liquidity * held (unitReserve false) (fun _ => 1) a b := by
  have heq : (liquidity : ℚ) * held (unitReserve false) (fun _ => 1) a b =
      ((liquidity * (b - a) : Nat) : ℚ) / (2 ^ 96 : Nat) := by
    rw [held_token1 hab]
    push_cast [hab]
    ring
  unfold amount1Between
  rw [heq, max_eq_right hab, min_eq_left hab]
  exact roundDiv_bounds _ (by norm_num)

end Between

namespace ModifyLiquidityParams

variable {params : ModifyLiquidityParams} {state : PoolState}

def clamped (params : ModifyLiquidityParams) (state : PoolState) : Nat :=
  clampPrice (getSqrtPriceAtTick params.tickLower) (getSqrtPriceAtTick params.tickUpper)
    state.sqrtPriceX96

theorem prices_le (hlt : params.tickLower < params.tickUpper) :
    getSqrtPriceAtTick params.tickLower ≤ getSqrtPriceAtTick params.tickUpper := by
  have hlo := params.lowerInRange.1
  have hhi := params.upperInRange.2
  unfold minTick at hlo
  unfold maxTick at hhi
  exact le_of_lt (price_lt (by omega) hlt (by omega))

theorem clamped_bounds (state : PoolState) (hlt : params.tickLower < params.tickUpper) :
    getSqrtPriceAtTick params.tickLower ≤ params.clamped state ∧
      params.clamped state ≤ getSqrtPriceAtTick params.tickUpper := by
  have hle := prices_le hlt
  unfold clamped clampPrice
  omega

theorem principal_eq (hlt : params.tickLower < params.tickUpper)
    (hprice : IsValidSqrtPrice state.sqrtPriceX96)
    (hin : PriceInTick state.tick state.sqrtPriceX96) :
    params.principal state =
      (amount0Between params.adds params.liquidityDelta.natAbs (params.clamped state)
          (getSqrtPriceAtTick params.tickUpper),
        amount1Between params.adds params.liquidityDelta.natAbs
          (getSqrtPriceAtTick params.tickLower) (params.clamped state)) := by
  have hle := prices_le hlt
  have hlo := params.lowerInRange
  have hhi := params.upperInRange
  unfold TickInRange minTick maxTick at hlo hhi
  unfold principal
  dsimp only
  by_cases hbelow : state.tick < params.tickLower
  · have hprice := hin.le_price (by omega) hbelow (by unfold maxTick; omega)
    have hclamp : params.clamped state = getSqrtPriceAtTick params.tickLower := by
      unfold clamped clampPrice
      omega
    rw [if_pos hbelow, hclamp, amount1Between_self]
  · have hlower := hin.price_le hprice (by omega) (not_lt.mp hbelow)
    rw [if_neg hbelow]
    by_cases hinside : state.tick < params.tickUpper
    · have hupper := hin.le_price (by omega) hinside (by unfold maxTick; omega)
      have hclamp : params.clamped state = state.sqrtPriceX96 := by
        unfold clamped clampPrice
        omega
      rw [if_pos hinside, hclamp]
    · have hupper := hin.price_le hprice (by omega) (not_lt.mp hinside)
      have hclamp : params.clamped state = getSqrtPriceAtTick params.tickUpper := by
        unfold clamped clampPrice
        omega
      rw [if_neg hinside, hclamp, amount0Between_self]

def farPrice (token0 : Bool) : Nat := if token0 then maxSqrtPrice else minSqrtPrice

def unitHeld (params : ModifyLiquidityParams) (state : PoolState) (token0 : Bool) : ℚ :=
  held (unitReserve token0) (fun _ => 1) (params.clamped state)
    (if token0 then getSqrtPriceAtTick params.tickUpper else getSqrtPriceAtTick params.tickLower)

theorem held_range (hlt : params.tickLower < params.tickUpper) (l : ℚ) (token0 : Bool) :
    held (unitReserve token0)
        (fun x => if getSqrtPriceAtTick params.tickLower ≤ x ∧
          x < getSqrtPriceAtTick params.tickUpper then l else 0)
        state.sqrtPriceX96 (farPrice token0) =
      l * params.unitHeld state token0 := by
  have hle := prices_le hlt
  have hlower := price_valid params.lowerInRange
  have hupper := price_valid params.upperInRange
  rw [held_window hle]
  unfold unitHeld clamped clampPrice farPrice
  cases token0 with
  | true =>
      rw [if_pos rfl, if_pos rfl, min_eq_right hupper.2, max_eq_right hle]
  | false =>
      rw [if_neg (by decide), if_neg (by decide), min_eq_left (hlower.1.trans hle),
        max_eq_left hlower.1]

theorem principal_favours (hlt : params.tickLower < params.tickUpper)
    (hprice : IsValidSqrtPrice state.sqrtPriceX96)
    (hin : PriceInTick state.tick state.sqrtPriceX96) (token0 : Bool) :
    (params.liquidityDelta : ℚ) * params.unitHeld state token0 ≤
      -((params.principalDelta state).amount token0 : ℚ) := by
  have hclamp := clamped_bounds state hlt
  have hpos : 0 < params.clamped state :=
    (price_valid params.lowerInRange).pos.trans_le hclamp.1
  have hbounds0 := amount0Between_bounds params.liquidityDelta.natAbs hpos hclamp.2
  have hbounds1 := amount1Between_bounds params.liquidityDelta.natAbs hclamp.1
  unfold principalDelta
  rw [principal_eq hlt hprice hin]
  unfold unitHeld BalanceDelta.amount ofToken
  cases token0 with
  | true =>
      rw [if_pos rfl, if_pos rfl]
      exact signedPrincipal_le rfl (fun hup => by rw [hup]; exact hbounds0.1)
        (fun hdown => by rw [hdown]; exact hbounds0.2)
  | false =>
      rw [if_neg (by decide), if_neg (by decide), held_comm]
      exact signedPrincipal_le rfl (fun hup => by rw [hup]; exact hbounds1.1)
        (fun hdown => by rw [hdown]; exact hbounds1.2)

end ModifyLiquidityParams

/-!
# Reserves of a pool
-/

namespace Pool

variable {p p' : Pool Positions A} {params : ModifyLiquidityParams} {token0 : Bool}

/-- What the ticks hold of a token from the price to the end of the prices. -/
def reserve (p : Pool Positions A) (token0 : Bool) : ℚ :=
  reserveBetween token0 p.ticks.snapshot p.state.sqrtPriceX96
    (ModifyLiquidityParams.farPrice token0)

theorem valid_of_between {price x : Nat} (hprice : IsValidSqrtPrice price)
    (hx : Between price (ModifyLiquidityParams.farPrice token0) x) : IsValidSqrtPrice x := by
  have hlo := hprice.1
  have hhi := hprice.2
  unfold Between ModifyLiquidityParams.farPrice at hx
  cases token0 with
  | true =>
      rw [if_pos rfl] at hx
      exact ⟨by omega, by omega⟩
  | false =>
      rw [if_neg (by decide)] at hx
      exact ⟨by omega, by omega⟩

theorem Backed.profile_eq (hp : p.Backed) (x : Nat) :
    profile p.ticks.snapshot x = (p.positions.activeAt (getTickAtSqrtPrice x) : ℚ) := by
  unfold profile
  rw [hp.reconciled.netBelow_eq]

theorem covering_iff {x : Nat} (hx : IsValidSqrtPrice x) (params : ModifyLiquidityParams) :
    Positions.covering (getTickAtSqrtPrice x) params.index =
      if getSqrtPriceAtTick params.tickLower ≤ x ∧ x < getSqrtPriceAtTick params.tickUpper then 1
      else 0 := by
  have hlo := params.lowerInRange
  have hhi := params.upperInRange
  have hlower := le_getTickAtSqrtPrice_iff (t := params.tickLower) hx
    (by unfold TickInRange minTick at hlo; omega) hlo.2
  have hupper := le_getTickAtSqrtPrice_iff (t := params.tickUpper) hx
    (by unfold TickInRange minTick at hhi; omega) hhi.2
  unfold Positions.covering
  exact if_congr (and_congr hlower (not_le.symm.trans ((not_congr hupper).trans not_le))) rfl rfl

theorem Backed.held_changed (hp : p.Backed) (hlt : params.tickLower < params.tickUpper)
    (token0 : Bool) :
    held (unitReserve token0)
        (fun x => ((p.positions.activeAt (getTickAtSqrtPrice x) +
          params.liquidityDelta *
            Positions.covering (getTickAtSqrtPrice x) params.index : Int) : ℚ))
        p.state.sqrtPriceX96 (ModifyLiquidityParams.farPrice token0) =
      p.reserve token0 + params.liquidityDelta * params.unitHeld p.state token0 := by
  rw [← ModifyLiquidityParams.held_range hlt]
  unfold reserve reserveBetween
  rw [← held_add_density]
  apply held_congr
  intro x hx
  rw [hp.profile_eq, covering_iff (valid_of_between hp.sound.price hx)]
  split <;> push_cast <;> ring

theorem held_nonneg_of_profile (hp : p.Backed) {density : Nat -> ℚ}
    (hdensity : forall x, 0 ≤ density x) (token0 : Bool) :
    0 ≤ held (unitReserve token0) density p.state.sqrtPriceX96
      (ModifyLiquidityParams.farPrice token0) := by
  apply held_nonneg
  · intro x hx
    exact le_of_lt (unitReserve_pos (valid_of_between hp.sound.price hx).pos)
  · intro x _
    exact hdensity x

theorem activeAt_nonneg (positions : Positions) (t : Int) : 0 ≤ positions.activeAt t :=
  SortedMap.weighted_nonneg Positions.size_nonneg fun i => by
    unfold Positions.covering
    split <;> norm_num

theorem Backed.reserve_nonneg (hp : p.Backed) (token0 : Bool) : 0 ≤ p.reserve token0 := by
  refine held_nonneg_of_profile hp (fun x => ?_) token0
  rw [hp.profile_eq]
  exact_mod_cast activeAt_nonneg p.positions _

/-!
# Steps
-/

theorem Backed.reserve_modify {result : ModifyLiquidityResult} (hp : p.Backed)
    (h : p.modifyLiquidity params = (.ok result, p')) (token0 : Bool) :
    p'.reserve token0 =
      p.reserve token0 + params.liquidityDelta * params.unitHeld p.state token0 := by
  have hp' := hp.modify h
  have hrealizes := hp.realizes h
  have hstate := modifyLiquidity_state hp h
  have hprice : p'.state.sqrtPriceX96 = p.state.sqrtPriceX96 := by rw [hstate]
  rw [← hp.held_changed hrealizes.range.1]
  unfold reserve reserveBetween
  rw [hprice]
  apply held_congr
  intro x _
  rw [hp'.profile_eq, hrealizes.positions]
  unfold Positions.activeAt
  rw [weighted_put hrealizes.updatable]

theorem Backed.reserve_modify_le {result : ModifyLiquidityResult} (hp : p.Backed)
    (h : p.modifyLiquidity params = (.ok result, p')) (token0 : Bool) :
    p'.reserve token0 ≤ p.reserve token0 - (result.delta.amount token0 : ℚ) := by
  have hrange := (hp.realizes h).range
  rw [hp.reserve_modify h]
  by_cases hzero : params.liquidityDelta = 0
  · -- A change of nothing has no principal.
    have hcases := modify_cases hp.sound.holds params
    rw [h] at hcases
    cases hcases with
    | done _ _ _ hprincipal =>
        have hdelta := ((settlePrincipal_ok hprincipal).2.2.1 hzero).2
        have hnone : BalanceDelta.default.amount token0 = 0 := by
          cases token0 <;> rfl
        rw [hdelta, hnone, hzero, Int.cast_zero, zero_mul]
        linarith
  · have hfavours := params.principal_favours hrange.1 hp.sound.price hp.sound.inTick token0
    rw [(modify_permitted hp.sound.holds hp.sound.price (hp.position_lt _) hzero h).2.1]
    linarith

section Loop

variable {swap : SwapParamsInner} {ctx : SwapContext} {cs : List StepComputations}
  {b : SwapLoopState × TickSlab A}

/-- A swap takes in at least what it adds to one reserve, and pays no more than it
removes from the other. -/
theorem LoopRun.reserve_le (h : LoopRun p swap ctx cs b) (hp : p.Backed) (token0 : Bool) :
    (p.committed swap b).reserve token0 ≤ p.reserve token0 +
      (if token0 = swap.zeroForOne then (((cs.map fun c => c.swapStep.amountIn).sum : Nat) : ℚ)
        else -(((cs.map fun c => c.swapStep.amountOut).sum : Nat) : ℚ)) := by
  have hstart := h.start hp.sound.toUsable
  have hfinal := h.final hp.sound.toUsable
  have hreserves := SwapContext.run_reserves h.run hstart (hp.sound.follows swap)
  have hprice := SwapContext.run_price h.run hstart
  rw [h.zeroForOne] at hreserves hprice
  dsimp only at hreserves hprice
  have hpstart : (p.swapStart swap).sqrtPriceX96 = p.state.sqrtPriceX96 := rfl
  rw [hpstart] at hreserves hprice
  have hkept : (p.committed swap b).reserve token0 =
      reserveBetween token0 p.ticks.snapshot b.1.sqrtPriceX96
        (ModifyLiquidityParams.farPrice token0) := by
    unfold reserve reserveBetween
    show held _ (profile b.2.snapshot) _ _ = _
    rw [hreserves.2.2.2]
    rfl
  have hmin := hfinal.ready.price.1
  have hmax := hfinal.ready.price.2
  have hmin' := hp.sound.price.1
  have hmax' := hp.sound.price.2
  rw [hkept]
  unfold reserve
  split
  · rename_i htoken
    -- The new price lies beyond the old one, seen from the end of the input token.
    have hadd : reserveBetween token0 p.ticks.snapshot b.1.sqrtPriceX96 p.state.sqrtPriceX96 +
          reserveBetween token0 p.ticks.snapshot p.state.sqrtPriceX96
            (ModifyLiquidityParams.farPrice token0) =
        reserveBetween token0 p.ticks.snapshot b.1.sqrtPriceX96
          (ModifyLiquidityParams.farPrice token0) := by
      apply held_add
      unfold ModifyLiquidityParams.farPrice
      cases hz : token0 with
      | true => exact Or.inl ⟨hprice.1 (htoken.symm.trans hz), hmax'⟩
      | false => exact Or.inr ⟨hmin', hprice.2 (htoken.symm.trans hz)⟩
    have hcomm : reserveBetween token0 p.ticks.snapshot b.1.sqrtPriceX96 p.state.sqrtPriceX96 =
        reserveBetween swap.zeroForOne p.ticks.snapshot p.state.sqrtPriceX96
          b.1.sqrtPriceX96 := by
      rw [htoken]
      exact held_comm _ _ _ _
    have hinput := hreserves.1
    rw [← hcomm] at hinput
    linarith
  · rename_i htoken
    have hother : token0 = !swap.zeroForOne := by
      cases token0 <;> cases hz : swap.zeroForOne <;> simp_all
    have hadd : reserveBetween token0 p.ticks.snapshot p.state.sqrtPriceX96 b.1.sqrtPriceX96 +
          reserveBetween token0 p.ticks.snapshot b.1.sqrtPriceX96
            (ModifyLiquidityParams.farPrice token0) =
        reserveBetween token0 p.ticks.snapshot p.state.sqrtPriceX96
          (ModifyLiquidityParams.farPrice token0) := by
      apply held_add
      unfold ModifyLiquidityParams.farPrice
      cases hz : swap.zeroForOne with
      | true =>
          rw [hz] at hother
          rw [hother]
          exact Or.inr ⟨hmin, hprice.1 hz⟩
      | false =>
          rw [hz] at hother
          rw [hother]
          exact Or.inl ⟨hprice.2 hz, hmax⟩
    have houtput := hreserves.2.1
    rw [← hother] at houtput
    linarith

end Loop

theorem Records.reserve_le {e : Entry} (hp : p.Backed) (h : Records p e p') (token0 : Bool) :
    p'.reserve token0 ≤ p.reserve token0 + (e.principal token0 : ℚ) := by
  cases h with
  | modifyLiquidity h =>
      have hle := hp.reserve_modify_le h token0
      unfold Entry.principal
      rw [Int.cast_neg]
      linarith
  | setProtocolFee h =>
      rcases setProtocolFee_ok h with ⟨swapFee, _, rfl⟩
      unfold Entry.principal
      rw [Int.cast_zero, add_zero]
      exact le_refl _
  | @swap swap fuel result p' h =>
      unfold Entry.principal
      dsimp only
      generalize hlist : p.swapComputations swap fuel = list
      have hcases := swap_cases h
      rw [hlist] at hcases
      cases hcases with
      | @empty ctx hzero =>
          simp
      | @done ctx cs b delta hrun hhalt hdelta =>
          refine (hrun.reserve_le hp token0).trans (le_of_eq ?_)
          split
          · rw [Int.cast_natCast]
          · rw [Int.cast_neg, Int.cast_natCast]

/-!
# Burning a position
-/

/-- What removing the liquidity of a position pays of a token, with its fees. -/
def payout (p : Pool Positions A) (params : ModifyLiquidityParams) (token0 : Bool) : Int :=
  (params.principalDelta p.state).amount token0 +
    ofToken token0 ((p.positions.stateAt params.index).earned (p.insideRead params))

theorem Backed.payout_eq {result : ModifyLiquidityResult} (hp : p.Backed)
    (hdelta : params.liquidityDelta ≠ 0) (h : p.modifyLiquidity params = (.ok result, p'))
    (token0 : Bool) :
    result.delta.amount token0 + result.feeDelta.amount token0 = p.payout params token0 := by
  have hprincipal := modify_permitted hp.sound.holds hp.sound.price (hp.position_lt _) hdelta h
  unfold payout
  rw [hprincipal.2.1, (hp.realizes h).fees, hp.earned_eq]

theorem size_le_activeAt (positions : Positions) (i : PositionIndex) (t : Int) :
    ((positions.stateAt i).liquidity : Int) * Positions.covering t i ≤ positions.activeAt t := by
  have hcovering (j : PositionIndex) : 0 ≤ Positions.covering t j := by
    unfold Positions.covering
    split <;> norm_num
  unfold Positions.activeAt
  rw [SortedMap.weighted_erase positions.map Positions.size _ i, sizeAt_eq]
  have hrest : 0 ≤ (positions.map.erase i).weighted Positions.size (Positions.covering t) :=
    SortedMap.weighted_nonneg Positions.size_nonneg hcovering
  omega

theorem Backed.principal_le_reserve (hp : p.Backed)
    (hl : (p.positions.stateAt params.index).liquidity ≠ 0)
    (hkeeps : 0 ≤ ((p.positions.stateAt params.index).liquidity : Int) + params.liquidityDelta)
    (token0 : Bool) :
    ((params.principalDelta p.state).amount token0 : ℚ) ≤ p.reserve token0 := by
  have hlt : params.tickLower < params.tickUpper := (hp.funded hl).ordered
  have hfavours := params.principal_favours hlt hp.sound.price hp.sound.inTick token0
  have hchanged := hp.held_changed hlt token0
  have hleft (x : Nat) : (0 : ℚ) ≤ ((p.positions.activeAt (getTickAtSqrtPrice x) +
      params.liquidityDelta *
        Positions.covering (getTickAtSqrtPrice x) params.index : Int) : ℚ) := by
    have hle := size_le_activeAt p.positions params.index (getTickAtSqrtPrice x)
    unfold Positions.covering at hle ⊢
    split_ifs at hle ⊢
    · rw [mul_one] at hle ⊢
      exact_mod_cast by omega
    · rw [mul_zero] at hle ⊢
      exact_mod_cast by omega
  have hnonneg := held_nonneg_of_profile hp hleft token0
  rw [hchanged] at hnonneg
  linarith

theorem fees_le_owed (p : Pool Positions A) (i : PositionIndex) (token0 : Bool) :
    ((p.positions.stateAt i).liquidity * p.growthSince token0 i : Int) ≤ p.owed token0 := by
  unfold owed
  rw [SortedMap.weighted_erase p.positions.map Positions.size _ i, sizeAt_eq]
  have hrest : 0 ≤ (p.positions.map.erase i).weighted Positions.size
      (fun i => (p.growthSince token0 i : Int)) :=
    SortedMap.weighted_nonneg Positions.size_nonneg fun _ => Int.natCast_nonneg _
  linarith

/-!
# Runs
-/

section Run

variable {ops : List Operation} {entries : List Entry}

theorem Fresh.reserve (hp : p.Fresh) (token0 : Bool) : p.reserve token0 = 0 := by
  have hzero : profile p.ticks.snapshot = fun _ => 0 := by
    funext x
    unfold profile
    rw [hp.ticks]
    rfl
  unfold Pool.reserve reserveBetween
  rw [hzero, held_const (l := 0) fun _ _ => rfl, zero_mul]

theorem Fresh.owed (hp : p.Fresh) (token0 : Bool) : p.owed token0 = 0 := by
  unfold Pool.owed
  rw [hp.positions]
  rfl

structure Balanced (p' : Pool Positions A) (entries : List Entry) (token0 : Bool) : Prop where
  principal : p'.reserve token0 ≤ ((entries.map (Entry.principal token0)).sum : Int)
  fees : p'.owed token0 ≤ 2 ^ 128 * (entries.map (Entry.retained token0)).sum
  received : Operation.balance (entries.map Entry.operation) token0 =
    (entries.map (Entry.principal token0)).sum + (entries.map (Entry.retained token0)).sum
  collected : (entries.map (Entry.collected token0)).sum =
    (entries.map (Entry.provided token0)).sum +
      ((entries.map Entry.operation).map (Operation.toProtocol token0)).sum

theorem run_balanced (hp : p.Fresh) (h : Run Records p entries p') (token0 : Bool) :
    Balanced p' entries token0 := by
  have haccruing := hp.accruing
  have hkeep (s : Pool Positions A) (e : Entry) (s' : Pool Positions A) (hs : s.Accruing)
      (he : Records s e s') : s'.Accruing := hs.performs he.performs
  have hreserve := h.sum_le (f := fun s => s.reserve token0)
    (g := fun e => (e.principal token0 : ℚ))
    (fun s e s' hs he => ⟨hkeep s e s' hs he, he.reserve_le hs.toBacked token0⟩) haccruing
  have howed := h.sum_le (f := fun s => s.owed token0)
    (fun s e s' hs he => ⟨hkeep s e s' hs he, he.owed_le hs token0⟩) haccruing
  have hlabels := h.forall_labels
    (Q := fun e => e.operation.received token0 = e.principal token0 + e.retained token0 ∧
      e.collected token0 = e.provided token0 + e.operation.toProtocol token0)
    (fun s e s' hs he => ⟨hkeep s e s' hs he, he.received hs.sound.toUsable token0,
      he.collected hs.sound.toUsable token0⟩) haccruing
  rw [hp.reserve, zero_add] at hreserve
  rw [hp.owed, zero_add, List.sum_map_mul_left] at howed
  refine ⟨?_, howed, ?_, ?_⟩
  · rw [Int.cast_list_sum, List.map_map]
    exact hreserve
  · unfold Operation.balance
    rw [List.map_map, ← List.sum_map_add]
    exact congrArg List.sum (List.map_congr_left fun e he => (hlabels e he).1)
  · rw [List.map_map, ← List.sum_map_add]
    exact congrArg List.sum (List.map_congr_left fun e he => (hlabels e he).2)

theorem Balanced.fees_nonneg (h : Balanced p' entries token0) :
    0 ≤ (entries.map (Entry.retained token0)).sum := by
  have howed := p'.owed_nonneg token0
  have hfees := h.fees
  omega

theorem Balanced.payout_le_of_keeps (h : Balanced p' entries token0) (hp : p'.Backed)
    (hl : (p'.positions.stateAt params.index).liquidity ≠ 0)
    (hkeeps : 0 ≤ ((p'.positions.stateAt params.index).liquidity : Int) + params.liquidityDelta) :
    p'.payout params token0 ≤ Operation.balance (entries.map Entry.operation) token0 := by
  have hprincipal : (params.principalDelta p'.state).amount token0 ≤
      (entries.map (Entry.principal token0)).sum := by
    exact_mod_cast (hp.principal_le_reserve hl hkeeps token0).trans h.principal
  have hfees := (p'.fees_le_owed params.index token0).trans h.fees
  have hfloor : ((p'.positions.stateAt params.index).liquidity *
      p'.growthSince token0 params.index / 2 ^ 128 : Nat) ≤
        (entries.map (Entry.retained token0)).sum := by
    have hnonneg := h.fees_nonneg
    have hle : (p'.positions.stateAt params.index).liquidity *
        p'.growthSince token0 params.index ≤ 2 ^ 128 *
          (entries.map (Entry.retained token0)).sum.toNat := by
      zify
      rw [Int.toNat_of_nonneg hnonneg]
      exact hfees
    have hdiv := Nat.div_le_of_le_mul hle
    omega
  unfold payout
  rw [h.received, hp.earned_eq]
  exact add_le_add hprincipal hfloor

theorem Balanced.payout_le (h : Balanced p' entries token0) (hp : p'.Backed)
    (hl : (p'.positions.stateAt params.index).liquidity ≠ 0)
    (hburn : params.liquidityDelta = -(p'.positions.stateAt params.index).liquidity) :
    p'.payout params token0 ≤ Operation.balance (entries.map Entry.operation) token0 :=
  h.payout_le_of_keeps hp hl (by omega)

end Run

end Pool

end RmUniswap
