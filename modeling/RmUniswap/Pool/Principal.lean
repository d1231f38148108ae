import RmUniswap.Pool.Backed

/-!
# Changes a pool accepts

The principal of a change in plain arithmetic, and the conditions on a pool and its
parameters under which a change of some liquidity succeeds.
-/

namespace RmUniswap

open Foundation

variable {A : Type} [LawfulAllocator TickSlabValue A]

/-!
# Amounts between two prices
-/

def amount0Between (up : Bool) (liquidity a b : Nat) : Nat :=
  roundDiv up (2 ^ 96 * (liquidity * (max a b - min a b))) (min a b * max a b)

def amount1Between (up : Bool) (liquidity a b : Nat) : Nat :=
  roundDiv up (liquidity * (max a b - min a b)) (2 ^ 96)

section Between

variable {up : Bool} {liquidity a b : Nat}

theorem amount0DeltaForLiquidityChange_eq (hl : liquidity < 2 ^ 128) (ha : IsValidSqrtPrice a)
    (hb : IsValidSqrtPrice b) : amount0DeltaForLiquidityChange a b liquidity up =
      liquidityAmountToI128 (amount0Between up liquidity a b) up := by
  have heq : amountOrOverflow (getAmount0Delta a b liquidity up) =
      .ok (amount0Between up liquidity a b) := by
    unfold amount0Between
    rcases le_total a b with hab | hba
    · rw [getAmount0Delta_eq hl ha hb hab, max_eq_right hab, min_eq_left hab]
      rfl
    · rw [getAmount0Delta_comm, getAmount0Delta_eq hl hb ha hba, max_eq_left hba,
        min_eq_right hba]
      rfl
  unfold amount0DeltaForLiquidityChange
  rw [heq]
  rfl

theorem amount1DeltaForLiquidityChange_eq (hl : liquidity < 2 ^ 128) (ha : IsValidSqrtPrice a)
    (hb : IsValidSqrtPrice b) : amount1DeltaForLiquidityChange a b liquidity up =
      liquidityAmountToI128 (amount1Between up liquidity a b) up := by
  have heq : amountOrOverflow (getAmount1Delta a b liquidity up) =
      .ok (amount1Between up liquidity a b) := by
    unfold amount1Between
    rcases le_total a b with hab | hba
    · rw [getAmount1Delta_eq hl hb hab, max_eq_right hab, min_eq_left hab]
      rfl
    · rw [getAmount1Delta_comm, getAmount1Delta_eq hl ha hba, max_eq_left hba,
        min_eq_right hba]
      rfl
  unfold amount1DeltaForLiquidityChange
  rw [heq]
  rfl

theorem divCeil_pos {n d : Nat} (hn : 0 < n) (hd : 0 < d) : 0 < divCeil n d := by
  by_contra hzero
  have hle : divCeil n d ≤ 0 := not_lt.mp hzero
  rw [divCeil_le_iff hd, Nat.zero_mul] at hle
  omega

theorem amount0Between_pos (hl : 0 < liquidity) (ha : IsValidSqrtPrice a)
    (hb : IsValidSqrtPrice b) (hne : a ≠ b) : 0 < amount0Between true liquidity a b := by
  have hdiff : 0 < max a b - min a b := by omega
  have hmin : 0 < min a b := lt_min ha.pos hb.pos
  have hmax : 0 < max a b := lt_max_of_lt_left ha.pos
  unfold amount0Between
  rw [roundDiv_true]
  exact divCeil_pos (Nat.mul_pos (by norm_num) (Nat.mul_pos hl hdiff)) (Nat.mul_pos hmin hmax)

theorem amount1Between_pos (hl : 0 < liquidity) (hne : a ≠ b) :
    0 < amount1Between true liquidity a b := by
  have hdiff : 0 < max a b - min a b := by omega
  unfold amount1Between
  rw [roundDiv_true]
  exact divCeil_pos (Nat.mul_pos hl hdiff) (by norm_num)

theorem amount0Between_self (up : Bool) (liquidity a : Nat) :
    amount0Between up liquidity a a = 0 := by
  unfold amount0Between
  rw [max_self, min_self, Nat.sub_self, Nat.mul_zero, Nat.mul_zero, roundDiv_zero]

theorem amount1Between_self (up : Bool) (liquidity a : Nat) :
    amount1Between up liquidity a a = 0 := by
  unfold amount1Between
  rw [max_self, min_self, Nat.sub_self, Nat.mul_zero, roundDiv_zero]

end Between

/-!
# The principal of a change
-/

def signedPrincipal (up : Bool) (amount : Nat) : Int := if up then -amount else amount

def PrincipalFits (up : Bool) (amount : Nat) : Prop :=
  if up then amount ≤ 2 ^ 127 else amount < 2 ^ 127

theorem liquidityAmountToI128_eq_ok {amount : Nat} {up : Bool} {d : Int} :
    liquidityAmountToI128 amount up = .ok d ↔
      PrincipalFits up amount ∧ d = signedPrincipal up amount := by
  have hguard {c : Prop} [Decidable c] {x : Int} :
      (if c then .ok x else .error .amountOverflow : Except Error Int) = .ok d ↔ c ∧ d = x := by
    split
    · rename_i hc
      simp only [Except.ok.injEq, hc, true_and, eq_comm]
    · rename_i hc
      simp only [reduceCtorEq, hc, false_and]
  cases up with
  | false =>
      exact hguard
  | true =>
      exact hguard

theorem principalFits_zero (up : Bool) : PrincipalFits up 0 := by
  cases up <;> simp [PrincipalFits]

theorem signedPrincipal_zero (up : Bool) : signedPrincipal up 0 = 0 := by
  cases up <;> rfl

namespace ModifyLiquidityParams

def adds (params : ModifyLiquidityParams) : Bool := decide (params.liquidityDelta ≥ 0)

/-- The size of the principal in both tokens: token0 above the current tick, token1
below it. -/
def principal (params : ModifyLiquidityParams) (state : PoolState) : Nat × Nat :=
  let lower := getSqrtPriceAtTick params.tickLower
  let upper := getSqrtPriceAtTick params.tickUpper
  let liquidity := params.liquidityDelta.natAbs
  if state.tick < params.tickLower then
    (amount0Between params.adds liquidity lower upper, 0)
  else if state.tick < params.tickUpper then
    (amount0Between params.adds liquidity state.sqrtPriceX96 upper,
      amount1Between params.adds liquidity lower state.sqrtPriceX96)
  else
    (0, amount1Between params.adds liquidity lower upper)

def principalDelta (params : ModifyLiquidityParams) (state : PoolState) : BalanceDelta :=
  { amount0 := signedPrincipal params.adds (params.principal state).1
    amount1 := signedPrincipal params.adds (params.principal state).2 }

section Principal

variable {params : ModifyLiquidityParams} {state : PoolState}

theorem natAbs_lt (params : ModifyLiquidityParams) : params.liquidityDelta.natAbs < 2 ^ 128 := by
  have hlo := params.deltaFits.1
  have hhi := params.deltaFits.2
  norm_num at hlo hhi ⊢
  omega

theorem fromLiquidityPrincipal_eq_ok (hprice : IsValidSqrtPrice state.sqrtPriceX96)
    {delta : BalanceDelta} :
    BalanceDelta.fromLiquidityPrincipal state.tick params.tickLower params.tickUpper
        state.sqrtPriceX96 (getSqrtPriceAtTick params.tickLower)
        (getSqrtPriceAtTick params.tickUpper) params.liquidityDelta = .ok delta ↔
      (PrincipalFits params.adds (params.principal state).1 ∧
        PrincipalFits params.adds (params.principal state).2) ∧
      delta = params.principalDelta state := by
  have hl := params.natAbs_lt
  have hlower := price_valid params.lowerInRange
  have hupper := price_valid params.upperInRange
  have hadds : decide (params.liquidityDelta ≥ 0) = params.adds := rfl
  unfold BalanceDelta.fromLiquidityPrincipal principalDelta principal
  dsimp only
  rw [hadds, amount0DeltaForLiquidityChange_eq hl hlower hupper,
    amount0DeltaForLiquidityChange_eq hl hprice hupper,
    amount1DeltaForLiquidityChange_eq hl hlower hprice,
    amount1DeltaForLiquidityChange_eq hl hlower hupper]
  by_cases hbelow : state.tick < params.tickLower
  · rw [if_pos hbelow, if_pos hbelow, bind_eq_ok]
    constructor
    · rintro ⟨amount0, h0, hok⟩
      rcases liquidityAmountToI128_eq_ok.mp h0 with ⟨hfits, rfl⟩
      cases hok
      exact ⟨⟨hfits, principalFits_zero _⟩, by rw [signedPrincipal_zero]⟩
    · rintro ⟨hfits, rfl⟩
      exact ⟨_, liquidityAmountToI128_eq_ok.mpr ⟨hfits.1, rfl⟩, by rw [signedPrincipal_zero]⟩
  · rw [if_neg hbelow, if_neg hbelow]
    by_cases hinside : state.tick < params.tickUpper
    · rw [if_pos hinside, if_pos hinside, bind_eq_ok]
      constructor
      · rintro ⟨amount0, h0, hrest⟩
        rcases bind_eq_ok.mp hrest with ⟨amount1, h1, hok⟩
        rcases liquidityAmountToI128_eq_ok.mp h0 with ⟨hfits0, rfl⟩
        rcases liquidityAmountToI128_eq_ok.mp h1 with ⟨hfits1, rfl⟩
        cases hok
        exact ⟨⟨hfits0, hfits1⟩, rfl⟩
      · rintro ⟨hfits, rfl⟩
        refine ⟨_, liquidityAmountToI128_eq_ok.mpr ⟨hfits.1, rfl⟩, ?_⟩
        exact bind_eq_ok.mpr ⟨_, liquidityAmountToI128_eq_ok.mpr ⟨hfits.2, rfl⟩, rfl⟩
    · rw [if_neg hinside, if_neg hinside, bind_eq_ok]
      constructor
      · rintro ⟨amount1, h1, hok⟩
        rcases liquidityAmountToI128_eq_ok.mp h1 with ⟨hfits, rfl⟩
        cases hok
        exact ⟨⟨principalFits_zero _, hfits⟩, by rw [signedPrincipal_zero]⟩
      · rintro ⟨hfits, rfl⟩
        exact ⟨_, liquidityAmountToI128_eq_ok.mpr ⟨hfits.2, rfl⟩, by rw [signedPrincipal_zero]⟩

theorem principal_pos (hlt : params.tickLower < params.tickUpper)
    (hprice : IsValidSqrtPrice state.sqrtPriceX96) (hadd : 0 < params.liquidityDelta) :
    0 < (params.principal state).1 ∨ 0 < (params.principal state).2 := by
  have hl : 0 < params.liquidityDelta.natAbs := by omega
  have hadds : params.adds = true := by
    unfold adds
    rw [decide_eq_true_iff]
    omega
  have hlower := price_valid params.lowerInRange
  have hupper := price_valid params.upperInRange
  have hne : getSqrtPriceAtTick params.tickLower ≠ getSqrtPriceAtTick params.tickUpper := by
    have hlo := params.lowerInRange.1
    have hhi := params.upperInRange.2
    unfold minTick at hlo
    unfold maxTick at hhi
    exact ne_of_lt (price_lt (by omega) hlt (by omega))
  unfold principal
  dsimp only
  rw [hadds]
  by_cases hbelow : state.tick < params.tickLower
  · rw [if_pos hbelow]
    exact Or.inl (amount0Between_pos hl hlower hupper hne)
  · rw [if_neg hbelow]
    by_cases hinside : state.tick < params.tickUpper
    · rw [if_pos hinside]
      -- The current price cannot be at both ends of the range.
      by_cases hcurrent : state.sqrtPriceX96 = getSqrtPriceAtTick params.tickUpper
      · refine Or.inr (amount1Between_pos hl ?_)
        rw [hcurrent]
        exact hne
      · exact Or.inl (amount0Between_pos hl hprice hupper hcurrent)
    · rw [if_neg hinside]
      exact Or.inr (amount1Between_pos hl hne)

end Principal

end ModifyLiquidityParams

/-!
# Accepted changes
-/

namespace Pool

structure Permits (p : Pool Positions A) (params : ModifyLiquidityParams) : Prop where
  range : params.RangeValid p.tickSpacing
  lower : (tickAt p.ticks.snapshot params.tickLower).Admits p.tickSpacing.maxLiquidityPerTick
    params.liquidityDelta false
  upper : (tickAt p.ticks.snapshot params.tickUpper).Admits p.tickSpacing.maxLiquidityPerTick
    params.liquidityDelta true
  position : (p.positions.stateAt params.index).Updatable params.liquidityDelta
  fees : ((p.positions.stateAt params.index).earned (p.insideAt params
      (params.lowerAfter p.state p.ticks.snapshot)
      (params.upperAfter p.state p.ticks.snapshot))).1 < 2 ^ 127 ∧
    ((p.positions.stateAt params.index).earned (p.insideAt params
      (params.lowerAfter p.state p.ticks.snapshot)
      (params.upperAfter p.state p.ticks.snapshot))).2 < 2 ^ 127
  active : params.tickLower ≤ p.state.tick ∧ p.state.tick < params.tickUpper ->
    0 ≤ (p.state.liquidity : Int) + params.liquidityDelta ∧
      (p.state.liquidity : Int) + params.liquidityDelta < 2 ^ 128
  principal : PrincipalFits params.adds (params.principal p.state).1 ∧
    PrincipalFits params.adds (params.principal p.state).2

section Permits

variable {p p' : Pool Positions A} {params : ModifyLiquidityParams}

theorem fromU256_eq_ok {a b : Nat} {delta : BalanceDelta} :
    BalanceDelta.fromU256 a b = .ok delta ↔
      (a < 2 ^ 127 ∧ b < 2 ^ 127) ∧ delta = { amount0 := a, amount1 := b } := by
  unfold BalanceDelta.fromU256 u256ToI128Positive
  by_cases ha : a < 2 ^ 127
  · by_cases hb : b < 2 ^ 127
    · rw [if_pos ha, if_pos hb, ok_bind, ok_bind]
      simp only [Except.ok.injEq, ha, hb, and_self, true_and, eq_comm]
    · rw [if_pos ha, if_neg hb, ok_bind, error_bind]
      simp only [reduceCtorEq, hb, and_false, false_and]
  · rw [if_neg ha, error_bind]
    simp only [reduceCtorEq, ha, false_and]

theorem changeActiveLiquidity_total {state : PoolState}
    (h : params.tickLower ≤ state.tick ∧ state.tick < params.tickUpper ->
      0 ≤ (state.liquidity : Int) + params.liquidityDelta ∧
        (state.liquidity : Int) + params.liquidityDelta < 2 ^ 128) :
    exists state', changeActiveLiquidity state params = .ok state' := by
  unfold changeActiveLiquidity
  split
  · rename_i hin
    unfold checkedAddSigned
    rw [if_pos (h hin)]
    exact ⟨_, rfl⟩
  · exact ⟨state, rfl⟩

theorem changeActiveLiquidity_bounds {state state' : PoolState}
    (h : changeActiveLiquidity state params = .ok state')
    (hin : params.tickLower ≤ state.tick ∧ state.tick < params.tickUpper) :
    0 ≤ (state.liquidity : Int) + params.liquidityDelta ∧
      (state.liquidity : Int) + params.liquidityDelta < 2 ^ 128 := by
  unfold changeActiveLiquidity at h
  rw [if_pos hin] at h
  rcases bind_eq_ok.mp h with ⟨liquidity, hliquidity, _⟩
  have hsum := checkedAddSigned_eq_some.mp (okOr_eq_ok.mp hliquidity)
  rw [← hsum.1]
  exact ⟨Int.natCast_nonneg _, by exact_mod_cast hsum.2⟩

theorem settlePrincipal_eq_ok {P : Type} {p : Pool P A} (hdelta : params.liquidityDelta ≠ 0)
    (hprice : IsValidSqrtPrice p.state.sqrtPriceX96) {lower upper : TickInfoInner}
    {delta : BalanceDelta} {state : PoolState}
    (h : settlePrincipal p.state params (lower.boundary params.tickLower)
      (upper.boundary params.tickUpper) = (.ok delta, state)) :
    (params.tickLower ≤ p.state.tick ∧ p.state.tick < params.tickUpper ->
      0 ≤ (p.state.liquidity : Int) + params.liquidityDelta ∧
        (p.state.liquidity : Int) + params.liquidityDelta < 2 ^ 128) ∧
      (PrincipalFits params.adds (params.principal p.state).1 ∧
        PrincipalFits params.adds (params.principal p.state).2) ∧
      delta = params.principalDelta p.state := by
  have hspec := settlePrincipal_ok h
  have hprincipal := (ModifyLiquidityParams.fromLiquidityPrincipal_eq_ok hprice).mp
    (hspec.2.2.2.2 hdelta)
  refine ⟨?_, hprincipal⟩
  unfold settlePrincipal at h
  rw [if_pos hdelta] at h
  cases hactive : changeActiveLiquidity p.state params with
  | error e =>
      rw [hactive] at h
      cases h
  | ok state' =>
      exact changeActiveLiquidity_bounds hactive

theorem settlePrincipal_total (hprice : IsValidSqrtPrice p.state.sqrtPriceX96)
    (h : p.Permits params) {lower upper : TickInfoInner} {e : Error} {state : PoolState} :
    settlePrincipal p.state params (lower.boundary params.tickLower)
      (upper.boundary params.tickUpper) ≠ (.error e, state) := by
  intro hfail
  unfold settlePrincipal at hfail
  split at hfail
  · rcases changeActiveLiquidity_total h.active with ⟨state', hactive⟩
    rw [hactive] at hfail
    dsimp only at hfail
    injection hfail with hprincipal _
    have hok := (ModifyLiquidityParams.fromLiquidityPrincipal_eq_ok hprice).mpr
      ⟨h.principal, rfl⟩
    rw [(changeActiveLiquidity_ok hactive).1] at hprincipal
    exact absurd (hok.symm.trans hprincipal) (by simp)
  · cases hfail

theorem modify_permitted {result : ModifyLiquidityResult}
    (hslab : p.ticks.Holds p.tickSpacing p.ticks.snapshot)
    (hprice : IsValidSqrtPrice p.state.sqrtPriceX96)
    (hlt : (p.positions.stateAt params.index).liquidity < 2 ^ 128)
    (hdelta : params.liquidityDelta ≠ 0) (h : p.modifyLiquidity params = (.ok result, p')) :
    p.Permits params ∧ result.delta = params.principalDelta p.state ∧
      ((0 ≤ result.feeDelta.amount0 ∧ result.feeDelta.amount0 < 2 ^ 127) ∧
        0 ≤ result.feeDelta.amount1 ∧ result.feeDelta.amount1 < 2 ^ 127) ∧
      ((p'.positions.stateAt params.index).liquidity : Int) =
        (p.positions.stateAt params.index).liquidity + params.liquidityDelta := by
  have hcases := modify_cases hslab params
  rw [h] at hcases
  cases hcases with
  | @done lower upper ticks map positions feeDelta delta state hrange hb hfees hprincipal =>
      have hsettle := settlePrincipal_eq_ok hdelta hprice hprincipal
      have hadmits := hb.admits hdelta
      cases hb with
      | read hzero =>
          exact absurd hzero hdelta
      | changed _ _ _ _ =>
          rcases realizeFees_cases hlt (params.lowerAfter p.state p.ticks.snapshot)
            (params.upperAfter p.state p.ticks.snapshot) with ⟨_, e, he⟩ | ⟨hupdate, he⟩
          · rw [he] at hfees
            cases hfees
          · rw [he] at hfees
            injection hfees with hpaid hpositions
            have hfees' := fromU256_eq_ok.mp hpaid
            refine ⟨⟨hrange, hadmits.1, hadmits.2, hupdate, hfees'.1, hsettle.1, hsettle.2.1⟩,
              hsettle.2.2, ?_, ?_⟩
            · rw [hfees'.2]
              dsimp only
              exact ⟨⟨Int.natCast_nonneg _, by exact_mod_cast hfees'.1.1⟩,
                Int.natCast_nonneg _, by exact_mod_cast hfees'.1.2⟩
            · show ((positions.stateAt params.index).liquidity : Int) = _
              rw [← hpositions]
              unfold Positions.stateAt Positions.put
              rw [SortedMap.get?_insert_self]
              exact updated_liquidity hupdate _

theorem modify_ok_of_permits (hslab : p.ticks.Holds p.tickSpacing p.ticks.snapshot)
    (hprice : IsValidSqrtPrice p.state.sqrtPriceX96)
    (hlt : (p.positions.stateAt params.index).liquidity < 2 ^ 128)
    (hdelta : params.liquidityDelta ≠ 0) (h : p.Permits params) :
    exists result p', p.modifyLiquidity params = (.ok result, p') := by
  have hcases := modify_cases hslab params
  generalize p.modifyLiquidity params = r at hcases
  cases hcases with
  | rejected hbad =>
      exact absurd h.range hbad
  | lower _ _ hbad _ =>
      exact absurd h.lower hbad
  | upper _ _ _ hbad _ =>
      exact absurd h.upper hbad
  | position _ hb hfees =>
      cases hb with
      | read hzero =>
          exact absurd hzero hdelta
      | changed _ _ _ _ =>
          rcases realizeFees_cases hlt (params.lowerAfter p.state p.ticks.snapshot)
            (params.upperAfter p.state p.ticks.snapshot) with ⟨hbad, _⟩ | ⟨_, he⟩
          · exact absurd h.position hbad
          · rw [he, fromU256_eq_ok.mpr ⟨h.fees, rfl⟩] at hfees
            cases hfees
  | principal _ _ _ hprincipal =>
      exact absurd hprincipal (settlePrincipal_total hprice h)
  | done _ _ _ _ =>
      exact ⟨_, _, rfl⟩

end Permits

end Pool

end RmUniswap
