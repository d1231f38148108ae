import RmUniswap.Pool.Accrual

/-!
# The limits of a change

What a change runs into, as bounds on the pool and the request before it: on the two
ticks, on the position and the growth since its last update, on the active liquidity
and on the principal before it is rounded.
-/

namespace RmUniswap

open Foundation

variable {A : Type} [LawfulAllocator TickSlabValue A]

/-!
# Principal before rounding
-/

section Rounding

variable {n d m : Nat}

theorem roundDiv_true_le_iff (hd : 0 < d) : roundDiv true n d ≤ m ↔ (n : ℚ) / d ≤ m := by
  have hd' : (0 : ℚ) < d := by exact_mod_cast hd
  rw [roundDiv_true, divCeil_le_iff hd, div_le_iff₀ hd']
  norm_cast

theorem roundDiv_false_lt_iff (hd : 0 < d) : roundDiv false n d < m ↔ (n : ℚ) / d < m := by
  have hd' : (0 : ℚ) < d := by exact_mod_cast hd
  rw [roundDiv_false, Nat.div_lt_iff_lt_mul hd, div_lt_iff₀ hd']
  norm_cast

end Rounding

theorem cast_max_sub_min (a b : Nat) : ((max a b - min a b : Nat) : ℚ) = |(a : ℚ) - b| := by
  rcases le_total a b with h | h
  · have hle : (a : ℚ) ≤ b := by exact_mod_cast h
    rw [max_eq_right h, min_eq_left h, Nat.cast_sub h, abs_of_nonpos (sub_nonpos.mpr hle), neg_sub]
  · have hle : (b : ℚ) ≤ a := by exact_mod_cast h
    rw [max_eq_left h, min_eq_right h, Nat.cast_sub h, abs_of_nonneg (sub_nonneg.mpr hle)]

theorem fraction0_eq (liquidity : Nat) {a b : Nat} (ha : 0 < a) (hb : 0 < b) :
    ((2 ^ 96 * (liquidity * (max a b - min a b)) : Nat) : ℚ) / (min a b * max a b : Nat) =
      liquidity * (2 ^ 96 * |(1 : ℚ) / a - 1 / b|) := by
  have ha' : (0 : ℚ) < a := by exact_mod_cast ha
  have hb' : (0 : ℚ) < b := by exact_mod_cast hb
  have hgap : |(1 : ℚ) / a - 1 / b| = |(a : ℚ) - b| / (a * b) := by
    rw [div_sub_div _ _ ha'.ne' hb'.ne', abs_div, abs_of_pos (mul_pos ha' hb'), one_mul, mul_one,
      abs_sub_comm]
  rw [min_mul_max, hgap, Nat.cast_mul, Nat.cast_mul, cast_max_sub_min]
  push_cast
  ring

theorem fraction1_eq (liquidity a b : Nat) :
    ((liquidity * (max a b - min a b) : Nat) : ℚ) / (2 ^ 96 : Nat) =
      liquidity * (|(a : ℚ) - b| / 2 ^ 96) := by
  rw [Nat.cast_mul, cast_max_sub_min]
  push_cast
  ring

theorem forall_token {P : Bool -> Prop} : (forall token0, P token0) ↔ P true ∧ P false :=
  Bool.forall_bool.trans and_comm

namespace ModifyLiquidityParams

/-- The price that parts a range: above it lies token0, below it token1. -/
def partingPrice (params : ModifyLiquidityParams) (state : PoolState) : Nat :=
  if state.tick < params.tickLower then getSqrtPriceAtTick params.tickLower
  else if state.tick < params.tickUpper then state.sqrtPriceX96
  else getSqrtPriceAtTick params.tickUpper

/-- The principal of a change before it is rounded. -/
def exactPrincipal (params : ModifyLiquidityParams) (state : PoolState) (token0 : Bool) : ℚ :=
  params.liquidityDelta.natAbs *
    if token0 then
      2 ^ 96 * |(1 : ℚ) / params.partingPrice state - 1 / getSqrtPriceAtTick params.tickUpper|
    else
      |(getSqrtPriceAtTick params.tickLower : ℚ) - params.partingPrice state| / 2 ^ 96

section Exact

variable {params : ModifyLiquidityParams} {state : PoolState}

theorem partingPrice_pos (hprice : IsValidSqrtPrice state.sqrtPriceX96) :
    0 < params.partingPrice state := by
  unfold partingPrice
  split
  · exact (price_valid params.lowerInRange).pos
  · split
    · exact hprice.pos
    · exact (price_valid params.upperInRange).pos

theorem principal_parted (params : ModifyLiquidityParams) (state : PoolState) :
    params.principal state =
      (amount0Between params.adds params.liquidityDelta.natAbs (params.partingPrice state)
          (getSqrtPriceAtTick params.tickUpper),
        amount1Between params.adds params.liquidityDelta.natAbs
          (getSqrtPriceAtTick params.tickLower) (params.partingPrice state)) := by
  unfold principal partingPrice
  dsimp only
  split
  · rw [amount1Between_self]
  · split
    · rfl
    · rw [amount0Between_self]

/-- Rounded up for an addition and down for a removal, the principal is within a bound
as soon as it is before it is rounded. -/
theorem principal_le_iff (hprice : IsValidSqrtPrice state.sqrtPriceX96) (hadds : params.adds = true)
    (token0 : Bool) (m : Nat) :
    ofToken token0 (params.principal state) ≤ m ↔ params.exactPrincipal state token0 ≤ m := by
  have hpart : 0 < params.partingPrice state := partingPrice_pos hprice
  have hupper := (price_valid params.upperInRange).pos
  rw [principal_parted, hadds]
  unfold amount0Between amount1Between exactPrincipal
  cases token0 with
  | false =>
      show roundDiv true _ _ ≤ m ↔ _
      rw [roundDiv_true_le_iff (by norm_num), fraction1_eq, if_neg (by decide)]
  | true =>
      show roundDiv true _ _ ≤ m ↔ _
      rw [roundDiv_true_le_iff (Nat.mul_pos (lt_min hpart hupper) (lt_max_of_lt_left hpart)),
        fraction0_eq _ hpart hupper, if_pos rfl]

theorem principal_lt_iff (hprice : IsValidSqrtPrice state.sqrtPriceX96)
    (hadds : params.adds = false) (token0 : Bool) (m : Nat) :
    ofToken token0 (params.principal state) < m ↔ params.exactPrincipal state token0 < m := by
  have hpart : 0 < params.partingPrice state := partingPrice_pos hprice
  have hupper := (price_valid params.upperInRange).pos
  rw [principal_parted, hadds]
  unfold amount0Between amount1Between exactPrincipal
  cases token0 with
  | false =>
      show roundDiv false _ _ < m ↔ _
      rw [roundDiv_false_lt_iff (by norm_num), fraction1_eq, if_neg (by decide)]
  | true =>
      show roundDiv false _ _ < m ↔ _
      rw [roundDiv_false_lt_iff (Nat.mul_pos (lt_min hpart hupper) (lt_max_of_lt_left hpart)),
        fraction0_eq _ hpart hupper, if_pos rfl]

theorem principal_eq_zero_iff (hprice : IsValidSqrtPrice state.sqrtPriceX96)
    (hadds : params.adds = false) :
    params.principal state = (0, 0) ↔ forall token0, params.exactPrincipal state token0 < 1 := by
  have hone (token0 : Bool) : params.exactPrincipal state token0 < 1 ↔
      ofToken token0 (params.principal state) = 0 := by
    have hlt := principal_lt_iff hprice hadds token0 1
    rw [Nat.cast_one] at hlt
    rw [← hlt, Nat.lt_one_iff]
  rw [forall_congr' hone, forall_token]
  exact Prod.ext_iff

end Exact

end ModifyLiquidityParams

/-!
# Limits on the pool before the change
-/

namespace Pool

/-- The growth outside a boundary, as a change reads it; a tick without liquidity starts
afresh. -/
def boundaryGrowth (p : Pool Positions A) (token0 : Bool) (t : Int) : Nat :=
  if (tickAt p.ticks.snapshot t).liquidityGross = 0 ∧ t ≤ p.state.tick then p.state.growth token0
  else (tickAt p.ticks.snapshot t).outside token0

def growthGained (p : Pool Positions A) (params : ModifyLiquidityParams) (token0 : Bool) :
    ZMod (2 ^ 256) :=
  RmUniswap.growthLeft p.state.tick (p.state.growth token0) params.tickUpper
      (p.boundaryGrowth token0 params.tickUpper) -
    RmUniswap.growthLeft p.state.tick (p.state.growth token0) params.tickLower
      (p.boundaryGrowth token0 params.tickLower) -
    (p.positions.stateAt params.index).last token0

/-- The limits of the range, its ticks and its position. -/
structure UpdatesPosition (p : Pool Positions A) (params : ModifyLiquidityParams) : Prop where
  range : params.RangeValid p.tickSpacing
  lower : (tickAt p.ticks.snapshot params.tickLower).Admits p.tickSpacing.maxLiquidityPerTick
    params.liquidityDelta false
  upper : (tickAt p.ticks.snapshot params.tickUpper).Admits p.tickSpacing.maxLiquidityPerTick
    params.liquidityDelta true
  position : 0 ≤ ((p.positions.stateAt params.index).liquidity : Int) + params.liquidityDelta ∧
    ((p.positions.stateAt params.index).liquidity : Int) + params.liquidityDelta < 2 ^ 128

/-- The limits that come after the position: its fees, the active liquidity and the
principal fit their widths. -/
structure SettlesChange (p : Pool Positions A) (params : ModifyLiquidityParams) : Prop where
  fees : forall token0,
    (p.growthGained params token0).val * (p.positions.stateAt params.index).liquidity < 2 ^ 255
  active : params.tickLower ≤ p.state.tick ∧ p.state.tick < params.tickUpper ->
    0 ≤ (p.state.liquidity : Int) + params.liquidityDelta ∧
      (p.state.liquidity : Int) + params.liquidityDelta < 2 ^ 128
  added : 0 < params.liquidityDelta ->
    forall token0, params.exactPrincipal p.state token0 ≤ 2 ^ 127
  removed : params.liquidityDelta < 0 ->
    forall token0, params.exactPrincipal p.state token0 < 2 ^ 127

section Limits

variable {p p' : Pool Positions A} {params : ModifyLiquidityParams}

theorem boundaryGrowth_eq (p : Pool Positions A) (token0 : Bool) (t : Int) (liquidityDelta : Int)
    (upper : Bool) :
    ((tickAt p.ticks.snapshot t).change p.state t liquidityDelta upper).outside token0 =
      p.boundaryGrowth token0 t := by
  unfold boundaryGrowth TickInfoInner.change TickInfoInner.outside PoolState.growth ofToken
  cases token0 <;> rfl

theorem growthGained_val (hlt : params.tickLower < params.tickUpper) (token0 : Bool) :
    wrappingSub 256 (ofToken token0 (p.insideAt params
        (params.lowerAfter p.state p.ticks.snapshot) (params.upperAfter p.state p.ticks.snapshot)))
      ((p.positions.stateAt params.index).last token0) = (p.growthGained params token0).val := by
  have hcast := cast_feeGrowthInside p.state (le_of_lt hlt)
    (params.lowerAfter p.state p.ticks.snapshot) (params.upperAfter p.state p.ticks.snapshot) token0
  unfold ModifyLiquidityParams.lowerAfter ModifyLiquidityParams.upperAfter at hcast ⊢
  rw [boundaryGrowth_eq, boundaryGrowth_eq] at hcast
  unfold growthGained insideAt
  rw [← hcast, ← cast_wrappingSub, ZMod.val_natCast_of_lt (wrappingSub_lt 256 _ _)]

theorem earned_fits_iff (hlt : params.tickLower < params.tickUpper) (token0 : Bool) :
    ofToken token0 ((p.positions.stateAt params.index).earned (p.insideAt params
        (params.lowerAfter p.state p.ticks.snapshot)
        (params.upperAfter p.state p.ticks.snapshot))) < 2 ^ 127 ↔
      (p.growthGained params token0).val * (p.positions.stateAt params.index).liquidity <
        2 ^ 255 := by
  rw [PositionState.earned_token, growthGained_val hlt, Nat.div_lt_iff_lt_mul (by norm_num),
    show 2 ^ 127 * 2 ^ 128 = 2 ^ 255 from (pow_add 2 127 128).symm]

theorem principalFits_iff (hprice : IsValidSqrtPrice p.state.sqrtPriceX96)
    (hdelta : params.liquidityDelta ≠ 0) :
    (forall token0, PrincipalFits params.adds (ofToken token0 (params.principal p.state))) ↔
      (0 < params.liquidityDelta ->
        forall token0, params.exactPrincipal p.state token0 ≤ 2 ^ 127) ∧
      (params.liquidityDelta < 0 ->
        forall token0, params.exactPrincipal p.state token0 < 2 ^ 127) := by
  have hbound : ((2 ^ 127 : Nat) : ℚ) = 2 ^ 127 := by norm_num
  rcases lt_or_gt_of_ne hdelta with hneg | hpos
  · have hadds : params.adds = false := decide_eq_false (by omega)
    rw [hadds]
    simp only [hneg, not_lt_of_gt hneg, false_imp_iff, true_imp_iff, true_and, PrincipalFits,
      Bool.false_eq_true, if_false, ModifyLiquidityParams.principal_lt_iff hprice hadds, hbound]
  · have hadds : params.adds = true := decide_eq_true (le_of_lt hpos)
    rw [hadds]
    simp only [hpos, not_lt_of_gt hpos, false_imp_iff, true_imp_iff, and_true, PrincipalFits,
      if_true, ModifyLiquidityParams.principal_le_iff hprice hadds, hbound]

theorem permits_iff (hprice : IsValidSqrtPrice p.state.sqrtPriceX96)
    (hdelta : params.liquidityDelta ≠ 0) :
    p.Permits params ↔ p.UpdatesPosition params ∧ p.SettlesChange params := by
  have hupdatable : (p.positions.stateAt params.index).Updatable params.liquidityDelta ↔ _ :=
    iff_of_eq (if_neg hdelta)
  constructor
  · intro h
    have hprincipal := (principalFits_iff hprice hdelta).mp (forall_token.mpr h.principal)
    refine ⟨⟨h.range, h.lower, h.upper, hupdatable.mp h.position⟩, ?_, h.active, hprincipal.1,
      hprincipal.2⟩
    intro token0
    rw [← earned_fits_iff h.range.1]
    cases token0 with
    | false => exact h.fees.2
    | true => exact h.fees.1
  · rintro ⟨hupdates, hsettles⟩
    refine ⟨hupdates.range, hupdates.lower, hupdates.upper, hupdatable.mpr hupdates.position,
      forall_token.mp fun token0 => (earned_fits_iff hupdates.range.1 token0).mpr
        (hsettles.fees token0), hsettles.active, ?_⟩
    exact forall_token.mp ((principalFits_iff hprice hdelta).mpr ⟨hsettles.added, hsettles.removed⟩)

/-- However a change ends, its position has moved by then if and only if the limits up to
the position are met. -/
theorem modify_position (hslab : p.ticks.Holds p.tickSpacing p.ticks.snapshot)
    (hlt : (p.positions.stateAt params.index).liquidity < 2 ^ 128)
    (hdelta : params.liquidityDelta ≠ 0) :
    (p.UpdatesPosition params ∧
      (((p.modifyLiquidity params).2.positions.stateAt params.index).liquidity : Int) =
        (p.positions.stateAt params.index).liquidity + params.liquidityDelta) ∨
    (¬ p.UpdatesPosition params ∧
      ((p.modifyLiquidity params).2.positions.stateAt params.index).liquidity =
        (p.positions.stateAt params.index).liquidity) := by
  have hupdatable : (p.positions.stateAt params.index).Updatable params.liquidityDelta ↔ _ :=
    iff_of_eq (if_neg hdelta)
  -- Every later stage starts from the positions that the fees leave.
  have hrealized {lower upper : TickInfoInner} {ticks : TickSlab A}
      {map : SortedMap Int TickInfoInner} {positions : Positions} {fees : Except Error BalanceDelta}
      (hrange : params.RangeValid p.tickSpacing) (hb : Boundaries p params lower upper ticks map)
      (hfees : p.realizeFees params (lower.boundary params.tickLower)
        (upper.boundary params.tickUpper) = (fees, positions)) :
      (p.UpdatesPosition params ∧ ((positions.stateAt params.index).liquidity : Int) =
        (p.positions.stateAt params.index).liquidity + params.liquidityDelta) ∨
      (¬ p.UpdatesPosition params ∧ (positions.stateAt params.index).liquidity =
        (p.positions.stateAt params.index).liquidity) := by
    have hadmits := hb.admits hdelta
    rcases realizeFees_cases hlt lower upper with ⟨hbad, e, he⟩ | ⟨hupdate, he⟩
    · rw [he] at hfees
      cases hfees
      rw [stateAt_put_self]
      exact Or.inr ⟨fun h => hbad (hupdatable.mpr h.position), rfl⟩
    · rw [he] at hfees
      cases hfees
      rw [stateAt_put_self]
      exact Or.inl ⟨⟨hrange, hadmits.1, hadmits.2, hupdatable.mp hupdate⟩,
        updated_liquidity hupdate _⟩
  have hcases := modify_cases hslab params
  generalize p.modifyLiquidity params = r at hcases ⊢
  cases hcases with
  | rejected hbad =>
      exact Or.inr ⟨fun h => hbad h.range, rfl⟩
  | lower _ _ hbad _ =>
      exact Or.inr ⟨fun h => hbad h.lower, rfl⟩
  | upper _ _ _ hbad _ =>
      exact Or.inr ⟨fun h => hbad h.upper, rfl⟩
  | position hrange hb hfees =>
      exact hrealized hrange hb hfees
  | principal hrange hb hfees _ =>
      exact hrealized hrange hb hfees
  | done hrange hb hfees _ =>
      exact hrealized hrange hb hfees

end Limits

end Pool

end RmUniswap
