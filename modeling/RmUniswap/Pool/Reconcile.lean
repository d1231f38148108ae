import RmUniswap.Foundation.WeightedSum
import RmUniswap.Pool.ModifySpec
import RmUniswap.Pool.Restore

/-!
# Ticks reconciled with positions

The accounting of every tick is the sum over the positions that touch it. From
this alone the active liquidity is the liquidity of the positions that cover the
current tick.
-/

namespace RmUniswap

open Foundation

/-!
# Position updates
-/

def ModifyLiquidityParams.index (params : ModifyLiquidityParams) : PositionIndex :=
  { owner := params.owner
    tickLower := params.tickLower
    tickUpper := params.tickUpper
    salt := params.salt }

namespace PositionState

def earned (p : PositionState) (inside : Nat × Nat) : Nat × Nat :=
  (wrappingSub 256 inside.1 p.feeGrowthInside0LastX128 * p.liquidity / 2 ^ 128,
    wrappingSub 256 inside.2 p.feeGrowthInside1LastX128 * p.liquidity / 2 ^ 128)

theorem feesOwed_eq {p : PositionState} (hl : p.liquidity < 2 ^ 128) (inside : Nat × Nat) :
    feesOwed p.liquidity inside.1 inside.2 p.feeGrowthInside0LastX128
      p.feeGrowthInside1LastX128 = .ok (p.earned inside) := by
  have hmul (growth last : Nat) : mulDiv (wrappingSub 256 growth last) p.liquidity (2 ^ 128) =
      .ok (wrappingSub 256 growth last * p.liquidity / 2 ^ 128) := by
    rw [mulDiv_eq_ok (by norm_num) (by norm_num)]
    refine ⟨rfl, ?_⟩
    have hg := wrappingSub_lt 256 growth last
    have hprod : wrappingSub 256 growth last * p.liquidity < 2 ^ (128 + 256) :=
      mul_lt_two_pow hg hl (by norm_num)
    rw [pow_add] at hprod
    exact Nat.div_lt_of_lt_mul hprod
  unfold feesOwed
  rw [hmul, ok_bind, hmul, ok_bind]
  rfl

def Updatable (p : PositionState) (liquidityDelta : Int) : Prop :=
  if liquidityDelta = 0 then p.liquidity ≠ 0
  else 0 ≤ (p.liquidity : Int) + liquidityDelta ∧ (p.liquidity : Int) + liquidityDelta < 2 ^ 128

instance (p : PositionState) (liquidityDelta : Int) : Decidable (p.Updatable liquidityDelta) := by
  unfold Updatable
  infer_instance

def updated (p : PositionState) (liquidityDelta : Int) (inside : Nat × Nat) : PositionState :=
  { liquidity := ((p.liquidity : Int) + liquidityDelta).toNat
    feeGrowthInside0LastX128 := inside.1
    feeGrowthInside1LastX128 := inside.2 }

theorem update_ok {p : PositionState} (hl : p.liquidity < 2 ^ 128) {liquidityDelta : Int}
    (h : p.Updatable liquidityDelta) (inside : Nat × Nat) :
    p.update liquidityDelta inside.1 inside.2 =
      (.ok (p.earned inside), p.updated liquidityDelta inside) := by
  have hfees : (if p.liquidity ≠ 0 then feesOwed p.liquidity inside.1 inside.2
      p.feeGrowthInside0LastX128 p.feeGrowthInside1LastX128 else .ok (0, 0)) =
      .ok (p.earned inside) := by
    by_cases hzero : p.liquidity = 0
    · rw [if_neg (not_not.mpr hzero), earned, hzero, Nat.mul_zero, Nat.mul_zero, Nat.zero_div]
    · rw [if_pos hzero, feesOwed_eq hl]
  unfold Updatable at h
  unfold update
  dsimp only
  by_cases hdelta : liquidityDelta = 0
  · rw [if_pos hdelta] at h
    rw [if_pos hdelta, if_neg h, hfees]
    simp [updated, hdelta]
  · rw [if_neg hdelta] at h
    have hadd : checkedAddSigned 128 p.liquidity liquidityDelta =
        some ((p.liquidity : Int) + liquidityDelta).toNat := by
      rw [checkedAddSigned_eq_some]
      omega
    rw [if_neg hdelta, hadd, okOr_some, hfees]
    rfl

theorem update_error {p : PositionState} {liquidityDelta : Int}
    (h : ¬ p.Updatable liquidityDelta) (inside : Nat × Nat) :
    exists e, p.update liquidityDelta inside.1 inside.2 = (.error e, p) := by
  unfold Updatable at h
  unfold update
  dsimp only
  by_cases hdelta : liquidityDelta = 0
  · rw [if_pos hdelta] at h
    rw [if_pos hdelta, if_pos (not_not.mp h)]
    exact ⟨_, rfl⟩
  · rw [if_neg hdelta] at h
    have hadd : checkedAddSigned 128 p.liquidity liquidityDelta = none := by
      rw [checkedAddSigned_eq_none]
      omega
    rw [if_neg hdelta, hadd, okOr_none]
    exact ⟨_, rfl⟩

end PositionState

namespace Positions

/-- The position a key names, empty where there is none. -/
def stateAt (positions : Positions) (i : PositionIndex) : PositionState :=
  (positions.map.get? i).getD PositionState.default

def put (positions : Positions) (i : PositionIndex) (p : PositionState) : Positions :=
  { map := positions.map.insert i p }

/-!
# Sums over positions
-/

def size (p : PositionState) : Int := p.liquidity

def touching (t : Int) (i : PositionIndex) : Int :=
  (if i.tickLower = t then 1 else 0) + if i.tickUpper = t then 1 else 0

def entering (t : Int) (i : PositionIndex) : Int :=
  (if i.tickLower = t then 1 else 0) - if i.tickUpper = t then 1 else 0

def covering (t : Int) (i : PositionIndex) : Int :=
  if i.tickLower ≤ t ∧ t < i.tickUpper then 1 else 0

def grossAt (positions : Positions) (t : Int) : Int := positions.map.weighted size (touching t)

def netAt (positions : Positions) (t : Int) : Int := positions.map.weighted size (entering t)

/-- The liquidity of the positions that cover a tick. -/
def activeAt (positions : Positions) (t : Int) : Int := positions.map.weighted size (covering t)

def total (positions : Positions) : Int := positions.map.weighted size fun _ => 1

theorem size_nonneg (p : PositionState) : 0 ≤ size p := Int.natCast_nonneg _

theorem touching_nonneg (t : Int) (i : PositionIndex) : 0 ≤ touching t i := by
  unfold touching
  split <;> split <;> norm_num

theorem one_le_touching {t : Int} {i : PositionIndex} (ht : i.tickLower = t ∨ i.tickUpper = t) :
    1 ≤ touching t i := by
  unfold touching
  rcases ht with ht | ht
  · rw [if_pos ht]
    split <;> norm_num
  · rw [if_pos ht]
    split <;> norm_num

theorem entering_le (t : Int) (i : PositionIndex) :
    entering t i ≤ touching t i ∧ -touching t i ≤ entering t i := by
  unfold entering touching
  split <;> split <;> norm_num

theorem netAt_le (positions : Positions) (t : Int) :
    (positions.netAt t).natAbs ≤ positions.grossAt t := by
  have hup : positions.netAt t ≤ positions.grossAt t :=
    SortedMap.weighted_le_weighted size_nonneg fun i _ _ => (entering_le t i).1
  have hneg : -positions.grossAt t ≤ positions.netAt t := by
    have hmul : positions.map.weighted size (fun i => -1 * touching t i) =
        -1 * positions.grossAt t := SortedMap.weighted_mul (-1)
    have hle : positions.map.weighted size (fun i => -1 * touching t i) ≤ positions.netAt t :=
      SortedMap.weighted_le_weighted size_nonneg fun i _ _ => by
        have := (entering_le t i).2
        omega
    omega
  omega

theorem le_grossAt {positions : Positions} {i : PositionIndex} {p : PositionState} {t : Int}
    (h : positions.map.get? i = some p) (ht : i.tickLower = t ∨ i.tickUpper = t) :
    (p.liquidity : Int) ≤ positions.grossAt t := by
  have hle : (p.liquidity : Int) * touching t i ≤ positions.grossAt t :=
    SortedMap.le_weighted (m := positions.map) size_nonneg (touching_nonneg t) h
  have hone := one_le_touching ht
  have hp : 0 ≤ (p.liquidity : Int) := Int.natCast_nonneg _
  nlinarith

theorem weighted_insert (positions : Positions) (i : PositionIndex) (p : PositionState)
    (weight : PositionIndex -> Int) :
    (positions.put i p).map.weighted size weight =
      positions.map.weighted size weight +
        ((p.liquidity : Int) - (positions.stateAt i).liquidity) * weight i := by
  unfold put
  rw [SortedMap.weighted_update (SortedMap.agreeOff_insert positions.map i p),
    SortedMap.sizeAt_some (SortedMap.get?_insert_self positions.map i p)]
  have hold : positions.map.sizeAt size i = (positions.stateAt i).liquidity := by
    unfold SortedMap.sizeAt stateAt
    cases positions.map.get? i <;> rfl
  rw [hold]
  rfl

end Positions

/-!
# Reconciliation
-/

/-- The ticks are the sums over the positions, within the cap of the spacing. -/
structure Reconciled (tickSpacing : TickSpacing) (positions : Positions)
    (ticks : SortedMap Int TickInfoInner) : Prop where
  ordered : forall i p, positions.map.get? i = some p -> i.tickLower < i.tickUpper
  aligned : forall i p, positions.map.get? i = some p ->
    tickSpacing.value ∣ i.tickLower ∧ tickSpacing.value ∣ i.tickUpper
  gross : forall t, ((tickAt ticks t).liquidityGross : Int) = positions.grossAt t
  net : forall t, (tickAt ticks t).liquidityNet = positions.netAt t
  positive : forall t info, ticks.get? t = some info -> 0 < info.liquidityGross
  cap : forall t, (tickAt ticks t).liquidityGross ≤ tickSpacing.maxLiquidityPerTick

namespace Reconciled

variable {tickSpacing : TickSpacing} {positions : Positions}
  {ticks : SortedMap Int TickInfoInner}

theorem accounted (h : Reconciled tickSpacing positions ticks) {t : Int} {info : TickInfoInner}
    (hget : ticks.get? t = some info) :
    TickAccounted tickSpacing.maxLiquidityPerTick info := by
  have hgross := h.gross t
  have hnet := h.net t
  have hcap := h.cap t
  have hle := positions.netAt_le t
  rw [tickAt_some hget] at hgross hnet hcap
  exact ⟨h.positive t info hget, by omega, hcap⟩

theorem initialized_iff (h : Reconciled tickSpacing positions ticks) {t : Int} :
    (exists info, ticks.get? t = some info) ↔
      exists i p, positions.map.get? i = some p ∧ p.liquidity ≠ 0 ∧
        (i.tickLower = t ∨ i.tickUpper = t) := by
  constructor
  · rintro ⟨info, hget⟩
    by_contra hnone
    have hpos := h.positive t info hget
    have hgross := h.gross t
    rw [tickAt_some hget] at hgross
    have hzero : positions.grossAt t = 0 := by
      rw [Positions.grossAt, SortedMap.weighted_eq_zero_iff Positions.size_nonneg
        (Positions.touching_nonneg t)]
      intro i p hi hne
      unfold Positions.touching
      rw [if_neg, if_neg]
      · rfl
      · exact fun hu => hnone ⟨i, p, hi, fun h0 => hne (by rw [Positions.size, h0]; rfl),
          Or.inr hu⟩
      · exact fun hl => hnone ⟨i, p, hi, fun h0 => hne (by rw [Positions.size, h0]; rfl),
          Or.inl hl⟩
    omega
  · rintro ⟨i, p, hi, hne, ht⟩
    cases hget : ticks.get? t with
    | some info => exact ⟨info, rfl⟩
    | none =>
        have hgross := h.gross t
        have hle := Positions.le_grossAt hi ht
        rw [tickAt_none hget] at hgross
        have hzero : (TickInfoInner.default.liquidityGross : Int) = 0 := rfl
        omega

theorem netBelow_eq (h : Reconciled tickSpacing positions ticks) (t : Int) :
    netBelow ticks t = positions.activeAt t := by
  have hsum : netBelow ticks t = ∑ k ∈ ticks.keys.filter (· ≤ t), positions.netAt k := by
    unfold netBelow
    rw [SortedMap.sum_eq_sum_keys, Finset.sum_filter]
    apply Finset.sum_congr rfl
    intro k _
    rw [netBelow_summand, h.net]
  rw [hsum]
  unfold Positions.netAt Positions.activeAt
  rw [SortedMap.weighted_finset_sum]
  apply SortedMap.weighted_congr
  intro i p hi hne
  have hlt := h.ordered i p hi
  -- Both ticks of a position with liquidity are initialized.
  have hmem (k : Int) (hk : i.tickLower = k ∨ i.tickUpper = k) : k ∈ ticks.keys := by
    rw [SortedMap.mem_keys, h.initialized_iff]
    exact ⟨i, p, hi, fun h0 => hne (by rw [Positions.size, h0]; rfl), hk⟩
  have hcount (k : Int) (hk : k ∈ ticks.keys) :
      (∑ j ∈ ticks.keys.filter (· ≤ t), if k = j then (1 : Int) else 0) =
        if k ≤ t then 1 else 0 := by
    rw [Finset.sum_ite_eq]
    exact if_congr (by rw [Finset.mem_filter]; exact and_iff_right hk) rfl rfl
  unfold Positions.entering Positions.covering
  rw [Finset.sum_sub_distrib, hcount _ (hmem _ (Or.inl rfl)), hcount _ (hmem _ (Or.inr rfl))]
  by_cases hl : i.tickLower ≤ t
  · by_cases hu : i.tickUpper ≤ t
    · rw [if_pos hl, if_pos hu, if_neg (fun hc => absurd hc.2 (not_lt.mpr hu))]
      rfl
    · rw [if_pos hl, if_neg hu, if_pos ⟨hl, not_le.mp hu⟩]
      rfl
  · rw [if_neg hl, if_neg (fun hu => hl (le_of_lt (hlt.trans_le hu))), if_neg (fun hc => hl hc.1)]
    rfl

end Reconciled

end RmUniswap
