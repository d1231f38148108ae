import RmUniswap.Pool.Expect

/-!
# What the reconciliation check accepts

A position map and a tick snapshot are consistent when every range is ordered
and aligned and every tick holds the sums over the positions that touch it. The
check accepts exactly these, in whatever order the map lists its positions.
-/

namespace RmUniswap

open Foundation

namespace Positions

/-!
# Sums at a tick
-/

def isLower (t : Int) (i : PositionIndex) : Bool := i.tickLower == t

def isUpper (t : Int) (i : PositionIndex) : Bool := i.tickUpper == t

def liquidityOf (positions : Positions) (select : PositionIndex -> Bool) : Int :=
  positions.map.sum fun i p => if select i then (p.liquidity : Int) else 0

structure Consistent (positions : Positions) (ticks : PoolTicksSnapshot) : Prop where
  ranged : forall i p, positions.map.get? i = some p ->
    i.tickLower < i.tickUpper ∧ ticks.tickSpacing.value ∣ i.tickLower ∧
      ticks.tickSpacing.value ∣ i.tickUpper
  present : forall t, (exists info, ticks.inner.get? t = some info) ↔
    exists i p, positions.map.get? i = some p ∧ p.liquidity ≠ 0 ∧
      (i.tickLower = t ∨ i.tickUpper = t)
  gross : forall t info, ticks.inner.get? t = some info ->
    (info.liquidityGross : Int) = positions.liquidityOf fun i => isLower t i || isUpper t i
  net : forall t info, ticks.inner.get? t = some info ->
    info.liquidityNet = positions.liquidityOf (isLower t) - positions.liquidityOf (isUpper t)

section Sums

variable {positions : Positions} {t : Int}

theorem weighted_eq (positions : Positions) (weight : PositionIndex -> Int) :
    positions.map.weighted size weight = positions.map.sum fun i p => size p * weight i := rfl

theorem grossAt_eq (hordered : forall i p, positions.map.get? i = some p ->
    i.tickLower < i.tickUpper) :
    positions.grossAt t = positions.liquidityOf fun i => isLower t i || isUpper t i := by
  unfold grossAt liquidityOf
  rw [weighted_eq]
  apply SortedMap.sum_congr
  intro i p hi
  have hlt := hordered i p hi
  unfold touching size isLower isUpper
  by_cases hl : i.tickLower = t
  · have hu : i.tickUpper ≠ t := fun hu => absurd (hl.trans hu.symm) (ne_of_lt hlt)
    simp [hl, hu]
  · simp [hl]

theorem netAt_eq (positions : Positions) (t : Int) :
    positions.netAt t = positions.liquidityOf (isLower t) - positions.liquidityOf (isUpper t) := by
  have hadd : positions.netAt t + positions.liquidityOf (isUpper t) =
      positions.liquidityOf (isLower t) := by
    unfold netAt liquidityOf
    rw [weighted_eq, ← SortedMap.sum_add]
    apply SortedMap.sum_congr
    intro i p _
    unfold entering size isLower isUpper
    by_cases hl : i.tickLower = t <;> by_cases hu : i.tickUpper = t <;> simp [hl, hu]
  omega

end Sums

/-!
# The two readings agree
-/

section Accepts

variable {positions : Positions} {ticks : PoolTicksSnapshot}

theorem Consistent.of_reconciled (h : Reconciled ticks.tickSpacing positions ticks.inner) :
    positions.Consistent ticks where
  ranged i p hi := ⟨h.ordered i p hi, h.aligned i p hi⟩
  present t := h.initialized_iff
  gross t info hget := by
    have hgross := h.gross t
    rw [tickAt_some hget, grossAt_eq h.ordered] at hgross
    exact hgross
  net t info hget := by
    have hnet := h.net t
    rw [tickAt_some hget, netAt_eq] at hnet
    exact hnet

theorem Consistent.grossAt_eq_zero (h : positions.Consistent ticks) {t : Int}
    (hget : ticks.inner.get? t = none) : positions.grossAt t = 0 := by
  rw [grossAt, SortedMap.weighted_eq_zero_iff size_nonneg (touching_nonneg t)]
  intro i p hi hne
  have habsent : ¬ (i.tickLower = t ∨ i.tickUpper = t) := by
    intro ht
    have hzero : p.liquidity ≠ 0 := fun h0 => hne (by rw [size, h0]; rfl)
    rcases (h.present t).mpr ⟨i, p, hi, hzero, ht⟩ with ⟨info, hinfo⟩
    rw [hget] at hinfo
    cases hinfo
  unfold touching
  rw [if_neg (fun hl => habsent (Or.inl hl)), if_neg (fun hu => habsent (Or.inr hu))]
  rfl

theorem Consistent.reconciled (h : positions.Consistent ticks)
    (hpos : forall t info, ticks.inner.get? t = some info -> 0 < info.liquidityGross)
    (hcap : forall t info, ticks.inner.get? t = some info ->
      info.liquidityGross ≤ ticks.tickSpacing.maxLiquidityPerTick) :
    Reconciled ticks.tickSpacing positions ticks.inner where
  ordered i p hi := (h.ranged i p hi).1
  aligned i p hi := (h.ranged i p hi).2
  gross t := by
    cases hget : ticks.inner.get? t with
    | none =>
        rw [tickAt_none hget, h.grossAt_eq_zero hget]
        rfl
    | some info =>
        rw [tickAt_some hget, grossAt_eq fun i p hi => (h.ranged i p hi).1]
        exact h.gross t info hget
  net t := by
    cases hget : ticks.inner.get? t with
    | none =>
        have hle := positions.netAt_le t
        rw [h.grossAt_eq_zero hget] at hle
        rw [tickAt_none hget]
        show (0 : Int) = _
        omega
    | some info =>
        rw [tickAt_some hget, netAt_eq]
        exact h.net t info hget
  positive := hpos
  cap t := by
    cases hget : ticks.inner.get? t with
    | none =>
        rw [tickAt_none hget]
        exact Nat.zero_le _
    | some info =>
        rw [tickAt_some hget]
        exact hcap t info hget

/-- In every order of the positions the check accepts the consistent snapshots
and no others, so the order it happens to read them in does not matter. -/
theorem validateInOrder_iff (hs : ticks.tickSpacing.IsPositive)
    (hpos : forall t info, ticks.inner.get? t = some info -> 0 < info.liquidityGross)
    (hcap : forall t info, ticks.inner.get? t = some info ->
      info.liquidityGross ≤ ticks.tickSpacing.maxLiquidityPerTick)
    {l : List (PositionIndex × PositionState)} (hl : l.Perm positions.map.entries) :
    (validateInOrder l ticks = .ok () ↔ positions.Consistent ticks) ∧
      (validateInOrder l ticks = .ok () ↔ positions.validateAgainstTicks ticks = .ok ()) := by
  have haccepts {k : List (PositionIndex × PositionState)} (hk : k.Perm positions.map.entries) :
      validateInOrder k ticks = .ok () ↔ positions.Consistent ticks := by
    constructor
    · intro h
      exact Consistent.of_reconciled (reconciled_of_validateInOrder hk hpos hcap h)
    · intro h
      exact validateInOrder_of_reconciled hk (TickSpacing.maxLiquidityPerTick_lt hs)
        (fun _ _ => PositionIndex.not_traps hs _) (h.reconciled hpos hcap)
  exact ⟨haccepts hl, (haccepts hl).trans (haccepts (List.Perm.refl _)).symm⟩

end Accepts

/-- Two overlapping positions that share a tick, and one without liquidity. -/
def samplePositions : Positions :=
  { map :=
      ((SortedMap.empty.insert ⟨1, -60, 60, 0⟩ ⟨7, 0, 0⟩).insert ⟨2, 60, 120, 0⟩ ⟨5, 0, 0⟩).insert
        ⟨3, -120, 0, 0⟩ ⟨0, 0, 0⟩ }

def sampleTicks : PoolTicksSnapshot :=
  { tickSpacing := sampleSnapshot.tickSpacing
    inner :=
      ((SortedMap.empty.insert (-60) ⟨7, 7, 0, 0⟩).insert 60 ⟨12, -2, 0, 0⟩).insert 120
        ⟨5, -5, 0, 0⟩ }

theorem validateInOrder_iff_sample :
    samplePositions.Consistent sampleTicks ∧
      samplePositions.validateAgainstTicks sampleTicks = .ok () := by
  have hall : forall e, e ∈ sampleTicks.inner.entries -> 0 < e.2.liquidityGross ∧
      e.2.liquidityGross ≤ sampleTicks.tickSpacing.maxLiquidityPerTick := by
    decide +kernel
  have hgross {t : Int} {info : TickInfoInner} (h : sampleTicks.inner.get? t = some info) :=
    hall (t, info) (SortedMap.mem_entries_iff.mpr h)
  have hspacing : sampleTicks.tickSpacing.IsPositive := by
    decide
  have h := validateInOrder_iff hspacing (fun t info hget => (hgross hget).1)
    (fun t info hget => (hgross hget).2) (List.reverse_perm samplePositions.map.entries)
  have hrun : validateInOrder samplePositions.map.entries.reverse sampleTicks = .ok () := by
    decide +kernel
  exact ⟨h.1.mp hrun, h.2.mp hrun⟩

end Positions

end RmUniswap
