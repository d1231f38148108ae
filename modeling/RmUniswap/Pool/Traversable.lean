import RmUniswap.Foundation.Spans
import RmUniswap.Pool.Capacity

/-!
# Traversing validated snapshots

Validation sums the net liquidity at or below the current tick only, and compares it
with the active liquidity. What it leaves unchecked lies on both sides: the ticks
above may take away more or less than the active liquidity, and the ticks below may
bring more than it from a lower one on. A swap may cross every tick exactly when
neither happens, and then the net liquidity is that of some ranges.
-/

namespace RmUniswap

open Foundation

/-- The types of a snapshot hold what their constructors promise. -/
structure PoolSnapshot.TypesValid {P : Type} (s : PoolSnapshot P) : Prop where
  spacing : s.tickSpacing.IsPositive
  price : IsValidSqrtPrice s.state.sqrtPriceX96
  ticks : forall t info, s.ticks.inner.get? t = some info -> TickInRange t

/-- Every tick of a snapshot can be crossed. -/
structure PoolSnapshot.Traversable (s : PoolSnapshot Unit) : Prop where
  prefixes : forall t info, s.ticks.inner.get? t = some info ->
    0 ≤ netBelow s.ticks.inner t ∧ netBelow s.ticks.inner t ≤ 2 ^ 128 - 1
  total : (s.ticks.inner.sum fun _ info => info.liquidityNet) = 0
  swaps : forall (A : Type) [LawfulAllocator TickSlabValue A] (p : Pool Unit A),
    Pool.fromSnapshot s = .ok p -> forall params fuel q,
      p.swap params fuel ≠ some (.error .liquidityUnderflow, q)

def netBetween (ticks : SortedMap Int TickInfoInner) (t t' : Int) : Int :=
  ticks.sum fun k info => if t < k ∧ k ≤ t' then info.liquidityNet else 0

def netAbove (ticks : SortedMap Int TickInfoInner) (t : Int) : Int :=
  ticks.sum fun k info => if t < k then info.liquidityNet else 0

/-- What validation leaves unchecked: the ticks above the current one never take away
more than the active liquidity and all of it in the end, and the ticks from any lower
one up to it bring no more than the active liquidity. -/
structure PoolSnapshot.Covered (s : PoolSnapshot Unit) : Prop where
  above : forall t info, s.ticks.inner.get? t = some info -> s.state.tick < t ->
    -(s.state.liquidity : Int) ≤ netBetween s.ticks.inner s.state.tick t
  spent : netAbove s.ticks.inner s.state.tick = -(s.state.liquidity : Int)
  below : forall t info, s.ticks.inner.get? t = some info -> t < s.state.tick ->
    netBetween s.ticks.inner t s.state.tick ≤ s.state.liquidity

def PoolSnapshot.Spanned (s : PoolSnapshot Unit) : Prop :=
  exists spans : List (Span Int), forall t,
    (tickAt s.ticks.inner t).liquidityNet = Span.enteringSum spans t

/-!
# Net liquidity as deltas
-/

section Deltas

variable {ticks : SortedMap Int TickInfoInner}

def nets (ticks : SortedMap Int TickInfoInner) : List (Int × Int) :=
  ticks.entries.map fun e => (e.1, e.2.liquidityNet)

theorem nets_sorted (ticks : SortedMap Int TickInfoInner) :
    (nets ticks).Pairwise fun a b => a.1 < b.1 :=
  List.pairwise_map.mpr ticks.sorted

theorem upTo_nets (ticks : SortedMap Int TickInfoInner) (t : Int) :
    Deltas.upTo (nets ticks) t = netBelow ticks t := by
  unfold Deltas.upTo nets
  rw [List.map_map]
  rfl

theorem total_nets (ticks : SortedMap Int TickInfoInner) :
    Deltas.total (nets ticks) = ticks.sum fun _ info => info.liquidityNet := by
  unfold Deltas.total nets
  rw [List.map_map]
  rfl

theorem deltaAt_nets (ticks : SortedMap Int TickInfoInner) (t : Int) :
    Deltas.deltaAt (nets ticks) t = (tickAt ticks t).liquidityNet := by
  have hsum : Deltas.deltaAt (nets ticks) t =
      ticks.sum fun k info => if k = t then info.liquidityNet else 0 := by
    unfold Deltas.deltaAt nets
    rw [List.map_map]
    rfl
  have hsummand (k : Int) : ticks.summand (fun k info => if k = t then info.liquidityNet else 0) k =
      if k = t then (tickAt ticks k).liquidityNet else 0 := by
    cases hget : ticks.get? k with
    | none =>
        rw [SortedMap.summand_none hget, tickAt_none hget]
        exact (ite_self 0).symm
    | some info =>
        rw [SortedMap.summand_some hget, tickAt_some hget]
  rw [hsum, SortedMap.sum_eq_sum_keys, Finset.sum_congr rfl (fun k _ => hsummand k),
    Finset.sum_ite_eq']
  split
  · rfl
  · rename_i hnot
    rw [tickAt_none (SortedMap.not_mem_keys.mp hnot)]
    rfl

theorem netBelow_add_netBetween (ticks : SortedMap Int TickInfoInner) {t t' : Int} (h : t ≤ t') :
    netBelow ticks t + netBetween ticks t t' = netBelow ticks t' := by
  unfold netBelow netBetween
  rw [← SortedMap.sum_add]
  apply SortedMap.sum_congr
  intro k info _
  split <;> split <;> split <;> omega

theorem netBelow_add_netAbove (ticks : SortedMap Int TickInfoInner) (t : Int) :
    netBelow ticks t + netAbove ticks t = ticks.sum fun _ info => info.liquidityNet := by
  unfold netBelow netAbove
  rw [← SortedMap.sum_add]
  apply SortedMap.sum_congr
  intro k info _
  split <;> split <;> omega

theorem netBelow_le_capacity {tickSpacing : TickSpacing} (hs : tickSpacing.IsPositive)
    (haligned : forall t info, ticks.get? t = some info -> tickSpacing.value ∣ t ∧ TickInRange t)
    (haccounted : forall t info, ticks.get? t = some info ->
      TickAccounted tickSpacing.maxLiquidityPerTick info) (t : Int) :
    netBelow ticks t ≤ 2 ^ 128 - 1 := by
  have hsum : netBelow ticks t ≤ ticks.keys.card * (tickSpacing.maxLiquidityPerTick : Int) := by
    unfold netBelow
    rw [SortedMap.sum_eq_sum_keys, ← nsmul_eq_mul]
    apply Finset.sum_le_card_nsmul
    intro k hk
    rcases SortedMap.mem_keys.mp hk with ⟨info, hget⟩
    have hinfo := haccounted k info hget
    have hnet := hinfo.net
    have hgross := hinfo.gross
    rw [SortedMap.summand_some hget]
    split <;> omega
  have hcard : (ticks.keys.card : Int) ≤ tickSpacing.numTicks := by
    apply TickSpacing.card_aligned_le hs
    intro k hk
    rcases SortedMap.mem_keys.mp hk with ⟨info, hget⟩
    exact haligned k info hget
  calc
    netBelow ticks t ≤ ticks.keys.card * (tickSpacing.maxLiquidityPerTick : Int) := hsum
    _ ≤ tickSpacing.numTicks * tickSpacing.maxLiquidityPerTick :=
      Int.mul_le_mul_of_nonneg_right hcard (Int.natCast_nonneg _)
    _ ≤ 2 ^ 128 - 1 := TickSpacing.numTicks_mul_cap_le hs

end Deltas

/-!
# Validated snapshots
-/

namespace PoolSnapshot

variable {s : PoolSnapshot Unit}

theorem Spanned.netBelow_nonneg (h : s.Spanned) (t : Int) : 0 ≤ netBelow s.ticks.inner t := by
  rcases h with ⟨spans, hspans⟩
  rw [← upTo_nets, Deltas.upTo_of_spans (fun t => (deltaAt_nets _ t).trans (hspans t))]
  exact Span.coveringSum_nonneg spans t

theorem spanned_iff (s : PoolSnapshot Unit) :
    s.Spanned ↔ (forall t info, s.ticks.inner.get? t = some info -> 0 ≤ netBelow s.ticks.inner t) ∧
      (s.ticks.inner.sum fun _ info => info.liquidityNet) = 0 := by
  have hiff := Deltas.exists_spans_iff (nets_sorted s.ticks.inner)
  rw [total_nets] at hiff
  unfold Spanned
  constructor
  · rintro ⟨spans, hspans⟩
    have hboth := hiff.mp ⟨spans, fun t => (deltaAt_nets _ t).trans (hspans t)⟩
    refine ⟨fun t info hget => ?_, hboth.2⟩
    have hmem : (t, info.liquidityNet) ∈ nets s.ticks.inner :=
      List.mem_map.mpr ⟨(t, info), SortedMap.mem_entries_iff.mpr hget, rfl⟩
    rw [← upTo_nets]
    exact hboth.1 _ hmem
  · rintro ⟨hpre, htotal⟩
    have hnets (e : Int × Int) (he : e ∈ nets s.ticks.inner) :
        0 ≤ Deltas.upTo (nets s.ticks.inner) e.1 := by
      rcases List.mem_map.mp he with ⟨entry, hentry, rfl⟩
      rw [upTo_nets]
      exact hpre _ _ (SortedMap.mem_entries_iff.mp hentry)
    rcases hiff.mpr ⟨hnets, htotal⟩ with ⟨spans, hspans⟩
    exact ⟨spans, fun t => (deltaAt_nets _ t).symm.trans (hspans t)⟩

theorem Valid.covered_iff (h : s.Valid) :
    s.Covered ↔ (forall t info, s.ticks.inner.get? t = some info -> 0 ≤ netBelow s.ticks.inner t) ∧
      (s.ticks.inner.sum fun _ info => info.liquidityNet) = 0 := by
  have hactive := h.active
  have htotal := netBelow_add_netAbove s.ticks.inner s.state.tick
  constructor
  · intro hcovered
    have hspent := hcovered.spent
    refine ⟨fun t info hget => ?_, by omega⟩
    rcases lt_or_ge s.state.tick t with habove | hbelow
    · have hsplit := netBelow_add_netBetween s.ticks.inner (le_of_lt habove)
      have hnet := hcovered.above t info hget habove
      omega
    · rcases lt_or_eq_of_le hbelow with hlt | heq
      · have hsplit := netBelow_add_netBetween s.ticks.inner hbelow
        have hnet := hcovered.below t info hget hlt
        omega
      · rw [heq]
        omega
  · rintro ⟨hprefixes, hzero⟩
    refine ⟨fun t info hget habove => ?_, by omega, fun t info hget hbelow => ?_⟩
    · have hsplit := netBelow_add_netBetween s.ticks.inner (le_of_lt habove)
      have hprefix := hprefixes t info hget
      omega
    · have hsplit := netBelow_add_netBetween s.ticks.inner (le_of_lt hbelow)
      have hprefix := hprefixes t info hget
      omega

/-- A validated snapshot without negative prefix sums and without a remainder can be
traversed: the cap of the ticks bounds the sums above. -/
theorem Valid.traversable (h : s.Valid) (hs : s.TypesValid)
    (hprefixes : forall t info, s.ticks.inner.get? t = some info -> 0 ≤ netBelow s.ticks.inner t)
    (htotal : (s.ticks.inner.sum fun _ info => info.liquidityNet) = 0) : s.Traversable := by
  have hcapacity (t : Int) : netBelow s.ticks.inner t ≤ 2 ^ 128 - 1 :=
    netBelow_le_capacity hs.spacing
      (fun t info hget => ⟨h.aligned t info hget, hs.ticks t info hget⟩) h.accounted t
  refine
    { prefixes := fun t info hget => ⟨hprefixes t info hget, hcapacity t⟩
      total := htotal
      swaps := fun _ _ p hp params fuel q hswap => ?_ }
  have hr := fromSnapshot_eq_ok hp
  rcases (hr.sound hs.price).underflow hswap with ⟨t, ht⟩
  rw [hr.ticks.snapshot] at ht
  have hnonneg := ((spanned_iff s).mpr ⟨hprefixes, htotal⟩).netBelow_nonneg t
  have hle := hcapacity t
  norm_num at hle ht
  omega

/-- The ticks of a validated snapshot can all be crossed exactly when the sums that
validation leaves unchecked are covered by the active liquidity. -/
theorem traversable_iff (hs : s.TypesValid) (h : s.validate = .ok ()) :
    s.Traversable ↔ s.Covered := by
  have hvalid := validate_eq_ok h
  rw [hvalid.covered_iff]
  constructor
  · intro htraversable
    exact ⟨fun t info hget => (htraversable.prefixes t info hget).1, htraversable.total⟩
  · rintro ⟨hprefixes, htotal⟩
    exact hvalid.traversable hs hprefixes htotal

end PoolSnapshot

/-!
# A validated snapshot that traps a swap
-/

namespace Sample

/-- Liquidity five below the current tick, a net of minus seven above it. -/
def trap : PoolSnapshot Unit :=
  { state :=
      { sqrtPriceX96 := 2 ^ 96
        tick := 0
        liquidity := 5
        feeGrowthGlobal0X128 := 0
        feeGrowthGlobal1X128 := 0 }
    fee := swapFee.lpFee
    protocolFee := swapFee.protocolFee
    tickSpacing
    ticks := { tickSpacing, inner := SortedMap.ofList [(-60, ⟨5, 5, 0, 0⟩), (60, ⟨7, -7, 0, 0⟩)] }
    positions := () }

theorem trap_validate : trap.validate = .ok () := by
  decide +kernel

theorem trap_typesValid : trap.TypesValid := by
  refine ⟨by decide, by decide, fun t info hget => ?_⟩
  have hall : forall e, e ∈ trap.ticks.inner.entries -> TickInRange e.1 := by
    decide +kernel
  exact hall (t, info) (SortedMap.mem_entries_iff.mpr hget)

def buyOut : SwapParamsInner :=
  { zeroForOne := false
    amountSpecified := -10 ^ 18
    sqrtPriceLimit := maxSqrtPrice - 1
    lpFeeOverride := none
    amountFits := fitsSigned_neg_add
    limitValid := maxSqrtPrice_sub_one_valid }

end Sample

/-- A validated snapshot whose prefix sum at its upper tick is negative: buying fails
when it crosses that tick. -/
theorem traversable_fails_above :
    exists s : PoolSnapshot Unit, s.TypesValid ∧ s.validate = .ok () ∧
      netBelow s.ticks.inner 60 = -2 ∧
      exists p : Pool Unit, Pool.fromSnapshot s = .ok p ∧ exists params fuel q,
        p.swap params fuel = some (.error .liquidityUnderflow, q) := by
  have hok : (Pool.fromSnapshot Sample.trap : Outcome Error (Pool Unit)).isOk = true := by
    decide +kernel
  have hp := Outcome.eq_ok_getD hok
    ({ state := Sample.empty.state
       swapFee := Sample.swapFee
       tickSpacing := Sample.tickSpacing
       ticks := Sample.empty.ticks
       positions := () } : Pool Unit)
  refine ⟨Sample.trap, Sample.trap_typesValid, Sample.trap_validate, by decide +kernel, _, hp,
    Sample.buyOut, 3, _, Sample.swap_eq (r := .error .liquidityUnderflow) ?_⟩
  decide +kernel

theorem PoolSnapshot.traversable_iff_sample : Sample.trap.Traversable ↔ Sample.trap.Covered :=
  PoolSnapshot.traversable_iff Sample.trap_typesValid Sample.trap_validate

end RmUniswap
