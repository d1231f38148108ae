import RmUniswap.Foundation.RangeAccumulator
import RmUniswap.Pool.Swap
import RmUniswap.Ticks.TickMap

/-!
# Tick accounting

The net liquidity at or below a tick is the active liquidity there. A change of
one tick changes it by that tick, and a move past one tick by its net liquidity.
-/

namespace RmUniswap

open Foundation

variable {A : Type} [LawfulAllocator TickSlabValue A]

def tickAt (ticks : SortedMap Int TickInfoInner) (t : Int) : TickInfoInner :=
  (ticks.get? t).getD TickInfoInner.default

theorem tickAt_some {ticks : SortedMap Int TickInfoInner} {t : Int} {info : TickInfoInner}
    (h : ticks.get? t = some info) : tickAt ticks t = info := by
  rw [tickAt, h]
  rfl

theorem tickAt_none {ticks : SortedMap Int TickInfoInner} {t : Int}
    (h : ticks.get? t = none) : tickAt ticks t = TickInfoInner.default := by
  rw [tickAt, h]
  rfl

def netBelow (ticks : SortedMap Int TickInfoInner) (t : Int) : Int :=
  ticks.sum fun k info => if k ≤ t then info.liquidityNet else 0

section NetBelow

variable {ticks ticks' : SortedMap Int TickInfoInner} {k t t' : Int}

theorem netBelow_summand (ticks : SortedMap Int TickInfoInner) (k t : Int) :
    ticks.summand (fun k info => if k ≤ t then info.liquidityNet else 0) k =
      if k ≤ t then (tickAt ticks k).liquidityNet else 0 := by
  cases h : ticks.get? k with
  | none =>
      rw [SortedMap.summand_none h, tickAt_none h]
      exact (ite_self 0).symm
  | some info =>
      rw [SortedMap.summand_some h, tickAt_some h]

theorem netBelow_update (h : SortedMap.AgreeOff ticks ticks' k) (t : Int) :
    netBelow ticks' t = netBelow ticks t +
      if k ≤ t then (tickAt ticks' k).liquidityNet - (tickAt ticks k).liquidityNet else 0 := by
  have hsum := SortedMap.sum_update
    (fun k (info : TickInfoInner) => if k ≤ t then info.liquidityNet else 0) h
  rw [netBelow_summand, netBelow_summand] at hsum
  unfold netBelow
  split
  · rename_i hle
    rw [if_pos hle, if_pos hle] at hsum
    omega
  · rename_i hle
    rw [if_neg hle, if_neg hle] at hsum
    omega

theorem netBelow_stay
    (h : forall j info, ticks.get? j = some info -> (j ≤ t' ↔ j ≤ t)) :
    netBelow ticks t' = netBelow ticks t :=
  SortedMap.sum_congr fun j info hj => if_congr (h j info hj) rfl rfl

theorem netBelow_pass (ticks : SortedMap Int TickInfoInner) (k t t' : Int)
    (h : forall j info, ticks.get? j = some info -> j ≠ k -> (j ≤ t' ↔ j ≤ t)) :
    netBelow ticks t' = netBelow ticks t +
      ((if k ≤ t' then (tickAt ticks k).liquidityNet else 0) -
        if k ≤ t then (tickAt ticks k).liquidityNet else 0) := by
  have hstay : netBelow (ticks.erase k) t' = netBelow (ticks.erase k) t := by
    apply netBelow_stay
    intro j info hj
    rw [SortedMap.get?_erase] at hj
    split at hj
    · cases hj
    · rename_i hne
      exact h j info hj hne
  have hnone : tickAt (ticks.erase k) k = TickInfoInner.default :=
    tickAt_none (SortedMap.get?_erase_self ticks k)
  have ht := netBelow_update (SortedMap.agreeOff_erase ticks k) t
  have ht' := netBelow_update (SortedMap.agreeOff_erase ticks k) t'
  rw [hnone] at ht ht'
  have hzero : TickInfoInner.default.liquidityNet = 0 := rfl
  rw [hzero] at ht ht'
  split at ht <;> split at ht' <;> split <;> omega

theorem netBelow_insert_same {info info' : TickInfoInner} (h : ticks.get? k = some info)
    (hnet : info'.liquidityNet = info.liquidityNet) (t : Int) :
    netBelow (ticks.insert k info') t = netBelow ticks t := by
  rw [netBelow_update (SortedMap.agreeOff_insert ticks k info'), tickAt_some h,
    tickAt_some (SortedMap.get?_insert_self ticks k info'), hnet, sub_self, ite_self, add_zero]

end NetBelow

/-!
# Crossing a tick
-/

def TickInfoInner.flip (info : TickInfoInner) (globals : Nat × Nat) : TickInfoInner :=
  { info with
    feeGrowthOutside0X128 := wrappingSub 256 globals.1 info.feeGrowthOutside0X128
    feeGrowthOutside1X128 := wrappingSub 256 globals.2 info.feeGrowthOutside1X128 }

@[simp] theorem TickInfoInner.flip_gross (info : TickInfoInner) (globals : Nat × Nat) :
    (info.flip globals).liquidityGross = info.liquidityGross := rfl

@[simp] theorem TickInfoInner.flip_net (info : TickInfoInner) (globals : Nat × Nat) :
    (info.flip globals).liquidityNet = info.liquidityNet := rfl

/-- What a crossing leaves of the ticks: only exclusive access writes. -/
def Access.crossed (access : Access) (ticks : SortedMap Int TickInfoInner) (t : Int)
    (info : TickInfoInner) (globals : Nat × Nat) : SortedMap Int TickInfoInner :=
  match access with
  | .shared => ticks
  | .exclusive => ticks.insert t (info.flip globals)

/-- A slab that stands for a tick map at a spacing. -/
structure TickSlab.Holds (s : TickSlab A) (tickSpacing : TickSpacing)
    (ticks : SortedMap Int TickInfoInner) : Prop where
  keyed : s.Keyed
  spacing : s.tickSpacing = tickSpacing
  snapshot : s.snapshot = ticks

namespace TickSlab.Holds

variable {s : TickSlab A} {tickSpacing : TickSpacing} {ticks : SortedMap Int TickInfoInner}
  {t : Int} {info : TickInfoInner}

theorem get_entry (h : s.Holds tickSpacing ticks) (hget : ticks.get? t = some info) :
    s.get (s.indexer t) = some (TickInfo.withInner t (getSqrtPriceAtTick t) info) :=
  h.keyed.get_entry (by rw [h.snapshot]; exact hget)

theorem storable (h : s.Holds tickSpacing ticks) (hget : ticks.get? t = some info) :
    Storable tickSpacing t :=
  h.spacing ▸ h.keyed.storable (by rw [h.snapshot]; exact hget)

theorem positive (h : s.Holds tickSpacing ticks) : tickSpacing.IsPositive :=
  h.spacing ▸ s.positive

theorem write (h : s.Holds tickSpacing ticks) (hget : ticks.get? t = some info)
    (inner : TickInfoInner) :
    (s.write (s.indexer t) (TickInfo.withInner t (getSqrtPriceAtTick t) inner)).Holds
      tickSpacing (ticks.insert t inner) := by
  have hwrite := h.keyed.write_tick (t := t) (by rw [h.snapshot]; exact hget) inner
  exact
    { keyed := hwrite.1
      spacing := hwrite.2.2.trans h.spacing
      snapshot := by rw [hwrite.2.1, h.snapshot] }

theorem remove (h : s.Holds tickSpacing ticks) (ht : Storable tickSpacing t) :
    (s.remove (s.indexer t)).Holds tickSpacing (ticks.erase t) := by
  have hremove := h.keyed.remove_tick (h.spacing.symm ▸ ht)
  exact
    { keyed := hremove.1
      spacing := hremove.2.2.trans h.spacing
      snapshot := by rw [hremove.2.1, h.snapshot] }

theorem insert (h : s.Holds tickSpacing ticks) (ht : Storable tickSpacing t)
    (inner : TickInfoInner) :
    exists s', s.insert (s.indexer t) (TickInfo.withInner t (getSqrtPriceAtTick t) inner) =
      .ok s' ∧ s'.Holds tickSpacing (ticks.insert t inner) := by
  rcases h.keyed.insert_tick (h.spacing.symm ▸ ht) inner with ⟨s', hs', hk, hsnap, hsp⟩
  exact ⟨s', hs', hk, hsp.trans h.spacing, by rw [hsnap, h.snapshot]⟩

theorem crossTick (h : s.Holds tickSpacing ticks) (hget : ticks.get? t = some info)
    (access : Access) (globals : Nat × Nat) :
    (access.crossTick s (s.indexer t) globals.1 globals.2).1 = .ok info.liquidityNet ∧
      (access.crossTick s (s.indexer t) globals.1 globals.2).2.Holds tickSpacing
        (access.crossed ticks t info globals) := by
  have hentry := h.get_entry hget
  cases access with
  | shared =>
      unfold Access.crossTick Access.crossed
      dsimp only
      rw [hentry]
      exact ⟨rfl, h⟩
  | exclusive =>
      unfold Access.crossTick Access.crossed TickSlab.crossTick updateInitializedTick
      dsimp only
      rw [hentry]
      exact ⟨rfl, h.write hget (info.flip globals)⟩

end TickSlab.Holds

end RmUniswap
