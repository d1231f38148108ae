import RmUniswap.Pool.Accounting
import RmUniswap.Pool.ModifyLiquidity

/-!
# Liquidity changes on the tick map

A change rewrites the accounting of its two boundary ticks. It is stated on the
map a slab stands for, stage by stage, with what each failing stage leaves.
-/

namespace RmUniswap

open Foundation

variable {A : Type} [LawfulAllocator TickSlabValue A]

/-!
# One boundary
-/

namespace TickInfoInner

def netAfter (info : TickInfoInner) (liquidityDelta : Int) (upper : Bool) : Int :=
  if upper then info.liquidityNet - liquidityDelta else info.liquidityNet + liquidityDelta

structure Admits (info : TickInfoInner) (maxLiquidityPerTick : Nat) (liquidityDelta : Int)
    (upper : Bool) : Prop where
  nonneg : 0 ≤ (info.liquidityGross : Int) + liquidityDelta
  fits : (info.liquidityGross : Int) + liquidityDelta < 2 ^ 128
  cap : 0 < liquidityDelta -> (info.liquidityGross : Int) + liquidityDelta ≤ maxLiquidityPerTick
  net : FitsSigned 128 (info.netAfter liquidityDelta upper)

instance (info : TickInfoInner) (maxLiquidityPerTick : Nat) (liquidityDelta : Int)
    (upper : Bool) : Decidable (info.Admits maxLiquidityPerTick liquidityDelta upper) :=
  decidable_of_iff
    (0 ≤ (info.liquidityGross : Int) + liquidityDelta ∧
      (info.liquidityGross : Int) + liquidityDelta < 2 ^ 128 ∧
      (0 < liquidityDelta ->
        (info.liquidityGross : Int) + liquidityDelta ≤ maxLiquidityPerTick) ∧
      FitsSigned 128 (info.netAfter liquidityDelta upper))
    ⟨fun h => ⟨h.1, h.2.1, h.2.2.1, h.2.2.2⟩, fun h => ⟨h.nonneg, h.fits, h.cap, h.net⟩⟩

def rejection (info : TickInfoInner) (maxLiquidityPerTick : Nat) (liquidityDelta : Int) : Error :=
  match checkedAddSigned 128 info.liquidityGross liquidityDelta with
  | none => .i128Overflow
  | some liquidityGrossAfter =>
      if liquidityDelta > 0 ∧ liquidityGrossAfter > maxLiquidityPerTick then .liquidityOverflow
      else .i128Overflow

def change (info : TickInfoInner) (state : PoolState) (t : Int) (liquidityDelta : Int)
    (upper : Bool) : TickInfoInner :=
  { liquidityGross := ((info.liquidityGross : Int) + liquidityDelta).toNat
    liquidityNet := info.netAfter liquidityDelta upper
    feeGrowthOutside0X128 :=
      if info.liquidityGross = 0 ∧ t ≤ state.tick then state.feeGrowthGlobal0X128
      else info.feeGrowthOutside0X128
    feeGrowthOutside1X128 :=
      if info.liquidityGross = 0 ∧ t ≤ state.tick then state.feeGrowthGlobal1X128
      else info.feeGrowthOutside1X128 }

def boundary (info : TickInfoInner) (t : Int) : TickBoundary :=
  { sqrtPrice := getSqrtPriceAtTick t
    feeGrowthOutside0X128 := info.feeGrowthOutside0X128
    feeGrowthOutside1X128 := info.feeGrowthOutside1X128 }

end TickInfoInner

def storeTick (ticks : SortedMap Int TickInfoInner) (t : Int) (info : TickInfoInner) :
    SortedMap Int TickInfoInner :=
  if info.liquidityGross = 0 then ticks.erase t else ticks.insert t info

/-- The slot a failing update may leave behind. -/
def touchTick (ticks : SortedMap Int TickInfoInner) (t : Int) : SortedMap Int TickInfoInner :=
  match ticks.get? t with
  | some _ => ticks
  | none => ticks.insert t TickInfoInner.default

section StoreTick

variable {ticks : SortedMap Int TickInfoInner} {t j : Int} {info : TickInfoInner}

theorem agreeOff_storeTick (ticks : SortedMap Int TickInfoInner) (t : Int)
    (info : TickInfoInner) : SortedMap.AgreeOff ticks (storeTick ticks t info) t := by
  unfold storeTick
  split
  · exact SortedMap.agreeOff_erase ticks t
  · exact SortedMap.agreeOff_insert ticks t info

theorem get?_storeTick_self :
    (storeTick ticks t info).get? t = if info.liquidityGross = 0 then none else some info := by
  unfold storeTick
  split
  · exact SortedMap.get?_erase_self ticks t
  · exact SortedMap.get?_insert_self ticks t info

theorem get?_storeTick_ne (h : j ≠ t) : (storeTick ticks t info).get? j = ticks.get? j :=
  agreeOff_storeTick ticks t info j h

theorem tickAt_storeTick_ne (h : j ≠ t) :
    tickAt (storeTick ticks t info) j = tickAt ticks j := by
  unfold tickAt
  rw [get?_storeTick_ne h]

end StoreTick

namespace ModifyLiquidityParams

/-- The range is ordered and aligned to the spacing. -/
def RangeValid (params : ModifyLiquidityParams) (tickSpacing : TickSpacing) : Prop :=
  params.tickLower < params.tickUpper ∧ tickSpacing.value ∣ params.tickLower ∧
    tickSpacing.value ∣ params.tickUpper

instance (params : ModifyLiquidityParams) (tickSpacing : TickSpacing) :
    Decidable (params.RangeValid tickSpacing) :=
  inferInstanceAs (Decidable (_ ∧ _))

def lowerAfter (params : ModifyLiquidityParams) (state : PoolState)
    (ticks : SortedMap Int TickInfoInner) : TickInfoInner :=
  (tickAt ticks params.tickLower).change state params.tickLower params.liquidityDelta false

def upperAfter (params : ModifyLiquidityParams) (state : PoolState)
    (ticks : SortedMap Int TickInfoInner) : TickInfoInner :=
  (tickAt ticks params.tickUpper).change state params.tickUpper params.liquidityDelta true

def changeTicks (params : ModifyLiquidityParams) (state : PoolState)
    (ticks : SortedMap Int TickInfoInner) : SortedMap Int TickInfoInner :=
  storeTick (storeTick ticks params.tickLower (params.lowerAfter state ticks)) params.tickUpper
    (params.upperAfter state ticks)

end ModifyLiquidityParams

namespace Pool

section UpdateTick

variable (state : PoolState) {slab : TickSlab A} {tickSpacing : TickSpacing}
  {ticks : SortedMap Int TickInfoInner} {t liquidityDelta : Int} {upper : Bool}
  {old : TickInfoInner}

theorem changeTick_ok (hslab : slab.Holds tickSpacing ticks) (hget : ticks.get? t = some old)
    (hdelta : liquidityDelta ≠ 0)
    (hadmits : old.Admits tickSpacing.maxLiquidityPerTick liquidityDelta upper) :
    exists slab', changeTick state slab (slab.indexer t) t liquidityDelta upper
        { boundary := old.boundary t
          liquidityGross := old.liquidityGross
          liquidityNet := old.liquidityNet } =
        (.ok ((old.change state t liquidityDelta upper).boundary t), slab') ∧
      slab'.Holds tickSpacing
        (storeTick ticks t (old.change state t liquidityDelta upper)) := by
  have hnonneg := hadmits.nonneg
  have hfits := hadmits.fits
  have hcap := hadmits.cap
  have hgross : checkedAddSigned 128 old.liquidityGross liquidityDelta =
      some (old.change state t liquidityDelta upper).liquidityGross := by
    rw [checkedAddSigned_eq_some]
    unfold TickInfoInner.change
    dsimp only
    omega
  have hnet : checkedSigned 128
      (if upper then old.liquidityNet - liquidityDelta else old.liquidityNet + liquidityDelta) =
      some (old.netAfter liquidityDelta upper) :=
    checkedSigned_eq_some.mpr ⟨rfl, hadmits.net⟩
  have hmax : ¬ (liquidityDelta > 0 ∧
      (old.change state t liquidityDelta upper).liquidityGross > slab.maxLiquidityPerTick) := by
    rw [slab.maxLiquidityPerTick_eq, hslab.spacing]
    unfold TickInfoInner.change
    dsimp only
    omega
  unfold changeTick
  dsimp only
  rw [hgross]
  dsimp only
  rw [if_neg hmax, hnet]
  dsimp only
  by_cases hzero : (old.change state t liquidityDelta upper).liquidityGross = 0
  · -- The last liquidity leaves: the tick had some, so its growth was not fresh.
    have hold : old.liquidityGross ≠ 0 := by
      unfold TickInfoInner.change at hzero
      dsimp only at hzero
      omega
    refine ⟨slab.remove (slab.indexer t), ?_, ?_⟩
    · rw [if_pos hzero]
      unfold TickInfoInner.change TickInfoInner.boundary
      dsimp only
      rw [if_neg (fun h => hold h.1), if_neg (fun h => hold h.1)]
    · unfold storeTick
      rw [if_pos hzero]
      exact hslab.remove (hslab.storable hget)
  · refine ⟨slab.write (slab.indexer t) (TickInfo.withInner t (getSqrtPriceAtTick t)
      (old.change state t liquidityDelta upper)), ?_, ?_⟩
    · rw [if_neg hzero]
      unfold TickSlab.updateInitializedTick
      rw [hslab.get_entry hget]
      rfl
    · unfold storeTick
      rw [if_neg hzero]
      exact hslab.write hget _

theorem changeTick_error (t : Int) (hslab : slab.Holds tickSpacing ticks)
    (hadmits : ¬ old.Admits tickSpacing.maxLiquidityPerTick liquidityDelta upper)
    (before : TickBoundary) :
    changeTick state slab (slab.indexer t) t liquidityDelta upper
        { boundary := before
          liquidityGross := old.liquidityGross
          liquidityNet := old.liquidityNet } =
      (.error (old.rejection tickSpacing.maxLiquidityPerTick liquidityDelta), slab) := by
  unfold changeTick TickInfoInner.rejection
  rw [slab.maxLiquidityPerTick_eq, hslab.spacing]
  dsimp only
  cases hgross : checkedAddSigned 128 old.liquidityGross liquidityDelta with
  | none =>
      rfl
  | some grossAfter =>
      have hsum := checkedAddSigned_eq_some.mp hgross
      dsimp only
      split
      · rfl
      · rename_i hcap
        cases hnet : checkedSigned 128 (if upper then old.liquidityNet - liquidityDelta
            else old.liquidityNet + liquidityDelta) with
        | none =>
            rfl
        | some netAfter =>
            exfalso
            apply hadmits
            have hlt := hsum.2
            exact
              { nonneg := by omega
                fits := by omega
                cap := fun hpos => by
                  by_contra hgt
                  exact hcap ⟨hpos, by omega⟩
                net := (checkedSigned_eq_some.mp hnet).2 }

theorem updateTick_ok (hslab : slab.Holds tickSpacing ticks) (hst : Storable tickSpacing t)
    (hdelta : liquidityDelta ≠ 0)
    (hadmits : (tickAt ticks t).Admits tickSpacing.maxLiquidityPerTick liquidityDelta upper) :
    exists slab', updateTick state slab t liquidityDelta upper =
        (.ok (((tickAt ticks t).change state t liquidityDelta upper).boundary t), slab') ∧
      slab'.Holds tickSpacing
        (storeTick ticks t ((tickAt ticks t).change state t liquidityDelta upper)) := by
  unfold updateTick
  dsimp only
  cases hget : ticks.get? t with
  | some old =>
      rw [tickAt_some hget] at hadmits ⊢
      rw [hslab.get_entry hget]
      exact changeTick_ok state hslab hget hdelta hadmits
  | none =>
      rw [tickAt_none hget] at hadmits ⊢
      have hnone : slab.get (slab.indexer t) = none := by
        rw [hslab.keyed.get_indexer (hslab.spacing.symm ▸ hst), hslab.snapshot, hget]
        rfl
      rcases hslab.insert hst TickInfoInner.default with ⟨slab', hinsert, hslab'⟩
      have hindexer : slab.indexer t = slab'.indexer t := by
        show fromTick t slab.tickSpacing.asU32 = fromTick t slab'.tickSpacing.asU32
        rw [hslab.spacing, hslab'.spacing]
      have hnew : TickInfo.new t (getSqrtPriceAtTick t) =
          TickInfo.withInner t (getSqrtPriceAtTick t) TickInfoInner.default := rfl
      rw [hnone]
      dsimp only
      rw [hnew, hinsert]
      dsimp only
      rw [hindexer]
      rcases changeTick_ok state hslab' (SortedMap.get?_insert_self ticks t _) hdelta
        hadmits with ⟨last, hchange, hlast⟩
      refine ⟨last, hchange, ?_⟩
      have hstore : storeTick (ticks.insert t TickInfoInner.default) t
            (TickInfoInner.default.change state t liquidityDelta upper) =
          storeTick ticks t (TickInfoInner.default.change state t liquidityDelta upper) := by
        apply SortedMap.ext
        intro j
        by_cases hj : j = t
        · rw [hj, get?_storeTick_self, get?_storeTick_self]
        · rw [get?_storeTick_ne hj, get?_storeTick_ne hj, SortedMap.get?_insert_ne ticks hj]
      rw [hstore] at hlast
      exact hlast

theorem updateTick_error (hslab : slab.Holds tickSpacing ticks) (hst : Storable tickSpacing t)
    (hadmits : ¬ (tickAt ticks t).Admits tickSpacing.maxLiquidityPerTick liquidityDelta upper) :
    exists slab', updateTick state slab t liquidityDelta upper =
        (.error ((tickAt ticks t).rejection tickSpacing.maxLiquidityPerTick liquidityDelta),
          slab') ∧
      slab'.Holds tickSpacing (touchTick ticks t) := by
  unfold updateTick touchTick
  dsimp only
  cases hget : ticks.get? t with
  | some old =>
      rw [tickAt_some hget] at hadmits ⊢
      rw [hslab.get_entry hget]
      exact ⟨slab, changeTick_error state t hslab hadmits (old.boundary t), hslab⟩
  | none =>
      rw [tickAt_none hget] at hadmits ⊢
      have hnone : slab.get (slab.indexer t) = none := by
        rw [hslab.keyed.get_indexer (hslab.spacing.symm ▸ hst), hslab.snapshot, hget]
        rfl
      rcases hslab.insert hst TickInfoInner.default with ⟨slab', hinsert, hslab'⟩
      have hindexer : slab.indexer t = slab'.indexer t := by
        show fromTick t slab.tickSpacing.asU32 = fromTick t slab'.tickSpacing.asU32
        rw [hslab.spacing, hslab'.spacing]
      have hnew : TickInfo.new t (getSqrtPriceAtTick t) =
          TickInfo.withInner t (getSqrtPriceAtTick t) TickInfoInner.default := rfl
      rw [hnone]
      dsimp only
      rw [hnew, hinsert]
      dsimp only
      rw [hindexer]
      exact ⟨slab', changeTick_error state t hslab' hadmits (TickInfoInner.default.boundary t),
        hslab'⟩

end UpdateTick

/-!
# Both boundaries
-/

section Boundaries

variable {P : Type} {p : Pool P A} {params : ModifyLiquidityParams}

theorem checkTicks_eq_ok {tickSpacing : TickSpacing} :
    checkTicks params.tickLower params.tickUpper tickSpacing = .ok () ↔
      params.RangeValid tickSpacing := by
  unfold checkTicks ModifyLiquidityParams.RangeValid validateTickIndexForSpacing
  rw [← forSpacing_iff, ← forSpacing_iff]
  split
  · rename_i hge
    constructor
    · intro h
      cases h
    · intro h
      omega
  · rename_i hlt
    rw [bind_eq_ok]
    cases hlower : forSpacing params.tickLower tickSpacing with
    | false =>
        simp
    | true =>
        cases hupper : forSpacing params.tickUpper tickSpacing with
        | false =>
            simp
        | true =>
            simp
            omega

theorem storable_of_inRange {tickSpacing : TickSpacing} {t : Int} (hdvd : tickSpacing.value ∣ t)
    (ht : TickInRange t) : Storable tickSpacing t := by
  have hlo := ht.1
  unfold minTick at hlo
  exact ⟨hdvd, by omega, ht.2⟩

/-- The accounting of the two boundaries a change works with, and the ticks after it. -/
inductive Boundaries (p : Pool P A) (params : ModifyLiquidityParams) :
    TickInfoInner -> TickInfoInner -> TickSlab A -> SortedMap Int TickInfoInner -> Prop
  | changed {slab : TickSlab A} : params.liquidityDelta ≠ 0 ->
      (tickAt p.ticks.snapshot params.tickLower).Admits p.tickSpacing.maxLiquidityPerTick
        params.liquidityDelta false ->
      (tickAt p.ticks.snapshot params.tickUpper).Admits p.tickSpacing.maxLiquidityPerTick
        params.liquidityDelta true ->
      slab.Holds p.tickSpacing (params.changeTicks p.state p.ticks.snapshot) ->
      Boundaries p params (params.lowerAfter p.state p.ticks.snapshot)
        (params.upperAfter p.state p.ticks.snapshot) slab
        (params.changeTicks p.state p.ticks.snapshot)
  | read : params.liquidityDelta = 0 ->
      Boundaries p params (tickAt p.ticks.snapshot params.tickLower)
        (tickAt p.ticks.snapshot params.tickUpper) p.ticks p.ticks.snapshot

theorem Boundaries.admits {lower upper : TickInfoInner} {slab : TickSlab A}
    {map : SortedMap Int TickInfoInner} (h : Boundaries p params lower upper slab map)
    (hdelta : params.liquidityDelta ≠ 0) :
    (tickAt p.ticks.snapshot params.tickLower).Admits p.tickSpacing.maxLiquidityPerTick
        params.liquidityDelta false ∧
      (tickAt p.ticks.snapshot params.tickUpper).Admits p.tickSpacing.maxLiquidityPerTick
        params.liquidityDelta true := by
  cases h with
  | changed _ hlower hupper _ =>
      exact ⟨hlower, hupper⟩
  | read hzero =>
      exact absurd hzero hdelta

inductive ModifyCases [PositionsAccess P] (p : Pool P A) (params : ModifyLiquidityParams) :
    Except Error ModifyLiquidityResult × Pool P A -> Prop
  | rejected {e : Error} : ¬ params.RangeValid p.tickSpacing ->
      ModifyCases p params (.error e, p)
  | lower {e : Error} {ticks : TickSlab A} : params.RangeValid p.tickSpacing ->
      params.liquidityDelta ≠ 0 ->
      ¬ (tickAt p.ticks.snapshot params.tickLower).Admits p.tickSpacing.maxLiquidityPerTick
        params.liquidityDelta false ->
      ticks.Holds p.tickSpacing (touchTick p.ticks.snapshot params.tickLower) ->
      ModifyCases p params (.error e, { p with ticks })
  | upper {e : Error} {ticks : TickSlab A} : params.RangeValid p.tickSpacing ->
      params.liquidityDelta ≠ 0 ->
      (tickAt p.ticks.snapshot params.tickLower).Admits p.tickSpacing.maxLiquidityPerTick
        params.liquidityDelta false ->
      ¬ (tickAt p.ticks.snapshot params.tickUpper).Admits p.tickSpacing.maxLiquidityPerTick
        params.liquidityDelta true ->
      ticks.Holds p.tickSpacing (touchTick (storeTick p.ticks.snapshot params.tickLower
        (params.lowerAfter p.state p.ticks.snapshot)) params.tickUpper) ->
      ModifyCases p params (.error e, { p with ticks })
  | position {e : Error} {lower upper : TickInfoInner} {ticks : TickSlab A}
      {map : SortedMap Int TickInfoInner} {positions : P} : params.RangeValid p.tickSpacing ->
      Boundaries p params lower upper ticks map ->
      p.realizeFees params (lower.boundary params.tickLower) (upper.boundary params.tickUpper) =
        (.error e, positions) ->
      ModifyCases p params (.error e, { p with ticks, positions })
  | principal {e : Error} {lower upper : TickInfoInner} {ticks : TickSlab A}
      {map : SortedMap Int TickInfoInner} {positions : P} {feeDelta : BalanceDelta}
      {state : PoolState} : params.RangeValid p.tickSpacing ->
      Boundaries p params lower upper ticks map ->
      p.realizeFees params (lower.boundary params.tickLower) (upper.boundary params.tickUpper) =
        (.ok feeDelta, positions) ->
      settlePrincipal p.state params (lower.boundary params.tickLower)
        (upper.boundary params.tickUpper) = (.error e, state) ->
      ModifyCases p params (.error e, { p with ticks, positions, state })
  | done {lower upper : TickInfoInner} {ticks : TickSlab A}
      {map : SortedMap Int TickInfoInner} {positions : P} {feeDelta delta : BalanceDelta}
      {state : PoolState} : params.RangeValid p.tickSpacing ->
      Boundaries p params lower upper ticks map ->
      p.realizeFees params (lower.boundary params.tickLower) (upper.boundary params.tickUpper) =
        (.ok feeDelta, positions) ->
      settlePrincipal p.state params (lower.boundary params.tickLower)
        (upper.boundary params.tickUpper) = (.ok delta, state) ->
      ModifyCases p params (.ok { delta, feeDelta }, { p with ticks, positions, state })

/-- The later stages read the outside growth of the boundaries, and their prices only
for a change that is not zero. -/
theorem readTick_eq (hslab : p.ticks.Holds p.tickSpacing p.ticks.snapshot) {t : Int}
    (ht : Storable p.tickSpacing t) :
    readTick p.ticks t =
      { (tickAt p.ticks.snapshot t).boundary t with sqrtPrice := minSqrtPrice } := by
  unfold readTick
  rw [hslab.keyed.get_indexer (hslab.spacing.symm ▸ ht)]
  cases hget : p.ticks.snapshot.get? t with
  | none =>
      rw [tickAt_none hget]
      rfl
  | some info =>
      rw [tickAt_some hget]
      rfl

theorem updateBoundaries_cases (hslab : p.ticks.Holds p.tickSpacing p.ticks.snapshot)
    (hrange : params.RangeValid p.tickSpacing) :
    (params.liquidityDelta = 0 ∧ updateBoundaries p.state p.ticks params =
      (.ok (readTick p.ticks params.tickLower, readTick p.ticks params.tickUpper), p.ticks)) ∨
    (params.liquidityDelta ≠ 0 ∧
      ¬ (tickAt p.ticks.snapshot params.tickLower).Admits p.tickSpacing.maxLiquidityPerTick
        params.liquidityDelta false ∧
      exists slab, updateBoundaries p.state p.ticks params =
          (.error ((tickAt p.ticks.snapshot params.tickLower).rejection
            p.tickSpacing.maxLiquidityPerTick params.liquidityDelta), slab) ∧
        slab.Holds p.tickSpacing (touchTick p.ticks.snapshot params.tickLower)) ∨
    (params.liquidityDelta ≠ 0 ∧
      (tickAt p.ticks.snapshot params.tickLower).Admits p.tickSpacing.maxLiquidityPerTick
        params.liquidityDelta false ∧
      ¬ (tickAt p.ticks.snapshot params.tickUpper).Admits p.tickSpacing.maxLiquidityPerTick
        params.liquidityDelta true ∧
      exists slab, updateBoundaries p.state p.ticks params =
          (.error ((tickAt p.ticks.snapshot params.tickUpper).rejection
            p.tickSpacing.maxLiquidityPerTick params.liquidityDelta), slab) ∧
        slab.Holds p.tickSpacing (touchTick (storeTick p.ticks.snapshot params.tickLower
          (params.lowerAfter p.state p.ticks.snapshot)) params.tickUpper)) ∨
    (params.liquidityDelta ≠ 0 ∧ exists slab,
      updateBoundaries p.state p.ticks params =
        (.ok ((params.lowerAfter p.state p.ticks.snapshot).boundary params.tickLower,
          (params.upperAfter p.state p.ticks.snapshot).boundary params.tickUpper), slab) ∧
      Boundaries p params (params.lowerAfter p.state p.ticks.snapshot)
        (params.upperAfter p.state p.ticks.snapshot) slab
        (params.changeTicks p.state p.ticks.snapshot)) := by
  have hlower := storable_of_inRange hrange.2.1 params.lowerInRange
  have hupper := storable_of_inRange hrange.2.2 params.upperInRange
  unfold updateBoundaries
  by_cases hdelta : params.liquidityDelta = 0
  · exact Or.inl ⟨hdelta, if_neg (not_not.mpr hdelta)⟩
  · rw [if_pos hdelta]
    by_cases hadmits : (tickAt p.ticks.snapshot params.tickLower).Admits
        p.tickSpacing.maxLiquidityPerTick params.liquidityDelta false
    · rcases updateTick_ok p.state hslab hlower hdelta hadmits with
        ⟨slab, heq, hslab'⟩
      rw [heq]
      dsimp only
      replace hslab' : slab.Holds p.tickSpacing (storeTick p.ticks.snapshot params.tickLower
        (params.lowerAfter p.state p.ticks.snapshot)) := hslab'
      have hne : params.tickUpper ≠ params.tickLower := ne_of_gt hrange.1
      have hsame : tickAt (storeTick p.ticks.snapshot params.tickLower
          (params.lowerAfter p.state p.ticks.snapshot)) params.tickUpper =
          tickAt p.ticks.snapshot params.tickUpper := tickAt_storeTick_ne hne
      by_cases hadmits' : (tickAt p.ticks.snapshot params.tickUpper).Admits
          p.tickSpacing.maxLiquidityPerTick params.liquidityDelta true
      · rw [← hsame] at hadmits'
        rcases updateTick_ok p.state hslab' hupper hdelta hadmits' with
          ⟨last, heq', hlast⟩
        rw [hsame] at hadmits'
        refine Or.inr (Or.inr (Or.inr ⟨hdelta, last, ?_, ?_⟩))
        · rw [heq']
          dsimp only
          rw [hsame]
          rfl
        · refine Boundaries.changed hdelta hadmits hadmits' ?_
          rw [hsame] at hlast
          exact hlast
      · rw [← hsame] at hadmits'
        rcases updateTick_error p.state hslab' hupper hadmits' with
          ⟨last, heq', hlast⟩
        rw [hsame] at hadmits' heq'
        refine Or.inr (Or.inr (Or.inl ⟨hdelta, hadmits, hadmits', last, ?_, hlast⟩))
        rw [heq']
    · rcases updateTick_error p.state hslab hlower hadmits with ⟨slab, heq, hslab'⟩
      refine Or.inr (Or.inl ⟨hdelta, hadmits, slab, ?_, hslab'⟩)
      rw [heq]

theorem modify_stages [PositionsAccess P] {lower upper : TickInfoInner} {slab : TickSlab A}
    {map : SortedMap Int TickInfoInner} {lb ub : TickBoundary}
    (hrange : params.RangeValid p.tickSpacing) (hb : Boundaries p params lower upper slab map)
    (hfees : p.realizeFees params lb ub = p.realizeFees params
      (lower.boundary params.tickLower) (upper.boundary params.tickUpper))
    (hprincipal : settlePrincipal p.state params lb ub = settlePrincipal p.state params
      (lower.boundary params.tickLower) (upper.boundary params.tickUpper)) :
    ModifyCases p params
      (match ({ p with ticks := slab } : Pool P A).realizeFees params lb ub with
      | (.error e, positions) => (.error e, { p with ticks := slab, positions })
      | (.ok feeDelta, positions) =>
          match settlePrincipal p.state params lb ub with
          | (.error e, state) => (.error e, { p with ticks := slab, positions, state })
          | (.ok delta, state) =>
              (.ok { delta, feeDelta }, { p with ticks := slab, positions, state })) := by
  have hsame : ({ p with ticks := slab } : Pool P A).realizeFees params lb ub =
      p.realizeFees params lb ub := rfl
  rw [hsame, hfees, hprincipal]
  cases hrealize : p.realizeFees params (lower.boundary params.tickLower)
      (upper.boundary params.tickUpper) with
  | mk fees positions =>
      cases fees with
      | error e =>
          exact ModifyCases.position hrange hb hrealize
      | ok feeDelta =>
          dsimp only
          cases hsettle : settlePrincipal p.state params
              (lower.boundary params.tickLower) (upper.boundary params.tickUpper) with
          | mk delta state =>
              cases delta with
              | error e => exact ModifyCases.principal hrange hb hrealize hsettle
              | ok delta => exact ModifyCases.done hrange hb hrealize hsettle

theorem modify_cases [PositionsAccess P]
    (hslab : p.ticks.Holds p.tickSpacing p.ticks.snapshot) (params : ModifyLiquidityParams) :
    ModifyCases p params (p.modifyLiquidity params) := by
  unfold modifyLiquidity
  cases hcheck : checkTicks params.tickLower params.tickUpper p.tickSpacing with
  | error e =>
      refine ModifyCases.rejected fun hrange => ?_
      rw [checkTicks_eq_ok.mpr hrange] at hcheck
      cases hcheck
  | ok u =>
      have hrange := checkTicks_eq_ok.mp hcheck
      dsimp only
      have hlower := storable_of_inRange hrange.2.1 params.lowerInRange
      have hupper := storable_of_inRange hrange.2.2 params.upperInRange
      rcases updateBoundaries_cases hslab hrange with ⟨hdelta, heq⟩ |
        ⟨hdelta, hadmits, slab, heq, hholds⟩ |
        ⟨hdelta, hadmits, hadmits', slab, heq, hholds⟩ | ⟨hdelta, slab, heq, hb⟩
      · rw [heq, readTick_eq hslab hlower, readTick_eq hslab hupper]
        refine modify_stages hrange (Boundaries.read hdelta) rfl ?_
        unfold settlePrincipal
        rw [if_neg (not_not.mpr hdelta), if_neg (not_not.mpr hdelta)]
      · rw [heq]
        exact ModifyCases.lower hrange hdelta hadmits hholds
      · rw [heq]
        exact ModifyCases.upper hrange hdelta hadmits hadmits' hholds
      · rw [heq]
        exact modify_stages hrange hb rfl rfl

end Boundaries

end Pool

end RmUniswap
