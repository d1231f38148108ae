import RmUniswap.Pool.Expect

/-!
# Pools backed by positions

A pool is backed when it is sound and its ticks are reconciled with its
positions. Accepted pools are backed, and every successful operation keeps a pool
backed.
-/

namespace RmUniswap

open Foundation

variable {A : Type} [LawfulAllocator TickSlabValue A]

structure Pool.Backed (p : Pool Positions A) : Prop where
  sound : p.Sound
  reconciled : Reconciled p.tickSpacing p.positions p.ticks.snapshot

namespace Pool

theorem Accepted.sound {P : Type} [PositionsAccess P] {p : Pool P A} (h : p.Accepted) :
    p.Sound := by
  rcases h with ⟨s, hprice, hs⟩
  exact (fromSnapshot_eq_ok hs).sound hprice

theorem Accepted.tickInRange {P : Type} [PositionsAccess P] {p : Pool P A} (h : p.Accepted) :
    TickInRange p.state.tick := by
  rcases h with ⟨s, hprice, hs⟩
  have hr := fromSnapshot_eq_ok hs
  rw [hr.state, ← hr.valid.tick]
  exact (getTickAtSqrtPrice_spec hprice).1

theorem Accepted.accounted {P : Type} [PositionsAccess P] {p : Pool P A} (h : p.Accepted) {t : Int}
    {info : TickInfoInner} (hget : p.ticks.snapshot.get? t = some info) :
    TickAccounted p.tickSpacing.maxLiquidityPerTick info := by
  rcases h with ⟨s, _, hs⟩
  have hr := fromSnapshot_eq_ok hs
  rw [hr.ticks.snapshot] at hget
  rw [hr.tickSpacing]
  exact hr.valid.accounted t info hget

theorem Accepted.backed {p : Pool Positions A} (h : p.Accepted) : p.Backed := by
  refine ⟨h.sound, ?_⟩
  rcases h with ⟨s, _, hs⟩
  have hr := fromSnapshot_eq_ok hs
  rw [hr.tickSpacing, hr.positions, hr.ticks.snapshot]
  exact Positions.reconciled_of_validate hr.valid.spacing hr.valid.accounted hr.valid.positions

theorem Backed.position_le {p : Pool Positions A} (h : p.Backed) (i : PositionIndex) :
    (p.positions.stateAt i).liquidity ≤ p.tickSpacing.maxLiquidityPerTick := by
  unfold Positions.stateAt
  cases hget : p.positions.map.get? i with
  | none =>
      exact Nat.zero_le _
  | some position =>
      have hle := Positions.le_grossAt hget (Or.inl rfl)
      have hgross := h.reconciled.gross i.tickLower
      have hcap := h.reconciled.cap i.tickLower
      show position.liquidity ≤ _
      omega

theorem Backed.position_lt {p : Pool Positions A} (h : p.Backed) (i : PositionIndex) :
    (p.positions.stateAt i).liquidity < 2 ^ 128 := by
  have hle := h.position_le i
  have hcap := TickSpacing.maxLiquidityPerTick_lt h.sound.positive
  exact hle.trans_lt (hcap.trans (by norm_num))

end Pool

/-!
# Liquidity changes
-/

section StoredTick

variable {ticks : SortedMap Int TickInfoInner} {t : Int} {info : TickInfoInner}

theorem tickAt_storeTick_gross :
    (tickAt (storeTick ticks t info) t).liquidityGross = info.liquidityGross := by
  unfold tickAt
  rw [get?_storeTick_self]
  split
  · rename_i hzero
    exact hzero.symm
  · rfl

theorem tickAt_storeTick_net (h : info.liquidityGross ≠ 0) :
    (tickAt (storeTick ticks t info) t).liquidityNet = info.liquidityNet := by
  unfold tickAt
  rw [get?_storeTick_self, if_neg h]
  rfl

end StoredTick

namespace Pool

section Modify

variable {p : Pool Positions A} {params : ModifyLiquidityParams} {lower upper : TickInfoInner}
  {slab : TickSlab A} {map : SortedMap Int TickInfoInner}

def insideAt (p : Pool Positions A) (params : ModifyLiquidityParams)
    (lower upper : TickInfoInner) : Nat × Nat :=
  feeGrowthInside p.state params.tickLower params.tickUpper (lower.boundary params.tickLower)
    (upper.boundary params.tickUpper)

theorem realizeFees_cases (hlt : (p.positions.stateAt params.index).liquidity < 2 ^ 128)
    (lower upper : TickInfoInner) :
    (¬ (p.positions.stateAt params.index).Updatable params.liquidityDelta ∧
      exists e, p.realizeFees params (lower.boundary params.tickLower)
        (upper.boundary params.tickUpper) =
          (.error e, p.positions.put params.index (p.positions.stateAt params.index))) ∨
    ((p.positions.stateAt params.index).Updatable params.liquidityDelta ∧
      p.realizeFees params (lower.boundary params.tickLower) (upper.boundary params.tickUpper) =
        (BalanceDelta.fromU256
            ((p.positions.stateAt params.index).earned (p.insideAt params lower upper)).1
            ((p.positions.stateAt params.index).earned (p.insideAt params lower upper)).2,
          p.positions.put params.index ((p.positions.stateAt params.index).updated
            params.liquidityDelta (p.insideAt params lower upper)))) := by
  have heq : p.realizeFees params (lower.boundary params.tickLower)
      (upper.boundary params.tickUpper) =
      ((updatePositionState params.liquidityDelta (p.insideAt params lower upper)
          (p.positions.stateAt params.index)).1,
        p.positions.put params.index (updatePositionState params.liquidityDelta
          (p.insideAt params lower upper) (p.positions.stateAt params.index)).2) := rfl
  rw [heq]
  by_cases hupdate : (p.positions.stateAt params.index).Updatable params.liquidityDelta
  · refine Or.inr ⟨hupdate, ?_⟩
    unfold updatePositionState
    rw [PositionState.update_ok hlt hupdate]
  · refine Or.inl ⟨hupdate, ?_⟩
    rcases PositionState.update_error hupdate (p.insideAt params lower upper) with ⟨e, he⟩
    refine ⟨e, ?_⟩
    unfold updatePositionState
    rw [he]

theorem realizeFees_ok (hp : p.Backed) {feeDelta : BalanceDelta} {positions : Positions}
    (h : p.realizeFees params (lower.boundary params.tickLower)
      (upper.boundary params.tickUpper) = (.ok feeDelta, positions)) :
    (p.positions.stateAt params.index).Updatable params.liquidityDelta ∧
      BalanceDelta.fromU256
          ((p.positions.stateAt params.index).earned (p.insideAt params lower upper)).1
          ((p.positions.stateAt params.index).earned (p.insideAt params lower upper)).2 =
        .ok feeDelta ∧
      positions = p.positions.put params.index ((p.positions.stateAt params.index).updated
        params.liquidityDelta (p.insideAt params lower upper)) := by
  rcases realizeFees_cases (hp.position_lt params.index) lower upper with ⟨_, e, he⟩ | ⟨hupdate, he⟩
  · rw [he] at h
    cases h
  · rw [he] at h
    injection h with hfees hpos
    exact ⟨hupdate, hfees, hpos.symm⟩

theorem changeTicks_gross (hrange : params.RangeValid p.tickSpacing)
    (hlower : (tickAt p.ticks.snapshot params.tickLower).Admits
      p.tickSpacing.maxLiquidityPerTick params.liquidityDelta false)
    (hupper : (tickAt p.ticks.snapshot params.tickUpper).Admits
      p.tickSpacing.maxLiquidityPerTick params.liquidityDelta true) (t : Int) :
    ((tickAt (params.changeTicks p.state p.ticks.snapshot) t).liquidityGross : Int) =
      (tickAt p.ticks.snapshot t).liquidityGross +
        params.liquidityDelta * Positions.touching t params.index := by
  have hne : params.tickLower ≠ params.tickUpper := ne_of_lt hrange.1
  have hgross (info : TickInfoInner) (upper : Bool) (k : Int)
      (h : 0 ≤ (info.liquidityGross : Int) + params.liquidityDelta) :
      ((info.change p.state k params.liquidityDelta upper).liquidityGross : Int) =
        info.liquidityGross + params.liquidityDelta := Int.toNat_of_nonneg h
  unfold ModifyLiquidityParams.changeTicks Positions.touching
  show _ = _ + _ * ((if params.tickLower = t then 1 else 0) +
    if params.tickUpper = t then 1 else 0)
  by_cases hu : t = params.tickUpper
  · rw [hu, tickAt_storeTick_gross, if_neg hne, if_pos rfl]
    rw [ModifyLiquidityParams.upperAfter, hgross _ _ _ hupper.nonneg]
    ring
  · have hu' : ¬ params.tickUpper = t := fun h => hu h.symm
    rw [tickAt_storeTick_ne hu, if_neg hu']
    by_cases hl : t = params.tickLower
    · rw [hl, tickAt_storeTick_gross, if_pos rfl]
      rw [ModifyLiquidityParams.lowerAfter, hgross _ _ _ hlower.nonneg]
      ring
    · rw [tickAt_storeTick_ne hl, if_neg (fun h => hl h.symm)]
      ring

theorem changeTicks_positive
    (hold : forall t info, p.ticks.snapshot.get? t = some info -> 0 < info.liquidityGross) {t : Int}
    {info : TickInfoInner}
    (hget : (params.changeTicks p.state p.ticks.snapshot).get? t = some info) :
    0 < info.liquidityGross := by
  unfold ModifyLiquidityParams.changeTicks at hget
  by_cases hu : t = params.tickUpper
  · rw [hu, get?_storeTick_self] at hget
    split at hget
    · cases hget
    · cases hget
      omega
  · rw [get?_storeTick_ne hu] at hget
    by_cases hl : t = params.tickLower
    · rw [hl, get?_storeTick_self] at hget
      split at hget
      · cases hget
      · cases hget
        omega
    · rw [get?_storeTick_ne hl] at hget
      exact hold t info hget

theorem changeTicks_cap
    (hold : forall t, (tickAt p.ticks.snapshot t).liquidityGross ≤
      p.tickSpacing.maxLiquidityPerTick)
    (hlower : (tickAt p.ticks.snapshot params.tickLower).Admits
      p.tickSpacing.maxLiquidityPerTick params.liquidityDelta false)
    (hupper : (tickAt p.ticks.snapshot params.tickUpper).Admits
      p.tickSpacing.maxLiquidityPerTick params.liquidityDelta true) (t : Int) :
    (tickAt (params.changeTicks p.state p.ticks.snapshot) t).liquidityGross ≤
      p.tickSpacing.maxLiquidityPerTick := by
  have hone {info : TickInfoInner} {upper : Bool} {k : Int}
      (hinfo : info.liquidityGross ≤ p.tickSpacing.maxLiquidityPerTick)
      (h : info.Admits p.tickSpacing.maxLiquidityPerTick params.liquidityDelta upper) :
      (info.change p.state k params.liquidityDelta upper).liquidityGross ≤
        p.tickSpacing.maxLiquidityPerTick := by
    have hcap := h.cap
    unfold TickInfoInner.change
    dsimp only
    omega
  unfold ModifyLiquidityParams.changeTicks
  by_cases hu : t = params.tickUpper
  · rw [hu, tickAt_storeTick_gross]
    exact hone (hold _) hupper
  · rw [tickAt_storeTick_ne hu]
    by_cases hl : t = params.tickLower
    · rw [hl, tickAt_storeTick_gross]
      exact hone (hold _) hlower
    · rw [tickAt_storeTick_ne hl]
      exact hold t

theorem changeTicks_net (hrange : params.RangeValid p.tickSpacing) (t : Int)
    (hkept : (tickAt (params.changeTicks p.state p.ticks.snapshot) t).liquidityGross ≠ 0) :
    (tickAt (params.changeTicks p.state p.ticks.snapshot) t).liquidityNet =
      (tickAt p.ticks.snapshot t).liquidityNet +
        params.liquidityDelta * Positions.entering t params.index := by
  have hne : params.tickLower ≠ params.tickUpper := ne_of_lt hrange.1
  unfold ModifyLiquidityParams.changeTicks at hkept ⊢
  unfold Positions.entering
  show _ = _ + _ * ((if params.tickLower = t then 1 else 0) -
    if params.tickUpper = t then 1 else 0)
  by_cases hu : t = params.tickUpper
  · rw [hu, tickAt_storeTick_gross] at hkept
    rw [hu, tickAt_storeTick_net hkept, if_neg hne, if_pos rfl]
    show (tickAt p.ticks.snapshot params.tickUpper).liquidityNet - params.liquidityDelta = _
    ring
  · have hu' : ¬ params.tickUpper = t := fun h => hu h.symm
    rw [tickAt_storeTick_ne hu] at hkept
    rw [tickAt_storeTick_ne hu, if_neg hu']
    by_cases hl : t = params.tickLower
    · rw [hl, tickAt_storeTick_gross] at hkept
      rw [hl, tickAt_storeTick_net hkept, if_pos rfl]
      show (tickAt p.ticks.snapshot params.tickLower).liquidityNet + params.liquidityDelta = _
      ring
    · rw [tickAt_storeTick_ne hl, if_neg (fun h => hl h.symm)]
      ring

theorem updated_liquidity {position : PositionState} {liquidityDelta : Int}
    (h : position.Updatable liquidityDelta) (inside : Nat × Nat) :
    ((position.updated liquidityDelta inside).liquidity : Int) =
      position.liquidity + liquidityDelta := by
  unfold PositionState.Updatable at h
  apply Int.toNat_of_nonneg
  split at h
  · omega
  · exact h.1

theorem weighted_put (h : (p.positions.stateAt params.index).Updatable params.liquidityDelta)
    (inside : Nat × Nat) (weight : PositionIndex -> Int) :
    (p.positions.put params.index ((p.positions.stateAt params.index).updated
        params.liquidityDelta inside)).map.weighted Positions.size weight =
      p.positions.map.weighted Positions.size weight +
        params.liquidityDelta * weight params.index := by
  rw [Positions.weighted_insert, updated_liquidity h]
  ring

theorem Reconciled.modify (hp : p.Backed) (hrange : params.RangeValid p.tickSpacing)
    (hb : Boundaries p params lower upper slab map)
    (hupdate : (p.positions.stateAt params.index).Updatable params.liquidityDelta)
    (inside : Nat × Nat) :
    Reconciled p.tickSpacing (p.positions.put params.index
      ((p.positions.stateAt params.index).updated params.liquidityDelta inside)) map := by
  have hr := hp.reconciled
  have hweighted := weighted_put hupdate inside
  have hposition {i : PositionIndex} {position : PositionState}
      (hi : (p.positions.put params.index ((p.positions.stateAt params.index).updated
        params.liquidityDelta inside)).map.get? i = some position) :
      i = params.index ∨ exists old, p.positions.map.get? i = some old := by
    unfold Positions.put at hi
    rw [SortedMap.get?_insert] at hi
    split at hi
    · rename_i heq
      exact Or.inl heq
    · exact Or.inr ⟨_, hi⟩
  have hordered {i : PositionIndex} {position : PositionState}
      (hi : (p.positions.put params.index ((p.positions.stateAt params.index).updated
        params.liquidityDelta inside)).map.get? i = some position) :
      i.tickLower < i.tickUpper := by
    rcases hposition hi with rfl | ⟨old, hold⟩
    · exact hrange.1
    · exact hr.ordered i old hold
  have haligned {i : PositionIndex} {position : PositionState}
      (hi : (p.positions.put params.index ((p.positions.stateAt params.index).updated
        params.liquidityDelta inside)).map.get? i = some position) :
      p.tickSpacing.value ∣ i.tickLower ∧ p.tickSpacing.value ∣ i.tickUpper := by
    rcases hposition hi with rfl | ⟨old, hold⟩
    · exact hrange.2
    · exact hr.aligned i old hold
  cases hb with
  | read hzero =>
      have hsame (weight : PositionIndex -> Int) := hweighted weight
      simp only [hzero, zero_mul, add_zero] at hsame
      rw [hzero]
      rw [hzero] at hordered haligned
      exact
        { ordered := fun _ _ hi => hordered hi
          aligned := fun _ _ hi => haligned hi
          gross := fun t => (hr.gross t).trans (hsame _).symm
          net := fun t => (hr.net t).trans (hsame _).symm
          positive := hr.positive
          cap := hr.cap }
  | changed hne hlower hupper hslab =>
      have hgross (t : Int) := changeTicks_gross hrange hlower hupper t
      have hgross' (t : Int) :
          ((tickAt (params.changeTicks p.state p.ticks.snapshot) t).liquidityGross : Int) =
            (p.positions.put params.index ((p.positions.stateAt params.index).updated
              params.liquidityDelta inside)).grossAt t := by
        rw [hgross, hr.gross]
        exact (hweighted (Positions.touching t)).symm
      refine
        { ordered := fun _ _ hi => hordered hi
          aligned := fun _ _ hi => haligned hi
          gross := hgross'
          net := fun t => ?_
          positive := fun t info hget => ?_
          cap := fun t => ?_ }
      · by_cases hkept :
            (tickAt (params.changeTicks p.state p.ticks.snapshot) t).liquidityGross = 0
        · -- A tick whose positions have left is not stored, and their nets cancel.
          have hle := (p.positions.put params.index ((p.positions.stateAt params.index).updated
            params.liquidityDelta inside)).netAt_le t
          have hg := hgross' t
          rw [hkept] at hg
          have hnone :
              (tickAt (params.changeTicks p.state p.ticks.snapshot) t).liquidityNet = 0 := by
            cases hget : (params.changeTicks p.state p.ticks.snapshot).get? t with
            | none =>
                rw [tickAt_none hget]
                rfl
            | some info =>
                have hpos := changeTicks_positive hr.positive hget
                rw [tickAt_some hget] at hkept
                omega
          omega
        · rw [changeTicks_net hrange t hkept, hr.net]
          exact (hweighted (Positions.entering t)).symm
      · exact changeTicks_positive hr.positive hget
      · exact changeTicks_cap hr.cap hlower hupper t

theorem changeActiveLiquidity_ok {state state' : PoolState}
    (h : changeActiveLiquidity state params = .ok state') :
    state' = { state with liquidity := state'.liquidity } ∧
      (state'.liquidity : Int) = state.liquidity +
        params.liquidityDelta * Positions.covering state.tick params.index ∧
      (state.liquidity < 2 ^ 128 -> state'.liquidity < 2 ^ 128) := by
  unfold changeActiveLiquidity at h
  unfold Positions.covering
  split at h
  · rename_i hin
    rcases bind_eq_ok.mp h with ⟨liquidity, hliquidity, h⟩
    have hsum := checkedAddSigned_eq_some.mp (okOr_eq_ok.mp hliquidity)
    cases h
    refine ⟨rfl, ?_, fun _ => hsum.2⟩
    rw [if_pos (show params.index.tickLower ≤ _ ∧ _ < params.index.tickUpper from hin), mul_one]
    exact hsum.1
  · rename_i hout
    cases h
    refine ⟨rfl, ?_, fun hlt => hlt⟩
    rw [if_neg (show ¬ (params.index.tickLower ≤ _ ∧ _ < params.index.tickUpper) from hout),
      mul_zero, add_zero]

theorem settlePrincipal_state {state state' : PoolState}
    {lowerBoundary upperBoundary : TickBoundary} {delta : Except Error BalanceDelta}
    (h : settlePrincipal state params lowerBoundary upperBoundary = (delta, state')) :
    state' = { state with liquidity := state'.liquidity } ∧
      (state.liquidity < 2 ^ 128 -> state'.liquidity < 2 ^ 128) := by
  unfold settlePrincipal at h
  split at h
  · split at h
    · cases h
      exact ⟨rfl, fun hlt => hlt⟩
    · rename_i hactive
      have hspec := changeActiveLiquidity_ok hactive
      injection h with _ hstate
      rw [← hstate]
      exact ⟨hspec.1, hspec.2.2⟩
  · cases h
    exact ⟨rfl, fun hlt => hlt⟩

theorem settlePrincipal_ok {P : Type} {p : Pool P A} {state : PoolState}
    {lowerBoundary upperBoundary : TickBoundary}
    {delta : BalanceDelta}
    (h : settlePrincipal p.state params lowerBoundary upperBoundary = (.ok delta, state)) :
    state = { p.state with liquidity := state.liquidity } ∧
      (state.liquidity : Int) = p.state.liquidity +
        params.liquidityDelta * Positions.covering p.state.tick params.index ∧
      (params.liquidityDelta = 0 -> state = p.state ∧ delta = BalanceDelta.default) ∧
      (p.state.liquidity < 2 ^ 128 -> state.liquidity < 2 ^ 128) ∧
      (params.liquidityDelta ≠ 0 ->
        BalanceDelta.fromLiquidityPrincipal p.state.tick params.tickLower params.tickUpper
          p.state.sqrtPriceX96 lowerBoundary.sqrtPrice upperBoundary.sqrtPrice
            params.liquidityDelta = .ok delta) := by
  unfold settlePrincipal at h
  by_cases hdelta : params.liquidityDelta = 0
  · rw [if_neg (not_not.mpr hdelta)] at h
    cases h
    refine ⟨rfl, ?_, fun _ => ⟨rfl, rfl⟩, fun hlt => hlt, fun hne => absurd hdelta hne⟩
    rw [hdelta, zero_mul, add_zero]
  · rw [if_pos hdelta] at h
    cases hactive : changeActiveLiquidity p.state params with
    | error e =>
        rw [hactive] at h
        cases h
    | ok state' =>
        rw [hactive] at h
        have hspec := changeActiveLiquidity_ok hactive
        injection h with hprincipal hstate
        rw [← hstate]
        refine ⟨hspec.1, hspec.2.1, fun hzero => absurd hzero hdelta, hspec.2.2, fun _ => ?_⟩
        rw [hspec.1] at hprincipal
        exact hprincipal

theorem Backed.modify {p' : Pool Positions A} {result : ModifyLiquidityResult} (hp : p.Backed)
    (h : p.modifyLiquidity params = (.ok result, p')) : p'.Backed := by
  have hcases := modify_cases hp.sound.holds params
  rw [h] at hcases
  cases hcases with
  | @done lower upper ticks map positions feeDelta delta state hrange hb hfees hprincipal =>
      have hposition := realizeFees_ok hp hfees
      have hstate := settlePrincipal_ok hprincipal
      have hholds : ticks.Holds p.tickSpacing map := by
        cases hb with
        | read _ => exact hp.sound.holds
        | changed _ _ _ hslab => exact hslab
      have hr := Reconciled.modify hp hrange hb hposition.1 (p.insideAt params lower upper)
      rw [← hposition.2.2, ← hholds.snapshot] at hr
      have hactive : (state.liquidity : Int) = netBelow ticks.snapshot state.tick := by
        have hweighted := weighted_put hposition.1 (p.insideAt params lower upper)
          (Positions.covering p.state.tick)
        rw [← hposition.2.2] at hweighted
        have htick : state.tick = p.state.tick := by rw [hstate.1]
        rw [htick, hr.netBelow_eq, hstate.2.1, hp.sound.active, hp.reconciled.netBelow_eq]
        exact hweighted.symm
      refine ⟨?_, hr⟩
      exact
        { keyed := hholds.keyed
          spacing := hholds.spacing
          fees := hp.sound.fees
          price := by
            show IsValidSqrtPrice state.sqrtPriceX96
            rw [hstate.1]
            exact hp.sound.price
          inTick := by
            show PriceInTick state.tick state.sqrtPriceX96
            rw [hstate.1]
            exact hp.sound.inTick
          active := hactive
          negatable := fun t info hget => (hr.accounted hget).net_ne hholds.positive
          liquidity := hstate.2.2.2.1 hp.sound.liquidity }

end Modify

/-!
# Swaps
-/

end Pool

theorem accounting_crossed {ticks : SortedMap Int TickInfoInner} {k : Int} {info : TickInfoInner}
    (access : Access) (h : ticks.get? k = some info) (globals : Nat × Nat) :
    Positions.accounting (access.crossed ticks k info globals) = Positions.accounting ticks := by
  cases access with
  | shared => rfl
  | exclusive =>
      apply SortedMap.ext
      intro t
      unfold Positions.accounting Access.crossed
      rw [SortedMap.get?_mapValues, SortedMap.get?_mapValues, SortedMap.get?_insert]
      split
      · rename_i heq
        rw [heq, h]
        rfl
      · rfl

theorem Reconciled.of_accounting {tickSpacing : TickSpacing} {positions : Positions}
    {ticks ticks' : SortedMap Int TickInfoInner} (hr : Reconciled tickSpacing positions ticks)
    (h : Positions.accounting ticks' = Positions.accounting ticks) :
    Reconciled tickSpacing positions ticks' := by
  have hat (t : Int) := Positions.expectedAt_accounting ticks t
  have hat' (t : Int) := Positions.expectedAt_accounting ticks' t
  rw [h] at hat'
  have hsame (t : Int) : (tickAt ticks' t).liquidityGross = (tickAt ticks t).liquidityGross ∧
      (tickAt ticks' t).liquidityNet = (tickAt ticks t).liquidityNet := by
    have heq := (hat' t).symm.trans (hat t)
    injection heq with hg hn
    exact ⟨hg, hn⟩
  refine
    { ordered := hr.ordered
      aligned := hr.aligned
      gross := fun t => by rw [(hsame t).1]; exact hr.gross t
      net := fun t => by rw [(hsame t).2]; exact hr.net t
      positive := fun t info hget => ?_
      cap := fun t => by rw [(hsame t).1]; exact hr.cap t }
  have hget' := congrArg (fun m => m.get? t) h
  unfold Positions.accounting at hget'
  rw [SortedMap.get?_mapValues, SortedMap.get?_mapValues, hget] at hget'
  rcases Option.map_eq_some_iff.mp hget'.symm with ⟨old, hold, heq⟩
  have hpos := hr.positive t old hold
  injection heq with hg _
  omega

namespace Pool

section Swap

variable {P : Type} {p : Pool P A} {params : SwapParamsInner} {ctx : SwapContext}
  {cs : List StepComputations} {b : SwapLoopState × TickSlab A}

theorem LoopRun.accounting (h : LoopRun p params ctx cs b) (hp : p.Usable) :
    Positions.accounting b.2.snapshot = Positions.accounting p.ticks.snapshot := by
  have hstep (a : SwapLoopState × TickSlab A) (c : StepComputations)
      (b : SwapLoopState × TickSlab A) (ha : ctx.Invariant a) (hi : ctx.Iterates a c b) :
      ctx.Invariant b ∧
        Positions.accounting b.2.snapshot = Positions.accounting a.2.snapshot := by
    refine ⟨hi.invariant ha, ?_⟩
    rcases hi.cases ha with ⟨_, _, hb⟩ | ⟨k, info, _, hget, hholds, _⟩
    · rw [hb]
    · rw [hholds.snapshot, accounting_crossed ctx.access hget]
  exact h.run.preserved (fun a => Positions.accounting a.2.snapshot) hstep (h.start hp)

theorem Backed.swap {p p' : Pool Positions A} {result : SwapResult} (hp : p.Backed)
    (h : p.Swaps params (.ok result) p') : p'.Backed := by
  refine ⟨hp.sound.swap h, ?_⟩
  rcases h with ⟨fuel, h⟩
  generalize hlist : p.swapComputations params fuel = list
  have hcases := swap_cases h
  rw [hlist] at hcases
  cases hcases with
  | empty _ =>
      exact hp.reconciled
  | done hrun _ _ =>
      exact hp.reconciled.of_accounting (hrun.accounting hp.sound.toUsable)

end Swap

end Pool

end RmUniswap
