import RmUniswap.Pool.Growth
import RmUniswap.Pool.Principal

/-!
# Removing what was added

Removing liquidity right after adding it gives every boundary back what it had: a
tick that the first change created goes away, any other one keeps its outside growth
all along. The caller loses at most the rounding of the principal.
-/

namespace RmUniswap

open Foundation

variable {A : Type} [LawfulAllocator TickSlabValue A]

namespace ModifyLiquidityParams

/-- The removal of what a change adds. -/
def undo (params : ModifyLiquidityParams) (h : 0 < params.liquidityDelta) :
    ModifyLiquidityParams :=
  { params with
    liquidityDelta := -params.liquidityDelta
    deltaFits := by
      have hfits := params.deltaFits
      unfold FitsSigned at hfits ⊢
      omega }

end ModifyLiquidityParams

/-!
# Ticks
-/

section Ticks

variable {params : ModifyLiquidityParams} {ticks : SortedMap Int TickInfoInner}

theorem TickInfoInner.change_gross_pos {info : TickInfoInner} {d : Int} (hd : 0 < d)
    (state : PoolState) (t : Int) (upper : Bool) :
    (info.change state t d upper).liquidityGross ≠ 0 := by
  unfold change
  dsimp only
  omega

theorem TickInfoInner.change_undo {info : TickInfoInner} {d : Int} (hd : 0 < d)
    (hgross : info.liquidityGross ≠ 0) (state state' : PoolState) (t : Int) (upper : Bool) :
    (info.change state t d upper).change state' t (-d) upper = info := by
  have hchanged : (info.change state t d upper).liquidityGross ≠ 0 :=
    change_gross_pos hd state t upper
  have houtside0 : ((info.change state t d upper).change state' t (-d) upper).outside true =
      info.outside true := by
    rw [change_outside hchanged, change_outside hgross]
  have houtside1 : ((info.change state t d upper).change state' t (-d) upper).outside false =
      info.outside false := by
    rw [change_outside hchanged, change_outside hgross]
  have hgross' : ((info.change state t d upper).change state' t (-d) upper).liquidityGross =
      info.liquidityGross := by
    unfold change
    dsimp only
    omega
  have hnet : ((info.change state t d upper).change state' t (-d) upper).liquidityNet =
      info.liquidityNet := by
    unfold change netAfter
    cases upper with
    | false =>
        simp only [Bool.false_eq_true, if_false]
        omega
    | true =>
        simp only [if_true]
        omega
  rcases info with ⟨gross, net, outside0, outside1⟩
  generalize (TickInfoInner.mk gross net outside0 outside1 |>.change state t d upper).change
    state' t (-d) upper = back at *
  rcases back with ⟨gross', net', outside0', outside1'⟩
  cases hgross'
  cases hnet
  cases houtside0
  cases houtside1
  rfl

theorem TickInfoInner.change_undo_get {d : Int} (hd : 0 < d) {t : Int}
    (hpositive : forall info, ticks.get? t = some info -> 0 < info.liquidityGross)
    (state state' : PoolState) (upper : Bool) :
    (if (((tickAt ticks t).change state t d upper).change state' t (-d) upper).liquidityGross = 0
      then none else some (((tickAt ticks t).change state t d upper).change state' t (-d) upper)) =
      ticks.get? t := by
  cases hget : ticks.get? t with
  | none =>
      rw [tickAt_none hget, if_pos]
      unfold change TickInfoInner.default
      dsimp only
      omega
  | some info =>
      have hpos := hpositive info hget
      rw [tickAt_some hget, change_undo hd (by omega), if_neg (by omega)]

theorem ModifyLiquidityParams.changeTicks_undo (hd : 0 < params.liquidityDelta)
    (hlt : params.tickLower < params.tickUpper)
    (hpositive : forall t info, ticks.get? t = some info -> 0 < info.liquidityGross)
    (state state' : PoolState) :
    (params.undo hd).changeTicks state' (params.changeTicks state ticks) = ticks := by
  have hne : params.tickLower ≠ params.tickUpper := ne_of_lt hlt
  have hlower : tickAt (params.changeTicks state ticks) params.tickLower =
      params.lowerAfter state ticks := by
    unfold changeTicks
    rw [tickAt_storeTick_ne hne]
    exact tickAt_storeTick_self (TickInfoInner.change_gross_pos hd _ _ _)
  have hupper : tickAt (params.changeTicks state ticks) params.tickUpper =
      params.upperAfter state ticks :=
    tickAt_storeTick_self (TickInfoInner.change_gross_pos hd _ _ _)
  apply SortedMap.ext
  intro t
  show (storeTick (storeTick (params.changeTicks state ticks) params.tickLower
      ((tickAt (params.changeTicks state ticks) params.tickLower).change state'
        params.tickLower (-params.liquidityDelta) false)) params.tickUpper
      ((tickAt (params.changeTicks state ticks) params.tickUpper).change state'
        params.tickUpper (-params.liquidityDelta) true)).get? t = _
  rw [hlower, hupper]
  by_cases hu : t = params.tickUpper
  · rw [hu, get?_storeTick_self]
    exact TickInfoInner.change_undo_get hd (hpositive _) state state' true
  · rw [get?_storeTick_ne hu]
    by_cases hl : t = params.tickLower
    · rw [hl, get?_storeTick_self]
      exact TickInfoInner.change_undo_get hd (hpositive _) state state' false
    · unfold changeTicks
      rw [get?_storeTick_ne hl, get?_storeTick_ne hu, get?_storeTick_ne hl]

end Ticks

/-!
# Principal
-/

section Principal

variable {params : ModifyLiquidityParams} {state state' : PoolState}

/-- Rounded up on the way in and down on the way out, an amount loses at most one. -/
theorem roundDiv_undo (n d : Nat) :
    -(roundDiv true n d : Int) + roundDiv false n d = 0 ∨
      -(roundDiv true n d : Int) + roundDiv false n d = -1 := by
  rw [roundDiv_true, roundDiv_false]
  unfold divCeil
  split
  · left
    omega
  · right
    push_cast
    omega

theorem ModifyLiquidityParams.principalDelta_undo (hd : 0 < params.liquidityDelta)
    (htick : state'.tick = state.tick) (hprice : state'.sqrtPriceX96 = state.sqrtPriceX96) :
    ((params.principalDelta state).amount0 + ((params.undo hd).principalDelta state').amount0 = 0 ∨
      (params.principalDelta state).amount0 + ((params.undo hd).principalDelta state').amount0 =
        -1) ∧
    ((params.principalDelta state).amount1 + ((params.undo hd).principalDelta state').amount1 = 0 ∨
      (params.principalDelta state).amount1 + ((params.undo hd).principalDelta state').amount1 =
        -1) := by
  have hadds : params.adds = true := by
    unfold adds
    rw [decide_eq_true_iff]
    omega
  have hremoves : (params.undo hd).adds = false := by
    unfold adds undo
    rw [decide_eq_false_iff_not]
    dsimp only
    omega
  have hsize : (params.undo hd).liquidityDelta.natAbs = params.liquidityDelta.natAbs :=
    Int.natAbs_neg _
  unfold principalDelta
  by_cases hbelow : state.tick < params.tickLower
  · have hadd : params.principal state = (amount0Between true params.liquidityDelta.natAbs
        (getSqrtPriceAtTick params.tickLower) (getSqrtPriceAtTick params.tickUpper), 0) := by
      unfold principal
      rw [hadds]
      exact if_pos hbelow
    have hremove : (params.undo hd).principal state' =
        (amount0Between false params.liquidityDelta.natAbs
          (getSqrtPriceAtTick params.tickLower) (getSqrtPriceAtTick params.tickUpper), 0) := by
      unfold principal
      rw [hremoves, hsize, htick]
      exact if_pos hbelow
    rw [hadd, hremove, hadds, hremoves]
    exact ⟨roundDiv_undo _ _, Or.inl rfl⟩
  · by_cases hinside : state.tick < params.tickUpper
    · have hadd : params.principal state =
          (amount0Between true params.liquidityDelta.natAbs state.sqrtPriceX96
            (getSqrtPriceAtTick params.tickUpper),
          amount1Between true params.liquidityDelta.natAbs
            (getSqrtPriceAtTick params.tickLower) state.sqrtPriceX96) := by
        unfold principal
        rw [hadds]
        exact (if_neg hbelow).trans (if_pos hinside)
      have hremove : (params.undo hd).principal state' =
          (amount0Between false params.liquidityDelta.natAbs state.sqrtPriceX96
            (getSqrtPriceAtTick params.tickUpper),
          amount1Between false params.liquidityDelta.natAbs
            (getSqrtPriceAtTick params.tickLower) state.sqrtPriceX96) := by
        unfold principal
        rw [hremoves, hsize, htick, hprice]
        exact (if_neg hbelow).trans (if_pos hinside)
      rw [hadd, hremove, hadds, hremoves]
      exact ⟨roundDiv_undo _ _, roundDiv_undo _ _⟩
    · have hadd : params.principal state = (0, amount1Between true params.liquidityDelta.natAbs
          (getSqrtPriceAtTick params.tickLower) (getSqrtPriceAtTick params.tickUpper)) := by
        unfold principal
        rw [hadds]
        exact (if_neg hbelow).trans (if_neg hinside)
      have hremove : (params.undo hd).principal state' =
          (0, amount1Between false params.liquidityDelta.natAbs
            (getSqrtPriceAtTick params.tickLower) (getSqrtPriceAtTick params.tickUpper)) := by
        unfold principal
        rw [hremoves, hsize, htick]
        exact (if_neg hbelow).trans (if_neg hinside)
      rw [hadd, hremove, hadds, hremoves]
      exact ⟨Or.inl rfl, roundDiv_undo _ _⟩

end Principal

/-!
# Both changes
-/

namespace Pool

/-- What an addition and the removal that follows leave. -/
structure Undone {P : Type} (p p'' : Pool P A) (added removed : ModifyLiquidityResult) :
    Prop where
  state : p''.state = p.state
  ticks : p''.ticks.snapshot = p.ticks.snapshot
  fees : removed.feeDelta = BalanceDelta.default
  amount0 : added.delta.amount0 + removed.delta.amount0 = 0 ∨
    added.delta.amount0 + removed.delta.amount0 = -1
  amount1 : added.delta.amount1 + removed.delta.amount1 = 0 ∨
    added.delta.amount1 + removed.delta.amount1 = -1

structure Changed {P : Type} [PositionsAccess P] (p p' : Pool P A)
    (params : ModifyLiquidityParams) (result : ModifyLiquidityResult) : Prop where
  range : params.RangeValid p.tickSpacing
  ticks : p'.ticks.snapshot = params.changeTicks p.state p.ticks.snapshot
  state : p'.state = { p.state with liquidity := p'.state.liquidity }
  liquidity : (p'.state.liquidity : Int) = p.state.liquidity +
    params.liquidityDelta * Positions.covering p.state.tick params.index
  delta : result.delta = params.principalDelta p.state
  fees : p.realizeFees params
    ((params.lowerAfter p.state p.ticks.snapshot).boundary params.tickLower)
    ((params.upperAfter p.state p.ticks.snapshot).boundary params.tickUpper) =
      (.ok result.feeDelta, p'.positions)

section Undone

variable {params : ModifyLiquidityParams} {added removed : ModifyLiquidityResult}

theorem modify_changed {P : Type} [PositionsAccess P] {p p' : Pool P A} (hp : p.Usable)
    (hd : params.liquidityDelta ≠ 0) (h : p.modifyLiquidity params = (.ok added, p')) :
    Changed p p' params added := by
  have hcases := modify_cases hp.holds params
  rw [h] at hcases
  cases hcases with
  | done hrange hb hfees hprincipal =>
      have hstate := settlePrincipal_ok hprincipal
      have hdelta := settlePrincipal_eq_ok hd hp.price hprincipal
      cases hb with
      | read hzero =>
          exact absurd hzero hd
      | changed _ _ _ hslab =>
          exact ⟨hrange, hslab.snapshot, hstate.1, hstate.2.1, hdelta.2.2, hfees⟩

theorem Backed.undo_fees {p p' p'' : Pool Positions A} (hp : p.Backed)
    (hd : 0 < params.liquidityDelta) (hadd : p.modifyLiquidity params = (.ok added, p'))
    (hremove : p'.modifyLiquidity (params.undo hd) = (.ok removed, p'')) :
    removed.feeDelta = BalanceDelta.default := by
  have hp' := hp.modify hadd
  have hadded := modify_changed hp.sound.toUsable (ne_of_gt hd) hadd
  have hremoved := modify_changed hp'.sound.toUsable (by
    show -params.liquidityDelta ≠ 0
    omega) hremove
  have hposition := (realizeFees_ok hp hadded.fees).2.2
  have hpaid := (realizeFees_ok hp' hremoved.fees).2.1
  have hlt := hadded.range.1
  have hlower : tickAt p'.ticks.snapshot params.tickLower =
      params.lowerAfter p.state p.ticks.snapshot := by
    rw [hadded.ticks]
    unfold ModifyLiquidityParams.changeTicks
    rw [tickAt_storeTick_ne (ne_of_lt hlt)]
    exact tickAt_storeTick_self (TickInfoInner.change_gross_pos hd _ _ _)
  have hupper : tickAt p'.ticks.snapshot params.tickUpper =
      params.upperAfter p.state p.ticks.snapshot := by
    rw [hadded.ticks]
    exact tickAt_storeTick_self (TickInfoInner.change_gross_pos hd _ _ _)
  have hinside (token0 : Bool) : ofToken token0 (p'.insideAt (params.undo hd)
        ((params.undo hd).lowerAfter p'.state p'.ticks.snapshot)
        ((params.undo hd).upperAfter p'.state p'.ticks.snapshot)) =
      ofToken token0 (p.insideAt params (params.lowerAfter p.state p.ticks.snapshot)
        (params.upperAfter p.state p.ticks.snapshot)) := by
    apply feeGrowthInside_congr
    · rw [hadded.state]
    · rw [hadded.state]
      rfl
    · show ((tickAt p'.ticks.snapshot params.tickLower).change _ _ _ _).outside token0 = _
      rw [hlower]
      exact TickInfoInner.change_outside (TickInfoInner.change_gross_pos hd _ _ _) _ _ _ _ _
    · show ((tickAt p'.ticks.snapshot params.tickUpper).change _ _ _ _).outside token0 = _
      rw [hupper]
      exact TickInfoInner.change_outside (TickInfoInner.change_gross_pos hd _ _ _) _ _ _ _ _
  have hstate : p'.positions.stateAt (params.undo hd).index =
      (p.positions.stateAt params.index).updated params.liquidityDelta
        (p.insideAt params (params.lowerAfter p.state p.ticks.snapshot)
          (params.upperAfter p.state p.ticks.snapshot)) := by
    rw [hposition]
    unfold Positions.stateAt Positions.put
    show ((p.positions.map.insert params.index _).get? params.index).getD _ = _
    rw [SortedMap.get?_insert_self]
    rfl
  have hzero (token0 : Bool) : wrappingSub 256 (ofToken token0 (p.insideAt params
      (params.lowerAfter p.state p.ticks.snapshot) (params.upperAfter p.state p.ticks.snapshot)))
      (ofToken token0 (p.insideAt params (params.lowerAfter p.state p.ticks.snapshot)
        (params.upperAfter p.state p.ticks.snapshot))) = 0 := by
    unfold insideAt
    rw [wrappingSub_of_le (le_refl _) (feeGrowthInside_lt _ _ _ _ _ _), Nat.sub_self]
  have hearned : (p'.positions.stateAt (params.undo hd).index).earned
      (p'.insideAt (params.undo hd) ((params.undo hd).lowerAfter p'.state p'.ticks.snapshot)
        ((params.undo hd).upperAfter p'.state p'.ticks.snapshot)) = (0, 0) := by
    rw [hstate]
    unfold PositionState.earned PositionState.updated
    apply Prod.ext
    · show wrappingSub 256 (ofToken true _) (ofToken true _) * _ / _ = 0
      rw [hinside, hzero, Nat.zero_mul, Nat.zero_div]
    · show wrappingSub 256 (ofToken false _) (ofToken false _) * _ / _ = 0
      rw [hinside, hzero, Nat.zero_mul, Nat.zero_div]
  rw [hearned] at hpaid
  exact (fromU256_eq_ok.mp hpaid).2

theorem Usable.undone {P : Type} [PositionsAccess P] {p p' p'' : Pool P A} (hp : p.Usable)
    (hpositive : forall t info, p.ticks.snapshot.get? t = some info -> 0 < info.liquidityGross)
    (hd : 0 < params.liquidityDelta) (hadd : p.modifyLiquidity params = (.ok added, p'))
    (hremove : p'.modifyLiquidity (params.undo hd) = (.ok removed, p''))
    (hfees : removed.feeDelta = BalanceDelta.default) : Undone p p'' added removed := by
  have hp' : p'.Usable := by
    have husable := hp.modify params
    rw [hadd] at husable
    exact husable
  have hadded := modify_changed hp (ne_of_gt hd) hadd
  have hremoved := modify_changed hp' (by
    show -params.liquidityDelta ≠ 0
    omega) hremove
  have htick : p'.state.tick = p.state.tick := by rw [hadded.state]
  have hprice : p'.state.sqrtPriceX96 = p.state.sqrtPriceX96 := by rw [hadded.state]
  have hliquidity : p''.state.liquidity = p.state.liquidity := by
    have hup := hadded.liquidity
    have hdown := hremoved.liquidity
    rw [htick] at hdown
    change _ = _ + -params.liquidityDelta * Positions.covering p.state.tick params.index at hdown
    rw [Int.neg_mul] at hdown
    omega
  have hdeltas := ModifyLiquidityParams.principalDelta_undo hd htick hprice
  rw [← hadded.delta, ← hremoved.delta] at hdeltas
  refine
    { state := ?_
      ticks := ?_
      fees := hfees
      amount0 := hdeltas.1
      amount1 := hdeltas.2 }
  · rw [hremoved.state, hadded.state, hliquidity]
  · rw [hremoved.ticks, hadded.ticks]
    exact ModifyLiquidityParams.changeTicks_undo hd hadded.range.1 hpositive _ _

/-- Adding liquidity and removing it again leaves the pool and its ticks as they were,
realizes no fees on the way out and costs at most one unit of each token. -/
theorem add_remove_undone (params : ModifyLiquidityParams) (hd : 0 < params.liquidityDelta)
    (added removed : ModifyLiquidityResult) :
    (forall p p' p'' : Pool Unit A, p.Accepted -> p.modifyLiquidity params = (.ok added, p') ->
      p'.modifyLiquidity (params.undo hd) = (.ok removed, p'') -> Undone p p'' added removed) ∧
    forall p p' p'' : Pool Positions A, p.Accepted ->
      p.modifyLiquidity params = (.ok added, p') ->
      p'.modifyLiquidity (params.undo hd) = (.ok removed, p'') -> Undone p p'' added removed := by
  constructor
  · intro p p' p'' hp hadd hremove
    have hp' : p'.Usable := by
      have husable := hp.sound.toUsable.modify params
      rw [hadd] at husable
      exact husable
    have hremoved := modify_changed hp' (by
      show -params.liquidityDelta ≠ 0
      omega) hremove
    have hfees : removed.feeDelta = BalanceDelta.default := by
      have hnone := hremoved.fees
      injection hnone with hnone _
      injection hnone with hnone
      exact hnone.symm
    exact hp.sound.toUsable.undone (fun t info hget => (hp.accounted hget).positive) hd hadd
      hremove hfees
  · intro p p' p'' hp hadd hremove
    exact hp.sound.toUsable.undone (fun t info hget => (hp.accounted hget).positive) hd hadd
      hremove (hp.backed.undo_fees hd hadd hremove)

end Undone

end Pool

namespace Sample

def withdrawn : ModifyLiquidityResult :=
  { delta := { amount0 := 2995354955910780, amount1 := 2995354955910780 }
    feeDelta := BalanceDelta.default }

end Sample

theorem Pool.add_remove_undone_sample :
    Undone Sample.restored ((Sample.restored.modifyLiquidity Sample.add).2.modifyLiquidity
      (Sample.add.undo (by decide))).2 Sample.added Sample.withdrawn := by
  have hadd : (Sample.restored.modifyLiquidity Sample.add).1 = .ok Sample.added := by
    decide +kernel
  have hremove : ((Sample.restored.modifyLiquidity Sample.add).2.modifyLiquidity
      (Sample.add.undo (by decide))).1 = .ok Sample.withdrawn := by
    decide +kernel
  exact (add_remove_undone Sample.add (by decide) Sample.added Sample.withdrawn).2
    Sample.restored _ _ Sample.restored_accepted (Prod.ext hadd rfl) (Prod.ext hremove rfl)

end RmUniswap
