import RmUniswap.Pool.QuoteMonotone
import RmUniswap.Pool.Underflow

/-!
# Swaps that drain a pool

A swap that reaches the lower end of the price range leaves the tick below the
minimum tick. Whether it gets there is decided by the way down, whose legs from
target to target do not depend on the amount.
-/

namespace RmUniswap

open Foundation

variable {A : Type} [LawfulAllocator TickSlabValue A]

/-- The way from one target to the next, with the liquidity active on it. -/
structure Leg where
  start : Nat
  stop : Nat
  liquidity : Nat
deriving DecidableEq, Repr

namespace Leg

def input (leg : Leg) : Nat := inputOfMove leg.liquidity leg.start leg.stop

def output (leg : Leg) : Nat := outputOfMove leg.liquidity leg.start leg.stop

def gross (leg : Leg) (fee : Fee) : Nat := leg.input + fee.onTop leg.input

end Leg

/-- An output that leaves a rest for the last leg and passes that one, with its own
output or because its price move rounds up to it. -/
def PaysOutputs : List Leg -> Nat -> Prop
  | [], _ => True
  | [leg], amount => 0 < amount ∧
      (leg.output ≤ amount ∨ leg.start - leg.stop ≤ divCeil (amount * 2 ^ 96) leg.liquidity)
  | leg :: leg' :: legs, amount =>
      leg.output < amount ∧ PaysOutputs (leg' :: legs) (amount - leg.output)

def Affords (fee : Fee) (legs : List Leg) (amount : Int) : Prop :=
  (forall leg, leg ∈ legs -> leg.liquidity ≠ 0) ∧
    if amount < 0 then
      fee.isMax = false ∧ (legs.map fun leg => leg.gross fee).sum ≤ amount.natAbs
    else
      PaysOutputs legs amount.natAbs

def SwapContext.wayDown (ctx : SwapContext) (ticks : SortedMap Int TickInfoInner) :
    Nat -> Nat -> Int -> List Leg
  | 0, _, _ => []
  | fuel + 1, price, t =>
      if t < minTick then
        []
      else
        let target := ctx.targetOn ticks t
        { start := price
          stop := target.sqrtPriceX96
          liquidity := (netBelow ticks t).toNat } ::
          ctx.wayDown ticks fuel target.sqrtPriceX96 (target.tickIndex - 1)

/-!
# Paying for legs
-/

section Affords

variable {fee : Fee} {leg : Leg} {legs : List Leg} {amount rest : Int}

theorem not_paysOutputs_zero (hne : legs ≠ []) : ¬ PaysOutputs legs 0 := by
  rcases legs with _ | ⟨leg, _ | ⟨leg', legs⟩⟩
  · exact absurd rfl hne
  · exact fun h => absurd h.1 (lt_irrefl 0)
  · exact fun h => absurd h.1 (Nat.not_lt_zero _)

theorem paysOutputs_cons {n : Nat} (hne : legs ≠ []) :
    PaysOutputs (leg :: legs) n ↔ leg.output < n ∧ PaysOutputs legs (n - leg.output) := by
  cases legs with
  | nil => exact absurd rfl hne
  | cons leg' legs => exact Iff.rfl

theorem not_affords_zero (hne : legs ≠ []) : ¬ Affords fee legs 0 :=
  fun h => not_paysOutputs_zero hne h.2

theorem Fee.gross_le (hfee : fee.isValid = true) {used n : Nat} (h : used ≤ fee.net n) :
    used + fee.onTop used ≤ n ∧ (fee.isMax = true -> used = 0) := by
  cases hmax : fee.isMax with
  | false =>
      exact ⟨(Fee.le_net_iff hfee hmax).mp h, nofun⟩
  | true =>
      have hpips : fee.pips = maxFee := by simpa [Fee.isMax] using hmax
      have hzero : used = 0 := by
        unfold Fee.net at h
        rw [Fee.complement_eq hfee, hpips, Nat.sub_self, Nat.mul_zero, Nat.zero_div] at h
        exact Nat.le_zero.mp h
      refine ⟨?_, fun _ => hzero⟩
      unfold Fee.onTop
      rw [hmax, if_pos rfl, hzero]
      exact Nat.zero_le n

theorem affords_cons_input (hfee : fee.isValid = true) (hneg : amount < 0)
    (hrest : rest = amount + leg.gross fee) (hcovers : leg.input ≤ fee.net amount.natAbs)
    (hl : leg.liquidity ≠ 0) (hne : legs ≠ [])
    (hpos : (forall leg, leg ∈ legs -> leg.liquidity ≠ 0) ->
      0 < (legs.map fun leg => leg.gross fee).sum) :
    Affords fee (leg :: legs) amount ↔ Affords fee legs rest := by
  have hgross : leg.gross fee ≤ amount.natAbs := (Fee.gross_le hfee hcovers).1
  have hliquidity : (forall leg', leg' ∈ leg :: legs -> leg'.liquidity ≠ 0) ↔
      forall leg, leg ∈ legs -> leg.liquidity ≠ 0 := by
    rw [List.forall_mem_cons]
    exact and_iff_right hl
  unfold Affords
  rw [if_pos hneg, hliquidity, List.map_cons, List.sum_cons]
  by_cases hdone : rest < 0
  · rw [if_pos hdone]
    refine and_congr_right fun _ => and_congr_right fun _ => ?_
    omega
  · have hzero : rest = 0 := by omega
    rw [if_neg hdone, hzero]
    refine and_congr_right fun hall => ?_
    have hpositive := hpos hall
    exact ⟨fun h => by omega, fun h => absurd h (not_paysOutputs_zero hne)⟩

theorem affords_cons_output (hpos : 0 < amount) (hrest : rest = amount - leg.output)
    (hcovers : leg.output ≤ amount.natAbs) (hl : leg.liquidity ≠ 0) (hne : legs ≠ []) :
    Affords fee (leg :: legs) amount ↔ Affords fee legs rest := by
  have hliquidity : (forall leg', leg' ∈ leg :: legs -> leg'.liquidity ≠ 0) ↔
      forall leg, leg ∈ legs -> leg.liquidity ≠ 0 := by
    rw [List.forall_mem_cons]
    exact and_iff_right hl
  have hnat : rest.natAbs = amount.natAbs - leg.output := by omega
  unfold Affords
  rw [if_neg (by omega), if_neg (by omega), hliquidity, paysOutputs_cons hne, hnat]
  refine and_congr_right fun _ => ?_
  constructor
  · exact fun h => h.2
  · intro h
    refine ⟨?_, h⟩
    by_contra hle
    rw [show amount.natAbs - leg.output = 0 by omega] at h
    exact not_paysOutputs_zero hne h

end Affords

namespace SwapContext

/-!
# The way down
-/

section WayDown

variable {ctx : SwapContext} {slab : TickSlab A} {ticks ticks' : SortedMap Int TickInfoInner}
  {price fuel : Nat} {t : Int}

theorem wayDown_cons (ht : minTick ≤ t) :
    ctx.wayDown ticks (fuel + 1) price t =
      { start := price
        stop := (ctx.targetOn ticks t).sqrtPriceX96
        liquidity := (netBelow ticks t).toNat } ::
        ctx.wayDown ticks fuel (ctx.targetOn ticks t).sqrtPriceX96
          ((ctx.targetOn ticks t).tickIndex - 1) := by
  conv_lhs => unfold wayDown
  rw [if_neg (not_lt.mpr ht)]

theorem wayDown_ended (ht : t < minTick) : ctx.wayDown ticks fuel price t = [] := by
  cases fuel with
  | zero => rfl
  | succ fuel =>
      unfold wayDown
      rw [if_pos ht]

theorem wayDown_ne_nil (ht : minTick ≤ t) (hfuel : t - minTick + 1 ≤ fuel) :
    ctx.wayDown ticks fuel price t ≠ [] := by
  cases fuel with
  | zero => omega
  | succ fuel =>
      rw [wayDown_cons ht]
      exact List.cons_ne_nil _ _

theorem wayDown_congr (h : Positions.accounting ticks' = Positions.accounting ticks) :
    ctx.wayDown ticks' fuel price t = ctx.wayDown ticks fuel price t := by
  have htarget (t : Int) : ctx.targetOn ticks' t = ctx.targetOn ticks t :=
    targetOn_congr ctx ctx.access ctx.poolState h t
  induction fuel generalizing price t with
  | zero =>
      rfl
  | succ fuel ih =>
      unfold wayDown
      rw [htarget, Pool.netBelow_of_accounting h]
      split
      · rfl
      · dsimp only
        rw [ih]

theorem targetOn_down (hs : ctx.tickSpacing.IsPositive) (hz : ctx.zeroForOne = true)
    (h : slab.Holds ctx.tickSpacing ticks) (ht : minTick ≤ t ∧ t ≤ maxTick) :
    (ctx.targetOn ticks t).Spec true slab t := by
  have hbounds : -2 ^ 20 ≤ t ∧ t < 2 ^ 20 := by
    unfold minTick maxTick at ht
    omega
  rw [← stepTarget_eq h hbounds, ← hz]
  exact stepTarget_down h.keyed hs hz ht

theorem wayDown_gross_pos {fee : Fee} (hs : ctx.tickSpacing.IsPositive)
    (hz : ctx.zeroForOne = true) (h : slab.Holds ctx.tickSpacing ticks)
    (hprice : 0 < price) (hne : price ≠ minSqrtPrice) (ht : minTick ≤ t ∧ t ≤ maxTick)
    (hfuel : t - minTick + 1 ≤ fuel)
    (hl : forall leg, leg ∈ ctx.wayDown ticks fuel price t -> leg.liquidity ≠ 0) :
    0 < ((ctx.wayDown ticks fuel price t).map fun leg => leg.gross fee).sum := by
  induction fuel generalizing price t with
  | zero =>
      omega
  | succ fuel ih =>
      have htarget := targetOn_down hs hz h ht
      have hbelow := (htarget.down rfl).1
      have hvalid := price_valid htarget.inRange
      rw [← htarget.price] at hvalid
      rw [wayDown_cons ht.1, List.forall_mem_cons] at hl
      rw [wayDown_cons ht.1, List.map_cons, List.sum_cons]
      by_cases hmoves : price = (ctx.targetOn ticks t).sqrtPriceX96
      · have hlower : (ctx.targetOn ticks t).tickIndex ≠ minTick := by
          intro hmin
          have := htarget.price
          rw [hmin, price_minTick] at this
          exact hne (hmoves.trans this)
        have hrange := htarget.inRange
        have hrest := ih hvalid.pos (hmoves ▸ hne) ⟨by have := hrange.1; omega, by omega⟩
          (by omega) hl.2
        exact Nat.add_pos_right _ hrest
      · have hleg := inputOfMove_pos hprice hvalid.pos (Nat.pos_of_ne_zero hl.1) hmoves
        exact Nat.add_pos_left (Nat.add_pos_left hleg _) _

end WayDown

/-!
# Iterations on the way down
-/

section Iterates

variable {ctx : SwapContext} {a b : SwapLoopState × TickSlab A} {c : StepComputations}

structure Drainable (ctx : SwapContext) (a : SwapLoopState × TickSlab A) : Prop where
  live : ctx.Live a
  zeroForOne : ctx.zeroForOne = true
  limit : ctx.sqrtPriceLimitX96 = minSqrtPrice
  follows : Follows a

theorem Iterates.drainable (h : ctx.Drainable a) (hi : ctx.Iterates a c b) : ctx.Drainable b :=
  ⟨hi.live h.live, h.zeroForOne, h.limit, hi.follows h.live.invariant h.follows⟩

theorem Iterates.accounting (h : ctx.Invariant a) (hi : ctx.Iterates a c b) :
    Positions.accounting b.2.snapshot = Positions.accounting a.2.snapshot := by
  rcases hi.cases h with ⟨_, _, hb⟩ | ⟨k, info, _, hget, hholds, _⟩
  · rw [hb]
  · rw [hholds.snapshot, accounting_crossed ctx.access hget]

theorem Drainable.clampedTarget (h : ctx.Drainable a) (hrun : ¬ ctx.Halted a.1) :
    ctx.clampedTarget (ctx.stepTarget a.2 a.1.tick) =
      (ctx.stepTarget a.2 a.1.tick).sqrtPriceX96 := by
  have ht := h.live.invariant.target_spec hrun
  have hvalid := price_valid ht.inRange
  rw [← ht.price] at hvalid
  unfold SwapContext.clampedTarget getSqrtPriceTarget
  rw [h.zeroForOne, if_pos rfl, h.limit]
  exact max_eq_left hvalid.1

theorem Iterates.tick_of_reached (h : ctx.Drainable a) (hi : ctx.Iterates a c b)
    (hreached : c.next.sqrtPriceX96 = (ctx.stepTarget a.2 a.1.tick).sqrtPriceX96) :
    b.1.tick = (ctx.stepTarget a.2 a.1.tick).tickIndex - 1 ∧
      b.1.sqrtPriceX96 = (ctx.stepTarget a.2 a.1.tick).sqrtPriceX96 := by
  rw [hi.next h.live.invariant]
  refine ⟨?_, hreached⟩
  show c.next.tick = _
  rw [hi.advances.tick, tickAfter, if_pos hreached, h.zeroForOne, if_pos rfl]

theorem Iterates.ends_of_short (h : ctx.Drainable a) (hi : ctx.Iterates a c b)
    (htick : minTick ≤ a.1.tick)
    (hshort : c.next.sqrtPriceX96 ≠ (ctx.stepTarget a.2 a.1.tick).sqrtPriceX96) :
    b.1.amountSpecifiedRemaining = 0 ∧ minTick ≤ b.1.tick := by
  constructor
  · by_contra hgo
    have hreached := hi.reaches_clamped h.live hgo
    rw [h.clampedTarget hi.running] at hreached
    exact hshort hreached
  · have hready := h.live.invariant.ready
    have ht := h.live.invariant.target_spec hi.running
    rw [hi.next h.live.invariant]
    show minTick ≤ c.next.tick
    rw [hi.advances.tick, tickAfter, if_neg hshort]
    split
    · exact (getTickAtSqrtPrice_spec (hready.next_price hi.running ht hi.advances)).1.1
    · exact htick

def nextLeg (ctx : SwapContext) (a : SwapLoopState × TickSlab A) : Leg :=
  { start := a.1.sqrtPriceX96
    stop := (ctx.stepTarget a.2 a.1.tick).sqrtPriceX96
    liquidity := a.1.liquidity }

theorem Iterates.step_eq (h : ctx.Drainable a) (hi : ctx.Iterates a c b) :
    c.swapStep = plainStep (ctx.nextLeg a).start (ctx.nextLeg a).stop (ctx.nextLeg a).liquidity
        a.1.amountSpecifiedRemaining ctx.fee ∧
      StepSound (ctx.nextLeg a).start (ctx.nextLeg a).stop (ctx.nextLeg a).liquidity
        c.swapStep ∧
      (ctx.nextLeg a).stop ≤ (ctx.nextLeg a).start ∧ 0 < (ctx.nextLeg a).stop := by
  have hready := h.live.invariant.ready
  have ht := h.live.invariant.target_spec hi.running
  have hclamp := hready.clampedTarget hi.running ht
  have hsound := hready.sound hi.running ht hi.advances
  have hstep := hi.advances.swapStep
  rw [h.clampedTarget hi.running] at hclamp hsound hstep
  have hpositive : 0 < a.1.liquidity := Nat.pos_of_ne_zero fun hz => hi.running (Or.inr hz)
  have hne : a.1.amountSpecifiedRemaining ≠ 0 := fun hz => hi.running (Or.inl (Or.inl hz))
  refine ⟨?_, hsound.1, (hclamp.2.1 h.zeroForOne).1, hclamp.1.pos⟩
  exact computeSwapStep_eq hready.price hclamp.1 hpositive hready.liquidity hready.fee hne
    hready.remaining hstep

theorem Iterates.covered (h : ctx.Drainable a) (hi : ctx.Iterates a c b)
    (hcovers : Covers (ctx.nextLeg a).start (ctx.nextLeg a).stop (ctx.nextLeg a).liquidity
      a.1.amountSpecifiedRemaining ctx.fee) :
    c.next.sqrtPriceX96 = (ctx.nextLeg a).stop ∧
      (ctx.amountSpecified < 0 -> b.1.amountSpecifiedRemaining =
        a.1.amountSpecifiedRemaining + (ctx.nextLeg a).gross ctx.fee) ∧
      (0 < ctx.amountSpecified -> b.1.amountSpecifiedRemaining =
        a.1.amountSpecifiedRemaining - (ctx.nextLeg a).output) := by
  have hstep := (hi.step_eq h).1
  unfold plainStep at hstep
  rw [if_pos hcovers] at hstep
  have hsettles := hi.advances.settles
  rw [hi.next h.live.invariant, hi.advances.price]
  rw [hstep] at hsettles ⊢
  refine ⟨rfl, fun hin => ?_, fun hout => ?_⟩
  · have hremaining := (hsettles.exactIn (le_of_lt hin)).1
    unfold Leg.gross
    rw [Nat.cast_add]
    exact hremaining
  · exact (hsettles.exactOut hout).1

/-- An input short of a leg ends above its end, an output short of it reaches the end
when its price move rounds up to the leg. -/
theorem Iterates.short (h : ctx.Drainable a) (hi : ctx.Iterates a c b)
    (hshort : ¬ Covers (ctx.nextLeg a).start (ctx.nextLeg a).stop (ctx.nextLeg a).liquidity
      a.1.amountSpecifiedRemaining ctx.fee) :
    b.1.amountSpecifiedRemaining = 0 ∧
      (a.1.amountSpecifiedRemaining < 0 -> c.next.sqrtPriceX96 ≠ (ctx.nextLeg a).stop) ∧
      (0 < a.1.amountSpecifiedRemaining -> (c.next.sqrtPriceX96 = (ctx.nextLeg a).stop ↔
        (ctx.nextLeg a).start - (ctx.nextLeg a).stop ≤
          divCeil (a.1.amountSpecifiedRemaining.natAbs * 2 ^ 96) (ctx.nextLeg a).liquidity)) := by
  rcases hi.step_eq h with ⟨hstep, hsound, hdown, hstop⟩
  have hmoves := hsound.down hdown
  rw [hi.advances.price]
  refine ⟨hi.spent h.live ?_, fun hneg heq => ?_, fun hpos => ?_⟩
  · rw [h.clampedTarget hi.running]
    exact hshort
  · -- the input of a step covers its move
    have hinput := hmoves.input
    unfold plainStep at hstep
    rw [if_neg hshort, if_pos hneg] at hstep
    have hnet : c.swapStep.amountIn = ctx.fee.net a.1.amountSpecifiedRemaining.natAbs := by
      rw [hstep]
      rfl
    rw [heq, hnet] at hinput
    unfold Covers at hshort
    rw [if_pos hneg, inputOfMove_down hdown,
      divCeil_le_iff (Nat.mul_pos hstop (hstop.trans_le hdown)), ← Nat.mul_assoc,
      Nat.mul_comm (2 ^ 96)] at hshort
    exact hshort hinput
  · have hle := hmoves.target_le
    unfold plainStep at hstep
    rw [if_neg hshort, if_neg (not_lt.mpr (le_of_lt hpos))] at hstep
    have hnext : c.swapStep.sqrtRatioNextX96 = (ctx.nextLeg a).start -
        divCeil (a.1.amountSpecifiedRemaining.natAbs * 2 ^ 96) (ctx.nextLeg a).liquidity := by
      rw [hstep]
      unfold outputStep priceOfOutput
      dsimp only
      rw [decide_eq_true hdown, if_pos rfl]
    rw [hnext] at hle ⊢
    omega

theorem Drainable.wayDown (h : ctx.Drainable a) (htick : minTick ≤ a.1.tick) (fuel : Nat) :
    ctx.wayDown a.2.snapshot (fuel + 1) a.1.sqrtPriceX96 a.1.tick =
      ctx.nextLeg a :: ctx.wayDown a.2.snapshot fuel (ctx.nextLeg a).stop
        ((ctx.stepTarget a.2 a.1.tick).tickIndex - 1) := by
  rw [wayDown_cons htick,
    ← stepTarget_eq h.live.invariant.holds h.live.invariant.ready.inTick.bounds,
    ← h.follows.active, Int.toNat_natCast]
  rfl

theorem Drainable.stop_ne (h : ctx.Drainable a) (hrun : ¬ ctx.Halted a.1)
    (hne : (ctx.stepTarget a.2 a.1.tick).tickIndex ≠ minTick) :
    (ctx.nextLeg a).stop ≠ minSqrtPrice := by
  have ht := h.live.invariant.target_spec hrun
  have hlo := ht.inRange.1
  have hhi := ht.inRange.2
  have hmin := price_minTick
  unfold minTick at hlo hne hmin
  unfold maxTick at hhi
  have hlt := price_lt (by omega) (lt_of_le_of_ne hlo (Ne.symm hne)) (by omega)
  rw [hmin, ← ht.price] at hlt
  exact ne_of_gt hlt

theorem Iterates.affords_short (h : ctx.Drainable a) (hi : ctx.Iterates a c b)
    (htick : minTick ≤ a.1.tick) {fuel : Nat} (hfuel : a.1.tick - minTick + 1 ≤ fuel + 1)
    (hshort : ¬ Covers (ctx.nextLeg a).start (ctx.nextLeg a).stop (ctx.nextLeg a).liquidity
      a.1.amountSpecifiedRemaining ctx.fee) :
    b.1.tick < minTick ↔
      Affords ctx.fee (ctx.wayDown a.2.snapshot (fuel + 1) a.1.sqrtPriceX96 a.1.tick)
        a.1.amountSpecifiedRemaining := by
  have hne : a.1.amountSpecifiedRemaining ≠ 0 := fun hz => hi.running (Or.inl (Or.inl hz))
  have ht := h.live.invariant.target_spec hi.running
  have hspent := hi.short h hshort
  have hlast (hunreached : c.next.sqrtPriceX96 ≠ (ctx.nextLeg a).stop) : ¬ b.1.tick < minTick :=
    not_lt.mpr (hi.ends_of_short h htick hunreached).2
  unfold Covers at hshort
  rw [h.wayDown htick]
  rcases lt_or_gt_of_ne hne with hneg | hpos
  · rw [if_pos hneg] at hshort
    refine iff_of_false (hlast (hspent.2.1 hneg)) fun hpays => ?_
    unfold Affords at hpays
    rw [if_pos hneg, List.map_cons, List.sum_cons] at hpays
    have hfee := h.live.invariant.ready.fee
    exact hshort ((Fee.le_net_iff hfee hpays.2.1).mpr ((Nat.le_add_right _ _).trans hpays.2.2))
  · have hnot : ¬ a.1.amountSpecifiedRemaining < 0 := not_lt.mpr (le_of_lt hpos)
    rw [if_neg hnot] at hshort
    unfold Affords
    rw [if_neg hnot]
    by_cases hend : (ctx.stepTarget a.2 a.1.tick).tickIndex = minTick
    · rw [wayDown_ended (by omega)]
      have hreach := hspent.2.2 hpos
      constructor
      · intro hbelow
        refine ⟨?_, by omega, Or.inr (hreach.mp ?_)⟩
        · intro leg hleg
          rw [List.mem_singleton.mp hleg]
          exact fun hz => hi.running (Or.inr hz)
        · by_contra hunreached
          exact hlast hunreached hbelow
      · rintro ⟨_, _, hout | hwidth⟩
        · exact absurd hout hshort
        · rw [(hi.tick_of_reached h (hreach.mpr hwidth)).1]
          omega
    · have hlo := ht.inRange.1
      have hdown := (ht.down h.zeroForOne).1
      have hrest : ctx.wayDown a.2.snapshot fuel (ctx.nextLeg a).stop
          ((ctx.stepTarget a.2 a.1.tick).tickIndex - 1) ≠ [] :=
        wayDown_ne_nil (by omega) (by omega)
      rw [paysOutputs_cons hrest]
      refine iff_of_false (fun hbelow => ?_) fun hpays => hshort (le_of_lt hpays.2.1)
      by_cases hreached : c.next.sqrtPriceX96 = (ctx.nextLeg a).stop
      · rw [(hi.tick_of_reached h hreached).1] at hbelow
        omega
      · exact hlast hreached hbelow

theorem Iterates.affords_last (h : ctx.Drainable a) (hi : ctx.Iterates a c b)
    (hprice : a.1.sqrtPriceX96 ≠ minSqrtPrice)
    (hend : (ctx.stepTarget a.2 a.1.tick).tickIndex = minTick)
    (hcovers : Covers (ctx.nextLeg a).start (ctx.nextLeg a).stop (ctx.nextLeg a).liquidity
      a.1.amountSpecifiedRemaining ctx.fee) :
    Affords ctx.fee [ctx.nextLeg a] a.1.amountSpecifiedRemaining := by
  have hne : a.1.amountSpecifiedRemaining ≠ 0 := fun hz => hi.running (Or.inl (Or.inl hz))
  have hdry : (ctx.nextLeg a).liquidity ≠ 0 := fun hz => hi.running (Or.inr hz)
  have hfee := h.live.invariant.ready.fee
  have ht := h.live.invariant.target_spec hi.running
  have hstop := (hi.step_eq h).2.2.2
  refine ⟨fun leg hleg => ?_, ?_⟩
  · rw [List.mem_singleton.mp hleg]
    exact hdry
  unfold Covers at hcovers
  rcases lt_or_gt_of_ne hne with hneg | hpos
  · rw [if_pos hneg] at hcovers ⊢
    have hpays := Fee.gross_le hfee hcovers
    refine ⟨?_, ?_⟩
    · -- a full fee pays for no input, but the last leg needs some
      by_contra hmax
      have hzero := hpays.2 (Bool.not_eq_false _ ▸ hmax)
      have hmoves : (ctx.nextLeg a).start ≠ (ctx.nextLeg a).stop := by
        intro heq
        have hmin := ht.price
        rw [hend, price_minTick] at hmin
        exact hprice (heq.trans hmin)
      have hinput := inputOfMove_pos h.live.invariant.ready.price.pos hstop
        (Nat.pos_of_ne_zero hdry) hmoves
      exact absurd hzero (ne_of_gt hinput)
    · rw [List.map_singleton, List.sum_singleton]
      exact hpays.1
  · rw [if_neg (not_lt.mpr (le_of_lt hpos))] at hcovers ⊢
    exact ⟨by omega, Or.inl hcovers⟩

/-- An amount that covers any other leg pays for the way when the rest pays for the
rest of it. -/
theorem Iterates.affords_covered (h : ctx.Drainable a) (hi : ctx.Iterates a c b)
    (htick : minTick ≤ a.1.tick) {fuel : Nat} (hfuel : a.1.tick - minTick + 1 ≤ fuel + 1)
    (hend : (ctx.stepTarget a.2 a.1.tick).tickIndex ≠ minTick)
    (hcovers : Covers (ctx.nextLeg a).start (ctx.nextLeg a).stop (ctx.nextLeg a).liquidity
      a.1.amountSpecifiedRemaining ctx.fee) :
    Affords ctx.fee (ctx.wayDown a.2.snapshot (fuel + 1) a.1.sqrtPriceX96 a.1.tick)
        a.1.amountSpecifiedRemaining ↔
      Affords ctx.fee (ctx.wayDown b.2.snapshot fuel b.1.sqrtPriceX96 b.1.tick)
        b.1.amountSpecifiedRemaining := by
  have ht := h.live.invariant.target_spec hi.running
  have hlo := ht.inRange.1
  have hhi := ht.inRange.2
  have hdown := (ht.down h.zeroForOne).1
  have hdry : (ctx.nextLeg a).liquidity ≠ 0 := fun hz => hi.running (Or.inr hz)
  have hne : a.1.amountSpecifiedRemaining ≠ 0 := fun hz => hi.running (Or.inl (Or.inl hz))
  have hpaid := hi.covered h hcovers
  have hb := hi.tick_of_reached h hpaid.1
  have hsign := h.live.remaining_sign hi.running
  rw [wayDown_congr (hi.accounting h.live.invariant), hb.1, hb.2, h.wayDown htick]
  have hrest : ctx.wayDown a.2.snapshot fuel (ctx.nextLeg a).stop
      ((ctx.stepTarget a.2 a.1.tick).tickIndex - 1) ≠ [] :=
    wayDown_ne_nil (by omega) (by omega)
  unfold Covers at hcovers
  rcases lt_or_gt_of_ne hne with hneg | hpos
  · rw [if_pos hneg] at hcovers
    refine affords_cons_input h.live.invariant.ready.fee hneg
      (hpaid.2.1 (hsign.1.mp hneg)) hcovers hdry hrest fun hl => ?_
    have hready := h.live.invariant.ready
    exact wayDown_gross_pos hready.spacing h.zeroForOne h.live.invariant.holds
      (hi.step_eq h).2.2.2 (h.stop_ne hi.running hend) ⟨by omega, by omega⟩ (by omega) hl
  · rw [if_neg (not_lt.mpr (le_of_lt hpos))] at hcovers
    exact affords_cons_output hpos (hpaid.2.2 (hsign.2.mp hpos)) hcovers hdry hrest

end Iterates

/-!
# Runs down to the minimum price
-/

section Runs

variable {ctx : SwapContext} {a b : SwapLoopState × TickSlab A} {cs : List StepComputations}

theorem run_nil_of_halted (h : Run ctx.Iterates a cs b) (hhalt : ctx.Halted a.1) : b = a := by
  cases h with
  | nil _ => rfl
  | cons hi _ => exact absurd hhalt hi.running

/-- A swap down to the minimum price ends below the minimum tick exactly when its
amount pays for the whole way. -/
theorem run_drains (h : Run ctx.Iterates a cs b) (hhalt : ctx.Halted b.1)
    (ha : ctx.Drainable a) (htick : minTick ≤ a.1.tick)
    (hprice : a.1.sqrtPriceX96 ≠ minSqrtPrice) {fuel : Nat}
    (hfuel : a.1.tick - minTick + 1 ≤ fuel) :
    b.1.tick < minTick ↔
      Affords ctx.fee (ctx.wayDown a.2.snapshot fuel a.1.sqrtPriceX96 a.1.tick)
        a.1.amountSpecifiedRemaining := by
  induction h generalizing fuel with
  | nil a =>
      refine iff_of_false (not_lt.mpr htick) fun hpays => ?_
      rcases hhalt with (hfilled | hlimit) | hdry
      · rw [hfilled] at hpays
        exact not_affords_zero (wayDown_ne_nil htick hfuel) hpays
      · exact hprice (hlimit.trans ha.limit)
      · cases fuel with
        | zero => omega
        | succ fuel =>
            rw [ha.wayDown htick] at hpays
            exact hpays.1 _ List.mem_cons_self hdry
  | @cons a mid b c cs hi hrest ih =>
      cases fuel with
      | zero => omega
      | succ fuel =>
          by_cases hcovers : Covers (ctx.nextLeg a).start (ctx.nextLeg a).stop
              (ctx.nextLeg a).liquidity a.1.amountSpecifiedRemaining ctx.fee
          · have hb := hi.tick_of_reached ha (hi.covered ha hcovers).1
            have ht := ha.live.invariant.target_spec hi.running
            by_cases hend : (ctx.stepTarget a.2 a.1.tick).tickIndex = minTick
            · -- the last leg ends at the limit
              have hdone : ctx.Halted mid.1 := by
                refine Or.inl (Or.inr ?_)
                rw [hb.2, ht.price, hend, price_minTick, ha.limit]
              rw [run_nil_of_halted hrest hdone, ha.wayDown htick, wayDown_ended (by omega)]
              exact iff_of_true (by omega) (hi.affords_last ha hprice hend hcovers)
            · have hlo := ht.inRange.1
              have hdown := (ht.down ha.zeroForOne).1
              rw [hi.affords_covered ha htick hfuel hend hcovers]
              refine ih hhalt (hi.drainable ha) (by omega) ?_ (by omega)
              rw [hb.2]
              exact ha.stop_ne hi.running hend
          · have hdone : ctx.Halted mid.1 := Or.inl (Or.inl (hi.short ha hcovers).1)
            rw [run_nil_of_halted hrest hdone]
            exact hi.affords_short ha htick hfuel hcovers

end Runs

end SwapContext

/-!
# The tick of a swap
-/

namespace Pool

variable {P : Type} {p p' : Pool P A} {params : SwapParamsInner} {result : SwapResult}
  {ctx : SwapContext} {cs : List StepComputations} {b : SwapLoopState × TickSlab A}

/-- A swap down with the minimum price as its limit, whose amount pays for the whole
way there. -/
def Drains (p : Pool P A) (params : SwapParamsInner) : Prop :=
  params.zeroForOne = true ∧ params.sqrtPriceLimit = minSqrtPrice ∧
    params.amountSpecified ≠ 0 ∧
    exists swapFee, p.resolveSwapFee params = .ok swapFee ∧
      Affords (swapFee.swapFee true)
        ((p.swapContext .exclusive swapFee params).wayDown p.ticks.snapshot
          (p.state.tick - minTick + 1).toNat p.state.sqrtPriceX96 p.state.tick)
        params.amountSpecified

theorem LoopRun.tick_lt_iff (h : LoopRun p params ctx cs b) (hp : p.Sound)
    (htick : TickInRange p.state.tick) (hhalt : ctx.Halted b.1) :
    b.1.tick < minTick ↔ p.Drains params := by
  have hfinal := (h.final hp.toUsable).ready
  have hlive := h.live hp.toUsable
  rcases h.context with ⟨swapFee, hfee, rfl⟩
  cases hz : params.zeroForOne with
  | false =>
      refine iff_of_false (not_lt.mpr ?_) fun hdrains => ?_
      · have hkept := h.run.invariant
          (I := fun a => (p.swapContext .exclusive swapFee params).Invariant a ∧
            minTick ≤ a.1.tick)
          (fun _ _ _ ha hi => ⟨hi.invariant ha.1, hi.tick_up ha.1 hz ha.2⟩)
          ⟨h.start hp.toUsable, htick.1⟩
        exact hkept.2
      · rw [hdrains.1] at hz
        cases hz
  | true =>
      have hbelow := (checkLimit_eq_ok h.limit).1 hz
      by_cases hlimit : params.sqrtPriceLimit = minSqrtPrice
      · have hdrainable : (p.swapContext .exclusive swapFee params).Drainable
            (p.swapStart params, p.ticks) := ⟨hlive, hz, hlimit, hp.follows params⟩
        have hrun := SwapContext.run_drains h.run hhalt hdrainable htick.1
          (ne_of_gt (hlimit ▸ hbelow)) (le_of_eq (Int.toNat_of_nonneg (by
            have := htick.1
            show 0 ≤ p.state.tick - minTick + 1
            omega)).symm)
        rw [hrun]
        constructor
        · intro hpays
          rw [show (p.swapContext .exclusive swapFee params).fee = swapFee.swapFee true by
            rw [← hz]; rfl] at hpays
          exact ⟨hz, hlimit, h.amount, swapFee, hfee, hpays⟩
        · rintro ⟨_, _, _, swapFee', hfee', hpays⟩
          rw [hfee] at hfee'
          cases hfee'
          rw [show (p.swapContext .exclusive swapFee params).fee = swapFee.swapFee true by
            rw [← hz]; rfl]
          exact hpays
      · refine iff_of_false (fun hlt => ?_) fun hdrains => hlimit hdrains.2.1
        have hmin := hfinal.inTick.eq_min hfinal.price hlt
        have hle : params.sqrtPriceLimit ≤ b.1.sqrtPriceX96 := hfinal.down hz
        rw [hmin] at hle
        exact hlimit (le_antisymm hle params.limitValid.1)

/-- The tick of a successful swap stays in the tick range unless the swap drains the
pool. -/
theorem swap_tick_iff [PositionsAccess P] (hp : p.Accepted)
    (h : p.Swaps params (.ok result) p') :
    TickInRange result.tick ∧ TickInRange p'.state.tick ↔ ¬ p.Drains params := by
  rcases h with ⟨fuel, h⟩
  generalize hlist : p.swapComputations params fuel = list
  have hcases := swap_cases h
  rw [hlist] at hcases
  cases hcases with
  | empty hzero =>
      exact iff_of_true ⟨hp.tickInRange, hp.tickInRange⟩ fun hdrains => hdrains.2.2.1 hzero
  | @done ctx cs b delta hrun hhalt hdelta =>
      have hiff := hrun.tick_lt_iff hp.sound hp.tickInRange hhalt
      have hupper := (hrun.final hp.sound.toUsable).ready.inTick.upper
      rw [← hiff, not_lt]
      exact ⟨fun h => h.1.1, fun h => ⟨⟨h, hupper⟩, ⟨h, hupper⟩⟩⟩

theorem swap_tick_sample :
    TickInRange Sample.result.tick ∧
        TickInRange (Sample.swapped Sample.restored Sample.sell 3).state.tick ↔
      ¬ Sample.restored.Drains Sample.sell := by
  have hresult : (Sample.restored.swap Sample.sell 3).map Prod.fst =
      some (.ok Sample.result) := by
    decide +kernel
  exact swap_tick_iff Sample.restored_accepted ⟨3, Sample.swap_eq hresult⟩

end Pool

/-!
# A drained pool
-/

namespace Sample

def denseSpacing : TickSpacing := ⟨8, by decide⟩

def lowEmpty : Pool Positions :=
  { empty with
    state :=
      { empty.state with
        sqrtPriceX96 := 4353938549
        tick := -887000 }
    tickSpacing := denseSpacing
    ticks := TickSlab.new denseSpacing (by decide) }

def addEverywhere : ModifyLiquidityParams :=
  { add with
    tickLower := minTick
    tickUpper := maxTick
    liquidityDelta := 10 ^ 12
    lowerInRange := by decide
    upperInRange := by decide
    deltaFits := by decide }

def low : Pool Positions :=
  (Pool.fromSnapshot (lowEmpty.modifyLiquidity addEverywhere).2.snapshot).getD lowEmpty

theorem low_accepted : low.Accepted := by
  have hok : (lowEmpty.modifyLiquidity addEverywhere).2.tryFork.isOk =
      true := by
    decide +kernel
  exact ⟨_, by decide +kernel, Outcome.eq_ok_getD hok lowEmpty⟩

def sellOut : SwapParamsInner :=
  { sell with
    amountSpecified := -10 ^ 38
    sqrtPriceLimit := minSqrtPrice
    amountFits := by decide
    limitValid := by decide }

def drained : SwapResult :=
  { result with
    swapDelta := { amount0 := -249905446292804628843521206812, amount1 := 0 }
    sqrtPriceX96 := minSqrtPrice
    tick := minTick - 1
    liquidity := 0 }

end Sample

/-- A sale that drains a pool succeeds, reports a tick below the minimum tick and
stores it. -/
theorem swap_leaves_tick_range :
    exists (p p' : Pool Positions) (params : SwapParamsInner) (result : SwapResult),
      p.Accepted ∧ p.Swaps params (.ok result) p' ∧
        ¬ TickInRange result.tick ∧ ¬ TickInRange p'.state.tick := by
  have hresult : (Sample.low.swap Sample.sellOut 6).map Prod.fst = some (.ok Sample.drained) := by
    decide +kernel
  have htick : ¬ TickInRange (Sample.swapped Sample.low Sample.sellOut 6).state.tick := by
    decide +kernel
  exact ⟨Sample.low, _, Sample.sellOut, Sample.drained, Sample.low_accepted,
    ⟨6, Sample.swap_eq hresult⟩, by decide, htick⟩

end RmUniswap
