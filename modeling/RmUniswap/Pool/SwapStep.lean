import RmUniswap.Math.SwapStep
import RmUniswap.Pool.SwapTarget

/-!
# One iteration of the swap loop

An iteration moves the price towards its target, keeps the price in the tick of
the loop state and passes no initialized tick except the one it crosses.
-/

namespace RmUniswap

open Foundation

variable {A : Type} [LawfulAllocator TickSlabValue A]

/-!
# The amounts of an iteration
-/

section Amounts

variable {amountSpecified remaining calculated : Int} {step : SwapStep} {fee : Fee}
  {amounts : Int × Int} {fees : Nat × Nat} {pips amountToProtocol growth feeAmount liquidity : Nat}

theorem u256ToI256_eq_ok {value : Nat} {i : Int} (h : u256ToI256 value = .ok i) : i = value := by
  unfold u256ToI256 at h
  split at h
  · cases h
    rfl
  · cases h

/-- The amounts an iteration settles. -/
structure Settles (amountSpecified remaining calculated : Int) (step : SwapStep)
    (amounts : Int × Int) : Prop where
  remainingFits : FitsSigned 256 amounts.1
  exactOut : 0 < amountSpecified -> amounts.1 = remaining - step.amountOut ∧
    amounts.2 = calculated - (step.amountIn + step.feeAmount)
  exactIn : amountSpecified ≤ 0 -> amounts.1 = remaining + (step.amountIn + step.feeAmount) ∧
    amounts.2 = calculated + step.amountOut

theorem settleAmounts_eq_ok
    (h : settleAmounts amountSpecified remaining calculated step = .ok amounts) :
    Settles amountSpecified remaining calculated step amounts := by
  unfold settleAmounts at h
  split at h
  · rename_i hout
    rcases bind_eq_ok.mp h with ⟨amountOut, hamountOut, h⟩
    rcases bind_eq_ok.mp h with ⟨remaining', hremaining, h⟩
    rcases bind_eq_ok.mp h with ⟨gross, hgross, h⟩
    rcases bind_eq_ok.mp h with ⟨amountIn, hamountIn, h⟩
    rcases bind_eq_ok.mp h with ⟨calculated', hcalculated, h⟩
    cases h
    have hrem := checkedSigned_eq_some.mp (okOr_eq_ok.mp hremaining)
    have hcalc := checkedSigned_eq_some.mp (okOr_eq_ok.mp hcalculated)
    have hsum := (checkedAdd_eq_some.mp (okOr_eq_ok.mp hgross)).1
    have hin := u256ToI256_eq_ok hamountIn
    have hamount := u256ToI256_eq_ok hamountOut
    refine ⟨hrem.1 ▸ hrem.2, fun _ => ⟨?_, ?_⟩, fun hle => absurd hout (not_lt.mpr hle)⟩
    · rw [hrem.1, hamount]
    · rw [hcalc.1, hin, hsum]
      push_cast
      ring
  · rename_i hin
    rcases bind_eq_ok.mp h with ⟨gross, hgross, h⟩
    rcases bind_eq_ok.mp h with ⟨amountIn, hamountIn, h⟩
    rcases bind_eq_ok.mp h with ⟨remaining', hremaining, h⟩
    rcases bind_eq_ok.mp h with ⟨amountOut, hamountOut, h⟩
    rcases bind_eq_ok.mp h with ⟨calculated', hcalculated, h⟩
    cases h
    have hrem := checkedSigned_eq_some.mp (okOr_eq_ok.mp hremaining)
    have hcalc := checkedSigned_eq_some.mp (okOr_eq_ok.mp hcalculated)
    have hsum := (checkedAdd_eq_some.mp (okOr_eq_ok.mp hgross)).1
    have hamountIn' := u256ToI256_eq_ok hamountIn
    have hamount := u256ToI256_eq_ok hamountOut
    refine ⟨hrem.1 ▸ hrem.2, fun hlt => absurd hlt hin, fun _ => ⟨?_, ?_⟩⟩
    · rw [hrem.1, hamountIn', hsum]
      push_cast
      ring
    · rw [hcalc.1, hamount]

theorem splitFee_eq_ok (h : splitFee fee pips amountToProtocol step = .ok fees) :
    fees.1 + fees.2 = step.feeAmount + amountToProtocol ∧ amountToProtocol ≤ fees.2 := by
  unfold splitFee at h
  split at h
  · rcases bind_eq_ok.mp h with ⟨delta, _, h⟩
    rcases bind_eq_ok.mp h with ⟨share, hshare, h⟩
    rcases bind_eq_ok.mp h with ⟨total, htotal, h⟩
    cases h
    have := checkedSub_eq_some.mp (okOr_eq_ok.mp hshare)
    have := (checkedAdd_eq_some.mp (okOr_eq_ok.mp htotal)).1
    dsimp only
    omega
  · cases h
    exact ⟨rfl, le_refl _⟩

theorem growFee_eq_ok (hl : 0 < liquidity) (hlt : liquidity < 2 ^ 128) {growth' : Nat}
    (h : growFee growth feeAmount liquidity = .ok growth') :
    growth' = growth + feeAmount * 2 ^ 128 / liquidity := by
  unfold growFee at h
  rw [if_pos hl] at h
  cases hmul : mulDiv feeAmount (2 ^ 128) liquidity with
  | error e =>
      rw [hmul] at h
      cases h
  | ok q =>
      rw [hmul] at h
      have hq := (mulDiv_eq_ok hl (hlt.trans (by norm_num))).mp hmul
      have hadd := (checkedAdd_eq_some.mp (okOr_eq_ok.mp h)).1
      rw [hadd, hq.1]

end Amounts

/-!
# Inversion
-/

/-- The initialized tick an iteration crosses. -/
def StepComputations.crossed (c : StepComputations) : Option Int :=
  c.crossing.map fun _ => c.target.tickIndex

namespace SwapContext

def clampedTarget (ctx : SwapContext) (target : StepTarget) : Nat :=
  getSqrtPriceTarget ctx.zeroForOne target.sqrtPriceX96 ctx.sqrtPriceLimitX96

structure Advances (ctx : SwapContext) (target : StepTarget) (s : SwapLoopState)
    (c : StepComputations) : Prop where
  fromStart : c.start = s
  toTarget : c.target = target
  swapStep : computeSwapStep s.sqrtPriceX96 (ctx.clampedTarget target) s.liquidity
    s.amountSpecifiedRemaining ctx.fee = .ok c.swapStep
  settles : Settles ctx.amountSpecified s.amountSpecifiedRemaining s.amountCalculated c.swapStep
    (c.next.amountSpecifiedRemaining, c.next.amountCalculated)
  fees : c.feeAmount + c.next.amountToProtocol = c.swapStep.feeAmount + s.amountToProtocol
  growth : growFee s.feeGrowthGlobalX128 c.feeAmount s.liquidity = .ok c.next.feeGrowthGlobalX128
  price : c.next.sqrtPriceX96 = c.swapStep.sqrtRatioNextX96
  tick : c.next.tick = ctx.tickAfter target s c.next.sqrtPriceX96
  liquidity : c.next.liquidity = s.liquidity

theorem advance_eq_ok {ctx : SwapContext} {target : StepTarget} {s : SwapLoopState}
    {c : StepComputations} (h : ctx.advance target s = .ok c) : ctx.Advances target s c := by
  unfold advance at h
  rcases bind_eq_ok.mp h with ⟨step, hstep, h⟩
  rcases bind_eq_ok.mp h with ⟨amounts, hamounts, h⟩
  rcases bind_eq_ok.mp h with ⟨fees, hfees, h⟩
  rcases bind_eq_ok.mp h with ⟨growth, hgrowth, h⟩
  cases h
  exact
    { fromStart := rfl
      toTarget := rfl
      swapStep := hstep
      settles := settleAmounts_eq_ok hamounts
      fees := (splitFee_eq_ok hfees).1
      growth := hgrowth
      price := rfl
      tick := rfl
      liquidity := rfl }

/-!
# The price of an iteration
-/

/-- What holds at the head of the loop. -/
structure Ready (ctx : SwapContext) (s : SwapLoopState) : Prop where
  spacing : ctx.tickSpacing.IsPositive
  fee : ctx.fee.isValid = true
  limit : IsValidSqrtPrice ctx.sqrtPriceLimitX96
  price : IsValidSqrtPrice s.sqrtPriceX96
  down : ctx.zeroForOne = true -> ctx.sqrtPriceLimitX96 ≤ s.sqrtPriceX96
  up : ctx.zeroForOne = false -> s.sqrtPriceX96 ≤ ctx.sqrtPriceLimitX96
  inTick : PriceInTick s.tick s.sqrtPriceX96
  liquidity : s.liquidity < 2 ^ 128
  remaining : FitsSigned 256 s.amountSpecifiedRemaining

section Step

variable {ctx : SwapContext} {s : SwapLoopState} {ticks : TickSlab A} {target : StepTarget}
  {c : StepComputations}

theorem Ready.tick_down (h : ctx.Ready s) (hrun : ¬ ctx.Halted s) (hz : ctx.zeroForOne = true) :
    minTick ≤ s.tick := by
  by_contra hlt
  have hmin := h.inTick.eq_min h.price (not_le.mp hlt)
  have hle := h.down hz
  have hlimit := h.limit.1
  apply hrun
  exact Or.inl (Or.inr (by omega))

theorem Ready.tick_up (h : ctx.Ready s) (hrun : ¬ ctx.Halted s) (hz : ctx.zeroForOne = false) :
    s.tick < maxTick := by
  by_contra hge
  have hmax := h.inTick.eq_max h.price (not_lt.mp hge)
  have hle := h.up hz
  have hlimit := h.limit.2
  apply hrun
  exact Or.inl (Or.inr (by omega))

theorem Ready.target_spec (h : ctx.Ready s) (hrun : ¬ ctx.Halted s) (hk : ticks.Keyed) :
    (ctx.stepTarget ticks s.tick).Spec ctx.zeroForOne ticks s.tick := by
  cases hz : ctx.zeroForOne with
  | false =>
      rw [← hz]
      exact stepTarget_up hk h.spacing hz ⟨h.inTick.lower, h.tick_up hrun hz⟩
  | true =>
      rw [← hz]
      exact stepTarget_down hk h.spacing hz ⟨h.tick_down hrun hz, h.inTick.upper⟩

theorem Ready.clampedTarget (h : ctx.Ready s) (hrun : ¬ ctx.Halted s)
    (ht : target.Spec ctx.zeroForOne ticks s.tick) :
    IsValidSqrtPrice (ctx.clampedTarget target) ∧
      (ctx.zeroForOne = true -> ctx.clampedTarget target ≤ s.sqrtPriceX96 ∧
        target.sqrtPriceX96 ≤ ctx.clampedTarget target ∧
          ctx.sqrtPriceLimitX96 ≤ ctx.clampedTarget target) ∧
      (ctx.zeroForOne = false -> s.sqrtPriceX96 ≤ ctx.clampedTarget target ∧
        ctx.clampedTarget target ≤ target.sqrtPriceX96 ∧
          ctx.clampedTarget target ≤ ctx.sqrtPriceLimitX96) := by
  have hvalid : IsValidSqrtPrice target.sqrtPriceX96 := ht.price ▸ price_valid ht.inRange
  have hlo := ht.inRange.1
  have hhi := ht.inRange.2
  unfold minTick at hlo
  unfold maxTick at hhi
  have hlimit := h.limit
  unfold SwapContext.clampedTarget getSqrtPriceTarget
  cases hz : ctx.zeroForOne with
  | true =>
      have hprice : target.sqrtPriceX96 ≤ s.sqrtPriceX96 := by
        rw [ht.price]
        exact h.inTick.price_le h.price (by omega) (ht.down hz).1
      have hside := h.down hz
      rw [if_pos rfl]
      refine ⟨?_, fun _ => by omega, fun hf => by cases hf⟩
      rcases max_choice target.sqrtPriceX96 ctx.sqrtPriceLimitX96 with heq | heq
      · rw [heq]
        exact hvalid
      · rw [heq]
        exact hlimit
  | false =>
      have hprice : s.sqrtPriceX96 ≤ target.sqrtPriceX96 := by
        rw [ht.price]
        exact h.inTick.le_price (by omega) (ht.up hz).1 (h.tick_up hrun hz)
      have hside := h.up hz
      rw [if_neg (by decide)]
      refine ⟨?_, (fun hf => by cases hf), fun _ => by omega⟩
      rcases min_choice target.sqrtPriceX96 ctx.sqrtPriceLimitX96 with heq | heq
      · rw [heq]
        exact hvalid
      · rw [heq]
        exact hlimit

theorem Ready.sound (h : ctx.Ready s) (hrun : ¬ ctx.Halted s)
    (ht : target.Spec ctx.zeroForOne ticks s.tick) (hc : ctx.Advances target s c) :
    StepSound s.sqrtPriceX96 (ctx.clampedTarget target) s.liquidity c.swapStep ∧
      StepFills (ctx.clampedTarget target) s.amountSpecifiedRemaining c.swapStep := by
  have hl : 0 < s.liquidity := Nat.pos_of_ne_zero fun hz => hrun (Or.inr hz)
  have hne : s.amountSpecifiedRemaining ≠ 0 := fun hz => hrun (Or.inl (Or.inl hz))
  exact computeSwapStep_sound h.price (h.clampedTarget hrun ht).1 hl h.liquidity h.fee hne
    h.remaining hc.swapStep

theorem Ready.moves_down (h : ctx.Ready s) (hrun : ¬ ctx.Halted s) (hz : ctx.zeroForOne = true)
    (ht : target.Spec ctx.zeroForOne ticks s.tick) (hc : ctx.Advances target s c) :
    MovesDown s.sqrtPriceX96 (ctx.clampedTarget target) s.liquidity c.swapStep ∧
      target.sqrtPriceX96 ≤ c.next.sqrtPriceX96 ∧
        ctx.sqrtPriceLimitX96 ≤ c.next.sqrtPriceX96 ∧ c.next.sqrtPriceX96 ≤ s.sqrtPriceX96 := by
  have hclamp := (h.clampedTarget hrun ht).2.1 hz
  have hmove := (h.sound hrun ht hc).1.down hclamp.1
  rw [hc.price]
  exact ⟨hmove, hclamp.2.1.trans hmove.target_le, hclamp.2.2.trans hmove.target_le,
    hmove.le_current⟩

theorem Ready.moves_up (h : ctx.Ready s) (hrun : ¬ ctx.Halted s) (hz : ctx.zeroForOne = false)
    (ht : target.Spec ctx.zeroForOne ticks s.tick) (hc : ctx.Advances target s c) :
    MovesUp s.sqrtPriceX96 (ctx.clampedTarget target) s.liquidity c.swapStep ∧
      s.sqrtPriceX96 ≤ c.next.sqrtPriceX96 ∧ c.next.sqrtPriceX96 ≤ target.sqrtPriceX96 ∧
        c.next.sqrtPriceX96 ≤ ctx.sqrtPriceLimitX96 := by
  have hclamp := (h.clampedTarget hrun ht).2.2 hz
  have hmove := (h.sound hrun ht hc).1.up hclamp.1
  rw [hc.price]
  exact ⟨hmove, hmove.current_le, hmove.le_target.trans hclamp.2.1,
    hmove.le_target.trans hclamp.2.2⟩

/-!
# The tick of an iteration
-/

theorem Ready.next_price (h : ctx.Ready s) (hrun : ¬ ctx.Halted s)
    (ht : target.Spec ctx.zeroForOne ticks s.tick) (hc : ctx.Advances target s c) :
    IsValidSqrtPrice c.next.sqrtPriceX96 := by
  rw [hc.price]
  exact (h.sound hrun ht hc).1.valid

theorem Ready.next_inTick (h : ctx.Ready s) (hrun : ¬ ctx.Halted s)
    (ht : target.Spec ctx.zeroForOne ticks s.tick) (hc : ctx.Advances target s c) :
    PriceInTick c.next.tick c.next.sqrtPriceX96 := by
  rw [hc.tick]
  unfold tickAfter
  by_cases hreached : c.next.sqrtPriceX96 = target.sqrtPriceX96
  · rw [if_pos hreached, hreached, ht.price]
    cases ctx.zeroForOne with
    | true =>
        exact PriceInTick.of_price_pred ht.inRange
    | false =>
        exact PriceInTick.of_price ht.inRange
  · rw [if_neg hreached]
    by_cases hmoved : c.next.sqrtPriceX96 = s.sqrtPriceX96
    · rw [if_neg (not_not.mpr hmoved), hmoved]
      exact h.inTick
    · rw [if_pos hmoved]
      exact PriceInTick.of_floor (h.next_price hrun ht hc)

/-- The initialized ticks at or below the current tick change by the crossed one only. -/
structure Passes (zeroForOne : Bool) (ticks : SortedMap Int TickInfoInner)
    (crossed : Option Int) (t t' : Int) : Prop where
  stay : forall k info, ticks.get? k = some info -> crossed ≠ some k -> (k ≤ t' ↔ k ≤ t)
  pass : forall k, crossed = some k -> (exists info, ticks.get? k = some info) ∧
    if zeroForOne then k ≤ t ∧ t' < k else t < k ∧ k ≤ t'

theorem crossed_eq_some {k : Int} :
    c.crossed = some k ↔ c.next.sqrtPriceX96 = c.target.sqrtPriceX96 ∧
      c.target.tickIndexer.isSome = true ∧ c.target.tickIndex = k := by
  unfold StepComputations.crossed StepComputations.crossing
  split
  · rename_i heq
    cases c.target.tickIndexer <;> simp [heq]
  · rename_i hne
    simp [hne]

theorem crossed_spec (ht : target.Spec ctx.zeroForOne ticks s.tick)
    (hc : ctx.Advances target s c) {k : Int} (hk : c.crossed = some k) :
    (exists info, ticks.snapshot.get? k = some info) ∧ target.tickIndex = k ∧
      c.crossing = some (ticks.indexer k) ∧ c.next.sqrtPriceX96 = target.sqrtPriceX96 := by
  have hsome := crossed_eq_some.mp hk
  rw [hc.toTarget] at hsome
  rcases ht.indexer with ⟨info, hget, hindexer⟩ | ⟨_, hnone⟩
  · refine ⟨⟨info, hsome.2.2 ▸ hget⟩, hsome.2.2, ?_, hsome.1⟩
    unfold StepComputations.crossing
    rw [hc.toTarget, if_pos hsome.1, hindexer, hsome.2.2]
  · rw [hnone] at hsome
    cases hsome.2.1

theorem crossed_of_reached (ht : target.Spec ctx.zeroForOne ticks s.tick)
    (hc : ctx.Advances target s c) (hreached : c.next.sqrtPriceX96 = target.sqrtPriceX96)
    {info : TickInfoInner} (hget : ticks.snapshot.get? target.tickIndex = some info) :
    c.crossed = some target.tickIndex := by
  rw [crossed_eq_some, hc.toTarget]
  rcases ht.indexer with ⟨_, _, hindexer⟩ | ⟨hnone, _⟩
  · rw [hindexer]
    exact ⟨hreached, rfl, rfl⟩
  · rw [hget] at hnone
    cases hnone

theorem Ready.passes_down (h : ctx.Ready s) (hrun : ¬ ctx.Halted s)
    (hk : ticks.Keyed) (hz : ctx.zeroForOne = true)
    (ht : target.Spec ctx.zeroForOne ticks s.tick) (hc : ctx.Advances target s c) :
    Passes ctx.zeroForOne ticks.snapshot c.crossed s.tick c.next.tick := by
  have hmove := h.moves_down hrun hz ht hc
  have hdown := ht.down hz
  have htick := hc.tick
  unfold tickAfter at htick
  simp only [hz, if_true] at htick
  constructor
  · intro k info hget hne
    have hst := hk.storable hget
    have hkb := hst.bounds
    have hklo := hst.lower
    by_cases hreached : c.next.sqrtPriceX96 = target.sqrtPriceX96
    · rw [if_pos hreached] at htick
      have hkt : k ≠ target.tickIndex := by
        rintro rfl
        exact hne (crossed_of_reached ht hc hreached hget)
      constructor
      · intro hle
        omega
      · intro hle
        have := hdown.2 k info hget hle
        omega
    · rw [if_neg hreached] at htick
      by_cases hmoved : c.next.sqrtPriceX96 = s.sqrtPriceX96
      · rw [if_neg (not_not.mpr hmoved)] at htick
        rw [htick]
      · rw [if_pos hmoved] at htick
        have hvalid := h.next_price hrun ht hc
        have hfloor := getTickAtSqrtPrice_spec hvalid
        rw [← htick] at hfloor
        constructor
        · -- The price fell below the price of every tick above the current one.
          intro hle
          by_contra hgt
          have hmax : s.tick < maxTick := by
            have := hfloor.1.2
            omega
          have hceil := h.inTick.le_price hkb.2 (not_le.mp hgt) hmax
          have hprice := (h.next_inTick hrun ht hc).price_le hvalid hklo hle
          omega
        · -- The price stayed above the price of the target.
          intro hle
          have hkt := hdown.2 k info hget hle
          have hbelow : getSqrtPriceAtTick target.tickIndex ≤ c.next.sqrtPriceX96 :=
            ht.price ▸ hmove.2.1
          exact hkt.trans (hfloor.2.2 _ ht.inRange hbelow)
  · intro k hcross
    have hspec := crossed_spec ht hc hcross
    refine ⟨hspec.1, ?_⟩
    rw [hz, if_pos rfl]
    rw [if_pos hspec.2.2.2] at htick
    omega

theorem Ready.passes_up (h : ctx.Ready s) (hrun : ¬ ctx.Halted s)
    (hk : ticks.Keyed) (hz : ctx.zeroForOne = false)
    (ht : target.Spec ctx.zeroForOne ticks s.tick) (hc : ctx.Advances target s c) :
    Passes ctx.zeroForOne ticks.snapshot c.crossed s.tick c.next.tick := by
  have hmove := h.moves_up hrun hz ht hc
  have hup := ht.up hz
  have htick := hc.tick
  unfold tickAfter at htick
  simp only [hz, Bool.false_eq_true, if_false] at htick
  constructor
  · intro k info hget hne
    have hst := hk.storable hget
    have hklo := hst.lower
    by_cases hreached : c.next.sqrtPriceX96 = target.sqrtPriceX96
    · rw [if_pos hreached] at htick
      have hkt : k ≠ target.tickIndex := by
        rintro rfl
        exact hne (crossed_of_reached ht hc hreached hget)
      constructor
      · intro hle
        by_contra hgt
        have := hup.2 k info hget (not_le.mp hgt)
        omega
      · intro hle
        omega
    · rw [if_neg hreached] at htick
      by_cases hmoved : c.next.sqrtPriceX96 = s.sqrtPriceX96
      · rw [if_neg (not_not.mpr hmoved)] at htick
        rw [htick]
      · rw [if_pos hmoved] at htick
        have hvalid := h.next_price hrun ht hc
        have hfloor := getTickAtSqrtPrice_spec hvalid
        rw [← htick] at hfloor
        constructor
        · -- The price stayed below the price of the target.
          intro hle
          by_contra hgt
          have hkt := hup.2 k info hget (not_le.mp hgt)
          have hprice := (h.next_inTick hrun ht hc).price_le hvalid hst.lower hle
          have htlo := ht.inRange.1
          unfold minTick at htlo
          have htk := price_le (t := target.tickIndex) (u := k) (by omega) hkt hst.bounds.2
          rw [← ht.price] at htk
          omega
        · -- The price rose, so it is still above the price of the current tick.
          intro hle
          by_cases hmin : minTick ≤ s.tick
          · have hfl := (h.inTick.floor hmin).trans hmove.2.1
            exact hle.trans (hfloor.2.2 _ ⟨hmin, h.inTick.upper⟩ hfl)
          · have := hfloor.1.1
            omega
  · intro k hcross
    have hspec := crossed_spec ht hc hcross
    refine ⟨hspec.1, ?_⟩
    rw [hz, if_neg (by decide)]
    rw [if_pos hspec.2.2.2] at htick
    omega

theorem Ready.passes (h : ctx.Ready s) (hrun : ¬ ctx.Halted s) (hk : ticks.Keyed)
    (ht : target.Spec ctx.zeroForOne ticks s.tick) (hc : ctx.Advances target s c) :
    Passes ctx.zeroForOne ticks.snapshot c.crossed s.tick c.next.tick := by
  cases hz : ctx.zeroForOne with
  | false =>
      rw [← hz]
      exact h.passes_up hrun hk hz ht hc
  | true =>
      rw [← hz]
      exact h.passes_down hrun hk hz ht hc

end Step

end SwapContext

end RmUniswap
