import RmUniswap.Math.SwapBound
import RmUniswap.Pool.CourseRun
import RmUniswap.Pool.QuoteMonotone
import RmUniswap.Pool.Underflow

/-!
# Payments that succeed

A payment can fail to pay the protocol share, its growth may not fit, and its amounts
may not fit their words. A leg that is paid for in full is too short for the last.
-/

namespace RmUniswap

open Foundation

variable {A : Type} [LawfulAllocator TickSlabValue A]

/-!
# The fee of a payment
-/

section Fees

variable {fee : Fee} {pips total growth : Nat} {x : Payment} {fees : Nat × Nat}

theorem protocolDelta_share {delta : Nat} (hpips : pips ≠ 0)
    (h : protocolDelta fee pips x.step = .ok delta) :
    delta = x.share fee pips ∧ (fee.pips ≠ pips -> x.gross * pips < 2 ^ 256) := by
  unfold protocolDelta at h
  unfold Payment.share
  rw [if_neg hpips]
  split at h
  · rename_i hsame
    cases h
    rw [if_pos hsame]
    exact ⟨rfl, fun hother => absurd hsame hother⟩
  · rename_i hother
    rcases bind_eq_ok.mp h with ⟨gross, hgross, h⟩
    rcases bind_eq_ok.mp h with ⟨scaled, hscaled, h⟩
    cases h
    have hmul := checkedMul_eq_some.mp (okOr_eq_ok.mp hscaled)
    rw [(checkedAdd_eq_some.mp (okOr_eq_ok.mp hgross)).1] at hmul
    rw [if_neg hother, hmul.1]
    exact ⟨rfl, fun _ => hmul.2⟩

theorem splitFee_share (h : splitFee fee pips total x.step = .ok fees) :
    x.share fee pips ≤ x.step.feeAmount ∧ fees.1 = x.step.feeAmount - x.share fee pips := by
  unfold splitFee at h
  split at h
  · rename_i hpips
    rcases bind_eq_ok.mp h with ⟨delta, hdelta, h⟩
    rcases bind_eq_ok.mp h with ⟨rest, hrest, h⟩
    rcases bind_eq_ok.mp h with ⟨sum, _, h⟩
    cases h
    have hsub := checkedSub_eq_some.mp (okOr_eq_ok.mp hrest)
    rw [(protocolDelta_share hpips hdelta).1] at hsub
    dsimp only
    omega
  · rename_i hpips
    cases h
    have hnone : x.share fee pips = 0 := if_pos (not_not.mp hpips)
    rw [hnone]
    exact ⟨Nat.zero_le _, rfl⟩

theorem protocolDelta_total (hpips : pips ≠ 0) (hscaled : x.gross * pips < 2 ^ 256) :
    protocolDelta fee pips x.step = .ok (x.share fee pips) := by
  have hgross : x.gross < 2 ^ 256 :=
    (Nat.le_mul_of_pos_right _ (Nat.pos_of_ne_zero hpips)).trans_lt hscaled
  unfold Payment.gross at hscaled hgross
  unfold protocolDelta Payment.share Payment.gross
  rw [if_neg hpips]
  split
  · rfl
  · rw [checkedAdd_eq_some.mpr ⟨rfl, hgross⟩, okOr_some, ok_bind,
      checkedMul_eq_some.mpr ⟨rfl, hscaled⟩, okOr_some, ok_bind]

theorem splitFee_total (hscaled : x.gross * pips < 2 ^ 256)
    (hshare : x.share fee pips ≤ x.step.feeAmount)
    (htotal : total + x.step.feeAmount < 2 ^ 256) :
    exists sum, splitFee fee pips total x.step =
      .ok (x.step.feeAmount - x.share fee pips, sum) := by
  unfold splitFee
  by_cases hpips : pips = 0
  · have hnone : x.share fee pips = 0 := if_pos hpips
    rw [if_neg (not_not.mpr hpips), hnone]
    exact ⟨_, rfl⟩
  · rw [if_pos hpips, protocolDelta_total hpips hscaled, ok_bind,
      checkedSub_eq_some.mpr (Nat.sub_add_cancel hshare), okOr_some, ok_bind,
      checkedAdd_eq_some.mpr ⟨rfl, by omega⟩, okOr_some, ok_bind]
    exact ⟨_, rfl⟩

theorem growFee_lt {feeAmount liquidity growth' : Nat} (hl : 0 < liquidity)
    (h : growFee growth feeAmount liquidity = .ok growth') : growth' < 2 ^ 256 := by
  unfold growFee at h
  rw [if_pos hl] at h
  split at h
  · have hadd := checkedAdd_eq_some.mp (okOr_eq_ok.mp h)
    rw [hadd.1]
    exact hadd.2
  · cases h

theorem growFee_total {feeAmount liquidity : Nat} (hl : 0 < liquidity) (hlt : liquidity < 2 ^ 128)
    (hfits : growth + feeAmount * 2 ^ 128 / liquidity < 2 ^ 256) :
    growFee growth feeAmount liquidity = .ok (growth + feeAmount * 2 ^ 128 / liquidity) := by
  have hmul : mulDiv feeAmount (2 ^ 128) liquidity = .ok (feeAmount * 2 ^ 128 / liquidity) :=
    (mulDiv_eq_ok hl (hlt.trans (by norm_num))).mpr ⟨rfl, by omega⟩
  unfold growFee
  rw [if_pos hl, hmul]
  dsimp only
  rw [checkedAdd_eq_some.mpr ⟨rfl, hfits⟩, okOr_some]

end Fees

/-!
# Amounts
-/

section Amounts

variable {amountSpecified remaining calculated : Int} {x : Payment}

theorem u256ToI256_total {value : Nat} (h : value < 2 ^ 255) : u256ToI256 value = .ok value :=
  if_pos h

theorem settleAmounts_total_out (hout : 0 < amountSpecified) (hgross : x.gross < 2 ^ 255)
    (hamount : x.step.amountOut < 2 ^ 255)
    (hremaining : FitsSigned 256 (remaining - x.step.amountOut))
    (hcalculated : FitsSigned 256 (calculated - x.gross)) :
    exists amounts, settleAmounts amountSpecified remaining calculated x.step = .ok amounts := by
  unfold Payment.gross at hgross hcalculated
  unfold settleAmounts
  rw [if_pos hout, u256ToI256_total hamount, ok_bind,
    checkedSigned_eq_some.mpr ⟨rfl, hremaining⟩, okOr_some, ok_bind,
    checkedAdd_eq_some.mpr ⟨rfl, hgross.trans (by norm_num)⟩, okOr_some, ok_bind,
    u256ToI256_total hgross, ok_bind, checkedSigned_eq_some.mpr ⟨rfl, hcalculated⟩, okOr_some,
    ok_bind]
  exact ⟨_, rfl⟩

theorem settleAmounts_total_in (hin : ¬ 0 < amountSpecified) (hgross : x.gross < 2 ^ 255)
    (hamount : x.step.amountOut < 2 ^ 255)
    (hremaining : FitsSigned 256 (remaining + x.gross))
    (hcalculated : FitsSigned 256 (calculated + x.step.amountOut)) :
    exists amounts, settleAmounts amountSpecified remaining calculated x.step = .ok amounts := by
  unfold Payment.gross at hgross hremaining
  unfold settleAmounts
  rw [if_neg hin, checkedAdd_eq_some.mpr ⟨rfl, hgross.trans (by norm_num)⟩, okOr_some, ok_bind,
    u256ToI256_total hgross, ok_bind, checkedSigned_eq_some.mpr ⟨rfl, hremaining⟩, okOr_some,
    ok_bind, u256ToI256_total hamount, ok_bind, checkedSigned_eq_some.mpr ⟨rfl, hcalculated⟩,
    okOr_some, ok_bind]
  exact ⟨_, rfl⟩

end Amounts

def StepComputations.reached (c : StepComputations) : List (Int × Nat) :=
  (c.crossed.map fun k => (k, c.next.feeGrowthGlobalX128)).toList

namespace SwapContext

section Advance

variable {ctx : SwapContext} {a b : SwapLoopState × TickSlab A} {c : StepComputations}
  {s : SwapLoopState} {target : StepTarget}

theorem advance_earns (hl : 0 < s.liquidity) (hlt : s.liquidity < 2 ^ 128)
    (h : ctx.advance target s = .ok c) :
    (ctx.paymentOf c).share ctx.fee ctx.protocolFeePips ≤ c.swapStep.feeAmount ∧
      c.next.feeGrowthGlobalX128 = s.feeGrowthGlobalX128 +
        (ctx.paymentOf c).growth ctx.fee ctx.protocolFeePips ∧
      c.next.feeGrowthGlobalX128 < 2 ^ 256 := by
  unfold advance at h
  rcases bind_eq_ok.mp h with ⟨step, _, h⟩
  rcases bind_eq_ok.mp h with ⟨amounts, _, h⟩
  rcases bind_eq_ok.mp h with ⟨fees, hfees, h⟩
  rcases bind_eq_ok.mp h with ⟨growth, hgrowth, h⟩
  cases h
  have hshare := @splitFee_share _ _ _
    { leg := ctx.stretch target s.sqrtPriceX96 s.liquidity, step } _ hfees
  have hgrow := growFee_eq_ok hl hlt hgrowth
  rw [hshare.2] at hgrow
  exact ⟨hshare.1, hgrow, growFee_lt hl hgrowth⟩

theorem advance_isMax (h : ctx.Live a) (hrun : ¬ ctx.Halted a.1)
    (hc : ctx.advance target a.1 = .ok c) (hout : 0 < ctx.amountSpecified) :
    ctx.fee.isMax = false := by
  by_contra hmax
  have hpos := (h.remaining_sign hrun).2.mpr hout
  have hneg : ¬ a.1.amountSpecifiedRemaining < 0 := not_lt.mpr (le_of_lt hpos)
  have hfull : ctx.fee.isMax = true := by simpa using hmax
  have hstep := (advance_eq_ok hc).swapStep
  unfold computeSwapStep at hstep
  rw [if_neg (ne_of_gt hpos)] at hstep
  dsimp only at hstep
  rw [hfull, decide_eq_false hneg, if_pos (by rfl)] at hstep
  cases hstep

structure Affordable (ctx : SwapContext) (a : SwapLoopState × TickSlab A) : Prop where
  mode : 0 < ctx.amountSpecified -> ctx.fee.isMax = false
  gross : (ctx.nextPayment a).gross < 2 ^ 255
  charged : 0 ≤ ctx.charged a.1 ∧ ctx.charged a.1 + (ctx.nextPayment a).gross ≤ 2 ^ 255
  paid : 0 ≤ ctx.paid a.1 ∧ ctx.paid a.1 + (ctx.nextPayment a).step.amountOut < 2 ^ 255
  protocol : (a.1.amountToProtocol : Int) ≤ ctx.charged a.1
  scaled : (ctx.nextPayment a).gross * ctx.protocolFeePips < 2 ^ 256
  share : (ctx.nextPayment a).share ctx.fee ctx.protocolFeePips ≤
    (ctx.nextPayment a).step.feeAmount
  growth : a.1.feeGrowthGlobalX128 +
    (ctx.nextPayment a).growth ctx.fee ctx.protocolFeePips < 2 ^ 256

theorem nextPayment_computes (h : ctx.Live a) (hrun : ¬ ctx.Halted a.1)
    (hmode : 0 < ctx.amountSpecified -> ctx.fee.isMax = false) :
    computeSwapStep a.1.sqrtPriceX96 (ctx.clampedTarget (ctx.stepTarget a.2 a.1.tick))
      a.1.liquidity a.1.amountSpecifiedRemaining ctx.fee = .ok (ctx.nextPayment a).step := by
  have hready := h.invariant.ready
  have hclamp := hready.clampedTarget hrun (h.invariant.target_spec hrun)
  have hpositive : 0 < a.1.liquidity := Nat.pos_of_ne_zero fun hz => hrun (Or.inr hz)
  have hne : a.1.amountSpecifiedRemaining ≠ 0 := fun hz => hrun (Or.inl (Or.inl hz))
  have hsign := h.remaining_sign hrun
  rcases computeSwapStep_total hready.price hclamp.1 hpositive hready.liquidity hready.fee
    (fun hpos => hmode (hsign.2.mp hpos)) hready.remaining with ⟨step, hstep⟩
  rw [hstep, computeSwapStep_eq hready.price hclamp.1 hpositive hready.liquidity hready.fee hne
    hready.remaining hstep]
  rfl

theorem advance_total (h : ctx.Live a) (hrun : ¬ ctx.Halted a.1) (hfits : ctx.Affordable a) :
    exists c, ctx.advance (ctx.stepTarget a.2 a.1.tick) a.1 = .ok c := by
  have hready := h.invariant.ready
  have hpositive : 0 < a.1.liquidity := Nat.pos_of_ne_zero fun hz => hrun (Or.inr hz)
  have hstep := nextPayment_computes h hrun hfits.mode
  have hcharged := hfits.charged
  have hpaid := hfits.paid
  have hgross := hfits.gross
  have hsettle : exists amounts, settleAmounts ctx.amountSpecified a.1.amountSpecifiedRemaining
      a.1.amountCalculated (ctx.nextPayment a).step = .ok amounts := by
    have hremaining := hready.remaining
    have hamount := h.amount
    unfold SwapContext.charged at hcharged
    unfold SwapContext.paid at hpaid
    unfold FitsSigned at hremaining
    by_cases hout : 0 < ctx.amountSpecified
    · rw [if_pos hout] at hcharged hpaid
      apply settleAmounts_total_out hout hgross (by omega)
      · unfold FitsSigned
        omega
      · unfold FitsSigned
        omega
    · rw [if_neg hout] at hcharged hpaid
      apply settleAmounts_total_in hout hgross (by omega)
      · unfold FitsSigned
        omega
      · unfold FitsSigned
        omega
  have hfee : (ctx.nextPayment a).step.feeAmount ≤ (ctx.nextPayment a).gross :=
    Nat.le_add_left _ _
  have hprotocol := hfits.protocol
  rcases hsettle with ⟨amounts, hamounts⟩
  rcases splitFee_total hfits.scaled hfits.share
    (show a.1.amountToProtocol + (ctx.nextPayment a).step.feeAmount < 2 ^ 256 by omega) with
      ⟨sum, hsplit⟩
  have hgrow := growFee_total hpositive hready.liquidity hfits.growth
  change computeSwapStep a.1.sqrtPriceX96 (getSqrtPriceTarget ctx.zeroForOne
    (ctx.stepTarget a.2 a.1.tick).sqrtPriceX96 ctx.sqrtPriceLimitX96) a.1.liquidity
      a.1.amountSpecifiedRemaining ctx.fee = .ok (ctx.nextPayment a).step at hstep
  unfold advance
  dsimp only
  rw [hstep, ok_bind, hamounts, ok_bind, hsplit, ok_bind, hgrow, ok_bind]
  exact ⟨_, rfl⟩

end Advance

/-!
# Payments that reach the end of their leg
-/

structure Metered (ctx : SwapContext) (n : Nat) (a : SwapLoopState × TickSlab A) : Prop where
  live : ctx.Live a
  amount : FitsSigned 256 ctx.amountSpecified
  protocol : (a.1.amountToProtocol : Int) ≤ ctx.charged a.1
  paid : 0 ≤ ctx.paid a.1 ∧ ctx.paid a.1 ≤ n * 2 ^ 192
  charged : 0 < ctx.amountSpecified -> ctx.charged a.1 ≤ n * 2 ^ 213

section Metered

variable {ctx : SwapContext} {a b : SwapLoopState × TickSlab A} {c : StepComputations}
  {cs : List StepComputations} {n : Nat}

theorem Live.nextPayment_reached (h : ctx.Live a) (hrun : ¬ ctx.Halted a.1)
    (hreached : (ctx.nextPayment a).step.sqrtRatioNextX96 = (ctx.nextPayment a).leg.stop) :
    (ctx.nextPayment a).gross < 2 ^ 213 ∧ (ctx.nextPayment a).step.amountOut ≤ 2 ^ 192 := by
  have hready := h.invariant.ready
  have hclamp := hready.clampedTarget hrun (h.invariant.target_spec hrun)
  have hpositive : 0 < a.1.liquidity := Nat.pos_of_ne_zero fun hz => hrun (Or.inr hz)
  exact plainStep_reached hready.price hclamp.1 hpositive hready.liquidity hready.fee hreached

theorem Iterates.metered (h : ctx.Metered n a) (hi : ctx.Iterates a c b)
    (hgo : b.1.amountSpecifiedRemaining ≠ 0) : ctx.Metered (n + 1) b := by
  have hinvariant := h.live.invariant
  have hcharged := hi.charged hinvariant
  have hpaid := hi.paid hinvariant
  have hprotocol := hi.amountToProtocol hinvariant
  have hnext := advance_nextPayment hinvariant hi.running hi.computes
  have hbounds := h.live.nextPayment_reached hi.running (by
    rw [hnext]
    show c.swapStep.sqrtRatioNextX96 = ctx.clampedTarget c.target
    rw [← hi.advances.price, hi.reaches_clamped h.live hgo, hi.advances.toTarget])
  rw [hnext] at hbounds
  unfold Payment.gross paymentOf at hbounds
  dsimp only at hbounds
  have hp := h.protocol
  have hpd := h.paid
  refine ⟨hi.live h.live, h.amount, by omega, ⟨by omega, ?_⟩, fun hout => ?_⟩
  · push_cast
    omega
  · have hch := h.charged hout
    push_cast at hcharged ⊢
    omega

theorem run_metered (h : Run ctx.Iterates a cs b) (ha : ctx.Metered n a)
    (hrun : ¬ ctx.Halted b.1) : ctx.Metered (n + cs.length) b := by
  induction h generalizing n with
  | nil a =>
      exact ha
  | @cons a mid b c cs hone hrest ih =>
      have hgo : ¬ ctx.Halted mid.1 := by
        cases hrest with
        | nil _ => exact hrun
        | cons hnext _ => exact hnext.running
      have hmid := hone.metered ha fun hz => hgo (Or.inl (Or.inl hz))
      rw [List.length_cons, Nat.add_comm cs.length, ← Nat.add_assoc]
      exact ih hmid hrun

theorem Metered.affordable (h : ctx.Metered n a) (hn : n ≤ maxLegs) (hrun : ¬ ctx.Halted a.1)
    (hmode : 0 < ctx.amountSpecified -> ctx.fee.isMax = false)
    (hpips : ctx.protocolFeePips ≤ maxProtocolFee)
    (hreached : (ctx.nextPayment a).step.sqrtRatioNextX96 = (ctx.nextPayment a).leg.stop)
    (hshare : (ctx.nextPayment a).share ctx.fee ctx.protocolFeePips ≤
      (ctx.nextPayment a).step.feeAmount)
    (hgrowth : a.1.feeGrowthGlobalX128 +
      (ctx.nextPayment a).growth ctx.fee ctx.protocolFeePips < 2 ^ 256) : ctx.Affordable a := by
  have hready := h.live.invariant.ready
  have hbounds := h.live.nextPayment_reached hrun hreached
  have hprotocol := h.protocol
  have hpaid := h.paid
  unfold maxLegs at hn
  have hcharged : ctx.charged a.1 + (ctx.nextPayment a).gross ≤ 2 ^ 255 := by
    by_cases hout : 0 < ctx.amountSpecified
    · have hch := h.charged hout
      omega
    · have hclamp := hready.clampedTarget hrun (h.live.invariant.target_spec hrun)
      have hpositive : 0 < a.1.liquidity := Nat.pos_of_ne_zero fun hz => hrun (Or.inr hz)
      have hne : a.1.amountSpecifiedRemaining ≠ 0 := fun hz => hrun (Or.inl (Or.inl hz))
      have hfills := (computeSwapStep_sound hready.price hclamp.1 hpositive hready.liquidity
        hready.fee hne hready.remaining (nextPayment_computes h.live hrun hmode)).2
      have hsign := h.live.remaining_sign hrun
      have hused := (hfills.input (by omega)).1
      change (ctx.nextPayment a).gross ≤ _ at hused
      have hamount := h.amount.1
      unfold SwapContext.charged
      rw [if_neg hout]
      omega
  exact
    { mode := hmode
      gross := hbounds.1.trans (by norm_num)
      charged := ⟨by omega, hcharged⟩
      paid := ⟨hpaid.1, by omega⟩
      protocol := hprotocol
      scaled := by
        have hle := Nat.mul_le_mul (le_of_lt hbounds.1) hpips
        exact hle.trans_lt (by decide)
      share := hshare
      growth := hgrowth }

end Metered

/-!
# Crossings
-/

def crossingsFrom (ctx : SwapContext) (fuel : Nat) (a : SwapLoopState × TickSlab A) :
    List (Int × Nat) :=
  crossings ctx.fee ctx.protocolFeePips a.1.feeGrowthGlobalX128 (ctx.pays fuel a)

section Crossings

variable {ctx : SwapContext} {a b : SwapLoopState × TickSlab A} {c : StepComputations}
  {cs : List StepComputations} {e : Error} {ticks : TickSlab A} {n fuel : Nat}

theorem crossings_paymentOf (h : ctx.Live a) (hrun : ¬ ctx.Halted a.1)
    (hc : ctx.advance (ctx.stepTarget a.2 a.1.tick) a.1 = .ok c) (xs : List Payment) :
    crossings ctx.fee ctx.protocolFeePips a.1.feeGrowthGlobalX128 (ctx.paymentOf c :: xs) =
      c.reached ++ crossings ctx.fee ctx.protocolFeePips c.next.feeGrowthGlobalX128 xs := by
  have hpositive : 0 < a.1.liquidity := Nat.pos_of_ne_zero fun hz => hrun (Or.inr hz)
  rcases advance_earns hpositive h.invariant.ready.liquidity hc with ⟨hshare, hgrowth, hlt⟩
  rw [hgrowth] at hlt
  rw [crossings_pays hshare hlt, paymentOf_crossed h.invariant hrun (advance_eq_ok hc), ← hgrowth]
  rfl

theorem Iterates.crossingsFrom (h : ctx.Live a) (hi : ctx.Iterates a c b) (fuel : Nat) :
    ctx.crossingsFrom (fuel + 1) a = c.reached ++ ctx.crossingsFrom fuel b := by
  have hgrowth : b.1.feeGrowthGlobalX128 = c.next.feeGrowthGlobalX128 := by
    rw [hi.next h.invariant]
  unfold SwapContext.crossingsFrom
  rw [hi.pays h, crossings_paymentOf h hi.running hi.computes, hgrowth]

theorem run_crossings (h : Run ctx.Iterates a cs b) (ha : ctx.Live a) (fuel : Nat) :
    ctx.crossingsFrom (cs.length + fuel) a =
      cs.flatMap StepComputations.reached ++ ctx.crossingsFrom fuel b := by
  induction h with
  | nil a =>
      rw [List.length_nil, Nat.zero_add, List.flatMap_nil, List.nil_append]
  | @cons a mid b c cs hone _ ih =>
      rw [List.length_cons, Nat.add_right_comm, hone.crossingsFrom ha, ih (hone.live ha),
        List.flatMap_cons, List.append_assoc]

theorem crossingsFrom_halted (h : ctx.Halted a.1) (fuel : Nat) : ctx.crossingsFrom fuel a = [] := by
  unfold crossingsFrom
  rw [pays_halted h, crossings_nil]

theorem nextPayment_short (h : ctx.Live a) (hrun : ¬ ctx.Halted a.1)
    (hmode : 0 < ctx.amountSpecified -> ctx.fee.isMax = false)
    (hshort : (ctx.nextPayment a).step.sqrtRatioNextX96 ≠ (ctx.nextPayment a).leg.stop)
    (fuel : Nat) : ctx.pays (fuel + 1) a = [ctx.nextPayment a] := by
  have hready := h.invariant.ready
  have hclamp := hready.clampedTarget hrun (h.invariant.target_spec hrun)
  have hpositive : 0 < a.1.liquidity := Nat.pos_of_ne_zero fun hz => hrun (Or.inr hz)
  have hne : a.1.amountSpecifiedRemaining ≠ 0 := fun hz => hrun (Or.inl (Or.inl hz))
  have hfills := (computeSwapStep_sound hready.price hclamp.1 hpositive hready.liquidity
    hready.fee hne hready.remaining (nextPayment_computes h hrun hmode)).2
  have hrest : (if a.1.amountSpecifiedRemaining < 0 then
      a.1.amountSpecifiedRemaining + (ctx.nextPayment a).gross
    else
      a.1.amountSpecifiedRemaining - (ctx.nextPayment a).step.amountOut) = 0 := by
    split
    · rename_i hneg
      have hused := (hfills.input hneg).2.resolve_left hshort
      change (ctx.nextPayment a).gross = _ at hused
      omega
    · have hused := (hfills.output (by omega)).2.resolve_left hshort
      omega
  rw [pays_running h.invariant hrun, hrest, payments_zero]

theorem Metered.crossings_rejected (h : ctx.Metered n a) (hn : n ≤ maxLegs)
    (hrun : ¬ ctx.Halted a.1) (hmode : 0 < ctx.amountSpecified -> ctx.fee.isMax = false)
    (hpips : ctx.protocolFeePips ≤ maxProtocolFee)
    (he : ctx.advance (ctx.stepTarget a.2 a.1.tick) a.1 = .error e) :
    ctx.crossingsFrom (fuel + 1) a = [] := by
  have hpays := pays_running h.live.invariant hrun fuel
  unfold crossingsFrom
  by_cases hfees : (ctx.nextPayment a).share ctx.fee ctx.protocolFeePips ≤
      (ctx.nextPayment a).step.feeAmount ∧ a.1.feeGrowthGlobalX128 +
        (ctx.nextPayment a).growth ctx.fee ctx.protocolFeePips < 2 ^ 256
  · by_cases hreached : (ctx.nextPayment a).step.sqrtRatioNextX96 = (ctx.nextPayment a).leg.stop
    · rcases advance_total h.live hrun
        (h.affordable hn hrun hmode hpips hreached hfees.1 hfees.2) with ⟨c, hc⟩
      rw [he] at hc
      cases hc
    · have hnone : (ctx.nextPayment a).crossed = none := if_neg hreached
      rw [nextPayment_short h.live hrun hmode hreached, crossings_pays hfees.1 hfees.2, hnone,
        crossings_nil]
      rfl
  · rw [hpays, crossings_fails hfees]

theorem crossings_underflow (h : ctx.Live a) (hrun : ¬ ctx.Halted a.1)
    (hc : ctx.advance (ctx.stepTarget a.2 a.1.tick) a.1 = .ok c)
    (hstep : ctx.step a.1 a.2 = (.error e, ticks)) :
    ctx.crossingsFrom (fuel + 1) a = c.reached := by
  unfold crossingsFrom
  rw [pays_underflow h hrun hc hstep, crossings_paymentOf h hrun hc, crossings_nil,
    List.append_nil]

theorem Ends.crossingsFrom {last : List StepComputations}
    {r : Except Error SwapLoopState × TickSlab A} (h : ctx.Ends a last r)
    (ha : ¬ ctx.Halted a.1 -> ctx.Metered n a) (hn : n ≤ maxLegs) (hlive : ctx.Live a)
    (hmode : 0 < ctx.amountSpecified -> ctx.fee.isMax = false)
    (hpips : ctx.protocolFeePips ≤ maxProtocolFee) :
    ctx.crossingsFrom (fuel + 1) a = last.flatMap StepComputations.reached := by
  cases h with
  | halted hhalt =>
      rw [crossingsFrom_halted hhalt, List.flatMap_nil]
  | rejected hrunning hadvance _ =>
      rw [(ha hrunning).crossings_rejected hn hrunning hmode hpips hadvance, List.flatMap_nil]
  | failed hrunning hadvance hstep =>
      rw [crossings_underflow hlive hrunning hadvance hstep, List.flatMap_cons, List.flatMap_nil,
        List.append_nil]

end Crossings

/-!
# The length of a run
-/

section Length

variable {ctx : SwapContext} {a b : SwapLoopState × TickSlab A} {cs : List StepComputations}

theorem stops_card_le (h : ctx.Live a) : (ctx.stops a).card ≤ 1774545 := by
  have hlower := h.invariant.ready.inTick.lower
  have hupper := h.invariant.ready.inTick.upper
  have hfloor := (getTickAtSqrtPrice_spec h.invariant.ready.limit).1
  have hway : ctx.way a.1.tick ⊆ Finset.Icc minTick maxTick := by
    intro k hk
    rw [Finset.mem_Icc]
    unfold way at hk
    split at hk
    · rw [Finset.mem_Icc] at hk
      exact ⟨hfloor.1.trans hk.1, hk.2.trans hupper⟩
    · rw [Finset.mem_Ioc] at hk
      exact ⟨by omega, hk.2.trans hfloor.2⟩
  have hstops : ctx.stops a ⊆ Finset.Icc minTick maxTick :=
    Finset.union_subset ((Finset.filter_subset _ _).trans hway)
      ((Finset.filter_subset _ _).trans hway)
  have hcard := Finset.card_le_card hstops
  rw [Int.card_Icc] at hcard
  exact hcard

theorem run_length_lt (h : Run ctx.Iterates a cs b) (ha : ctx.Live a) : cs.length < maxLegs := by
  have hbegun := begun_le h ha
  have hcard := stops_card_le ha
  unfold begun at hbegun
  unfold maxLegs
  omega

end Length

end SwapContext

/-!
# Swaps
-/

namespace Pool

theorem Accepted.protocolFee_isValid {P : Type} [PositionsAccess P] {p : Pool P A}
    (hp : p.Accepted) :
    p.swapFee.protocolFee.isValid = true := by
  rcases hp with ⟨s, _, h⟩
  have hrestored := fromSnapshot_eq_ok h
  rw [hrestored.protocolFee]
  exact hrestored.valid.protocolFee

section Swaps

variable {P : Type} {p : Pool P A} {params : SwapParamsInner} {ctx : SwapContext}
  {swapFee : SwapFee} {cs : List StepComputations} {b : SwapLoopState × TickSlab A}

theorem LoopRun.metered_start (h : LoopRun p params ctx cs b) (hp : p.Usable) :
    ctx.Metered 0 (p.swapStart params, p.ticks) := by
  have hspecified := h.amountSpecified
  have hcharged : ctx.charged (p.swapStart params) = 0 :=
    SwapContext.charged_start hspecified.symm rfl
  have hpaid : ctx.paid (p.swapStart params) = 0 := SwapContext.paid_start hspecified.symm rfl
  refine ⟨h.live hp, hspecified ▸ params.amountFits, ?_, ?_, fun _ => ?_⟩
  · rw [hcharged]
    exact le_refl _
  · rw [hpaid]
    exact ⟨le_refl _, by norm_num⟩
  · rw [hcharged]
    norm_num

theorem LoopRun.metered (h : LoopRun p params ctx cs b) (hp : p.Usable)
    (hrun : ¬ ctx.Halted b.1) : ctx.Metered cs.length b := by
  have hmetered := SwapContext.run_metered h.run (h.metered_start hp) hrun
  rwa [Nat.zero_add] at hmetered

theorem LoopRun.live_final (h : LoopRun p params ctx cs b) (hp : p.Usable) : ctx.Live b :=
  SwapContext.run_live h.run (h.live hp)

theorem LoopRun.payments (h : LoopRun p params ctx cs b)
    (hctx : ctx = p.swapContext .exclusive swapFee params)
    (hmode : 0 < ctx.amountSpecified -> ctx.fee.isMax = false) :
    p.payments swapFee params =
      ctx.pays SwapContext.maxLegs (p.swapStart params, p.ticks) := by
  subst hctx
  exact if_pos ⟨h.limit, hmode⟩

theorem LoopRun.payments_left (h : LoopRun p params ctx cs b) (hp : p.Usable)
    (hctx : ctx = p.swapContext .exclusive swapFee params)
    (hmode : 0 < ctx.amountSpecified -> ctx.fee.isMax = false) :
    exists fuel, cs.length + (fuel + 1) = SwapContext.maxLegs ∧
      p.payments swapFee params = cs.map ctx.paymentOf ++ ctx.pays (fuel + 1) b := by
  have hlength := SwapContext.run_length_lt h.run (h.live hp)
  rcases Nat.exists_eq_add_of_lt hlength with ⟨fuel, hfuel⟩
  rw [Nat.add_assoc] at hfuel
  refine ⟨fuel, hfuel.symm, ?_⟩
  rw [h.payments hctx hmode, hfuel, SwapContext.run_pays h.run (h.live hp)]

end Swaps

end Pool

end RmUniswap
