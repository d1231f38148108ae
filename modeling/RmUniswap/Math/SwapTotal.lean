import RmUniswap.Math.SwapStep

/-!
# Swap steps succeed

On protocol prices no width of the arithmetic of a step is exceeded: a partial
fill ends before its target, so its next price is again a protocol price.
-/

namespace RmUniswap

open Foundation

/-!
# Fees
-/

section Fees

variable {amount used : Nat} {fee : Fee}

theorem amountLessFeeExactIn_total (hfee : fee.isValid = true) (ha : amount < 2 ^ 256) :
    exists net, amountLessFeeExactIn amount fee = .ok net := by
  have hcomp := Fee.complement_eq hfee
  unfold amountLessFeeExactIn
  split
  · exact ⟨_, rfl⟩
  · split
    · exact ⟨_, rfl⟩
    · have hle : fee.complement ≤ maxFee := by
        rw [hcomp]
        exact Nat.sub_le _ _
      have hlt : fee.complement < 2 ^ 32 := hle.trans_lt (by decide)
      refine ⟨amount * fee.complement / maxFee,
        (mulDivU32Floor_eq_ok ha hlt (by decide) (by decide)).mpr ⟨rfl, ?_⟩⟩
      have hdiv : amount * fee.complement / maxFee ≤ amount := by
        apply Nat.div_le_of_le_mul
        rw [Nat.mul_comm maxFee]
        exact Nat.mul_le_mul_left _ hle
      omega

theorem feeOnExactInput_total (hfee : fee.isValid = true) (hused : used < 2 ^ 256)
    (hfits : fee.isMax = false -> divCeil (used * fee.pips) fee.complement < 2 ^ 256) :
    exists charged, feeOnExactInput used fee = .ok charged := by
  have hcomp := Fee.complement_eq hfee
  have hpips : fee.pips ≤ maxFee := by simpa [Fee.isValid] using hfee
  unfold feeOnExactInput
  split
  · exact ⟨_, rfl⟩
  · split
    · exact ⟨_, rfl⟩
    · rename_i hmax
      have hne : fee.pips ≠ maxFee := by simpa [Fee.isMax] using hmax
      have hpos : 0 < fee.complement := by omega
      have hlt : fee.complement < 2 ^ 32 := by
        rw [hcomp]
        exact Nat.lt_of_le_of_lt (Nat.sub_le _ _) (by decide)
      exact ⟨_, (mulDivU32Ceil_eq_ok hused fee.pips_lt hpos hlt).mpr
        ⟨rfl, hfits (by simpa using hmax)⟩⟩

theorem feeOnExactInput_affordable {net : Nat} (hfee : fee.isValid = true)
    (ha : amount < 2 ^ 256) (hle : net ≤ amount) (hnet : net * maxFee ≤ amount * fee.complement)
    (hused : used ≤ net) : exists charged, feeOnExactInput used fee = .ok charged := by
  have hcomp := Fee.complement_eq hfee
  have hpips : fee.pips ≤ maxFee := by simpa [Fee.isValid] using hfee
  refine feeOnExactInput_total hfee (by omega) fun hmax => ?_
  have hne : fee.pips ≠ maxFee := by simpa [Fee.isMax] using hmax
  have hpos : 0 < fee.complement := by omega
  have hbound : divCeil (used * fee.pips) fee.complement ≤ amount - used := by
    rw [divCeil_le_iff hpos, Nat.sub_mul]
    have hsplit : used * maxFee = used * fee.pips + used * fee.complement := by
      rw [← Nat.mul_add, hcomp]
      congr 1
      omega
    have : used * maxFee ≤ net * maxFee := Nat.mul_le_mul_right _ hused
    omega
  omega

theorem feeOnExactInput_small (hfee : fee.isValid = true) (hused : used ≤ 2 ^ 224) :
    exists charged, feeOnExactInput used fee = .ok charged := by
  have hcomp := Fee.complement_eq hfee
  have hpips : fee.pips ≤ maxFee := by simpa [Fee.isValid] using hfee
  refine feeOnExactInput_total hfee (hused.trans_lt (by norm_num)) fun hmax => ?_
  have hne : fee.pips ≠ maxFee := by simpa [Fee.isMax] using hmax
  have hpos : 0 < fee.complement := by omega
  have hbound : divCeil (used * fee.pips) fee.complement ≤ 2 ^ 224 * maxFee := by
    rw [divCeil_le_iff hpos]
    calc
      used * fee.pips ≤ 2 ^ 224 * maxFee := Nat.mul_le_mul hused hpips
      _ ≤ 2 ^ 224 * maxFee * fee.complement := Nat.le_mul_of_pos_right _ hpos
  exact hbound.trans_lt (by decide)

end Fees

/-!
# Next prices
-/

section NextPrices

variable {current target liquidity amount : Nat}

theorem valid_between {low high p : Nat} (hlow : IsValidSqrtPrice low)
    (hhigh : IsValidSqrtPrice high) (hle : low ≤ p) (hge : p ≤ high) : IsValidSqrtPrice p :=
  ⟨hlow.1.trans hle, hge.trans hhigh.2⟩

theorem amount0Add_total (hcurrent : IsValidSqrtPrice current) (htarget : IsValidSqrtPrice target)
    (hl0 : 0 < liquidity) (hl : liquidity < 2 ^ 128) (ha0 : 0 < amount) (ha : amount ≤ 2 ^ 224)
    (hshort : amount * (target * current) < liquidity * 2 ^ 96 * (current - target)) :
    exists q, getNextSqrtPriceFromAmount0AddRoundingUp current liquidity amount = .ok q := by
  have hn : 0 < liquidity * 2 ^ 96 := Nat.mul_pos hl0 (Nat.two_pow_pos 96)
  by_cases hsum : liquidity * 2 ^ 96 + amount * current < 2 ^ 256
  · have hmove := amount0_add_direct (t := target) (p := current) (a := amount) hn rfl
    have hvalid := valid_between htarget hcurrent (le_of_lt (hmove.2.2 hshort)) hmove.1
    exact ⟨_, (amount0Add_eq_ok hl hcurrent.lt_two_pow).mpr ⟨hvalid, by rw [if_pos hsum]⟩⟩
  · have hmove := amount0_add_fallback (t := target) (n := liquidity * 2 ^ 96) hcurrent.pos ha0 rfl
    have hbase : liquidity * 2 ^ 96 / current + amount < 2 ^ 256 := by
      have hq96lt : liquidity * 2 ^ 96 < 2 ^ 224 := mul_two_pow_lt hl (by norm_num)
      calc
        liquidity * 2 ^ 96 / current + amount ≤ liquidity * 2 ^ 96 + 2 ^ 224 :=
          Nat.add_le_add (Nat.div_le_self _ _) ha
        _ ≤ 2 ^ 224 + 2 ^ 224 := Nat.add_le_add_right (le_of_lt hq96lt) _
        _ < 2 ^ 256 := by norm_num
    have hvalid := valid_between htarget hcurrent (le_of_lt (hmove.2.2 hshort)) hmove.1
    exact ⟨_, (amount0Add_eq_ok hl hcurrent.lt_two_pow).mpr
      ⟨hvalid, by rw [if_neg hsum]; exact ⟨hbase, rfl⟩⟩⟩

theorem amount0Sub_total (hcurrent : IsValidSqrtPrice current) (htarget : IsValidSqrtPrice target)
    (hl0 : 0 < liquidity) (hl : liquidity < 2 ^ 128) (hlt : current < target)
    (hfree : amount * (current * target) ≤ liquidity * 2 ^ 96 * (target - current)) :
    exists q, getNextSqrtPriceFromAmount0SubRoundingUp current liquidity amount = .ok q := by
  have hn : 0 < liquidity * 2 ^ 96 := Nat.mul_pos hl0 (Nat.two_pow_pos 96)
  have hsmall : amount * current < liquidity * 2 ^ 96 := by
    have hless : liquidity * 2 ^ 96 * (target - current) < liquidity * 2 ^ 96 * target :=
      Nat.mul_lt_mul_of_pos_left (Nat.sub_lt htarget.pos hcurrent.pos) hn
    rw [← Nat.mul_assoc] at hfree
    exact Nat.lt_of_mul_lt_mul_right (hfree.trans_lt hless)
  have hmove := amount0_sub (t := target) hsmall rfl
  have hvalid := valid_between hcurrent htarget hmove.1 (hmove.2.2 hfree (le_of_lt hlt))
  exact ⟨_, (amount0Sub_eq_ok hl hcurrent.lt_two_pow).mpr ⟨hvalid, hsmall, rfl⟩⟩

theorem amount1Add_total (hcurrent : IsValidSqrtPrice current) (htarget : IsValidSqrtPrice target)
    (hl0 : 0 < liquidity) (ha : amount < 2 ^ 256)
    (hshort : amount * 2 ^ 96 < liquidity * (target - current)) :
    exists q, getNextSqrtPriceFromAmount1AddRoundingDown current liquidity amount = .ok q := by
  have hmove : amount * 2 ^ 96 / liquidity < target - current := by
    rw [Nat.div_lt_iff_lt_mul hl0, Nat.mul_comm (target - current)]
    exact hshort
  have hvalid : IsValidSqrtPrice (current + amount * 2 ^ 96 / liquidity) := by
    refine valid_between hcurrent htarget (Nat.le_add_right _ _) ?_
    generalize amount * 2 ^ 96 / liquidity = moved at hmove
    omega
  exact ⟨_, (amount1Add_eq_ok ha).mpr ⟨hvalid, rfl⟩⟩

theorem amount1Sub_total (hcurrent : IsValidSqrtPrice current) (htarget : IsValidSqrtPrice target)
    (hl0 : 0 < liquidity) (ha : amount < 2 ^ 256) (hle : target ≤ current)
    (hfree : amount * 2 ^ 96 ≤ liquidity * (current - target)) :
    exists q, getNextSqrtPriceFromAmount1SubRoundingDown current liquidity amount = .ok q := by
  have hmove : divCeil (amount * 2 ^ 96) liquidity ≤ current - target := by
    rw [divCeil_le_iff hl0, Nat.mul_comm (current - target)]
    exact hfree
  have hle' : divCeil (amount * 2 ^ 96) liquidity ≤ current := hmove.trans (Nat.sub_le _ _)
  have hvalid : IsValidSqrtPrice (current - divCeil (amount * 2 ^ 96) liquidity) := by
    refine valid_between htarget hcurrent ?_ (Nat.sub_le _ _)
    exact (Nat.le_sub_iff_add_le hle').mpr ((Nat.le_sub_iff_add_le' hle).mp hmove)
  exact ⟨_, (amount1Sub_eq_ok hcurrent.lt_two_pow ha).mpr
    ⟨hvalid, Nat.sub_add_cancel hle'⟩⟩

end NextPrices

/-!
# Steps
-/

section Steps

variable {current target liquidity amount : Nat} {fee : Fee} {s : SwapStep}

theorem amount0_le {a b : Nat} (hl : liquidity < 2 ^ 128) (ha : IsValidSqrtPrice a)
    (hb : IsValidSqrtPrice b) :
    divCeil (2 ^ 96 * (liquidity * (b - a))) (a * b) ≤ 2 ^ 224 := by
  rw [divCeil_le_iff (Nat.mul_pos ha.pos hb.pos)]
  calc
    2 ^ 96 * (liquidity * (b - a)) ≤ 2 ^ 96 * (2 ^ 128 * b) :=
      Nat.mul_le_mul_left _ (Nat.mul_le_mul (le_of_lt hl) (Nat.sub_le b a))
    _ = 2 ^ 224 * (1 * b) := by ring
    _ ≤ 2 ^ 224 * (a * b) :=
      Nat.mul_le_mul_left _ (Nat.mul_le_mul_right _ ha.pos)

theorem amount1_le {a b : Nat} (hl : liquidity < 2 ^ 128) (hb : IsValidSqrtPrice b) :
    divCeil (liquidity * (b - a)) (2 ^ 96) ≤ 2 ^ 224 := by
  rw [divCeil_le_iff (Nat.two_pow_pos 96)]
  calc
    liquidity * (b - a) ≤ 2 ^ 128 * 2 ^ 160 :=
      Nat.mul_le_mul (le_of_lt hl) ((Nat.sub_le b a).trans (le_of_lt hb.lt_two_pow))
    _ ≤ 2 ^ 224 * 2 ^ 96 := by norm_num

theorem computeExactIn_total (hcurrent : IsValidSqrtPrice current)
    (htarget : IsValidSqrtPrice target) (hl0 : 0 < liquidity) (hl : liquidity < 2 ^ 128)
    (hfee : fee.isValid = true) (ha : amount < 2 ^ 256) :
    exists s, computeExactIn current target liquidity amount fee (decide (current ≥ target)) =
      .ok s := by
  rcases amountLessFeeExactIn_total hfee ha with ⟨net, hnet⟩
  have hspec := amountLessFeeExactIn_spec hfee ha hnet
  unfold computeExactIn
  rw [hnet, ok_bind]
  split
  · exact ⟨_, rfl⟩
  · rename_i hnet0
    by_cases hdir : target ≤ current
    · rw [decide_eq_true hdir, if_pos rfl, getAmount0Delta_eq hl htarget hcurrent hdir,
        roundDiv_true, ok_bind]
      simp only [if_true, ok_bind, getAmount1DeltaWithLiquidityDelta_eq, roundDiv_false]
      split
      · rename_i hreach
        rcases feeOnExactInput_affordable hfee ha hspec.1 hspec.2 hreach with ⟨charged, hcharged⟩
        rw [hcharged]
        exact ⟨_, rfl⟩
      · rename_i hreach
        have hshort := not_le.mp hreach
        have hpos : 0 < target * current := Nat.mul_pos htarget.pos hcurrent.pos
        have hlt : net * (target * current) < liquidity * 2 ^ 96 * (current - target) := by
          have := (lt_divCeil_iff hpos).mp hshort
          rwa [← Nat.mul_assoc (2 ^ 96), Nat.mul_comm (2 ^ 96)] at this
        have hsmall := (le_of_lt hshort).trans (amount0_le hl htarget hcurrent)
        rcases amount0Add_total hcurrent htarget hl0 hl (Nat.pos_of_ne_zero hnet0) hsmall hlt with
          ⟨next, hnext⟩
        have hinput : getNextSqrtPriceFromInput current liquidity net true = .ok next := hnext
        rcases inputDown hcurrent htarget hl0 hl (Nat.pos_of_ne_zero hnet0) hshort hinput with
          ⟨hvalid, hle, hge, hin⟩
        rw [hinput, ok_bind, getAmount1Delta_eq hl hcurrent hge]
        exact ⟨_, rfl⟩
    · have hlt : current < target := not_le.mp hdir
      rw [decide_eq_false hdir, if_neg Bool.false_ne_true,
        getAmount1Delta_eq hl htarget (le_of_lt hlt), roundDiv_true, ok_bind]
      simp only [Bool.false_eq_true, if_false,
        getAmount0DeltaWithLiquidityDelta_eq hl hcurrent htarget, roundDiv_false, ok_bind]
      split
      · rename_i hreach
        rcases feeOnExactInput_affordable hfee ha hspec.1 hspec.2 hreach with ⟨charged, hcharged⟩
        rw [hcharged]
        exact ⟨_, rfl⟩
      · rename_i hreach
        have hshort := not_le.mp hreach
        have hnet256 : net < 2 ^ 256 := Nat.lt_of_le_of_lt hspec.1 ha
        rcases amount1Add_total hcurrent htarget hl0 hnet256
          ((lt_divCeil_iff (Nat.two_pow_pos 96)).mp hshort) with ⟨next, hnext⟩
        have hinput : getNextSqrtPriceFromInput current liquidity net false = .ok next := hnext
        rcases inputUp hl0 hnet256 hshort hinput with ⟨hvalid, hle, hge, hin⟩
        rw [hinput, ok_bind, getAmount0Delta_eq hl hcurrent hvalid hle]
        exact ⟨_, rfl⟩

theorem computeExactOut_total (hcurrent : IsValidSqrtPrice current)
    (htarget : IsValidSqrtPrice target) (hl0 : 0 < liquidity) (hl : liquidity < 2 ^ 128)
    (hfee : fee.isValid = true) (ha : amount < 2 ^ 256) :
    exists s, computeExactOut current target liquidity amount fee (decide (current ≥ target)) =
      .ok s := by
  unfold computeExactOut
  by_cases hdir : target ≤ current
  · rw [decide_eq_true hdir, if_pos rfl, getAmount1Delta_eq hl hcurrent hdir, roundDiv_false,
      ok_bind]
    simp only [if_true, getAmount0DeltaWithLiquidityDelta_eq hl htarget hcurrent, roundDiv_true,
      ok_bind]
    split
    · rcases feeOnExactInput_small hfee (amount0_le hl htarget hcurrent) with ⟨charged, hcharged⟩
      rw [hcharged]
      exact ⟨_, rfl⟩
    · rename_i hreach
      have hshort := not_le.mp hreach
      have hfree := (Nat.le_div_iff_mul_le (Nat.two_pow_pos 96)).mp (le_of_lt hshort)
      rcases amount1Sub_total hcurrent htarget hl0 ha hdir hfree with ⟨next, hnext⟩
      have houtput : getNextSqrtPriceFromOutput current liquidity amount true = .ok next := hnext
      rcases outputDown hcurrent hl0 ha hshort houtput with ⟨hvalid, hle, hge, hout⟩
      rcases feeOnExactInput_small hfee (amount0_le hl hvalid hcurrent) with ⟨charged, hcharged⟩
      rw [houtput, ok_bind, getAmount0Delta_eq hl hvalid hcurrent hge, roundDiv_true, ok_bind]
      dsimp only
      rw [hcharged]
      exact ⟨_, rfl⟩
  · have hlt : current < target := not_le.mp hdir
    rw [decide_eq_false hdir, if_neg Bool.false_ne_true,
      getAmount0Delta_eq hl hcurrent htarget (le_of_lt hlt), roundDiv_false, ok_bind]
    simp only [Bool.false_eq_true, if_false, ok_bind, getAmount1DeltaWithLiquidityDelta_eq,
      roundDiv_true]
    split
    · rcases feeOnExactInput_small hfee (amount1_le (a := current) hl htarget) with
        ⟨charged, hcharged⟩
      rw [hcharged]
      exact ⟨_, rfl⟩
    · rename_i hreach
      have hshort := not_le.mp hreach
      have hpos : 0 < current * target := Nat.mul_pos hcurrent.pos htarget.pos
      have hfree : amount * (current * target) ≤ liquidity * 2 ^ 96 * (target - current) := by
        have := (Nat.le_div_iff_mul_le hpos).mp (le_of_lt hshort)
        rwa [← Nat.mul_assoc (2 ^ 96), Nat.mul_comm (2 ^ 96)] at this
      rcases amount0Sub_total hcurrent htarget hl0 hl hlt hfree with ⟨next, hnext⟩
      have houtput : getNextSqrtPriceFromOutput current liquidity amount false = .ok next := hnext
      rcases outputUp hcurrent htarget hl hlt hshort houtput with ⟨hvalid, hle, hge, hout⟩
      rcases feeOnExactInput_small hfee (amount1_le (a := current) hl hvalid) with
        ⟨charged, hcharged⟩
      rw [houtput, ok_bind, getAmount1Delta_eq hl hvalid hle, roundDiv_true, ok_bind]
      dsimp only
      rw [hcharged]
      exact ⟨_, rfl⟩

theorem computeSwapStep_at_target {remaining : Int} (hl : liquidity < 2 ^ 128)
    (hcurrent : IsValidSqrtPrice current)
    (h : computeSwapStep current current liquidity remaining fee = .ok s) :
    s.amountIn = 0 ∧ s.amountOut = 0 ∧ s.feeAmount = 0 := by
  have hdir : decide (current ≥ current) = true := decide_eq_true (le_refl _)
  have hfee : feeOnExactInput 0 fee = .ok 0 := by
    unfold feeOnExactInput
    rw [if_pos (Or.inl rfl)]
  have hzero : getAmount0DeltaWithLiquidityDelta current current 0 true = .ok 0 := by
    have heq : getAmount0DeltaWithLiquidityDelta current current
        (liquidity * (current - current)) true = _ :=
      getAmount0DeltaWithLiquidityDelta_eq hl hcurrent hcurrent
    rw [Nat.sub_self, Nat.mul_zero, Nat.mul_zero, roundDiv_zero] at heq
    exact heq
  unfold computeSwapStep at h
  split at h
  · cases h
    exact ⟨rfl, rfl, rfl⟩
  · dsimp only at h
    split at h
    · cases h
    · split at h
      · unfold computeExactIn at h
        rcases bind_eq_ok.mp h with ⟨net, _, h⟩
        split at h
        · cases h
          exact ⟨rfl, rfl, if_pos rfl⟩
        · simp only [hdir, if_true, getAmount0Delta_eq hl hcurrent hcurrent (le_refl _),
            Nat.sub_self, Nat.mul_zero, roundDiv_zero, ok_bind, ge_iff_le, Nat.zero_le,
            getAmount1DeltaWithLiquidityDelta_eq, hfee] at h
          cases h
          exact ⟨rfl, rfl, rfl⟩
      · unfold computeExactOut at h
        simp only [hdir, if_true, getAmount1Delta_eq hl hcurrent (le_refl _), Nat.sub_self,
          Nat.mul_zero, roundDiv_zero, ok_bind, ge_iff_le, Nat.zero_le, hzero, hfee] at h
        cases h
        exact ⟨rfl, rfl, rfl⟩

theorem computeSwapStep_total {remaining : Int} (hcurrent : IsValidSqrtPrice current)
    (htarget : IsValidSqrtPrice target) (hl0 : 0 < liquidity) (hl : liquidity < 2 ^ 128)
    (hfee : fee.isValid = true) (hmax : 0 < remaining -> fee.isMax = false)
    (hfits : FitsSigned 256 remaining) :
    exists s, computeSwapStep current target liquidity remaining fee = .ok s := by
  have ha : remaining.natAbs < 2 ^ 256 := by
    have hlo := hfits.1
    have hhi := hfits.2
    norm_num at hlo hhi ⊢
    omega
  unfold computeSwapStep
  by_cases hzero : remaining = 0
  · rw [if_pos hzero]
    exact ⟨_, rfl⟩
  · rw [if_neg hzero]
    dsimp only
    by_cases hneg : remaining < 0
    · simp only [hneg, decide_true, Bool.not_true, Bool.false_and, Bool.false_eq_true, if_false,
        if_true]
      exact computeExactIn_total hcurrent htarget hl0 hl hfee ha
    · simp only [hneg, decide_false, Bool.not_false, Bool.true_and, Bool.false_eq_true, if_false,
        hmax (by omega)]
      exact computeExactOut_total hcurrent htarget hl0 hl hfee ha

/-- A step on protocol prices succeeds, stays between its prices, uses no more than
its amount, and rounds in favour of the pool in both directions. -/
theorem computeSwapStep_favours_pool {remaining : Int} (hcurrent : IsValidSqrtPrice current)
    (htarget : IsValidSqrtPrice target) (hl0 : 0 < liquidity) (hl : liquidity < 2 ^ 128)
    (hne : remaining ≠ 0) (hfits : FitsSigned 256 remaining) (hfee : fee.isValid = true)
    (hmax : 0 < remaining -> fee.isMax = false) :
    exists s, computeSwapStep current target liquidity remaining fee = .ok s ∧
      (min current target ≤ s.sqrtRatioNextX96 ∧ s.sqrtRatioNextX96 ≤ max current target) ∧
      (remaining < 0 -> s.amountIn + s.feeAmount ≤ remaining.natAbs ∧
        (s.sqrtRatioNextX96 ≠ target -> s.amountIn + s.feeAmount = remaining.natAbs)) ∧
      (0 < remaining -> s.amountOut ≤ remaining.natAbs ∧
        (s.sqrtRatioNextX96 ≠ target -> s.amountOut = remaining.natAbs)) ∧
      (current = target -> s.amountIn = 0 ∧ s.amountOut = 0 ∧ s.feeAmount = 0) ∧
      (target ≤ current ->
        liquidity * 2 ^ 96 * (current - s.sqrtRatioNextX96) ≤
          s.amountIn * (s.sqrtRatioNextX96 * current) ∧
        s.amountOut * 2 ^ 96 ≤ liquidity * (current - s.sqrtRatioNextX96)) ∧
      (current ≤ target ->
        liquidity * (s.sqrtRatioNextX96 - current) ≤ s.amountIn * 2 ^ 96 ∧
        s.amountOut * (current * s.sqrtRatioNextX96) ≤
          liquidity * 2 ^ 96 * (s.sqrtRatioNextX96 - current)) := by
  rcases computeSwapStep_total hcurrent htarget hl0 hl hfee hmax hfits with ⟨s, hs⟩
  have hsound := computeSwapStep_sound hcurrent htarget hl0 hl hfee hne hfits hs
  refine ⟨s, hs, ?_, fun hneg => ?_, fun hpos => ?_, fun heq => ?_, fun hle => ?_, fun hle => ?_⟩
  · rcases le_total target current with hle | hle
    · have hdown := hsound.1.down hle
      exact ⟨(min_le_right _ _).trans hdown.target_le, hdown.le_current.trans (le_max_left _ _)⟩
    · have hup := hsound.1.up hle
      exact ⟨(min_le_left _ _).trans hup.current_le, hup.le_target.trans (le_max_right _ _)⟩
  · have hin := hsound.2.input hneg
    exact ⟨hin.1, fun hshort => hin.2.resolve_left hshort⟩
  · have hout := hsound.2.output hpos
    exact ⟨hout.1, fun hshort => hout.2.resolve_left hshort⟩
  · rw [← heq] at hs
    exact computeSwapStep_at_target hl hcurrent hs
  · exact ⟨(hsound.1.down hle).input, (hsound.1.down hle).output⟩
  · exact ⟨(hsound.1.up hle).input, (hsound.1.up hle).output⟩

/-- An exact-input step down from price one with a fee of 3000 pips. -/
theorem computeSwapStep_favours_pool_sample :
    exists s, computeSwapStep (2 ^ 96) (2 ^ 95) (10 ^ 18) (-10 ^ 15)
        ⟨3000, 997000, Or.inl ⟨by decide, rfl⟩⟩ = .ok s ∧
      2 ^ 95 ≤ s.sqrtRatioNextX96 ∧ s.sqrtRatioNextX96 ≤ 2 ^ 96 := by
  rcases @computeSwapStep_favours_pool (2 ^ 96) (2 ^ 95) (10 ^ 18)
    ⟨3000, 997000, Or.inl ⟨by decide, rfl⟩⟩ (-10 ^ 15) (by decide) (by decide) (by decide)
    (by decide) (by decide) (by decide) (by decide) (by decide) with ⟨s, hs, hbetween, _⟩
  exact ⟨s, hs, hbetween.1, hbetween.2⟩

end Steps

end RmUniswap
