import RmUniswap.Math.SwapTotal

/-!
# Steps charge their fee

Whichever formula gives the fee of a step, it covers the rate of the fee on the
whole input, fee included.
-/

namespace RmUniswap

open Foundation

/-- A charge covers the rate of a fee on a net amount and the charge itself. -/
def Fee.CoveredBy (fee : Fee) (used charged : Nat) : Prop :=
  (used + charged) * fee.pips ≤ charged * maxFee

section Fees

variable {amount net used charged : Nat} {fee : Fee}

theorem Fee.split (hfee : fee.isValid = true) (n : Nat) :
    n * fee.pips + n * fee.complement = n * maxFee := by
  have hpips : fee.pips ≤ maxFee := by simpa [isValid] using hfee
  rw [← Nat.mul_add, complement_eq hfee, Nat.add_sub_cancel' hpips]

theorem Fee.CoveredBy.all (hfee : fee.isValid = true) : fee.CoveredBy 0 charged := by
  have hpips : fee.pips ≤ maxFee := by simpa [isValid] using hfee
  unfold CoveredBy
  rw [Nat.zero_add]
  exact Nat.mul_le_mul_left _ hpips

theorem Fee.CoveredBy.rest (hfee : fee.isValid = true) (hle : net ≤ amount)
    (hnet : net * maxFee ≤ amount * fee.complement) : fee.CoveredBy net (amount - net) := by
  have hsplit := Fee.split hfee amount
  unfold CoveredBy
  rw [Nat.add_sub_cancel' hle, Nat.sub_mul]
  omega

theorem feeOnExactInput_covers (hfee : fee.isValid = true) (hused : used < 2 ^ 256)
    (hmax : used = 0 ∨ fee.isMax = false) (h : feeOnExactInput used fee = .ok charged) :
    fee.CoveredBy used charged := by
  unfold feeOnExactInput at h
  split at h
  · rename_i hnone
    cases h
    unfold Fee.CoveredBy
    rcases hnone with hzero | hzero
    · rw [hzero, Nat.zero_mul]
      exact Nat.zero_le _
    · have hpips : fee.pips = 0 := by simpa [Fee.isZero] using hzero
      rw [hpips, Nat.mul_zero]
      exact Nat.zero_le _
  · rename_i hsome
    have hnot : fee.isMax = false := hmax.resolve_left fun hzero => hsome (Or.inl hzero)
    rw [if_neg (by rw [hnot]; decide)] at h
    have hcomp := Fee.complement_eq hfee
    have hpips : fee.pips ≤ maxFee := by simpa [Fee.isValid] using hfee
    have hne : fee.pips ≠ maxFee := by simpa [Fee.isMax] using hnot
    have hpos : 0 < fee.complement := by omega
    have hlt : fee.complement < 2 ^ 32 := by
      rw [hcomp]
      exact Nat.lt_of_le_of_lt (Nat.sub_le _ _) (by decide)
    have hcharged := ((mulDivU32Ceil_eq_ok hused fee.pips_lt hpos hlt).mp h).1
    have hcover : used * fee.pips ≤ charged * fee.complement := by
      rw [hcharged]
      exact le_divCeil_mul hpos
    unfold Fee.CoveredBy
    calc
      (used + charged) * fee.pips = used * fee.pips + charged * fee.pips := Nat.add_mul _ _ _
      _ ≤ charged * fee.complement + charged * fee.pips := Nat.add_le_add_right hcover _
      _ = charged * maxFee := by rw [Nat.add_comm, Fee.split hfee]

theorem amountLessFeeExactIn_isMax (hnet : net ≠ 0)
    (h : amountLessFeeExactIn amount fee = .ok net) : fee.isMax = false := by
  unfold amountLessFeeExactIn at h
  split at h
  · rename_i hzero
    have hpips : fee.pips = 0 := by simpa [Fee.isZero] using hzero
    unfold Fee.isMax
    rw [hpips]
    decide
  · split at h
    · cases h
      exact absurd rfl hnet
    · rename_i hmax
      simpa using hmax

end Fees

/-!
# The fee of a step
-/

section Steps

variable {current target liquidity amount : Nat} {fee : Fee} {s : SwapStep}

theorem computeExactIn_covers (hcurrent : IsValidSqrtPrice current)
    (htarget : IsValidSqrtPrice target) (hl : liquidity < 2 ^ 128) (hfee : fee.isValid = true)
    (ha : amount < 2 ^ 256)
    (h : computeExactIn current target liquidity amount fee (decide (current ≥ target)) = .ok s) :
    fee.CoveredBy s.amountIn s.feeAmount := by
  unfold computeExactIn at h
  rcases bind_eq_ok.mp h with ⟨net, hnet, hrest⟩
  have hspec := amountLessFeeExactIn_spec hfee ha hnet
  have hpartial : fee.CoveredBy net (wrappingSub 256 amount net) := by
    rw [wrappingSub_of_le hspec.1 ha]
    exact Fee.CoveredBy.rest hfee hspec.1 hspec.2
  split at hrest
  · cases hrest
    exact Fee.CoveredBy.all hfee
  · rename_i hnet0
    have hmax := amountLessFeeExactIn_isMax hnet0 hnet
    by_cases hdir : target ≤ current
    · have hin := (amount0_le hl htarget hcurrent).trans_lt (by norm_num : 2 ^ 224 < 2 ^ 256)
      rw [decide_eq_true hdir, if_pos rfl, getAmount0Delta_eq hl htarget hcurrent hdir,
        roundDiv_true, ok_bind] at hrest
      simp only [if_true, ok_bind, getAmount1DeltaWithLiquidityDelta_eq, roundDiv_false] at hrest
      split at hrest
      · rcases bind_eq_ok.mp hrest with ⟨charged, hcharged, hok⟩
        cases hok
        exact feeOnExactInput_covers hfee hin (Or.inr hmax) hcharged
      · rcases bind_eq_ok.mp hrest with ⟨next, hnext, hrest⟩
        rcases bind_eq_ok.mp hrest with ⟨out, _, hok⟩
        cases hok
        exact hpartial
    · have hlt : current < target := not_le.mp hdir
      have hin := (amount1_le (a := current) hl htarget).trans_lt
        (by norm_num : 2 ^ 224 < 2 ^ 256)
      rw [decide_eq_false hdir, if_neg Bool.false_ne_true,
        getAmount1Delta_eq hl htarget (le_of_lt hlt), roundDiv_true, ok_bind] at hrest
      simp only [Bool.false_eq_true, if_false,
        getAmount0DeltaWithLiquidityDelta_eq hl hcurrent htarget, roundDiv_false, ok_bind]
        at hrest
      split at hrest
      · rcases bind_eq_ok.mp hrest with ⟨charged, hcharged, hok⟩
        cases hok
        exact feeOnExactInput_covers hfee hin (Or.inr hmax) hcharged
      · rcases bind_eq_ok.mp hrest with ⟨next, hnext, hrest⟩
        rcases bind_eq_ok.mp hrest with ⟨out, _, hok⟩
        cases hok
        exact hpartial

theorem computeExactOut_covers (hcurrent : IsValidSqrtPrice current)
    (htarget : IsValidSqrtPrice target) (hl0 : 0 < liquidity) (hl : liquidity < 2 ^ 128)
    (hfee : fee.isValid = true) (hmax : fee.isMax = false) (ha : amount < 2 ^ 256)
    (h : computeExactOut current target liquidity amount fee (decide (current ≥ target)) = .ok s) :
    fee.CoveredBy s.amountIn s.feeAmount := by
  unfold computeExactOut at h
  by_cases hdir : target ≤ current
  · rw [decide_eq_true hdir, if_pos rfl, getAmount1Delta_eq hl hcurrent hdir, roundDiv_false,
      ok_bind] at h
    simp only [if_true, getAmount0DeltaWithLiquidityDelta_eq hl htarget hcurrent, roundDiv_true,
      ok_bind] at h
    split at h
    · rcases bind_eq_ok.mp h with ⟨charged, hcharged, hok⟩
      cases hok
      have hin := (amount0_le hl htarget hcurrent).trans_lt (by norm_num : 2 ^ 224 < 2 ^ 256)
      exact feeOnExactInput_covers hfee hin (Or.inr hmax) hcharged
    · rename_i hreach
      rcases bind_eq_ok.mp h with ⟨next, hnext, hrest⟩
      rcases outputDown hcurrent hl0 ha (not_le.mp hreach) hnext with ⟨hvalid, _, hge, _⟩
      rw [getAmount0Delta_eq hl hvalid hcurrent hge, roundDiv_true, ok_bind] at hrest
      rcases bind_eq_ok.mp hrest with ⟨charged, hcharged, hok⟩
      cases hok
      have hin := (amount0_le hl hvalid hcurrent).trans_lt (by norm_num : 2 ^ 224 < 2 ^ 256)
      exact feeOnExactInput_covers hfee hin (Or.inr hmax) hcharged
  · have hlt : current < target := not_le.mp hdir
    rw [decide_eq_false hdir, if_neg Bool.false_ne_true,
      getAmount0Delta_eq hl hcurrent htarget (le_of_lt hlt), roundDiv_false, ok_bind] at h
    simp only [Bool.false_eq_true, if_false, ok_bind, getAmount1DeltaWithLiquidityDelta_eq,
      roundDiv_true] at h
    split at h
    · rcases bind_eq_ok.mp h with ⟨charged, hcharged, hok⟩
      cases hok
      have hin := (amount1_le (a := current) hl htarget).trans_lt
        (by norm_num : 2 ^ 224 < 2 ^ 256)
      exact feeOnExactInput_covers hfee hin (Or.inr hmax) hcharged
    · rename_i hreach
      rcases bind_eq_ok.mp h with ⟨next, hnext, hrest⟩
      rcases outputUp hcurrent htarget hl hlt (not_le.mp hreach) hnext with ⟨hvalid, hle, _, _⟩
      rw [getAmount1Delta_eq hl hvalid hle, roundDiv_true, ok_bind] at hrest
      rcases bind_eq_ok.mp hrest with ⟨charged, hcharged, hok⟩
      cases hok
      have hin := (amount1_le (a := current) hl hvalid).trans_lt
        (by norm_num : 2 ^ 224 < 2 ^ 256)
      exact feeOnExactInput_covers hfee hin (Or.inr hmax) hcharged

theorem computeSwapStep_covers {remaining : Int} (hcurrent : IsValidSqrtPrice current)
    (htarget : IsValidSqrtPrice target) (hl0 : 0 < liquidity) (hl : liquidity < 2 ^ 128)
    (hfee : fee.isValid = true) (hfits : FitsSigned 256 remaining)
    (h : computeSwapStep current target liquidity remaining fee = .ok s) :
    fee.CoveredBy s.amountIn s.feeAmount := by
  have ha : remaining.natAbs < 2 ^ 256 := by
    have hlo := hfits.1
    have hhi := hfits.2
    norm_num at hlo hhi ⊢
    omega
  unfold computeSwapStep at h
  split at h
  · cases h
    exact Fee.CoveredBy.all hfee
  · simp only at h
    by_cases hneg : remaining < 0
    · simp only [hneg, decide_true, Bool.not_true, Bool.false_and, Bool.false_eq_true,
        if_false, if_true] at h
      exact computeExactIn_covers hcurrent htarget hl hfee ha h
    · simp only [hneg, decide_false, Bool.not_false, Bool.true_and, Bool.false_eq_true,
        if_false] at h
      split at h
      · cases h
      · rename_i hmax
        exact computeExactOut_covers hcurrent htarget hl0 hl hfee (by simpa using hmax) ha h

end Steps

end RmUniswap
