import RmUniswap.Math.SwapFee

/-!
# The formula of a swap step

On protocol prices a step is a closed formula: the amounts of the move it makes,
and the fee on top of its input or the rest of its amount. The special cases of
the code (no fee, full fee, nothing left after the fee) are instances of it.
-/

namespace RmUniswap

open Foundation

def inputOfMove (liquidity current next : Nat) : Nat :=
  if next ≤ current then divCeil (2 ^ 96 * (liquidity * (current - next))) (next * current)
  else divCeil (liquidity * (next - current)) (2 ^ 96)

def outputOfMove (liquidity current next : Nat) : Nat :=
  if next ≤ current then liquidity * (current - next) / 2 ^ 96
  else 2 ^ 96 * (liquidity * (next - current)) / (current * next)

namespace Fee

/-- What a fee leaves of a gross amount. -/
def net (fee : Fee) (amount : Nat) : Nat := amount * fee.complement / maxFee

def onTop (fee : Fee) (used : Nat) : Nat :=
  if fee.isMax then used else divCeil (used * fee.pips) fee.complement

end Fee

def priceOfInput (zeroForOne : Bool) (current liquidity net : Nat) : Nat :=
  let numerator := liquidity * 2 ^ 96
  if zeroForOne then
    if numerator + net * current < 2 ^ 256 then
      divCeil (numerator * current) (numerator + net * current)
    else
      divCeil numerator (numerator / current + net)
  else
    current + net * 2 ^ 96 / liquidity

def priceOfOutput (zeroForOne : Bool) (current liquidity amount : Nat) : Nat :=
  let numerator := liquidity * 2 ^ 96
  if zeroForOne then current - divCeil (amount * 2 ^ 96) liquidity
  else divCeil (numerator * current) (numerator - amount * current)

def fullStep (current target liquidity : Nat) (fee : Fee) : SwapStep :=
  { sqrtRatioNextX96 := target
    amountIn := inputOfMove liquidity current target
    amountOut := outputOfMove liquidity current target
    feeAmount := fee.onTop (inputOfMove liquidity current target) }

def inputStep (current target liquidity amount : Nat) (fee : Fee) : SwapStep :=
  let next := priceOfInput (decide (current ≥ target)) current liquidity (fee.net amount)
  { sqrtRatioNextX96 := next
    amountIn := fee.net amount
    amountOut := outputOfMove liquidity current next
    feeAmount := amount - fee.net amount }

def outputStep (current target liquidity amount : Nat) (fee : Fee) : SwapStep :=
  let next := priceOfOutput (decide (current ≥ target)) current liquidity amount
  { sqrtRatioNextX96 := next
    amountIn := inputOfMove liquidity current next
    amountOut := amount
    feeAmount := fee.onTop (inputOfMove liquidity current next) }

def Covers (current target liquidity : Nat) (remaining : Int) (fee : Fee) : Prop :=
  if remaining < 0 then inputOfMove liquidity current target ≤ fee.net remaining.natAbs
  else outputOfMove liquidity current target ≤ remaining.natAbs

instance (current target liquidity : Nat) (remaining : Int) (fee : Fee) :
    Decidable (Covers current target liquidity remaining fee) :=
  inferInstanceAs (Decidable (if remaining < 0 then (_ : Nat) ≤ _ else _ ≤ _))

def plainStep (current target liquidity : Nat) (remaining : Int) (fee : Fee) : SwapStep :=
  if Covers current target liquidity remaining fee then
    fullStep current target liquidity fee
  else if remaining < 0 then
    inputStep current target liquidity remaining.natAbs fee
  else
    outputStep current target liquidity remaining.natAbs fee

/-!
# Fees
-/

section Fees

variable {amount used net charged : Nat} {fee : Fee}

theorem amountLessFeeExactIn_eq (hfee : fee.isValid = true) (ha : amount < 2 ^ 256) :
    amountLessFeeExactIn amount fee = .ok (fee.net amount) := by
  rcases amountLessFeeExactIn_total hfee ha with ⟨net, hnet⟩
  have hcomp := Fee.complement_eq hfee
  rw [hnet]
  unfold amountLessFeeExactIn at hnet
  unfold Fee.net
  split at hnet
  · rename_i hzero
    cases hnet
    have hpips : fee.pips = 0 := by simpa [Fee.isZero] using hzero
    rw [hcomp, hpips, Nat.sub_zero, Nat.mul_div_cancel _ (by decide)]
  · split at hnet
    · rename_i hmax
      cases hnet
      have hpips : fee.pips = maxFee := by simpa [Fee.isMax] using hmax
      rw [hcomp, hpips, Nat.sub_self, Nat.mul_zero, Nat.zero_div]
    · have hlt : fee.complement < 2 ^ 32 := by
        rw [hcomp]
        exact Nat.lt_of_le_of_lt (Nat.sub_le _ _) (by decide)
      rw [((mulDivU32Floor_eq_ok ha hlt (by decide) (by decide)).mp hnet).1]

theorem feeOnExactInput_eq (hfee : fee.isValid = true) (hused : used < 2 ^ 256)
    (h : feeOnExactInput used fee = .ok charged) : charged = fee.onTop used := by
  have hcomp := Fee.complement_eq hfee
  have hpips : fee.pips ≤ maxFee := by simpa [Fee.isValid] using hfee
  unfold feeOnExactInput at h
  unfold Fee.onTop
  split at h
  · rename_i hnone
    cases h
    rcases hnone with hzero | hzero
    · rw [hzero, Nat.zero_mul, zero_divCeil, ite_self]
    · have hpips0 : fee.pips = 0 := by simpa [Fee.isZero] using hzero
      have hmax : fee.isMax = false := by
        unfold Fee.isMax
        rw [hpips0]
        decide
      rw [hmax, if_neg Bool.false_ne_true, hpips0, Nat.mul_zero, zero_divCeil]
  · split at h
    · rename_i hmax
      cases h
      rw [if_pos hmax]
    · rename_i hmax
      have hne : fee.pips ≠ maxFee := by simpa [Fee.isMax] using hmax
      have hpos : 0 < fee.complement := by omega
      have hlt : fee.complement < 2 ^ 32 := by
        rw [hcomp]
        exact Nat.lt_of_le_of_lt (Nat.sub_le _ _) (by decide)
      rw [if_neg hmax]
      exact ((mulDivU32Ceil_eq_ok hused fee.pips_lt hpos hlt).mp h).1

theorem Fee.net_le (hfee : fee.isValid = true) (amount : Nat) : fee.net amount ≤ amount := by
  unfold net
  apply Nat.div_le_of_le_mul
  rw [Nat.mul_comm maxFee, complement_eq hfee]
  exact Nat.mul_le_mul_left _ (Nat.sub_le _ _)

theorem Fee.net_mono {amount' : Nat} (h : amount ≤ amount') : fee.net amount ≤ fee.net amount' :=
  Nat.div_le_div_right (Nat.mul_le_mul_right _ h)

theorem Fee.onTop_mono {used' : Nat} (h : used ≤ used') : fee.onTop used ≤ fee.onTop used' := by
  unfold onTop
  split
  · exact h
  · exact divCeil_mono (Nat.mul_le_mul_right _ h)

/-- Without a full fee, an amount affords an input exactly when it affords the input
and the fee on top. -/
theorem Fee.le_net_iff (hfee : fee.isValid = true) (hmax : fee.isMax = false) :
    used ≤ fee.net amount ↔ used + fee.onTop used ≤ amount := by
  have hcomp := complement_eq hfee
  have hpips : fee.pips ≤ maxFee := by simpa [isValid] using hfee
  have hne : fee.pips ≠ maxFee := by simpa [isMax] using hmax
  have hpos : 0 < fee.complement := by omega
  have hsplit := Fee.split hfee used
  unfold net onTop
  rw [Nat.le_div_iff_mul_le (by decide), hmax, if_neg Bool.false_ne_true]
  constructor
  · intro h
    have hle : used ≤ amount := by
      have : used * fee.complement ≤ amount * fee.complement := by omega
      exact Nat.le_of_mul_le_mul_right this hpos
    have hcharge : divCeil (used * fee.pips) fee.complement ≤ amount - used := by
      rw [divCeil_le_iff hpos, Nat.sub_mul]
      omega
    omega
  · intro h
    have hcover := le_divCeil_mul (a := used * fee.pips) hpos
    have hgross := Nat.mul_le_mul_right fee.complement h
    rw [Nat.add_mul] at hgross
    omega

end Fees

/-!
# Next prices
-/

section NextPrices

variable {current liquidity amount next : Nat} {zeroForOne : Bool}

theorem getNextSqrtPriceFromInput_eq (hcurrent : IsValidSqrtPrice current)
    (hl : liquidity < 2 ^ 128) (ha : amount < 2 ^ 256)
    (h : getNextSqrtPriceFromInput current liquidity amount zeroForOne = .ok next) :
    next = priceOfInput zeroForOne current liquidity amount := by
  unfold priceOfInput
  dsimp only
  cases zeroForOne with
  | true =>
      have hspec := ((amount0Add_eq_ok hl hcurrent.lt_two_pow).mp h).2
      rw [if_pos rfl]
      split at hspec
      · rename_i hsum
        rw [if_pos hsum]
        exact hspec
      · rename_i hsum
        rw [if_neg hsum]
        exact hspec.2
  | false =>
      rw [if_neg Bool.false_ne_true]
      exact ((amount1Add_eq_ok ha).mp h).2

theorem getNextSqrtPriceFromOutput_eq (hcurrent : IsValidSqrtPrice current)
    (hl : liquidity < 2 ^ 128) (ha : amount < 2 ^ 256)
    (h : getNextSqrtPriceFromOutput current liquidity amount zeroForOne = .ok next) :
    next = priceOfOutput zeroForOne current liquidity amount := by
  unfold priceOfOutput
  dsimp only
  cases zeroForOne with
  | true =>
      have hspec := ((amount1Sub_eq_ok hcurrent.lt_two_pow ha).mp h).2
      rw [if_pos rfl]
      exact (Nat.sub_eq_of_eq_add hspec.symm).symm
  | false =>
      rw [if_neg Bool.false_ne_true]
      exact ((amount0Sub_eq_ok hl hcurrent.lt_two_pow).mp h).2.2

theorem priceOfInput_zero (hl0 : 0 < liquidity) (hl : liquidity < 2 ^ 128) :
    priceOfInput zeroForOne current liquidity 0 = current := by
  have hn : 0 < liquidity * 2 ^ 96 := Nat.mul_pos hl0 (Nat.two_pow_pos 96)
  have hq96lt : liquidity * 2 ^ 96 < 2 ^ 224 := mul_two_pow_lt hl (by norm_num)
  unfold priceOfInput
  dsimp only
  rw [Nat.zero_mul, Nat.zero_mul, Nat.zero_div, Nat.add_zero, Nat.add_zero,
    if_pos (hq96lt.trans (by norm_num))]
  cases zeroForOne with
  | true =>
      unfold divCeil
      rw [if_pos rfl, Nat.mul_mod_right, if_pos rfl, Nat.mul_div_cancel_left _ hn]
  | false =>
      rfl

end NextPrices

/-!
# The formulas
-/

section Steps

variable {current target liquidity amount : Nat} {fee : Fee} {s : SwapStep}

theorem inputOfMove_down {next : Nat} (h : next ≤ current) :
    inputOfMove liquidity current next =
      divCeil (2 ^ 96 * (liquidity * (current - next))) (next * current) :=
  if_pos h

theorem inputOfMove_up {next : Nat} (h : current ≤ next) :
    inputOfMove liquidity current next = divCeil (liquidity * (next - current)) (2 ^ 96) := by
  unfold inputOfMove
  split
  · rename_i hle
    rw [le_antisymm h hle, Nat.sub_self, Nat.mul_zero, Nat.mul_zero, zero_divCeil, zero_divCeil]
  · rfl

theorem outputOfMove_down {next : Nat} (h : next ≤ current) :
    outputOfMove liquidity current next = liquidity * (current - next) / 2 ^ 96 :=
  if_pos h

theorem outputOfMove_up {next : Nat} (h : current ≤ next) :
    outputOfMove liquidity current next =
      2 ^ 96 * (liquidity * (next - current)) / (current * next) := by
  unfold outputOfMove
  split
  · rename_i hle
    rw [le_antisymm h hle, Nat.sub_self, Nat.mul_zero, Nat.mul_zero, Nat.zero_div, Nat.zero_div]
  · rfl

theorem inputOfMove_pos {next : Nat} (hcurrent : 0 < current) (hnext : 0 < next)
    (hl0 : 0 < liquidity) (hne : current ≠ next) : 0 < inputOfMove liquidity current next := by
  rcases lt_or_gt_of_ne hne with hup | hdown
  · rw [inputOfMove_up (le_of_lt hup), lt_divCeil_iff (Nat.two_pow_pos 96), Nat.zero_mul]
    exact Nat.mul_pos hl0 (Nat.sub_pos_of_lt hup)
  · rw [inputOfMove_down (le_of_lt hdown), lt_divCeil_iff (Nat.mul_pos hnext hcurrent),
      Nat.zero_mul]
    exact Nat.mul_pos (Nat.two_pow_pos 96) (Nat.mul_pos hl0 (Nat.sub_pos_of_lt hdown))

theorem inputOfMove_self : inputOfMove liquidity current current = 0 := by
  rw [inputOfMove_up (le_refl _), Nat.sub_self, Nat.mul_zero, zero_divCeil]

theorem outputOfMove_self : outputOfMove liquidity current current = 0 := by
  rw [outputOfMove_down (le_refl _), Nat.sub_self, Nat.mul_zero, Nat.zero_div]

theorem computeExactIn_eq (hcurrent : IsValidSqrtPrice current)
    (htarget : IsValidSqrtPrice target) (hl0 : 0 < liquidity) (hl : liquidity < 2 ^ 128)
    (hfee : fee.isValid = true) (ha : amount < 2 ^ 256)
    (h : computeExactIn current target liquidity amount fee (decide (current ≥ target)) = .ok s) :
    s = if inputOfMove liquidity current target ≤ fee.net amount then
        fullStep current target liquidity fee
      else
        inputStep current target liquidity amount fee := by
  have hle := Fee.net_le hfee amount
  unfold computeExactIn at h
  rw [amountLessFeeExactIn_eq hfee ha, ok_bind] at h
  unfold fullStep inputStep
  dsimp only
  generalize fee.net amount = net at hle h ⊢
  by_cases hnet0 : net = 0
  · rw [if_pos hnet0] at h
    cases h
    by_cases heq : current = target
    · rw [if_pos heq, heq, inputOfMove_self, if_pos (Nat.zero_le _), outputOfMove_self]
      congr 1
      unfold Fee.onTop
      rw [Nat.zero_mul, zero_divCeil, ite_self]
    · have hpos := inputOfMove_pos hcurrent.pos htarget.pos hl0 heq
      rw [if_neg heq, hnet0, if_neg (not_le.mpr hpos), priceOfInput_zero hl0 hl,
        outputOfMove_self, Nat.sub_zero]
  · rw [if_neg hnet0] at h
    by_cases hdir : target ≤ current
    · have hin := (amount0_le hl htarget hcurrent).trans_lt (by norm_num : 2 ^ 224 < 2 ^ 256)
      rw [decide_eq_true hdir, if_pos rfl, getAmount0Delta_eq hl htarget hcurrent hdir,
        roundDiv_true, ok_bind] at h
      simp only [if_true, ok_bind, getAmount1DeltaWithLiquidityDelta_eq, roundDiv_false,
        ge_iff_le] at h
      rw [inputOfMove_down hdir]
      split at h
      · rename_i hreach
        rcases bind_eq_ok.mp h with ⟨charged, hcharged, hok⟩
        cases hok
        rw [if_pos hreach, outputOfMove_down hdir, feeOnExactInput_eq hfee hin hcharged]
      · rename_i hreach
        rcases bind_eq_ok.mp h with ⟨next, hnext, hrest⟩
        rcases inputDown hcurrent htarget hl0 hl (Nat.pos_of_ne_zero hnet0) (not_le.mp hreach)
          hnext with ⟨_, _, hge, _⟩
        rw [getAmount1Delta_eq hl hcurrent hge, roundDiv_false, ok_bind] at hrest
        cases hrest
        rw [if_neg hreach, decide_eq_true hdir,
          ← getNextSqrtPriceFromInput_eq hcurrent hl (Nat.lt_of_le_of_lt hle ha) hnext,
          outputOfMove_down hge, wrappingSub_of_le hle ha]
    · have hlt : current < target := not_le.mp hdir
      have hin := (amount1_le (a := current) hl htarget).trans_lt
        (by norm_num : 2 ^ 224 < 2 ^ 256)
      rw [decide_eq_false hdir, if_neg Bool.false_ne_true,
        getAmount1Delta_eq hl htarget (le_of_lt hlt), roundDiv_true, ok_bind] at h
      simp only [Bool.false_eq_true, if_false,
        getAmount0DeltaWithLiquidityDelta_eq hl hcurrent htarget, roundDiv_false, ok_bind,
        ge_iff_le] at h
      rw [inputOfMove_up (le_of_lt hlt)]
      split at h
      · rename_i hreach
        rcases bind_eq_ok.mp h with ⟨charged, hcharged, hok⟩
        cases hok
        rw [if_pos hreach, outputOfMove_up (le_of_lt hlt), feeOnExactInput_eq hfee hin hcharged]
      · rename_i hreach
        rcases bind_eq_ok.mp h with ⟨next, hnext, hrest⟩
        rcases inputUp hl0 (Nat.lt_of_le_of_lt hle ha) (not_le.mp hreach) hnext with
          ⟨hvalid, hge, _, _⟩
        rw [getAmount0Delta_eq hl hcurrent hvalid hge, roundDiv_false, ok_bind] at hrest
        cases hrest
        rw [if_neg hreach, decide_eq_false hdir,
          ← getNextSqrtPriceFromInput_eq hcurrent hl (Nat.lt_of_le_of_lt hle ha) hnext,
          outputOfMove_up hge, wrappingSub_of_le hle ha]

theorem computeExactOut_eq (hcurrent : IsValidSqrtPrice current)
    (htarget : IsValidSqrtPrice target) (hl0 : 0 < liquidity) (hl : liquidity < 2 ^ 128)
    (hfee : fee.isValid = true) (ha : amount < 2 ^ 256)
    (h : computeExactOut current target liquidity amount fee (decide (current ≥ target)) = .ok s) :
    s = if outputOfMove liquidity current target ≤ amount then
        fullStep current target liquidity fee
      else
        outputStep current target liquidity amount fee := by
  unfold computeExactOut at h
  unfold fullStep outputStep
  dsimp only
  by_cases hdir : target ≤ current
  · have hin := (amount0_le hl htarget hcurrent).trans_lt (by norm_num : 2 ^ 224 < 2 ^ 256)
    rw [decide_eq_true hdir, if_pos rfl, getAmount1Delta_eq hl hcurrent hdir, roundDiv_false,
      ok_bind] at h
    simp only [if_true, getAmount0DeltaWithLiquidityDelta_eq hl htarget hcurrent, roundDiv_true,
      ok_bind, ge_iff_le] at h
    rw [outputOfMove_down hdir]
    split at h
    · rename_i hreach
      rcases bind_eq_ok.mp h with ⟨charged, hcharged, hok⟩
      cases hok
      rw [if_pos hreach, inputOfMove_down hdir, feeOnExactInput_eq hfee hin hcharged]
    · rename_i hreach
      rcases bind_eq_ok.mp h with ⟨next, hnext, hrest⟩
      rcases outputDown hcurrent hl0 ha (not_le.mp hreach) hnext with ⟨hvalid, _, hge, _⟩
      have hused := (amount0_le hl hvalid hcurrent).trans_lt (by norm_num : 2 ^ 224 < 2 ^ 256)
      rw [getAmount0Delta_eq hl hvalid hcurrent hge, roundDiv_true, ok_bind] at hrest
      rcases bind_eq_ok.mp hrest with ⟨charged, hcharged, hok⟩
      cases hok
      rw [if_neg hreach, decide_eq_true hdir,
        ← getNextSqrtPriceFromOutput_eq hcurrent hl ha hnext, inputOfMove_down hge,
        feeOnExactInput_eq hfee hused hcharged]
  · have hlt : current < target := not_le.mp hdir
    have hin := (amount1_le (a := current) hl htarget).trans_lt (by norm_num : 2 ^ 224 < 2 ^ 256)
    rw [decide_eq_false hdir, if_neg Bool.false_ne_true,
      getAmount0Delta_eq hl hcurrent htarget (le_of_lt hlt), roundDiv_false, ok_bind] at h
    simp only [Bool.false_eq_true, if_false, ok_bind, getAmount1DeltaWithLiquidityDelta_eq,
      roundDiv_true, ge_iff_le] at h
    rw [outputOfMove_up (le_of_lt hlt)]
    split at h
    · rename_i hreach
      rcases bind_eq_ok.mp h with ⟨charged, hcharged, hok⟩
      cases hok
      rw [if_pos hreach, inputOfMove_up (le_of_lt hlt), feeOnExactInput_eq hfee hin hcharged]
    · rename_i hreach
      rcases bind_eq_ok.mp h with ⟨next, hnext, hrest⟩
      rcases outputUp hcurrent htarget hl hlt (not_le.mp hreach) hnext with ⟨hvalid, hge, _, _⟩
      have hused := (amount1_le (a := current) hl hvalid).trans_lt
        (by norm_num : 2 ^ 224 < 2 ^ 256)
      rw [getAmount1Delta_eq hl hvalid hge, roundDiv_true, ok_bind] at hrest
      rcases bind_eq_ok.mp hrest with ⟨charged, hcharged, hok⟩
      cases hok
      rw [if_neg hreach, decide_eq_false hdir,
        ← getNextSqrtPriceFromOutput_eq hcurrent hl ha hnext, inputOfMove_up hge,
        feeOnExactInput_eq hfee hused hcharged]

theorem natAbs_lt_of_fits {remaining : Int} (hfits : FitsSigned 256 remaining) :
    remaining.natAbs < 2 ^ 256 := by
  have hlo := hfits.1
  have hhi := hfits.2
  norm_num at hlo hhi ⊢
  omega

theorem computeSwapStep_eq {remaining : Int} (hcurrent : IsValidSqrtPrice current)
    (htarget : IsValidSqrtPrice target) (hl0 : 0 < liquidity) (hl : liquidity < 2 ^ 128)
    (hfee : fee.isValid = true) (hne : remaining ≠ 0) (hfits : FitsSigned 256 remaining)
    (h : computeSwapStep current target liquidity remaining fee = .ok s) :
    s = plainStep current target liquidity remaining fee := by
  have ha := natAbs_lt_of_fits hfits
  unfold computeSwapStep at h
  rw [if_neg hne] at h
  unfold plainStep Covers
  simp only at h
  by_cases hneg : remaining < 0
  · simp only [hneg, decide_true, Bool.not_true, Bool.false_and, Bool.false_eq_true,
      if_false, if_true] at h
    simp only [hneg, if_true]
    exact computeExactIn_eq hcurrent htarget hl0 hl hfee ha h
  · simp only [hneg, decide_false, Bool.not_false, Bool.true_and, Bool.false_eq_true,
      if_false] at h
    simp only [hneg, if_false]
    split at h
    · cases h
    · exact computeExactOut_eq hcurrent htarget hl0 hl hfee ha h

theorem covers_self {remaining : Int} : Covers current current liquidity remaining fee := by
  unfold Covers
  rw [inputOfMove_self, outputOfMove_self]
  split
  · exact Nat.zero_le _
  · exact Nat.zero_le _

theorem plainStep_spends {remaining : Int} (hfee : fee.isValid = true)
    (hshort : ¬ Covers current target liquidity remaining fee)
    (hs : s = plainStep current target liquidity remaining fee) :
    (remaining < 0 -> s.amountIn + s.feeAmount = remaining.natAbs) ∧
      (0 < remaining -> s.amountOut = remaining.natAbs) := by
  unfold plainStep at hs
  rw [if_neg hshort] at hs
  constructor
  · intro hneg
    rw [if_pos hneg] at hs
    rw [hs]
    exact Nat.add_sub_cancel' (Fee.net_le hfee _)
  · intro hpos
    rw [if_neg (not_lt.mpr (le_of_lt hpos))] at hs
    rw [hs]
    rfl

end Steps

end RmUniswap
