import RmUniswap.Math.SwapCompose

/-!
# What an output costs affords it

An exact input of at least what an exact output takes in, fee included, moves the
price at least as far and pays out at least as much: the input that a move needs, as
the code rounds it, also makes that move.
-/

namespace RmUniswap

open Foundation

section Prices

variable {current next liquidity amount : Nat}

theorem priceOfInput_farther {zeroForOne : Bool} (hcurrent : 0 < current) (hnext : 0 < next)
    (hl0 : 0 < liquidity) (h : Farther zeroForOne current next)
    (hdirect : Direct zeroForOne current liquidity amount)
    (hpaid : inputOfMove liquidity current next ≤ amount) :
    Farther zeroForOne next (priceOfInput zeroForOne current liquidity amount) := by
  cases zeroForOne with
  | true =>
      have hn : 0 < liquidity * 2 ^ 96 := Nat.mul_pos hl0 (Nat.two_pow_pos 96)
      have h : next ≤ current := h
      have hsum := hdirect rfl
      rw [inputOfMove_down h, divCeil_le_iff (Nat.mul_pos hnext hcurrent), ← Nat.mul_assoc,
        Nat.mul_comm (2 ^ 96)] at hpaid
      show priceOfInput true current liquidity amount ≤ next
      unfold priceOfInput
      dsimp only
      rw [if_pos rfl]
      generalize liquidity * 2 ^ 96 = n at hn hsum hpaid ⊢
      generalize 2 ^ 256 = word at hsum ⊢
      rw [if_pos hsum, divCeil_le_iff (Nat.add_pos_left hn _)]
      calc
        n * current = n * next + n * (current - next) := by
          rw [← Nat.mul_add, Nat.add_sub_cancel' h]
        _ ≤ n * next + amount * (next * current) := Nat.add_le_add_left hpaid _
        _ = next * (n + amount * current) := by ring
  | false =>
      have h : current ≤ next := h
      rw [inputOfMove_up h, divCeil_le_iff (Nat.two_pow_pos 96)] at hpaid
      show next ≤ priceOfInput false current liquidity amount
      unfold priceOfInput
      dsimp only
      rw [if_neg Bool.false_ne_true]
      have hmove : next - current ≤ amount * 2 ^ 96 / liquidity := by
        rw [Nat.le_div_iff_mul_le hl0, Nat.mul_comm]
        exact hpaid
      omega

end Prices

/-!
# One step
-/

/-- A step for an exact output, and one for an exact input that pays for it. -/
structure AffordSteps (current target liquidity : Nat) (output input : Int) (fee : Fee)
    (s s' : SwapStep) : Prop where
  currentValid : IsValidSqrtPrice current
  targetValid : IsValidSqrtPrice target
  positive : 0 < liquidity
  liquidityFits : liquidity < 2 ^ 128
  feeValid : fee.isValid = true
  exactOut : 0 < output
  exactIn : input < 0
  fits : FitsSigned 256 output
  fits' : FitsSigned 256 input
  wanted : computeSwapStep current target liquidity output fee = .ok s
  bought : computeSwapStep current target liquidity input fee = .ok s'
  paid : s.gross ≤ input.natAbs

namespace AffordSteps

variable {current target liquidity : Nat} {output input : Int} {fee : Fee} {s s' : SwapStep}

section Facts

variable (h : AffordSteps current target liquidity output input fee s s')

include h

theorem sound : StepSound current target liquidity s :=
  (computeSwapStep_sound h.currentValid h.targetValid h.positive h.liquidityFits h.feeValid
    (ne_of_gt h.exactOut) h.fits h.wanted).1

theorem wanted_eq : s = plainStep current target liquidity output fee :=
  computeSwapStep_eq h.currentValid h.targetValid h.positive h.liquidityFits h.feeValid
    (ne_of_gt h.exactOut) h.fits h.wanted

theorem bought_eq : s' = plainStep current target liquidity input fee :=
  computeSwapStep_eq h.currentValid h.targetValid h.positive h.liquidityFits h.feeValid
    (ne_of_lt h.exactIn) h.fits' h.bought

theorem not_max : fee.isMax = false :=
  computeSwapStep_fee h.exactOut h.wanted

theorem input_le_net :
    inputOfMove liquidity current s.sqrtRatioNextX96 ≤ fee.net input.natAbs := by
  have hpaid := h.paid
  have hgross : s.gross = _ := (congrArg SwapStep.gross h.wanted_eq).trans
    (plainStep_gross h.exactOut)
  rw [← h.wanted_eq] at hgross
  rw [Fee.le_net_iff h.feeValid h.not_max, ← hgross]
  exact hpaid

theorem same_of_covers (hcovers : Covers current target liquidity output fee) : s' = s := by
  have hnet := h.input_le_net
  have hprice := plainStep_price_of_covers hcovers
  rw [← h.wanted_eq] at hprice
  rw [hprice] at hnet
  rw [h.wanted_eq, h.bought_eq]
  unfold plainStep
  rw [if_pos hcovers, if_pos ((covers_exactIn h.exactIn).mpr hnet)]

theorem output_le (hdirect : Direct (decide (current ≥ target)) current liquidity
    input.natAbs) : s.amountOut ≤ s'.amountOut := by
  have hfarther := h.sound.between
  have hnet := h.input_le_net
  have hout : s'.amountOut = outputOfMove liquidity current s'.sqrtRatioNextX96 := by
    rw [h.bought_eq]
    exact plainStep_output h.exactIn
  rw [hout]
  refine (h.sound.output_le h.currentValid.pos).trans
    (outputOfMove_mono liquidity h.currentValid.pos hfarther.1 ?_)
  by_cases hcovers : Covers current target liquidity input fee
  · rw [h.bought_eq, plainStep_price_of_covers hcovers]
    exact hfarther.2
  · rw [h.bought_eq, (plainStep_short_in h.exactIn hcovers).2]
    exact priceOfInput_farther h.currentValid.pos h.sound.valid.pos h.positive hfarther.1
      (hdirect.mono (Fee.net_le h.feeValid _)) hnet

end Facts

end AffordSteps

end RmUniswap
