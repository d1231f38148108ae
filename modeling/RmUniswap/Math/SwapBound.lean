import RmUniswap.Math.SwapFormula

/-!
# Bounds of a swap step

A step that reaches its target pays for a move between two protocol prices, whatever
is left of the amount.
-/

namespace RmUniswap

open Foundation

section Bounds

variable {current target next liquidity : Nat} {remaining : Int} {fee : Fee}

theorem IsValidSqrtPrice.two_pow_le (h : IsValidSqrtPrice current) : 2 ^ 32 ≤ current :=
  le_trans (by decide) h.1

theorem inputOfMove_le (hcurrent : IsValidSqrtPrice current) (hnext : IsValidSqrtPrice next)
    (hl : liquidity < 2 ^ 128) : inputOfMove liquidity current next ≤ 2 ^ 192 := by
  rcases Nat.le_total next current with hdown | hup
  · rw [inputOfMove_down hdown, divCeil_le_iff (Nat.mul_pos hnext.pos hcurrent.pos)]
    calc
      2 ^ 96 * (liquidity * (current - next)) ≤ 2 ^ 96 * (2 ^ 128 * current) :=
        Nat.mul_le_mul_left _ (Nat.mul_le_mul (le_of_lt hl) (Nat.sub_le _ _))
      _ = 2 ^ 192 * (2 ^ 32 * current) := by ring
      _ ≤ 2 ^ 192 * (next * current) :=
        Nat.mul_le_mul_left _ (Nat.mul_le_mul_right _ hnext.two_pow_le)
  · rw [inputOfMove_up hup, divCeil_le_iff (Nat.two_pow_pos 96)]
    calc
      liquidity * (next - current) ≤ 2 ^ 128 * 2 ^ 160 :=
        Nat.mul_le_mul (le_of_lt hl) ((Nat.sub_le _ _).trans (le_of_lt hnext.lt_two_pow))
      _ = 2 ^ 192 * 2 ^ 96 := by ring

theorem outputOfMove_le (hcurrent : IsValidSqrtPrice current) (hnext : IsValidSqrtPrice next)
    (hl : liquidity < 2 ^ 128) : outputOfMove liquidity current next ≤ 2 ^ 192 := by
  rcases Nat.le_total next current with hdown | hup
  · rw [outputOfMove_down hdown]
    apply Nat.div_le_of_le_mul
    calc
      liquidity * (current - next) ≤ 2 ^ 128 * 2 ^ 160 :=
        Nat.mul_le_mul (le_of_lt hl) ((Nat.sub_le _ _).trans (le_of_lt hcurrent.lt_two_pow))
      _ = 2 ^ 96 * 2 ^ 192 := by ring
  · rw [outputOfMove_up hup]
    apply Nat.div_le_of_le_mul
    calc
      2 ^ 96 * (liquidity * (next - current)) ≤ 2 ^ 96 * (2 ^ 128 * next) :=
        Nat.mul_le_mul_left _ (Nat.mul_le_mul (le_of_lt hl) (Nat.sub_le _ _))
      _ = 2 ^ 32 * next * 2 ^ 192 := by ring
      _ ≤ current * next * 2 ^ 192 :=
        Nat.mul_le_mul_right _ (Nat.mul_le_mul_right _ hcurrent.two_pow_le)

theorem Fee.onTop_le (hfee : fee.isValid = true) (used : Nat) : fee.onTop used ≤ used * maxFee := by
  have hcomp := complement_eq hfee
  have hpips : fee.pips ≤ maxFee := by simpa [isValid] using hfee
  unfold onTop
  split
  · exact Nat.le_mul_of_pos_right _ (by decide)
  · rename_i hmax
    have hne : fee.pips ≠ maxFee := by simpa [isMax] using hmax
    have hpos : 0 < fee.complement := by omega
    rw [divCeil_le_iff hpos]
    exact (Nat.mul_le_mul_left _ hpips).trans (Nat.le_mul_of_pos_right _ hpos)

theorem Fee.gross_lt (hfee : fee.isValid = true) {used : Nat} (h : used ≤ 2 ^ 192) :
    used + fee.onTop used < 2 ^ 213 := by
  have htop := Fee.onTop_le hfee used
  unfold maxFee at htop
  omega

theorem plainStep_reached (hcurrent : IsValidSqrtPrice current) (htarget : IsValidSqrtPrice target)
    (hl0 : 0 < liquidity) (hl : liquidity < 2 ^ 128) (hfee : fee.isValid = true)
    (hreached : (plainStep current target liquidity remaining fee).sqrtRatioNextX96 = target) :
    (plainStep current target liquidity remaining fee).amountIn +
        (plainStep current target liquidity remaining fee).feeAmount < 2 ^ 213 ∧
      (plainStep current target liquidity remaining fee).amountOut ≤ 2 ^ 192 := by
  have hin := inputOfMove_le hcurrent htarget hl
  have hout := outputOfMove_le hcurrent htarget hl
  unfold plainStep at hreached ⊢
  by_cases hcovers : Covers current target liquidity remaining fee
  · rw [if_pos hcovers]
    exact ⟨Fee.gross_lt hfee hin, hout⟩
  · rw [if_neg hcovers] at hreached ⊢
    by_cases hneg : remaining < 0
    · rw [if_pos hneg] at hreached ⊢
      have hnet := Fee.net_le hfee remaining.natAbs
      have hmax : fee.isMax = false := by
        by_contra hmax
        have hpips : fee.pips = maxFee := by simpa [Fee.isMax] using hmax
        have hzero : fee.net remaining.natAbs = 0 := by
          unfold Fee.net
          rw [Fee.complement_eq hfee, hpips, Nat.sub_self, Nat.mul_zero, Nat.zero_div]
        unfold inputStep at hreached
        dsimp only at hreached
        rw [hzero, priceOfInput_zero hl0 hl] at hreached
        rw [hreached] at hcovers
        exact hcovers covers_self
      have hgross := Fee.gross_lt hfee hin
      have hle : remaining.natAbs < inputOfMove liquidity current target +
          fee.onTop (inputOfMove liquidity current target) := by
        rw [← not_le, ← Fee.le_net_iff hfee hmax]
        unfold Covers at hcovers
        rwa [if_pos hneg] at hcovers
      unfold inputStep at hreached ⊢
      dsimp only at hreached ⊢
      rw [hreached]
      exact ⟨by omega, hout⟩
    · rw [if_neg hneg] at hreached ⊢
      unfold Covers at hcovers
      rw [if_neg hneg] at hcovers
      unfold outputStep at hreached ⊢
      dsimp only at hreached ⊢
      rw [hreached]
      exact ⟨Fee.gross_lt hfee hin, by omega⟩

end Bounds

end RmUniswap
