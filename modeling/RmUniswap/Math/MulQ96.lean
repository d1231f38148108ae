import RmUniswap.Math.Full

/-!
# Multiplication by the fixed-point unit

{lit}`mulQ96Div` and {lit}`mulQ96DivRoundingUp` specialise the general routines
to the factor {lit}`2 ^ 96`.  The product is a shift, and the cases of the
divisor replace the 512-bit division wherever a shift or a one-word division
is enough.
-/

namespace RmUniswap

open Foundation

def narrow (v : Nat) : Except Error Nat :=
  if v / 2 ^ 256 ≠ 0 then .error .overflow else .ok (v % 2 ^ 256)

def mulQ96Div (amount denominator : Nat) : Except Error Nat :=
  if denominator = 0 then
    .error .zeroDenominator
  else if amount = 0 then
    .ok 0
  else if denominator = 1 then
    if amount > (2 ^ 256 - 1) >>> 96 then .error .overflow else .ok (wrap 256 (amount <<< 96))
  else if isPowerOfTwo denominator then
    let shift := trailingZeros 256 denominator
    if shift ≤ 96 then
      let leftShift := 96 - shift
      if leftShift = 0 then
        .ok amount
      else if amount > (2 ^ 256 - 1) >>> leftShift then
        .error .overflow
      else
        .ok (wrap 256 (amount <<< leftShift))
    else
      .ok (amount >>> (shift - 96))
  else if amount ≤ (2 ^ 256 - 1) >>> 96 then
    .ok (wrap 256 (amount <<< 96) / denominator)
  else
    let numeratorHigh := amount >>> 160
    if numeratorHigh ≥ denominator then
      .error .overflow
    else
      let numerator := wrap 512 (amount <<< 96)
      let quotient := numerator / denominator
      narrow quotient

def mulQ96DivRoundingUp (amount denominator : Nat) : Except Error Nat :=
  if denominator = 0 then
    .error .zeroDenominator
  else if amount = 0 then
    .ok 0
  else if denominator = 1 then
    if amount > (2 ^ 256 - 1) >>> 96 then .error .overflow else .ok (wrap 256 (amount <<< 96))
  else if isPowerOfTwo denominator then
    let shift := trailingZeros 256 denominator
    if shift ≤ 96 then
      let leftShift := 96 - shift
      if leftShift = 0 then
        .ok amount
      else if amount > (2 ^ 256 - 1) >>> leftShift then
        .error .overflow
      else
        .ok (wrap 256 (amount <<< leftShift))
    else
      let rightShift := shift - 96
      let quotient := amount >>> rightShift
      let mask := wrap 256 (1 <<< rightShift) - 1
      let hasRemainder := (amount &&& mask) != 0
      roundUpIfRemainder quotient hasRemainder
  else if amount ≤ (2 ^ 256 - 1) >>> 96 then
    let shifted := wrap 256 (amount <<< 96)
    roundUpIfRemainder (shifted / denominator) (shifted % denominator != 0)
  else
    let numeratorHigh := amount >>> 160
    if numeratorHigh ≥ denominator then
      .error .overflow
    else do
      let numerator := wrap 512 (amount <<< 96)
      let quotient <- narrow (numerator / denominator)
      roundUpIfRemainder quotient (numerator % denominator != 0)

/-!
# Shifts
-/

theorem le_max_shiftRight_iff {k amount : Nat} :
    amount ≤ (2 ^ 256 - 1) >>> k ↔ amount * 2 ^ k < 2 ^ 256 := by
  rw [Nat.shiftRight_eq_div_pow, Nat.le_div_iff_mul_le (Nat.two_pow_pos k)]
  have : 0 < 2 ^ 256 := Nat.two_pow_pos 256
  omega

theorem shiftLeft_eq_fitsWord (k amount : Nat) :
    (if amount > (2 ^ 256 - 1) >>> k then Except.error Error.overflow
      else .ok (wrap 256 (amount <<< k))) = fitsWord (amount * 2 ^ k) := by
  unfold fitsWord
  by_cases hfit : amount * 2 ^ k < 2 ^ 256
  · rw [if_neg (not_lt.mpr (le_max_shiftRight_iff.mpr hfit)), if_pos hfit, Nat.shiftLeft_eq,
      wrap_of_lt hfit]
  · rw [if_pos (not_le.mp (fun h => hfit (le_max_shiftRight_iff.mp h))), if_neg hfit]

theorem shiftRight_lt_iff {amount d : Nat} (hd0 : 0 < d) :
    amount >>> 160 < d ↔ amount * 2 ^ 96 / d < 2 ^ 256 := by
  rw [Nat.shiftRight_eq_div_pow, Nat.div_lt_iff_lt_mul (Nat.two_pow_pos 160),
    Nat.div_lt_iff_lt_mul hd0]
  omega

theorem narrow_of_lt {v : Nat} (h : v < 2 ^ 256) : narrow v = .ok v := by
  unfold narrow
  rw [Nat.div_eq_of_lt h, if_neg (by simp), Nat.mod_eq_of_lt h]

/-!
# Powers of two
-/

section PowerOfTwo

variable {k amount : Nat}

theorem mul_two_pow_ceilDiv (hk : k ≤ 96) :
    amount * 2 ^ 96 / 2 ^ k = amount * 2 ^ (96 - k) ∧
      (amount * 2 ^ 96) ⌈/⌉ 2 ^ k = amount * 2 ^ (96 - k) := by
  have hsplit : amount * 2 ^ 96 = amount * 2 ^ (96 - k) * 2 ^ k := by
    rw [Nat.mul_assoc, ← pow_add, Nat.sub_add_cancel hk]
  have hpos : 0 < 2 ^ k := Nat.two_pow_pos k
  constructor
  · rw [hsplit, Nat.mul_div_cancel _ hpos]
  · rw [hsplit, Nat.mul_comm, ← smul_eq_mul, smul_ceilDiv hpos]

theorem mul_two_pow_div (hk : 96 < k) :
    amount * 2 ^ 96 / 2 ^ k = amount / 2 ^ (k - 96) := by
  have hsplit : 2 ^ k = 2 ^ (k - 96) * 2 ^ 96 := by
    rw [← pow_add, Nat.sub_add_cancel (le_of_lt hk)]
  rw [hsplit, Nat.mul_div_mul_right _ _ (Nat.two_pow_pos 96)]

theorem mul_two_pow_mod (hk : 96 < k) :
    amount * 2 ^ 96 % 2 ^ k = amount % 2 ^ (k - 96) * 2 ^ 96 := by
  have hsplit : 2 ^ k = 2 ^ (k - 96) * 2 ^ 96 := by
    rw [← pow_add, Nat.sub_add_cancel (le_of_lt hk)]
  rw [hsplit, Nat.mul_mod_mul_right]

end PowerOfTwo

theorem leftShift_eq_fitsWord {amount : Nat} (ha : amount < 2 ^ 256) (k : Nat) :
    (if k = 0 then Except.ok amount
      else if amount > (2 ^ 256 - 1) >>> k then .error Error.overflow
      else .ok (wrap 256 (amount <<< k))) = fitsWord (amount * 2 ^ k) := by
  by_cases hk : k = 0
  · rw [if_pos hk, hk, pow_zero, Nat.mul_one, fitsWord, if_pos ha]
  · rw [if_neg hk, shiftLeft_eq_fitsWord]

/-!
# Exactness
-/

section Exact

variable {amount d : Nat}

theorem mulQ96Div_eq (ha : amount < 2 ^ 256) (hd0 : 0 < d) (hd : d < 2 ^ 256) :
    mulQ96Div amount d = fitsWord (amount * 2 ^ 96 / d) := by
  unfold mulQ96Div
  rw [if_neg (by omega)]
  by_cases hzero : amount = 0
  · rw [if_pos hzero, hzero, Nat.zero_mul, Nat.zero_div, fitsWord_of_lt (Nat.two_pow_pos 256)]
  rw [if_neg hzero]
  by_cases hone : d = 1
  · rw [if_pos hone, hone, Nat.div_one, shiftLeft_eq_fitsWord]
  rw [if_neg hone]
  by_cases hpow : isPowerOfTwo d = true
  · have hd2 := ((isPowerOfTwo_iff hd).mp hpow).2
    rw [if_pos hpow]
    generalize trailingZeros 256 d = k at hd2
    dsimp only
    rw [hd2]
    by_cases hk : k ≤ 96
    · rw [if_pos hk, leftShift_eq_fitsWord ha, (mul_two_pow_ceilDiv hk).1]
    · have hq : amount / 2 ^ (k - 96) < 2 ^ 256 := Nat.lt_of_le_of_lt (Nat.div_le_self _ _) ha
      rw [if_neg hk, mul_two_pow_div (not_le.mp hk), Nat.shiftRight_eq_div_pow,
        fitsWord_of_lt hq]
  rw [if_neg hpow]
  by_cases hfast : amount ≤ (2 ^ 256 - 1) >>> 96
  · have hfit := le_max_shiftRight_iff.mp hfast
    rw [if_pos hfast, Nat.shiftLeft_eq, wrap_of_lt hfit,
      fitsWord_of_lt (Nat.lt_of_le_of_lt (Nat.div_le_self _ _) hfit)]
  rw [if_neg hfast]
  dsimp only
  by_cases hq : amount * 2 ^ 96 / d < 2 ^ 256
  · rw [if_neg (not_le.mpr ((shiftRight_lt_iff hd0).mpr hq)), Nat.shiftLeft_eq,
      wrap_of_lt (by omega), narrow_of_lt hq, fitsWord_of_lt hq]
  · rw [if_pos (not_lt.mp (fun h => hq ((shiftRight_lt_iff hd0).mp h))), fitsWord, if_neg hq]

theorem mulQ96DivRoundingUp_eq (ha : amount < 2 ^ 256) (hd0 : 0 < d) (hd : d < 2 ^ 256) :
    mulQ96DivRoundingUp amount d = fitsWord ((amount * 2 ^ 96) ⌈/⌉ d) := by
  unfold mulQ96DivRoundingUp
  rw [if_neg (by omega)]
  by_cases hzero : amount = 0
  · rw [if_pos hzero, hzero, Nat.zero_mul, zero_ceilDiv, fitsWord_of_lt (Nat.two_pow_pos 256)]
  rw [if_neg hzero]
  by_cases hone : d = 1
  · rw [if_pos hone, hone, ceilDiv_one, shiftLeft_eq_fitsWord]
  rw [if_neg hone]
  by_cases hpow : isPowerOfTwo d = true
  · have hd2 := ((isPowerOfTwo_iff hd).mp hpow).2
    have hk256 := trailingZeros_lt hd0 hd
    rw [if_pos hpow]
    generalize trailingZeros 256 d = k at hd2 hk256
    dsimp only
    by_cases hk : k ≤ 96
    · rw [if_pos hk, leftShift_eq_fitsWord ha, hd2, (mul_two_pow_ceilDiv hk).2]
    · have hq : amount * 2 ^ 96 / d < 2 ^ 256 := by
        rw [hd2, mul_two_pow_div (not_le.mp hk)]
        exact Nat.lt_of_le_of_lt (Nat.div_le_self _ _) ha
      have hmask : wrap 256 (1 <<< (k - 96)) = 2 ^ (k - 96) := by
        rw [Nat.one_shiftLeft]
        exact wrap_of_lt (Nat.pow_lt_pow_right (by norm_num) (by omega))
      -- the bits shifted out decide whether the product has a remainder
      have hrem : ((amount &&& (2 ^ (k - 96) - 1)) != 0) = (amount * 2 ^ 96 % d != 0) := by
        rw [Nat.and_two_pow_sub_one_eq_mod, hd2, mul_two_pow_mod (not_le.mp hk), bne, bne,
          Bool.eq_iff_iff]
        simp
      rw [if_neg hk, hmask, hrem, Nat.shiftRight_eq_div_pow, ← mul_two_pow_div (not_le.mp hk),
        ← hd2]
      exact roundUpIfRemainder_eq hd0 hq
  rw [if_neg hpow]
  by_cases hfast : amount ≤ (2 ^ 256 - 1) >>> 96
  · have hfit := le_max_shiftRight_iff.mp hfast
    rw [if_pos hfast]
    dsimp only
    rw [Nat.shiftLeft_eq, wrap_of_lt hfit]
    exact roundUpIfRemainder_eq hd0 (Nat.lt_of_le_of_lt (Nat.div_le_self _ _) hfit)
  rw [if_neg hfast]
  dsimp only
  by_cases hq : amount * 2 ^ 96 / d < 2 ^ 256
  · rw [if_neg (not_le.mpr ((shiftRight_lt_iff hd0).mpr hq)), Nat.shiftLeft_eq,
      wrap_of_lt (by omega), narrow_of_lt hq, ok_bind]
    exact roundUpIfRemainder_eq hd0 hq
  · rw [if_pos (not_lt.mp (fun h => hq ((shiftRight_lt_iff hd0).mp h))), fitsWord,
      if_neg (ceilDiv_not_lt hd0 hq)]

end Exact

/-- The shortcuts agree with the general routines, errors included. -/
theorem mulQ96Div_agrees {amount denominator : Nat} (ha : amount < 2 ^ 256)
    (hd : denominator < 2 ^ 256) :
    mulQ96Div amount denominator = mulDiv amount (2 ^ 96) denominator ∧
      mulQ96DivRoundingUp amount denominator =
        mulDivRoundingUp amount (2 ^ 96) denominator := by
  rcases Nat.eq_zero_or_pos denominator with hzero | hd0
  · unfold mulQ96Div mulQ96DivRoundingUp mulDiv mulDivRoundingUp
    rw [if_pos hzero, if_pos hzero, if_pos hzero, if_pos hzero]
    exact ⟨rfl, rfl⟩
  · rw [mulQ96Div_eq ha hd0 hd, mulQ96DivRoundingUp_eq ha hd0 hd, mulDiv_eq hd0 hd,
      mulDivRoundingUp_eq hd0 hd]
    exact ⟨rfl, rfl⟩

/-- A numerator of more than one word, over a divisor with an odd part. -/
theorem mulQ96Div_agrees_sample :
    (mulQ96Div (2 ^ 200) (3 * 2 ^ 150) = mulDiv (2 ^ 200) (2 ^ 96) (3 * 2 ^ 150) ∧
      mulQ96DivRoundingUp (2 ^ 200) (3 * 2 ^ 150) =
        mulDivRoundingUp (2 ^ 200) (2 ^ 96) (3 * 2 ^ 150)) ∧
      mulQ96DivRoundingUp (2 ^ 200) (3 * 2 ^ 150) = .ok ((2 ^ 146 + 2) / 3) :=
  ⟨mulQ96Div_agrees (by norm_num) (by norm_num), by decide +kernel⟩

end RmUniswap
