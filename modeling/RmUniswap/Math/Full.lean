import RmUniswap.Foundation.Bits
import RmUniswap.Types.Basic

/-!
# Multiply and divide

{lit}`mulDiv` divides the 512-bit product of two words without a wide division:
it removes the remainder from the product, shifts out the powers of two of the
divisor and multiplies by the inverse of its odd part.  {lit}`mulDivRoundingUp`
shares that core and rounds the quotient up when there was a remainder.
-/

namespace RmUniswap

open Foundation

/-- The inverse of an odd word, from a seed correct modulo sixteen. -/
def modInvU256 (d : Nat) : Nat :=
  let inv := wrap 256 (3 * d) ^^^ 2
  let inv := newtonStep 256 d inv
  let inv := newtonStep 256 d inv
  let inv := newtonStep 256 d inv
  let inv := newtonStep 256 d inv
  let inv := newtonStep 256 d inv
  newtonStep 256 d inv

def split (product : Nat) : Nat × Nat := (product % 2 ^ 256, product / 2 ^ 256)

def shiftLow (shift prod0 prod1 : Nat) : Nat :=
  if shift = 0 then prod0
  else (prod0 >>> shift) ||| wrap 256 (prod1 <<< (256 - shift))

def mulDivCore (prod0 prod1 denominator product : Nat) : Except Error (Nat × Bool) :=
  if prod1 ≥ denominator then
    .error .overflow
  else if isPowerOfTwo denominator then
    let shift := trailingZeros 256 denominator
    let quotient := shiftLow shift prod0 prod1
    let hasRemainder := (prod0 &&& (denominator - 1)) != 0
    .ok (quotient, hasRemainder)
  else
    let remainder := product % denominator
    let hasRemainder := remainder != 0
    let borrow := decide (prod0 < remainder)
    let prod0 := wrappingSub 256 prod0 remainder
    let prod1 := if borrow then prod1 - 1 else prod1
    let twos := denominator &&& wrappingSub 256 0 denominator
    let shift := trailingZeros 256 twos
    let oddDenom := denominator >>> shift
    let prod0 := shiftLow shift prod0 prod1
    let quotient := wrap 256 (prod0 * modInvU256 oddDenom)
    .ok (quotient, hasRemainder)

def mulDiv (a b denominator : Nat) : Except Error Nat :=
  if denominator = 0 then
    .error .zeroDenominator
  else if denominator = 1 then
    okOr .overflow (checkedMul 256 a b)
  else
    match checkedMul 256 a b with
    | some prod0 => .ok (prod0 / denominator)
    | none => do
        let product := a * b
        let words := split product
        let result <- mulDivCore words.1 words.2 denominator product
        .ok result.1

def roundUpIfRemainder (value : Nat) (hasRemainder : Bool) : Except Error Nat :=
  if hasRemainder then okOr .overflow (checkedAdd 256 value 1) else .ok value

def mulDivRoundingUp (a b denominator : Nat) : Except Error Nat :=
  if denominator = 0 then
    .error .zeroDenominator
  else if denominator = 1 then
    okOr .overflow (checkedMul 256 a b)
  else
    match checkedMul 256 a b with
    | some prod0 => roundUpIfRemainder (prod0 / denominator) (prod0 % denominator != 0)
    | none => do
        let product := a * b
        let words := split product
        let result <- mulDivCore words.1 words.2 denominator product
        roundUpIfRemainder result.1 result.2

/-!
# The inverse
-/

private theorem seed_error {d : Nat} (h : d % 2 = 1) :
    (2 ^ 4 : Int) ∣ 1 - d * ((wrap 256 (3 * d) ^^^ 2 : Nat) : Int) := by
  have hmod : (wrap 256 (3 * d) ^^^ 2) % 2 ^ 4 = (3 * (d % 16) % 16 ^^^ 2) % 2 ^ 4 := by
    rw [Nat.xor_mod_two_pow, Nat.xor_mod_two_pow (a := 3 * (d % 16) % 16), wrap,
      Nat.mod_mod_of_dvd _ (by decide : 2 ^ 4 ∣ 2 ^ 256)]
    congr 1
    omega
  generalize wrap 256 (3 * d) ^^^ 2 = inv at hmod
  have hd : d % 16 < 16 := Nat.mod_lt _ (by norm_num)
  have hodd : d % 16 % 2 = 1 := by omega
  have hprod : d * inv % 16 = 1 := by
    rw [Nat.mul_mod, show (16 : Nat) = 2 ^ 4 by norm_num, hmod]
    generalize d % 16 = r at hd hodd
    interval_cases r <;> omega
  have hcast : ((d * inv : Nat) : Int) % 16 = 1 := by exact_mod_cast hprod
  push_cast at hcast
  norm_num
  omega

theorem modInvU256_spec {d : Nat} (h : d % 2 = 1) :
    (2 ^ 256 : Int) ∣ 1 - d * modInvU256 d := by
  have h4 := seed_error h
  have h8 := newtonStep_error (w := 256) (by norm_num) h4
  have h16 := newtonStep_error (w := 256) (by norm_num) h8
  have h32 := newtonStep_error (w := 256) (by norm_num) h16
  have h64 := newtonStep_error (w := 256) (by norm_num) h32
  have h128 := newtonStep_error (w := 256) (by norm_num) h64
  exact newtonStep_error (w := 256) (by norm_num) h128

theorem mul_modInvU256 {d q : Nat} (h : d % 2 = 1) (hq : q < 2 ^ 256) :
    wrap 256 (d * q % 2 ^ 256 * modInvU256 d) = q := by
  have hdvd : ((2 ^ 256 : Nat) : Int) ∣
      ((q : Nat) : Int) - ((d * q * modInvU256 d : Nat) : Int) := by
    push_cast
    have := Dvd.dvd.mul_left (modInvU256_spec h) (q : Int)
    have hring : (q : Int) * (1 - d * modInvU256 d) = q - d * q * modInvU256 d := by ring
    rwa [hring] at this
  have hmod : d * q * modInvU256 d % 2 ^ 256 = q % 2 ^ 256 :=
    (Nat.modEq_iff_dvd.mpr hdvd)
  rw [wrap, Nat.mod_mul_mod, hmod, Nat.mod_eq_of_lt hq]

/-!
# The core
-/

theorem shiftLow_eq {shift prod0 : Nat} (prod1 : Nat) (hs : shift ≤ 256)
    (h0 : prod0 < 2 ^ 256) :
    shiftLow shift prod0 prod1 = ((prod1 * 2 ^ 256 + prod0) / 2 ^ shift) % 2 ^ 256 := by
  unfold shiftLow
  split
  · rename_i h
    rw [h, pow_zero, Nat.div_one, Nat.mul_add_mod', Nat.mod_eq_of_lt h0]
  · exact shiftRight_or_shiftLeft hs h0

private theorem borrow_words {w n r lo hi : Nat} (hn : n = hi * w + lo)
    (hlo : lo < w) (hr : r ≤ n) (hrw : r < w) :
    (if decide (lo < r) = true then hi - 1 else hi) * w + (lo + (w - r % w)) % w = n - r := by
  rw [Nat.mod_eq_of_lt hrw]
  rcases Nat.lt_or_ge lo r with hlt | hge
  · have hhi : 1 ≤ hi := by
      rcases Nat.eq_zero_or_pos hi with hzero | hpos
      · rw [hzero, Nat.zero_mul] at hn
        omega
      · exact hpos
    have hsub : (hi - 1) * w + w = hi * w := by
      rw [← Nat.succ_mul]
      congr 1
      omega
    rw [decide_eq_true hlt, if_pos rfl, Nat.mod_eq_of_lt (by omega)]
    omega
  · rw [decide_eq_false (by omega), if_neg (by decide),
      show lo + (w - r) = lo - r + w by omega, Nat.add_mod_right,
      Nat.mod_eq_of_lt (by omega)]
    omega

private theorem land_pred_eq_mod {w k : Nat} (hi lo : Nat) (hk : k < w) :
    lo &&& (2 ^ k - 1) = (hi * 2 ^ w + lo) % 2 ^ k := by
  have hdvd : 2 ^ k ∣ hi * 2 ^ w := (pow_dvd_pow 2 (le_of_lt hk)).mul_left hi
  rw [Nat.and_two_pow_sub_one_eq_mod, Nat.add_mod, Nat.mod_eq_zero_of_dvd hdvd, Nat.zero_add,
    Nat.mod_mod]

theorem mulDivCore_eq {n lo hi d : Nat} (hd0 : 0 < d) (hd : d < 2 ^ 256)
    (hlo : lo < 2 ^ 256) (hn : n = hi * 2 ^ 256 + lo) :
    mulDivCore lo hi d n =
      if n / d < 2 ^ 256 then .ok (n / d, n % d != 0) else .error .overflow := by
  have hhi : n / 2 ^ 256 = hi := by
    rw [hn, Nat.mul_comm, Nat.mul_add_div (Nat.two_pow_pos 256), Nat.div_eq_of_lt hlo,
      Nat.add_zero]
  have hfits : n / d < 2 ^ 256 ↔ hi < d := by
    rw [← hhi, Nat.div_lt_iff_lt_mul hd0, Nat.div_lt_iff_lt_mul (Nat.two_pow_pos 256),
      Nat.mul_comm]
  unfold mulDivCore
  by_cases hover : hi ≥ d
  · rw [if_pos hover, if_neg (fun h => absurd (hfits.mp h) (not_lt.mpr hover))]
  · have hq : n / d < 2 ^ 256 := hfits.mpr (not_le.mp hover)
    rw [if_neg hover, if_pos hq]
    by_cases hpow : isPowerOfTwo d = true
    · have hd2 := ((isPowerOfTwo_iff hd).mp hpow).2
      have hshift := trailingZeros_lt hd0 hd
      have hval := shiftLow_eq hi (le_of_lt hshift) hlo
      have hrem := land_pred_eq_mod hi lo hshift
      rw [← hn, ← hd2, Nat.mod_eq_of_lt hq] at hval
      rw [← hn, ← hd2] at hrem
      rw [if_pos hpow]
      simp only
      rw [hval, hrem]
    · rcases trailingZeros_spec hd0 hd with ⟨m, hm⟩
      have hk := trailingZeros_lt hd0 hd
      generalize trailingZeros 256 d = k at hm hk
      have htwos : d &&& wrappingSub 256 0 d = 2 ^ k := by
        have hneg : wrappingSub 256 0 d = 2 ^ 256 - d := by
          unfold wrappingSub
          rw [Nat.mod_eq_of_lt hd, Nat.zero_add,
            Nat.mod_eq_of_lt (Nat.sub_lt (Nat.two_pow_pos 256) hd0)]
        rw [hneg, hm]
        exact land_neg (by rw [← hm]; exact hd)
      have hshift : trailingZeros 256 (2 ^ k) = k := by
        simpa using trailingZeros_two_pow_mul (m := 0) hk
      have hodd : d >>> k = 2 * m + 1 := by
        rw [Nat.shiftRight_eq_div_pow]
        exact Nat.div_eq_of_eq_mul_right (Nat.two_pow_pos k) hm
      have hr := Nat.mod_lt n hd0
      have hwords := borrow_words hn hlo (Nat.mod_le n d) (hr.trans hd)
      have hexact : (n - n % d) / 2 ^ k = (2 * m + 1) * (n / d) := by
        apply Nat.div_eq_of_eq_mul_right (Nat.two_pow_pos k)
        rw [← Nat.mul_assoc, ← hm]
        have := Nat.div_add_mod n d
        omega
      rw [if_neg hpow]
      simp only
      rw [htwos, hshift, hodd, shiftLow_eq _ (le_of_lt hk) (wrappingSub_lt _ _ _), wrappingSub,
        hwords, hexact, mul_modInvU256 (by omega) hq]

theorem mulDiv_eq {a b d : Nat} (hd0 : 0 < d) (hd : d < 2 ^ 256) :
    mulDiv a b d =
      if a * b / d < 2 ^ 256 then .ok (a * b / d) else .error .overflow := by
  unfold mulDiv
  rw [if_neg (by omega)]
  by_cases hone : d = 1
  · rw [if_pos hone, hone, Nat.div_one, checkedMul]
    split <;> rfl
  · rw [if_neg hone]
    by_cases hfit : a * b < 2 ^ 256
    · rw [checkedMul, if_pos hfit, if_pos (Nat.lt_of_le_of_lt (Nat.div_le_self _ _) hfit)]
    · rw [checkedMul, if_neg hfit]
      simp only [split]
      rw [mulDivCore_eq hd0 hd (Nat.mod_lt (a * b) (Nat.two_pow_pos 256))
        (Nat.div_add_mod' (a * b) _).symm]
      split <;> rfl

theorem mulDiv_eq_ok {a b d q : Nat} (hd0 : 0 < d) (hd : d < 2 ^ 256) :
    mulDiv a b d = .ok q ↔ q = a * b / d ∧ a * b / d < 2 ^ 256 := by
  rw [mulDiv_eq hd0 hd]
  split
  · rename_i h
    simp only [Except.ok.injEq, h, and_true]
    exact eq_comm
  · rename_i h
    constructor
    · intro hok
      cases hok
    · intro hq
      exact absurd hq.2 h

/-!
# Rounding up
-/

theorem roundUpIfRemainder_eq {n d : Nat} (hd0 : 0 < d) (hq : n / d < 2 ^ 256) :
    roundUpIfRemainder (n / d) (n % d != 0) =
      if n ⌈/⌉ d < 2 ^ 256 then .ok (n ⌈/⌉ d) else .error .overflow := by
  rw [← divCeil_eq_ceilDiv hd0]
  unfold roundUpIfRemainder divCeil checkedAdd
  by_cases hrem : n % d = 0
  · rw [if_neg (by simpa using hrem), if_pos hrem, if_pos hq]
  · rw [if_pos (by simpa using hrem), if_neg hrem]
    split <;> rfl

theorem ceilDiv_not_lt {n d : Nat} (hd0 : 0 < d) (h : ¬ n / d < 2 ^ 256) :
    ¬ n ⌈/⌉ d < 2 ^ 256 := by
  rw [← divCeil_eq_ceilDiv hd0]
  exact fun hlt => h (Nat.lt_of_le_of_lt (div_le_divCeil _ _) hlt)

theorem mulDivRoundingUp_eq {a b d : Nat} (hd0 : 0 < d) (hd : d < 2 ^ 256) :
    mulDivRoundingUp a b d =
      if (a * b) ⌈/⌉ d < 2 ^ 256 then .ok ((a * b) ⌈/⌉ d) else .error .overflow := by
  unfold mulDivRoundingUp
  rw [if_neg (by omega)]
  by_cases hone : d = 1
  · rw [if_pos hone, hone, ceilDiv_one, checkedMul]
    split <;> rfl
  · rw [if_neg hone]
    by_cases hfit : a * b < 2 ^ 256
    · rw [checkedMul, if_pos hfit]
      exact roundUpIfRemainder_eq hd0 (Nat.lt_of_le_of_lt (Nat.div_le_self _ _) hfit)
    · rw [checkedMul, if_neg hfit]
      simp only [split]
      rw [mulDivCore_eq hd0 hd (Nat.mod_lt (a * b) (Nat.two_pow_pos 256))
        (Nat.div_add_mod' (a * b) _).symm]
      by_cases hq : a * b / d < 2 ^ 256
      · rw [if_pos hq, ok_bind]
        exact roundUpIfRemainder_eq hd0 hq
      · rw [if_neg hq, if_neg (ceilDiv_not_lt hd0 hq), error_bind]

/-!
# Exactness
-/

/-- Both routines return the exact quotient in their direction, and fail only
on a zero divisor or on a quotient of more than one word. -/
theorem mulDiv_exact {a b d : Nat} (hd : d < 2 ^ 256) :
    (d = 0 -> mulDiv a b d = .error .zeroDenominator ∧
      mulDivRoundingUp a b d = .error .zeroDenominator) ∧
    (0 < d -> mulDiv a b d = fitsWord (a * b / d) ∧
      mulDivRoundingUp a b d = fitsWord ((a * b) ⌈/⌉ d)) := by
  constructor
  · intro hzero
    unfold mulDiv mulDivRoundingUp
    rw [if_pos hzero, if_pos hzero]
    exact ⟨rfl, rfl⟩
  · intro hd0
    exact ⟨mulDiv_eq hd0 hd, mulDivRoundingUp_eq hd0 hd⟩

/-- A product of more than one word, over a divisor with an odd part. -/
theorem mulDiv_exact_sample :
    (mulDiv (2 ^ 200) (2 ^ 200) (3 * 2 ^ 150) = fitsWord (2 ^ 200 * 2 ^ 200 / (3 * 2 ^ 150)) ∧
      mulDivRoundingUp (2 ^ 200) (2 ^ 200) (3 * 2 ^ 150) =
        fitsWord ((2 ^ 200 * 2 ^ 200) ⌈/⌉ (3 * 2 ^ 150))) ∧
      fitsWord ((2 ^ 200 * 2 ^ 200) ⌈/⌉ (3 * 2 ^ 150)) = .ok ((2 ^ 250 + 2) / 3) :=
  ⟨(mulDiv_exact (d := 3 * 2 ^ 150) (by norm_num)).2 (by norm_num), by decide +kernel⟩

end RmUniswap
