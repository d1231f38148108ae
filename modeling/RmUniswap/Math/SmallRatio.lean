import RmUniswap.Foundation.Bits
import RmUniswap.Types.Basic

/-!
# Fee ratios

A word times a {lit}`u32` over a {lit}`u32`, by long division on 64-bit limbs.
The number of limbs in use selects one of three widths.
-/

namespace RmUniswap

open Foundation

/-- The 64-bit limb at a position. -/
def limb (k amount : Nat) : Nat := amount / 2 ^ (64 * k) % 2 ^ 64

def fromLimbs (l0 l1 l2 l3 : Nat) : Nat :=
  l0 + 2 ^ 64 * (l1 + 2 ^ 64 * (l2 + 2 ^ 64 * l3))

def divStepU32 (remainder limb denominator : Nat) : Nat × Nat :=
  let current := wrap 128 (remainder <<< 64) ||| limb
  let quotient := current / denominator
  let remainder := current - wrap 128 (quotient * denominator)
  (wrap 64 quotient, wrap 64 remainder)

def divideLeadingU32 (leading denominator : Nat) : Nat × Nat :=
  if leading < denominator then
    (0, leading)
  else
    let quotient := leading / denominator
    let remainder := leading - wrap 64 (quotient * denominator)
    (quotient, remainder)

def mulDivLow64U32 (a0 numerator denominator : Nat) : Nat × Nat :=
  let product := wrap 128 (a0 * numerator)
  let p0 := wrap 64 product
  let p1 := wrap 64 (product >>> 64)
  let (q1, remainder) := divideLeadingU32 p1 denominator
  let (q0, remainder) := divStepU32 remainder p0 denominator
  (fromLimbs q0 q1 0 0, wrap 32 remainder)

def mulDivLow128U32 (a0 a1 numerator denominator : Nat) : Nat × Nat :=
  let product0 := wrap 128 (a0 * numerator)
  let p0 := wrap 64 product0
  let carry0 := product0 >>> 64
  let product1 := wrap 128 (wrap 128 (a1 * numerator) + carry0)
  let p1 := wrap 64 product1
  let p2 := wrap 64 (product1 >>> 64)
  let (q2, remainder) := divideLeadingU32 p2 denominator
  let (q1, remainder) := divStepU32 remainder p1 denominator
  let (q0, remainder) := divStepU32 remainder p0 denominator
  (fromLimbs q0 q1 q2 0, wrap 32 remainder)

def mulDivFullU32 (amount numerator denominator : Nat) : Except Error (Nat × Nat) :=
  let product0 := wrap 128 (limb 0 amount * numerator)
  let p0 := wrap 64 product0
  let carry0 := product0 >>> 64
  let product1 := wrap 128 (wrap 128 (limb 1 amount * numerator) + carry0)
  let p1 := wrap 64 product1
  let carry1 := product1 >>> 64
  let product2 := wrap 128 (wrap 128 (limb 2 amount * numerator) + carry1)
  let p2 := wrap 64 product2
  let carry2 := product2 >>> 64
  let product3 := wrap 128 (wrap 128 (limb 3 amount * numerator) + carry2)
  let p3 := wrap 64 product3
  let p4 := wrap 64 (product3 >>> 64)
  if p4 ≥ denominator then
    .error .overflow
  else
    let (q3, remainder) := divStepU32 p4 p3 denominator
    let (q2, remainder) := divStepU32 remainder p2 denominator
    let (q1, remainder) := divStepU32 remainder p1 denominator
    let (q0, remainder) := divStepU32 remainder p0 denominator
    .ok (fromLimbs q0 q1 q2 q3, wrap 32 remainder)

def mulDivU32DivRem (amount numerator denominator : Nat) : Except Error (Nat × Nat) :=
  if denominator = 0 then
    .error .zeroDenominator
  else if amount = 0 ∨ numerator = 0 then
    .ok (0, 0)
  else if numerator = denominator then
    .ok (amount, 0)
  else if (limb 1 amount ||| limb 2 amount ||| limb 3 amount) = 0 then
    .ok (mulDivLow64U32 (limb 0 amount) numerator denominator)
  else if (limb 2 amount ||| limb 3 amount) = 0 then
    .ok (mulDivLow128U32 (limb 0 amount) (limb 1 amount) numerator denominator)
  else
    mulDivFullU32 amount numerator denominator

def mulDivU32Floor (amount numerator denominator : Nat) : Except Error Nat := do
  let result <- mulDivU32DivRem amount numerator denominator
  .ok result.1

def mulDivU32Ceil (amount numerator denominator : Nat) : Except Error Nat := do
  let result <- mulDivU32DivRem amount numerator denominator
  if result.2 = 0 then
    .ok result.1
  else
    okOr .overflow (checkedAdd 256 result.1 1)

/-!
# One limb
-/

theorem div_append (h l w d : Nat) :
    (h * w + l) / d = h / d * w + (h % d * w + l) / d ∧
      (h * w + l) % d = (h % d * w + l) % d := by
  have hsplit : h * w + l = d * (h / d * w) + (h % d * w + l) := by
    have := Nat.div_add_mod h d
    calc
      h * w + l = (d * (h / d) + h % d) * w + l := by rw [this]
      _ = d * (h / d * w) + (h % d * w + l) := by ring
  rcases Nat.eq_zero_or_pos d with rfl | hd
  · simp
  · constructor
    · rw [hsplit, Nat.mul_add_div hd]
    · rw [hsplit, Nat.mul_add_mod]

theorem divStepU32_eq {r l d : Nat} (hd : d < 2 ^ 32) (hr : r < d) (hl : l < 2 ^ 64) :
    divStepU32 r l d = ((r * 2 ^ 64 + l) / d, (r * 2 ^ 64 + l) % d) ∧
      (r * 2 ^ 64 + l) / d < 2 ^ 64 := by
  have hcurrent : wrap 128 (r <<< 64) ||| l = r * 2 ^ 64 + l := by
    rw [wrap_of_lt (by rw [Nat.shiftLeft_eq]; omega), ← Nat.shiftLeft_add_eq_or_of_lt hl,
      Nat.shiftLeft_eq]
  have hq : (r * 2 ^ 64 + l) / d < 2 ^ 64 := by
    rw [Nat.div_lt_iff_lt_mul (by omega), Nat.mul_comm]
    have : (r + 1) * 2 ^ 64 ≤ d * 2 ^ 64 := Nat.mul_le_mul_right _ hr
    omega
  have hdiv := Nat.div_add_mod' (r * 2 ^ 64 + l) d
  have hmod := Nat.mod_lt (r * 2 ^ 64 + l) (show 0 < d by omega)
  refine ⟨?_, hq⟩
  unfold divStepU32
  simp only
  rw [hcurrent, wrap_of_lt hq, wrap_of_lt (w := 128) (by omega)]
  congr 1
  rw [wrap_of_lt (by omega)]
  omega

theorem divideLeadingU32_eq {l d : Nat} (hl : l < 2 ^ 64) :
    divideLeadingU32 l d = (l / d, l % d) := by
  unfold divideLeadingU32
  split
  · rename_i h
    rw [Nat.div_eq_of_lt h, Nat.mod_eq_of_lt h]
  · have hdiv := Nat.div_add_mod' l d
    simp only
    rw [wrap_of_lt (by omega)]
    congr 1
    omega

theorem mul_limb {a n c : Nat} (ha : a < 2 ^ 64) (hn : n < 2 ^ 32) (hc : c < 2 ^ 32) :
    wrap 128 (wrap 128 (a * n) + c) = a * n + c ∧ (a * n + c) / 2 ^ 64 < 2 ^ 32 := by
  have hle : a * n ≤ (2 ^ 64 - 1) * (2 ^ 32 - 1) := Nat.mul_le_mul (by omega) (by omega)
  constructor
  · rw [wrap_of_lt (x := a * n) (by omega), wrap_of_lt (by omega)]
  · omega

theorem mul_two_limbs (a0 a1 n w : Nat) :
    (a0 + w * a1) * n = (a1 * n + a0 * n / w) * w + a0 * n % w := by
  have hsplit := Nat.div_add_mod' (a0 * n) w
  calc
    (a0 + w * a1) * n = a1 * n * w + a0 * n := by ring
    _ = a1 * n * w + (a0 * n / w * w + a0 * n % w) := by rw [hsplit]
    _ = (a1 * n + a0 * n / w) * w + a0 * n % w := by ring

theorem limbs_eq {amount : Nat} (h : amount < 2 ^ 256) :
    fromLimbs (limb 0 amount) (limb 1 amount) (limb 2 amount) (limb 3 amount) = amount := by
  unfold fromLimbs limb
  norm_num
  omega

theorem limb_lt (k amount : Nat) : limb k amount < 2 ^ 64 :=
  Nat.mod_lt _ (Nat.two_pow_pos 64)

/-!
# The three widths
-/

section Widths

variable {a0 a1 n d : Nat}

private theorem mul_limb_first (ha0 : a0 < 2 ^ 64) (hn : n < 2 ^ 32) :
    wrap 128 (a0 * n) = a0 * n ∧ a0 * n / 2 ^ 64 < 2 ^ 32 := by
  have hprod := mul_limb ha0 hn (show 0 < 2 ^ 32 by norm_num)
  rw [Nat.add_zero, Nat.add_zero] at hprod
  exact ⟨(wrap_of_lt (wrap_lt 128 _)).symm.trans hprod.1, hprod.2⟩

theorem mulDivLow64U32_eq (ha0 : a0 < 2 ^ 64) (hn : n < 2 ^ 32) (hd0 : 0 < d)
    (hd : d < 2 ^ 32) : mulDivLow64U32 a0 n d = (a0 * n / d, a0 * n % d) := by
  have hprod := mul_limb_first ha0 hn
  have happend := div_append (a0 * n / 2 ^ 64) (a0 * n % 2 ^ 64) (2 ^ 64) d
  rw [Nat.div_add_mod'] at happend
  have hstep := divStepU32_eq hd (Nat.mod_lt (a0 * n / 2 ^ 64) hd0)
    (Nat.mod_lt (a0 * n) (Nat.two_pow_pos 64))
  unfold mulDivLow64U32
  simp only [Nat.shiftRight_eq_div_pow]
  rw [hprod.1, wrap_of_lt (x := a0 * n / 2 ^ 64) (by omega),
    divideLeadingU32_eq (by omega), wrap]
  simp only
  rw [hstep.1, happend.1, happend.2, wrap_of_lt ((Nat.mod_lt _ hd0).trans hd)]
  simp only [fromLimbs]
  congr 1
  ring

theorem mulDivLow128U32_eq (ha0 : a0 < 2 ^ 64) (ha1 : a1 < 2 ^ 64) (hn : n < 2 ^ 32)
    (hd0 : 0 < d) (hd : d < 2 ^ 32) :
    mulDivLow128U32 a0 a1 n d =
      ((a0 + 2 ^ 64 * a1) * n / d, (a0 + 2 ^ 64 * a1) * n % d) := by
  have hprod0 := mul_limb_first ha0 hn
  have hprod1 := mul_limb ha1 hn hprod0.2
  have hsplit1 := Nat.div_add_mod' (a1 * n + a0 * n / 2 ^ 64) (2 ^ 64)
  have htotal := mul_two_limbs a0 a1 n (2 ^ 64)
  unfold mulDivLow128U32
  simp only [Nat.shiftRight_eq_div_pow]
  rw [hprod0.1, hprod1.1,
    wrap_of_lt (x := (a1 * n + a0 * n / 2 ^ 64) / 2 ^ 64) (by omega),
    divideLeadingU32_eq (by omega), wrap, wrap, htotal]
  generalize a1 * n + a0 * n / 2 ^ 64 = h1 at hsplit1
  have happend0 := div_append h1 (a0 * n % 2 ^ 64) (2 ^ 64) d
  have happend1 := div_append (h1 / 2 ^ 64) (h1 % 2 ^ 64) (2 ^ 64) d
  rw [hsplit1] at happend1
  have hstep1 := divStepU32_eq hd (Nat.mod_lt (h1 / 2 ^ 64) hd0)
    (Nat.mod_lt h1 (Nat.two_pow_pos 64))
  have hstep0 := divStepU32_eq hd (Nat.mod_lt h1 hd0)
    (Nat.mod_lt (a0 * n) (Nat.two_pow_pos 64))
  simp only
  rw [hstep1.1, ← happend1.2]
  simp only
  rw [hstep0.1, happend0.1, happend0.2, happend1.1, wrap_of_lt ((Nat.mod_lt _ hd0).trans hd)]
  simp only [fromLimbs]
  congr 1
  ring

theorem mulDivFullU32_eq {amount : Nat} (ha : amount < 2 ^ 256) (hn : n < 2 ^ 32)
    (hd0 : 0 < d) (hd : d < 2 ^ 32) :
    mulDivFullU32 amount n d =
      if amount * n / d < 2 ^ 256 then .ok (amount * n / d, amount * n % d)
      else .error .overflow := by
  have hlimbs := limbs_eq ha
  have hl0 := limb_lt 0 amount
  have hl1 := limb_lt 1 amount
  have hl2 := limb_lt 2 amount
  have hl3 := limb_lt 3 amount
  unfold mulDivFullU32
  simp only [Nat.shiftRight_eq_div_pow]
  generalize limb 0 amount = a0 at *
  generalize limb 1 amount = a1 at *
  generalize limb 2 amount = a2 at *
  generalize limb 3 amount = a3 at *
  have hprod0 := mul_limb_first hl0 hn
  have hprod1 := mul_limb hl1 hn hprod0.2
  have hprod2 := mul_limb hl2 hn hprod1.2
  have hprod3 := mul_limb hl3 hn hprod2.2
  rw [hprod0.1, hprod1.1, hprod2.1, hprod3.1]
  have hsplit0 := Nat.div_add_mod' (a0 * n) (2 ^ 64)
  have hsplit1 := Nat.div_add_mod' (a1 * n + a0 * n / 2 ^ 64) (2 ^ 64)
  generalize hh1 : a1 * n + a0 * n / 2 ^ 64 = h1 at *
  have hsplit2 := Nat.div_add_mod' (a2 * n + h1 / 2 ^ 64) (2 ^ 64)
  generalize hh2 : a2 * n + h1 / 2 ^ 64 = h2 at *
  have hsplit3 := Nat.div_add_mod' (a3 * n + h2 / 2 ^ 64) (2 ^ 64)
  generalize hh3 : a3 * n + h2 / 2 ^ 64 = h3 at *
  have htotal : amount * n =
      ((h3 * 2 ^ 64 + h2 % 2 ^ 64) * 2 ^ 64 + h1 % 2 ^ 64) * 2 ^ 64 + a0 * n % 2 ^ 64 := by
    have hexpand : amount * n =
        a0 * n + 2 ^ 64 * (a1 * n + 2 ^ 64 * (a2 * n + 2 ^ 64 * (a3 * n))) := by
      rw [← hlimbs]
      unfold fromLimbs
      ring
    omega
  rw [wrap_of_lt (x := h3 / 2 ^ 64) (by omega), wrap, wrap, wrap, wrap]
  have hfits : amount * n / d < 2 ^ 256 ↔ h3 / 2 ^ 64 < d := by
    rw [Nat.div_lt_iff_lt_mul hd0]
    have := Nat.mod_lt (a0 * n) (Nat.two_pow_pos 64)
    have := Nat.mod_lt h1 (Nat.two_pow_pos 64)
    have := Nat.mod_lt h2 (Nat.two_pow_pos 64)
    omega
  by_cases hover : h3 / 2 ^ 64 ≥ d
  · rw [if_pos hover, if_neg (fun h => absurd (hfits.mp h) (not_lt.mpr hover))]
  · have hlt : h3 / 2 ^ 64 < d := not_le.mp hover
    have happend3 := div_append (h3 / 2 ^ 64) (h3 % 2 ^ 64) (2 ^ 64) d
    rw [hsplit3, Nat.mod_eq_of_lt hlt, Nat.div_eq_of_lt hlt, Nat.zero_mul,
      Nat.zero_add] at happend3
    have hstep3 := divStepU32_eq hd hlt (Nat.mod_lt h3 (Nat.two_pow_pos 64))
    have happend2 := div_append h3 (h2 % 2 ^ 64) (2 ^ 64) d
    have hstep2 := divStepU32_eq hd (Nat.mod_lt h3 hd0) (Nat.mod_lt h2 (Nat.two_pow_pos 64))
    have happend1 := div_append (h3 * 2 ^ 64 + h2 % 2 ^ 64) (h1 % 2 ^ 64) (2 ^ 64) d
    have hstep1 := divStepU32_eq hd (Nat.mod_lt (h3 * 2 ^ 64 + h2 % 2 ^ 64) hd0)
      (Nat.mod_lt h1 (Nat.two_pow_pos 64))
    have happend0 := div_append ((h3 * 2 ^ 64 + h2 % 2 ^ 64) * 2 ^ 64 + h1 % 2 ^ 64)
      (a0 * n % 2 ^ 64) (2 ^ 64) d
    have hstep0 := divStepU32_eq hd
      (Nat.mod_lt ((h3 * 2 ^ 64 + h2 % 2 ^ 64) * 2 ^ 64 + h1 % 2 ^ 64) hd0)
      (Nat.mod_lt (a0 * n) (Nat.two_pow_pos 64))
    rw [if_neg hover, if_pos (hfits.mpr hlt), htotal, hstep3.1]
    simp only
    rw [hsplit3, hstep2.1]
    simp only
    rw [← happend2.2, hstep1.1]
    simp only
    rw [← happend1.2, hstep0.1, wrap_of_lt ((Nat.mod_lt _ hd0).trans hd), ← happend0.2,
      happend0.1, happend1.1, happend2.1]
    simp only [fromLimbs, Except.ok.injEq, Prod.mk.injEq, and_true]
    ring

end Widths

/-!
# Exactness
-/

theorem mulDivU32DivRem_eq {amount n d : Nat} (ha : amount < 2 ^ 256) (hn : n < 2 ^ 32)
    (hd0 : 0 < d) (hd : d < 2 ^ 32) :
    mulDivU32DivRem amount n d =
      if amount * n / d < 2 ^ 256 then .ok (amount * n / d, amount * n % d)
      else .error .overflow := by
  have hlimbs := limbs_eq ha
  unfold fromLimbs at hlimbs
  unfold mulDivU32DivRem
  rw [if_neg (by omega)]
  by_cases hzero : amount = 0 ∨ n = 0
  · have hprod : amount * n = 0 := Nat.mul_eq_zero.mpr hzero
    rw [if_pos hzero, hprod, Nat.zero_div, Nat.zero_mod, if_pos (by norm_num)]
  · rw [if_neg hzero]
    by_cases hsame : n = d
    · rw [if_pos hsame, hsame, Nat.mul_div_cancel _ hd0, Nat.mul_mod_left, if_pos ha]
    · rw [if_neg hsame]
      by_cases hlow : (limb 1 amount ||| limb 2 amount ||| limb 3 amount) = 0
      · have h123 : (limb 1 amount = 0 ∧ limb 2 amount = 0) ∧ limb 3 amount = 0 := by
          rw [← Nat.or_eq_zero_iff, ← Nat.or_eq_zero_iff]
          exact hlow
        have hamount : limb 0 amount = amount := by omega
        have hl0 := limb_lt 0 amount
        have hprod := mul_limb_first hl0 hn
        rw [if_pos hlow, mulDivLow64U32_eq hl0 hn hd0 hd, hamount, if_pos]
        rw [hamount] at hprod
        exact Nat.lt_of_le_of_lt (Nat.div_le_self _ _) (by omega)
      · rw [if_neg hlow]
        by_cases hmid : (limb 2 amount ||| limb 3 amount) = 0
        · have h23 : limb 2 amount = 0 ∧ limb 3 amount = 0 := Nat.or_eq_zero_iff.mp hmid
          have hamount : limb 0 amount + 2 ^ 64 * limb 1 amount = amount := by omega
          have hl0 := limb_lt 0 amount
          have hl1 := limb_lt 1 amount
          rw [if_pos hmid, mulDivLow128U32_eq hl0 hl1 hn hd0 hd, hamount, if_pos]
          have hle : amount * n ≤ 2 ^ 128 * 2 ^ 32 := Nat.mul_le_mul (by omega) (by omega)
          exact Nat.lt_of_le_of_lt (Nat.div_le_self _ _) (by omega)
        · rw [if_neg hmid, mulDivFullU32_eq ha hn hd0 hd]

theorem mulDivU32Floor_eq {amount n d : Nat} (ha : amount < 2 ^ 256) (hn : n < 2 ^ 32)
    (hd0 : 0 < d) (hd : d < 2 ^ 32) :
    mulDivU32Floor amount n d = fitsWord (amount * n / d) := by
  unfold mulDivU32Floor fitsWord
  rw [mulDivU32DivRem_eq ha hn hd0 hd]
  split <;> rfl

theorem mulDivU32Ceil_eq {amount n d : Nat} (ha : amount < 2 ^ 256) (hn : n < 2 ^ 32)
    (hd0 : 0 < d) (hd : d < 2 ^ 32) :
    mulDivU32Ceil amount n d = fitsWord ((amount * n) ⌈/⌉ d) := by
  have hle := div_le_divCeil (amount * n) d
  rw [← divCeil_eq_ceilDiv hd0]
  unfold mulDivU32Ceil fitsWord
  rw [mulDivU32DivRem_eq ha hn hd0 hd]
  by_cases hfit : amount * n / d < 2 ^ 256
  · rw [if_pos hfit, ok_bind]
    unfold divCeil checkedAdd
    by_cases hrem : amount * n % d = 0
    · rw [if_pos hrem, if_pos hrem, if_pos hfit]
    · rw [if_neg hrem, if_neg hrem]
      split <;> rfl
  · rw [if_neg hfit, error_bind, if_neg (fun h => hfit (Nat.lt_of_le_of_lt hle h))]

theorem mulDivU32Floor_eq_ok {amount n d q : Nat} (ha : amount < 2 ^ 256) (hn : n < 2 ^ 32)
    (hd0 : 0 < d) (hd : d < 2 ^ 32) :
    mulDivU32Floor amount n d = .ok q ↔ q = amount * n / d ∧ amount * n / d < 2 ^ 256 := by
  unfold mulDivU32Floor
  rw [mulDivU32DivRem_eq ha hn hd0 hd]
  split
  · rename_i h
    simp only [ok_bind, Except.ok.injEq, h, and_true]
    exact eq_comm
  · rename_i h
    constructor
    · intro hok
      cases hok
    · intro hq
      exact absurd hq.2 h

theorem mulDivU32Ceil_eq_ok {amount n d q : Nat} (ha : amount < 2 ^ 256) (hn : n < 2 ^ 32)
    (hd0 : 0 < d) (hd : d < 2 ^ 32) :
    mulDivU32Ceil amount n d = .ok q ↔
      q = divCeil (amount * n) d ∧ divCeil (amount * n) d < 2 ^ 256 := by
  unfold mulDivU32Ceil divCeil
  rw [mulDivU32DivRem_eq ha hn hd0 hd]
  by_cases hfit : amount * n / d < 2 ^ 256
  · rw [if_pos hfit]
    simp only [ok_bind]
    by_cases hrem : amount * n % d = 0
    · rw [if_pos hrem, if_pos hrem, Except.ok.injEq]
      exact ⟨fun h => ⟨h.symm, hfit⟩, fun h => h.1.symm⟩
    · rw [if_neg hrem, if_neg hrem, okOr_eq_ok, checkedAdd_eq_some]
  · rw [if_neg hfit]
    constructor
    · intro hok
      cases hok
    · intro hq
      have := div_le_divCeil (amount * n) d
      unfold divCeil at this
      exact absurd (Nat.lt_of_le_of_lt this hq.2) hfit

end RmUniswap
