import RmUniswap.Math.SmallRatio
import RmUniswap.Foundation.Result

/-!
# Fee ratios in a debug build

The three widths of the long division once more, with every check of a debug
build: products, sums and differences trap when they leave their width, and so
does a failed assertion of the division step.  None of them ever traps, so the
casts of the release build lose nothing.
-/

namespace RmUniswap

open Foundation

def mulU128Debug (a b : Nat) : Outcome Error Nat := do
  Outcome.panicIf (¬ a * b < 2 ^ 128)
  pure (a * b)

def mulAddU128Debug (a b c : Nat) : Outcome Error Nat := do
  let product <- mulU128Debug a b
  Outcome.panicIf (¬ product + c < 2 ^ 128)
  pure (product + c)

/-- One digit.  A debug build also asserts that the quotient is a limb and that
the remainder is reduced. -/
def divStepU32Debug (remainder limb denominator : Nat) : Outcome Error (Nat × Nat) := do
  Outcome.panicIf (denominator = 0)
  Outcome.panicIf (¬ remainder < denominator)
  let high <- mulU128Debug remainder (2 ^ 64)
  let current := high ||| limb
  let quotient := current / denominator
  let product <- mulU128Debug quotient denominator
  Outcome.panicIf (current < product)
  let remainder := current - product
  Outcome.panicIf (¬ quotient ≤ 2 ^ 64 - 1)
  Outcome.panicIf (¬ remainder < denominator)
  pure (quotient, remainder)

def divideLeadingU32Debug (leading denominator : Nat) : Outcome Error (Nat × Nat) := do
  if leading < denominator then
    pure (0, leading)
  else
    let quotient := leading / denominator
    Outcome.panicIf (¬ quotient * denominator < 2 ^ 64)
    Outcome.panicIf (leading < quotient * denominator)
    pure (quotient, leading - quotient * denominator)

def mulDivLow64U32Debug (a0 numerator denominator : Nat) : Outcome Error (Nat × Nat) := do
  let product <- mulU128Debug a0 numerator
  let p0 := wrap 64 product
  let p1 := wrap 64 (product >>> 64)
  let step1 <- divideLeadingU32Debug p1 denominator
  let step0 <- divStepU32Debug step1.2 p0 denominator
  pure (fromLimbs step0.1 step1.1 0 0, wrap 32 step0.2)

def mulDivLow128U32Debug (a0 a1 numerator denominator : Nat) : Outcome Error (Nat × Nat) := do
  let product0 <- mulU128Debug a0 numerator
  let p0 := wrap 64 product0
  let carry0 := product0 >>> 64
  let product1 <- mulAddU128Debug a1 numerator carry0
  let p1 := wrap 64 product1
  let p2 := wrap 64 (product1 >>> 64)
  let step2 <- divideLeadingU32Debug p2 denominator
  let step1 <- divStepU32Debug step2.2 p1 denominator
  let step0 <- divStepU32Debug step1.2 p0 denominator
  pure (fromLimbs step0.1 step1.1 step2.1 0, wrap 32 step0.2)

def mulDivFullU32Debug (amount numerator denominator : Nat) : Outcome Error (Nat × Nat) := do
  let product0 <- mulU128Debug (limb 0 amount) numerator
  let p0 := wrap 64 product0
  let carry0 := product0 >>> 64
  let product1 <- mulAddU128Debug (limb 1 amount) numerator carry0
  let p1 := wrap 64 product1
  let carry1 := product1 >>> 64
  let product2 <- mulAddU128Debug (limb 2 amount) numerator carry1
  let p2 := wrap 64 product2
  let carry2 := product2 >>> 64
  let product3 <- mulAddU128Debug (limb 3 amount) numerator carry2
  let p3 := wrap 64 product3
  let p4 := wrap 64 (product3 >>> 64)
  if p4 ≥ denominator then
    .err .overflow
  else
    let step3 <- divStepU32Debug p4 p3 denominator
    let step2 <- divStepU32Debug step3.2 p2 denominator
    let step1 <- divStepU32Debug step2.2 p1 denominator
    let step0 <- divStepU32Debug step1.2 p0 denominator
    pure (fromLimbs step0.1 step1.1 step2.1 step3.1, wrap 32 step0.2)

/-!
# No operation traps
-/

theorem mulU128Debug_eq {a b : Nat} (h : a * b < 2 ^ 128) :
    mulU128Debug a b = .ok (wrap 128 (a * b)) := by
  unfold mulU128Debug
  rw [Outcome.panicIf_of_not (not_not.mpr h), Outcome.ok_bind, wrap_of_lt h]
  rfl

theorem mulAddU128Debug_eq {a n c : Nat} (ha : a < 2 ^ 64) (hn : n < 2 ^ 32) (hc : c < 2 ^ 32) :
    mulAddU128Debug a n c = .ok (wrap 128 (wrap 128 (a * n) + c)) ∧
      wrap 128 (wrap 128 (a * n) + c) >>> 64 < 2 ^ 32 := by
  have hle : a * n ≤ (2 ^ 64 - 1) * (2 ^ 32 - 1) := Nat.mul_le_mul (by omega) (by omega)
  have hlimb := mul_limb ha hn hc
  constructor
  · unfold mulAddU128Debug
    rw [mulU128Debug_eq (by omega), Outcome.ok_bind, wrap_of_lt (x := a * n) (by omega),
      Outcome.panicIf_of_not (not_not.mpr (show a * n + c < 2 ^ 128 by omega)), Outcome.ok_bind,
      wrap_of_lt (by omega)]
    rfl
  · rw [hlimb.1, Nat.shiftRight_eq_div_pow]
    exact hlimb.2

theorem divStepU32Debug_eq {r l d : Nat} (hd : d < 2 ^ 32) (hr : r < d) (hl : l < 2 ^ 64) :
    divStepU32Debug r l d = .ok (divStepU32 r l d) ∧ (divStepU32 r l d).2 < d := by
  have hstep := divStepU32_eq hd hr hl
  have hor : wrap 128 (r * 2 ^ 64) ||| l = r * 2 ^ 64 + l := by
    rw [wrap_of_lt (by omega), ← Nat.shiftLeft_eq, ← Nat.shiftLeft_add_eq_or_of_lt hl]
  have hdiv := Nat.div_add_mod' (r * 2 ^ 64 + l) d
  have hmod := Nat.mod_lt (r * 2 ^ 64 + l) (show 0 < d by omega)
  rw [hstep.1]
  refine ⟨?_, hmod⟩
  unfold divStepU32Debug
  rw [Outcome.panicIf_of_not (by omega), Outcome.ok_bind,
    Outcome.panicIf_of_not (not_not.mpr hr), Outcome.ok_bind,
    mulU128Debug_eq (a := r) (by omega), Outcome.ok_bind, hor]
  dsimp only
  rw [mulU128Debug_eq (show (r * 2 ^ 64 + l) / d * d < 2 ^ 128 by omega), Outcome.ok_bind,
    wrap_of_lt (x := (r * 2 ^ 64 + l) / d * d) (by omega),
    Outcome.panicIf_of_not (by omega), Outcome.ok_bind,
    Outcome.panicIf_of_not (by omega), Outcome.ok_bind,
    Outcome.panicIf_of_not (by omega), Outcome.ok_bind,
    show r * 2 ^ 64 + l - (r * 2 ^ 64 + l) / d * d = (r * 2 ^ 64 + l) % d by omega]
  rfl

theorem divideLeadingU32Debug_eq {l d : Nat} (hl : l < 2 ^ 64) (hd0 : 0 < d) :
    divideLeadingU32Debug l d = .ok (divideLeadingU32 l d) ∧ (divideLeadingU32 l d).2 < d := by
  have hdiv := Nat.div_add_mod' l d
  have hmod := Nat.mod_lt l hd0
  refine ⟨?_, by rw [divideLeadingU32_eq hl]; exact hmod⟩
  unfold divideLeadingU32Debug divideLeadingU32
  split
  · rfl
  · dsimp only
    rw [Outcome.panicIf_of_not (by omega), Outcome.ok_bind,
      Outcome.panicIf_of_not (by omega), Outcome.ok_bind, wrap_of_lt (by omega)]
    rfl

section Widths

variable {a0 a1 n d : Nat}

theorem mulDivLow64U32Debug_eq (ha0 : a0 < 2 ^ 64) (hn : n < 2 ^ 32) (hd0 : 0 < d)
    (hd : d < 2 ^ 32) : mulDivLow64U32Debug a0 n d = .ok (mulDivLow64U32 a0 n d) := by
  have hfit : a0 * n < 2 ^ 128 := by
    have : a0 * n ≤ (2 ^ 64 - 1) * (2 ^ 32 - 1) := Nat.mul_le_mul (by omega) (by omega)
    omega
  have hlead := divideLeadingU32Debug_eq (wrap_lt 64 (wrap 128 (a0 * n) >>> 64)) hd0
  have hstep := divStepU32Debug_eq hd hlead.2 (wrap_lt 64 (wrap 128 (a0 * n)))
  unfold mulDivLow64U32Debug
  rw [mulU128Debug_eq hfit, Outcome.ok_bind]
  dsimp only
  rw [hlead.1, Outcome.ok_bind, hstep.1, Outcome.ok_bind]
  rfl

theorem mulDivLow128U32Debug_eq (ha0 : a0 < 2 ^ 64) (ha1 : a1 < 2 ^ 64) (hn : n < 2 ^ 32)
    (hd0 : 0 < d) (hd : d < 2 ^ 32) :
    mulDivLow128U32Debug a0 a1 n d = .ok (mulDivLow128U32 a0 a1 n d) := by
  have hle : a0 * n ≤ (2 ^ 64 - 1) * (2 ^ 32 - 1) := Nat.mul_le_mul (by omega) (by omega)
  have hcarry0 : wrap 128 (a0 * n) >>> 64 < 2 ^ 32 := by
    rw [wrap_of_lt (by omega), Nat.shiftRight_eq_div_pow]
    omega
  have hprod1 := mulAddU128Debug_eq ha1 hn hcarry0
  unfold mulDivLow128U32Debug
  rw [mulU128Debug_eq (by omega), Outcome.ok_bind]
  dsimp only
  rw [hprod1.1, Outcome.ok_bind]
  have hlead := divideLeadingU32Debug_eq
    (wrap_lt 64 (wrap 128 (wrap 128 (a1 * n) + wrap 128 (a0 * n) >>> 64) >>> 64)) hd0
  have hstep1 := divStepU32Debug_eq hd hlead.2
    (wrap_lt 64 (wrap 128 (wrap 128 (a1 * n) + wrap 128 (a0 * n) >>> 64)))
  have hstep0 := divStepU32Debug_eq hd hstep1.2 (wrap_lt 64 (wrap 128 (a0 * n)))
  rw [hlead.1, Outcome.ok_bind, hstep1.1, Outcome.ok_bind, hstep0.1, Outcome.ok_bind]
  rfl

theorem mulDivFullU32Debug_eq {amount : Nat} (hn : n < 2 ^ 32) (hd : d < 2 ^ 32) :
    mulDivFullU32Debug amount n d = Outcome.ofExcept (mulDivFullU32 amount n d) := by
  have hle : limb 0 amount * n ≤ (2 ^ 64 - 1) * (2 ^ 32 - 1) :=
    Nat.mul_le_mul (by have := limb_lt 0 amount; omega) (by omega)
  have hcarry0 : wrap 128 (limb 0 amount * n) >>> 64 < 2 ^ 32 := by
    rw [wrap_of_lt (by omega), Nat.shiftRight_eq_div_pow]
    omega
  have hprod1 := mulAddU128Debug_eq (limb_lt 1 amount) hn hcarry0
  have hprod2 := mulAddU128Debug_eq (limb_lt 2 amount) hn hprod1.2
  have hprod3 := mulAddU128Debug_eq (limb_lt 3 amount) hn hprod2.2
  unfold mulDivFullU32Debug mulDivFullU32
  rw [mulU128Debug_eq (by omega), Outcome.ok_bind]
  dsimp only
  rw [hprod1.1, Outcome.ok_bind, hprod2.1, Outcome.ok_bind, hprod3.1, Outcome.ok_bind]
  generalize wrap 128 (limb 0 amount * n) = product0
  generalize wrap 128 (wrap 128 (limb 1 amount * n) + product0 >>> 64) = product1
  generalize wrap 128 (wrap 128 (limb 2 amount * n) + product1 >>> 64) = product2
  generalize wrap 128 (wrap 128 (limb 3 amount * n) + product2 >>> 64) = product3
  by_cases hover : wrap 64 (product3 >>> 64) ≥ d
  · rw [if_pos hover, if_pos hover]
    rfl
  · have hstep3 := divStepU32Debug_eq hd (not_le.mp hover) (wrap_lt 64 product3)
    have hstep2 := divStepU32Debug_eq hd hstep3.2 (wrap_lt 64 product2)
    have hstep1 := divStepU32Debug_eq hd hstep2.2 (wrap_lt 64 product1)
    have hstep0 := divStepU32Debug_eq hd hstep1.2 (wrap_lt 64 product0)
    rw [if_neg hover, if_neg hover, hstep3.1, Outcome.ok_bind, hstep2.1, Outcome.ok_bind,
      hstep1.1, Outcome.ok_bind, hstep0.1, Outcome.ok_bind]
    rfl

end Widths

/-!
# Exactness
-/

/-- Both ratios are exact, and the checks of a debug build never fire in any of
the three widths. -/
theorem mulDivU32_exact {amount n d : Nat} (ha : amount < 2 ^ 256) (hn : n < 2 ^ 32)
    (hd0 : 0 < d) (hd : d < 2 ^ 32) :
    mulDivU32Floor amount n d = fitsWord (amount * n / d) ∧
      mulDivU32Ceil amount n d = fitsWord ((amount * n) ⌈/⌉ d) ∧
      mulDivLow64U32Debug (limb 0 amount) n d = .ok (mulDivLow64U32 (limb 0 amount) n d) ∧
      mulDivLow128U32Debug (limb 0 amount) (limb 1 amount) n d =
        .ok (mulDivLow128U32 (limb 0 amount) (limb 1 amount) n d) ∧
      mulDivFullU32Debug amount n d = Outcome.ofExcept (mulDivFullU32 amount n d) :=
  ⟨mulDivU32Floor_eq ha hn hd0 hd, mulDivU32Ceil_eq ha hn hd0 hd,
    mulDivLow64U32Debug_eq (limb_lt 0 amount) hn hd0 hd,
    mulDivLow128U32Debug_eq (limb_lt 0 amount) (limb_lt 1 amount) hn hd0 hd,
    mulDivFullU32Debug_eq hn hd⟩

/-- The largest word through the full width, with a quotient that does not fit. -/
theorem mulDivU32_exact_sample :
    (mulDivU32Floor (2 ^ 256 - 1) 7 3 = fitsWord ((2 ^ 256 - 1) * 7 / 3) ∧
      mulDivU32Ceil (2 ^ 256 - 1) 7 3 = fitsWord (((2 ^ 256 - 1) * 7) ⌈/⌉ 3) ∧
      mulDivLow64U32Debug (limb 0 (2 ^ 256 - 1)) 7 3 =
        .ok (mulDivLow64U32 (limb 0 (2 ^ 256 - 1)) 7 3) ∧
      mulDivLow128U32Debug (limb 0 (2 ^ 256 - 1)) (limb 1 (2 ^ 256 - 1)) 7 3 =
        .ok (mulDivLow128U32 (limb 0 (2 ^ 256 - 1)) (limb 1 (2 ^ 256 - 1)) 7 3) ∧
      mulDivFullU32Debug (2 ^ 256 - 1) 7 3 =
        Outcome.ofExcept (mulDivFullU32 (2 ^ 256 - 1) 7 3)) ∧
      mulDivFullU32Debug (2 ^ 256 - 1) 7 3 = .err .overflow :=
  ⟨mulDivU32_exact (by norm_num) (by norm_num) (by norm_num) (by norm_num), by decide +kernel⟩

end RmUniswap
