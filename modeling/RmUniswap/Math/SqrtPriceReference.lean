import RmUniswap.Math.SqrtPrice

/-!
# Sqrt-price arithmetic against its reference

The plain formulas over unbounded naturals, with the overflow rules of the
on-chain code as side conditions.  The next-price functions choose among their
code paths by bit lengths and overflow flags and agree with the reference in
value and in error domain; the amounts of a range agree with it on every pair
of protocol prices.
-/

namespace RmUniswap

open Foundation

def refNextSqrtPriceFromAmount0 (sqrtPrice liquidity amount : Nat) (add : Bool) : Option Nat :=
  let numerator1 := liquidity * 2 ^ 96
  let product := amount * sqrtPrice
  if add then
    let denominator := numerator1 + product
    if product < 2 ^ 256 ∧ denominator < 2 ^ 256 then
      some ((numerator1 * sqrtPrice) ⌈/⌉ denominator)
    else
      let denominator := numerator1 / sqrtPrice + amount
      if denominator ≥ 2 ^ 256 then none else some (numerator1 ⌈/⌉ denominator)
  else if product ≥ 2 ^ 256 ∨ numerator1 ≤ product then
    none
  else
    some ((numerator1 * sqrtPrice) ⌈/⌉ (numerator1 - product))

def refNextSqrtPriceFromAmount1 (sqrtPrice liquidity amount : Nat) (add : Bool) : Option Nat :=
  let numerator := amount * 2 ^ 96
  if add then
    some (sqrtPrice + numerator / liquidity)
  else
    let quotient := numerator ⌈/⌉ liquidity
    if sqrtPrice ≤ quotient then none else some (sqrtPrice - quotient)

/-!
# The next price
-/

section NextPrice

variable {sqrtPrice liquidity amount q : Nat}

theorem refAmount0Add_eq_some (hp : 0 < sqrtPrice) (ha : 0 < amount) :
    refNextSqrtPriceFromAmount0 sqrtPrice liquidity amount true = some q ↔
      if liquidity * 2 ^ 96 + amount * sqrtPrice < 2 ^ 256 then
        q = divCeil (liquidity * 2 ^ 96 * sqrtPrice) (liquidity * 2 ^ 96 + amount * sqrtPrice)
      else
        liquidity * 2 ^ 96 / sqrtPrice + amount < 2 ^ 256 ∧
          q = divCeil (liquidity * 2 ^ 96) (liquidity * 2 ^ 96 / sqrtPrice + amount) := by
  have hprod : 0 < amount * sqrtPrice := Nat.mul_pos ha hp
  unfold refNextSqrtPriceFromAmount0
  rw [if_pos rfl]
  dsimp only
  by_cases hsum : liquidity * 2 ^ 96 + amount * sqrtPrice < 2 ^ 256
  · rw [if_pos ⟨Nat.lt_of_le_of_lt (Nat.le_add_left _ _) hsum, hsum⟩, if_pos hsum,
      divCeil_eq_ceilDiv (Nat.add_pos_right _ hprod), Option.some_inj]
    exact eq_comm
  · rw [if_neg (fun h => hsum h.2), if_neg hsum, divCeil_eq_ceilDiv (Nat.add_pos_right _ ha)]
    by_cases hbase : liquidity * 2 ^ 96 / sqrtPrice + amount < 2 ^ 256
    · rw [if_neg (not_le.mpr hbase), Option.some_inj]
      simp only [hbase, true_and]
      exact eq_comm
    · rw [if_pos (not_lt.mp hbase)]
      constructor
      · intro h
        cases h
      · intro h
        exact absurd h.1 hbase

theorem refAmount0Sub_eq_some (hl : liquidity < 2 ^ 128) :
    refNextSqrtPriceFromAmount0 sqrtPrice liquidity amount false = some q ↔
      amount * sqrtPrice < liquidity * 2 ^ 96 ∧
        q = divCeil (liquidity * 2 ^ 96 * sqrtPrice)
          (liquidity * 2 ^ 96 - amount * sqrtPrice) := by
  have hq96lt : liquidity * 2 ^ 96 < 2 ^ 224 := mul_two_pow_lt hl (by norm_num)
  unfold refNextSqrtPriceFromAmount0
  rw [if_neg Bool.false_ne_true]
  by_cases hsmall : amount * sqrtPrice < liquidity * 2 ^ 96
  · have hfit : amount * sqrtPrice < 2 ^ 256 := hsmall.trans (hq96lt.trans (by norm_num))
    rw [if_neg (not_or.mpr ⟨not_le.mpr hfit, not_le.mpr hsmall⟩),
      divCeil_eq_ceilDiv (Nat.sub_pos_of_lt hsmall), Option.some_inj]
    simp only [hsmall, true_and]
    exact eq_comm
  · rw [if_pos (Or.inr (not_lt.mp hsmall))]
    constructor
    · intro h
      cases h
    · intro h
      exact absurd h.1 hsmall

theorem refAmount1Sub_eq_some (hl0 : 0 < liquidity) (hq : 0 < q) :
    refNextSqrtPriceFromAmount1 sqrtPrice liquidity amount false = some q ↔
      q + divCeil (amount * 2 ^ 96) liquidity = sqrtPrice := by
  unfold refNextSqrtPriceFromAmount1
  rw [if_neg Bool.false_ne_true, divCeil_eq_ceilDiv hl0]
  generalize (amount * 2 ^ 96) ⌈/⌉ liquidity = quotient
  dsimp only
  split
  · constructor
    · intro h
      cases h
    · intro h
      omega
  · rw [Option.some_inj]
    omega

/-- Every code path of the next-price functions, in value and in error domain. -/
theorem getNextSqrtPrice_matches_reference (add : Bool) (hp : IsValidSqrtPrice sqrtPrice)
    (hl0 : 0 < liquidity) (hl : liquidity < 2 ^ 128) (ha0 : 0 < amount) (ha : amount < 2 ^ 256)
    (q : Nat) :
    (getNextSqrtPriceFromAmount0RoundingUp sqrtPrice liquidity amount add = .ok q ↔
      refNextSqrtPriceFromAmount0 sqrtPrice liquidity amount add = some q ∧
        minSqrtPrice ≤ q ∧ q ≤ maxSqrtPrice) ∧
    (getNextSqrtPriceFromAmount1RoundingDown sqrtPrice liquidity amount add = .ok q ↔
      refNextSqrtPriceFromAmount1 sqrtPrice liquidity amount add = some q ∧
        minSqrtPrice ≤ q ∧ q ≤ maxSqrtPrice) := by
  rw [← IsValidSqrtPrice]
  cases add with
  | true =>
      unfold getNextSqrtPriceFromAmount0RoundingUp getNextSqrtPriceFromAmount1RoundingDown
      rw [if_pos rfl, if_pos rfl, amount0Add_eq_ok hl hp.lt_two_pow, amount1Add_eq_ok ha,
        refAmount0Add_eq_some hp.pos ha0]
      refine ⟨And.comm, ?_⟩
      unfold refNextSqrtPriceFromAmount1
      rw [if_pos rfl, Option.some_inj, And.comm, eq_comm]
  | false =>
      unfold getNextSqrtPriceFromAmount0RoundingUp getNextSqrtPriceFromAmount1RoundingDown
      rw [if_neg Bool.false_ne_true, if_neg Bool.false_ne_true, amount0Sub_eq_ok hl hp.lt_two_pow,
        amount1Sub_eq_ok hp.lt_two_pow ha, refAmount0Sub_eq_some hl]
      refine ⟨And.comm, ?_⟩
      constructor
      · rintro ⟨hvalid, hmove⟩
        exact ⟨(refAmount1Sub_eq_some hl0 hvalid.pos).mpr hmove, hvalid⟩
      · rintro ⟨hsome, hvalid⟩
        exact ⟨hvalid, (refAmount1Sub_eq_some hl0 hvalid.pos).mp hsome⟩

end NextPrice

/-- A product too wide for the direct formula, so that the fallback answers. -/
theorem getNextSqrtPrice_matches_reference_sample :
    ((getNextSqrtPriceFromAmount0RoundingUp (2 ^ 100) (2 ^ 127) (2 ^ 156) true =
        .ok (2 ^ 100 / (2 ^ 33 + 1) + 1) ↔
      refNextSqrtPriceFromAmount0 (2 ^ 100) (2 ^ 127) (2 ^ 156) true =
          some (2 ^ 100 / (2 ^ 33 + 1) + 1) ∧
        minSqrtPrice ≤ 2 ^ 100 / (2 ^ 33 + 1) + 1 ∧
          2 ^ 100 / (2 ^ 33 + 1) + 1 ≤ maxSqrtPrice) ∧
    (getNextSqrtPriceFromAmount1RoundingDown (2 ^ 100) (2 ^ 127) (2 ^ 156) true =
        .ok (2 ^ 100 / (2 ^ 33 + 1) + 1) ↔
      refNextSqrtPriceFromAmount1 (2 ^ 100) (2 ^ 127) (2 ^ 156) true =
          some (2 ^ 100 / (2 ^ 33 + 1) + 1) ∧
        minSqrtPrice ≤ 2 ^ 100 / (2 ^ 33 + 1) + 1 ∧
          2 ^ 100 / (2 ^ 33 + 1) + 1 ≤ maxSqrtPrice)) ∧
    refNextSqrtPriceFromAmount0 (2 ^ 100) (2 ^ 127) (2 ^ 156) true =
      some (2 ^ 100 / (2 ^ 33 + 1) + 1) :=
  ⟨getNextSqrtPrice_matches_reference true (by decide) (by norm_num) (by norm_num) (by norm_num)
    (by norm_num) (2 ^ 100 / (2 ^ 33 + 1) + 1), by decide +kernel⟩

/-!
# Amounts of a range
-/

theorem roundDiv_roundDiv (up : Bool) (n : Nat) {x y : Nat} (hx : 0 < x) (hy : 0 < y) :
    roundDiv up (roundDiv up n x) y = roundDiv up n (x * y) := by
  cases up with
  | false =>
      rw [roundDiv_false, roundDiv_false, roundDiv_false, Nat.div_div_eq_div_mul]
  | true =>
      rw [roundDiv_true, roundDiv_true, roundDiv_true]
      apply eq_of_forall_ge_iff
      intro c
      rw [divCeil_le_iff hy, divCeil_le_iff hx, divCeil_le_iff (Nat.mul_pos hx hy),
        Nat.mul_assoc, Nat.mul_comm y x]

theorem divCeil_le_succ (n d : Nat) : divCeil n d ≤ n / d + 1 := by
  unfold divCeil
  split
  · exact Nat.le_succ _
  · exact le_refl _

def priceGap (a b : Nat) : Nat := max a b - min a b

/-- No intermediate of the two amounts leaves the width that holds it. -/
structure DeltaWidths (a b liquidity : Nat) : Prop where
  difference : priceGap a b < 2 ^ 160
  product : liquidity * priceGap a b < 2 ^ 288
  numerator : liquidity * priceGap a b * 2 ^ 96 < 2 ^ 384
  denominator : a * b < 2 ^ 384
  amount0 : divCeil (liquidity * 2 ^ 96 * priceGap a b) (a * b) < 2 ^ 256
  amount1 : divCeil (liquidity * priceGap a b) (2 ^ 96) < 2 ^ 256

section Amounts

variable {a b liquidity : Nat} {up : Bool}

theorem getAmount0Delta_gap (hl : liquidity < 2 ^ 128) (ha : IsValidSqrtPrice a)
    (hb : IsValidSqrtPrice b) :
    getAmount0Delta a b liquidity up =
      .ok (roundDiv up (liquidity * 2 ^ 96 * priceGap a b) (a * b), liquidity * priceGap a b) := by
  unfold priceGap
  rcases le_total a b with hab | hba
  · rw [getAmount0Delta_eq hl ha hb hab, Nat.max_eq_right hab, Nat.min_eq_left hab,
      ← Nat.mul_assoc, Nat.mul_comm (2 ^ 96)]
  · rw [getAmount0Delta_comm, getAmount0Delta_eq hl hb ha hba, Nat.max_eq_left hba,
      Nat.min_eq_right hba, ← Nat.mul_assoc, Nat.mul_comm (2 ^ 96), Nat.mul_comm b a]

theorem getAmount0DeltaWithLiquidityDelta_gap (hl : liquidity < 2 ^ 128)
    (ha : IsValidSqrtPrice a) (hb : IsValidSqrtPrice b) :
    getAmount0DeltaWithLiquidityDelta a b (liquidity * priceGap a b) up =
      .ok (roundDiv up (liquidity * 2 ^ 96 * priceGap a b) (a * b)) := by
  unfold priceGap
  rw [Nat.mul_comm liquidity (2 ^ 96), Nat.mul_assoc]
  rcases le_total a b with hab | hba
  · rw [Nat.max_eq_right hab, Nat.min_eq_left hab]
    exact getAmount0DeltaWithLiquidityDelta_eq hl ha hb
  · rw [Nat.max_eq_left hba, Nat.min_eq_right hba, Nat.mul_comm a b,
      getAmount0DeltaWithLiquidityDelta_comm]
    exact getAmount0DeltaWithLiquidityDelta_eq hl hb ha

theorem getAmount1Delta_gap (hl : liquidity < 2 ^ 128) (ha : IsValidSqrtPrice a)
    (hb : IsValidSqrtPrice b) :
    getAmount1Delta a b liquidity up =
      .ok (roundDiv up (liquidity * priceGap a b) (2 ^ 96), liquidity * priceGap a b) := by
  unfold priceGap
  rcases le_total a b with hab | hba
  · rw [getAmount1Delta_eq hl hb hab, Nat.max_eq_right hab, Nat.min_eq_left hab]
  · rw [getAmount1Delta_comm, getAmount1Delta_eq hl ha hba, Nat.max_eq_left hba,
      Nat.min_eq_right hba]

theorem deltaWidths (hl : liquidity < 2 ^ 128) (ha : IsValidSqrtPrice a)
    (hb : IsValidSqrtPrice b) : DeltaWidths a b liquidity := by
  have hmax : max a b < 2 ^ 160 := max_lt ha.lt_two_pow hb.lt_two_pow
  have hgap : priceGap a b < 2 ^ 160 := Nat.lt_of_le_of_lt (Nat.sub_le _ _) hmax
  have hproduct : liquidity * priceGap a b < 2 ^ 288 := mul_lt_two_pow hl hgap (by norm_num)
  have hle : priceGap a b ≤ a * b := by
    refine (Nat.sub_le _ _).trans (max_le ?_ ?_)
    · exact Nat.le_mul_of_pos_right a hb.pos
    · exact Nat.le_mul_of_pos_left b ha.pos
  refine
    { difference := hgap
      product := hproduct
      numerator := mul_two_pow_lt hproduct (by norm_num)
      denominator := mul_lt_two_pow ha.lt_two_pow hb.lt_two_pow (by norm_num)
      amount0 := ?_
      amount1 := ?_ }
  · have hsmall : divCeil (liquidity * 2 ^ 96 * priceGap a b) (a * b) ≤ liquidity * 2 ^ 96 :=
      (divCeil_le_iff (Nat.mul_pos ha.pos hb.pos)).mpr (Nat.mul_le_mul_left _ hle)
    exact Nat.lt_of_le_of_lt hsmall
      ((mul_two_pow_lt hl (by norm_num) : liquidity * 2 ^ 96 < 2 ^ 224).trans (by norm_num))
  · have hsmall : divCeil (liquidity * priceGap a b) (2 ^ 96) ≤ 2 ^ 192 := by
      rw [divCeil_le_iff (Nat.two_pow_pos 96), ← pow_add]
      exact le_of_lt hproduct
    exact Nat.lt_of_le_of_lt hsmall (by norm_num)

/-- The amounts of a range are exact on protocol prices: they equal the plain
quotients and the two-step form of the on-chain code, nothing is truncated, the
shared-product variants agree, and the two roundings differ by at most one. -/
theorem amountDeltas_exact (up : Bool) (ha : IsValidSqrtPrice a) (hb : IsValidSqrtPrice b)
    (hl : liquidity < 2 ^ 128) :
    getAmount0Delta a b liquidity up =
        .ok (roundDiv up (liquidity * 2 ^ 96 * priceGap a b) (a * b),
          liquidity * priceGap a b) ∧
      roundDiv up (liquidity * 2 ^ 96 * priceGap a b) (a * b) =
        roundDiv up (roundDiv up (liquidity * 2 ^ 96 * priceGap a b) (max a b)) (min a b) ∧
      getAmount1Delta a b liquidity up =
        .ok (roundDiv up (liquidity * priceGap a b) (2 ^ 96), liquidity * priceGap a b) ∧
      DeltaWidths a b liquidity ∧
      getAmount0DeltaWithLiquidityDelta a b (liquidity * priceGap a b) up =
        .ok (roundDiv up (liquidity * 2 ^ 96 * priceGap a b) (a * b)) ∧
      getAmount1DeltaWithLiquidityDelta (liquidity * priceGap a b) up =
        roundDiv up (liquidity * priceGap a b) (2 ^ 96) ∧
      divCeil (liquidity * 2 ^ 96 * priceGap a b) (a * b) ≤
        liquidity * 2 ^ 96 * priceGap a b / (a * b) + 1 ∧
      divCeil (liquidity * priceGap a b) (2 ^ 96) ≤ liquidity * priceGap a b / 2 ^ 96 + 1 := by
  have hmin : 0 < min a b := lt_min ha.pos hb.pos
  have hmax : 0 < max a b := lt_max_of_lt_left ha.pos
  refine ⟨getAmount0Delta_gap hl ha hb, ?_, getAmount1Delta_gap hl ha hb, deltaWidths hl ha hb,
    getAmount0DeltaWithLiquidityDelta_gap hl ha hb, getAmount1DeltaWithLiquidityDelta_eq _,
    divCeil_le_succ _ _, divCeil_le_succ _ _⟩
  rw [roundDiv_roundDiv up _ hmax hmin, max_mul_min]

end Amounts

/-- The whole range at the largest liquidity, with the larger price first. -/
theorem amountDeltas_exact_sample :
    getAmount0Delta maxSqrtPrice minSqrtPrice (2 ^ 128 - 1) true =
        .ok (roundDiv true ((2 ^ 128 - 1) * 2 ^ 96 * priceGap maxSqrtPrice minSqrtPrice)
          (maxSqrtPrice * minSqrtPrice),
          (2 ^ 128 - 1) * priceGap maxSqrtPrice minSqrtPrice) :=
  (amountDeltas_exact true (by decide) (by decide) (by norm_num)).1

end RmUniswap
