import RmUniswap.Types.Basic

/-!
# The cap of a spacing

The cap shares the width of liquidity among the usable ticks of a spacing, so
the gross liquidity of all of them together still fits.
-/

namespace RmUniswap

open Foundation

namespace TickSpacing

variable {s : TickSpacing}

theorem numTicks_bounds (h : s.IsPositive) : 55 ≤ s.numTicks ∧ s.numTicks < 2 ^ 128 := by
  have hlt := s.inRange.2
  unfold IsPositive at h
  norm_num at hlt
  have hmax : 27 ≤ maxTick / s.value := by
    rw [Int.le_ediv_iff_mul_le (by omega)]
    unfold maxTick
    omega
  have hmin : minTick / s.value ≤ -27 := by
    have : minTick / s.value < -27 + 1 := by
      rw [Int.ediv_lt_iff_lt_mul (by omega)]
      unfold minTick
      omega
    omega
  have hmax' : maxTick / s.value ≤ maxTick := Int.ediv_le_self _ (by decide)
  have hmin' : minTick ≤ minTick / s.value := by
    rw [Int.le_ediv_iff_mul_le (by omega)]
    unfold minTick
    omega
  unfold numTicks
  unfold maxTick at hmax hmax' ⊢
  unfold minTick at hmin hmin' ⊢
  omega

theorem maxLiquidityPerTick_eq (h : s.IsPositive) :
    s.maxLiquidityPerTick = (2 ^ 128 - 1) / s.numTicks.toNat := by
  have hb := numTicks_bounds h
  unfold maxLiquidityPerTick
  rw [Int.emod_eq_of_lt (by omega) hb.2]

theorem numTicks_mul_cap_le (h : s.IsPositive) :
    s.numTicks * s.maxLiquidityPerTick ≤ 2 ^ 128 - 1 := by
  have hb := numTicks_bounds h
  have hle := Nat.div_mul_le_self (2 ^ 128 - 1) s.numTicks.toNat
  rw [← maxLiquidityPerTick_eq h, Nat.mul_comm] at hle
  have hcast : ((s.numTicks.toNat : Nat) : Int) = s.numTicks := Int.toNat_of_nonneg (by omega)
  have hle' : ((s.numTicks.toNat * s.maxLiquidityPerTick : Nat) : Int) ≤
      ((2 ^ 128 - 1 : Nat) : Int) := by exact_mod_cast hle
  rw [Nat.cast_mul, hcast] at hle'
  norm_num at hle' ⊢
  exact hle'

theorem two_mul_maxLiquidityPerTick_lt (h : s.IsPositive) :
    2 * s.maxLiquidityPerTick < 2 ^ 127 := by
  have hb := numTicks_bounds h
  have hle := numTicks_mul_cap_le h
  norm_num at hle ⊢
  have hcap : (55 : Int) * s.maxLiquidityPerTick ≤ s.numTicks * s.maxLiquidityPerTick :=
    Int.mul_le_mul_of_nonneg_right hb.1 (Int.natCast_nonneg _)
  omega

theorem maxLiquidityPerTick_lt (h : s.IsPositive) : s.maxLiquidityPerTick < 2 ^ 127 :=
  (Nat.le_mul_of_pos_left _ Nat.two_pos).trans_lt (two_mul_maxLiquidityPerTick_lt h)

theorem maxLiquidityPerTick_of_neg (h : s.value < 0) : s.maxLiquidityPerTick = 1 := by
  have hlo := s.inRange.1
  norm_num at hlo
  have hmin : 27 ≤ minTick / s.value ∧ minTick / s.value ≤ 887272 := by
    have hdiv := Int.mul_ediv_add_emod minTick s.value
    have hmod := Int.emod_nonneg minTick (ne_of_lt h)
    have hlt := Int.emod_lt_abs minTick (ne_of_lt h)
    rw [abs_of_neg h] at hlt
    unfold minTick at hdiv hmod hlt ⊢
    constructor <;> nlinarith
  have hmax : -887272 ≤ maxTick / s.value ∧ maxTick / s.value ≤ -27 := by
    have hdiv := Int.mul_ediv_add_emod maxTick s.value
    have hmod := Int.emod_nonneg maxTick (ne_of_lt h)
    have hlt := Int.emod_lt_abs maxTick (ne_of_lt h)
    rw [abs_of_neg h] at hlt
    unfold maxTick at hdiv hmod hlt ⊢
    constructor <;> nlinarith
  have hcount : 2 ^ 127 < (s.numTicks % 2 ^ 128).toNat ∧
      (s.numTicks % 2 ^ 128).toNat < 2 ^ 128 := by
    unfold numTicks
    norm_num at hmin hmax ⊢
    omega
  unfold maxLiquidityPerTick
  rw [Nat.div_eq_iff (by omega)]
  norm_num at hcount ⊢
  omega

theorem card_aligned_le (h : s.IsPositive) {S : Finset Int}
    (hS : forall t, t ∈ S -> s.value ∣ t ∧ TickInRange t) : (S.card : Int) ≤ s.numTicks := by
  have hb := numTicks_bounds h
  have hmem (t : Int) (ht : t ∈ S) :
      t / s.value ∈ Finset.Icc (minTick / s.value) (maxTick / s.value) := by
    have hrange := (hS t ht).2
    rw [Finset.mem_Icc]
    exact ⟨Int.ediv_le_ediv h hrange.1, Int.ediv_le_ediv h hrange.2⟩
  have hinj : Set.InjOn (fun t => t / s.value) S := by
    intro t ht u hu heq
    rw [← Int.ediv_mul_cancel (hS t ht).1, ← Int.ediv_mul_cancel (hS u hu).1]
    dsimp only at heq
    rw [heq]
  have hcard := Finset.card_le_card_of_injOn (fun t => t / s.value) hmem hinj
  rw [Int.card_Icc] at hcard
  unfold numTicks at hb ⊢
  omega

end TickSpacing

end RmUniswap
