import RmUniswap.Math.TickPrice

/-!
# The tick of a price

The logarithm of the price is bracketed by two offsets so that one of the two
candidate ticks is the greatest tick at or below the price.
-/

namespace RmUniswap

open Foundation

/-!
# The logarithm
-/

section Log

variable {ratio r n whole : Nat}

theorem logLoop_eq (hr : Normalized 127 r) (hw : 2 ^ (50 + n) ∣ whole) :
    logLoop n r whole = whole + logBits 127 n r * 2 ^ 50 := by
  induction n generalizing r whole with
  | zero =>
      unfold logLoop logBits
      rw [Nat.zero_mul, Nat.add_zero]
  | succ n ih =>
      have hsq := hr.square
      have hbit := squareBit_le hr
      have hbounds := square_bounds hr
      have hf : (r * r / 2 ^ 128) >>> 127 = squareBit 127 r := by
        rw [Nat.shiftRight_eq_div_pow, Nat.div_div_eq_div_mul, ← pow_add]
        rfl
      have hmantissa : (if squareBit 127 r ≠ 0 then r * r / 2 ^ 128
          else wrap 128 ((r * r / 2 ^ 128) <<< 1) ||| (r * r % 2 ^ 128) >>> 127) =
            squareMantissa 127 r := by
        unfold squareMantissa
        split
        · rename_i hne
          rw [show squareBit 127 r = 1 by omega]
        · rename_i hzero
          rw [ne_eq, not_not] at hzero
          have hlow : r * r < 2 ^ 255 := by
            unfold squareBit at hzero
            have := Nat.div_eq_zero_iff.mp hzero
            omega
          have hor : (r * r % 2 ^ 128) >>> 127 ||| wrap 128 ((r * r / 2 ^ 128) <<< (128 - 127)) =
              ((r * r / 2 ^ 128 * 2 ^ 128 + r * r % 2 ^ 128) / 2 ^ 127) % 2 ^ 128 :=
            shiftRight_or_shiftLeft (by norm_num) (Nat.mod_lt _ (Nat.two_pow_pos _))
          rw [Nat.or_comm, hor, Nat.div_add_mod', hzero, Nat.add_zero, Nat.mod_eq_of_lt]
          rw [Nat.div_lt_iff_lt_mul (Nat.two_pow_pos _), ← pow_add]
          exact hlow
      unfold logLoop logBits
      simp only [wideningMulU128_eq]
      rw [hf, hmantissa]
      have hor : whole ||| squareBit 127 r <<< (50 + n) =
          whole + squareBit 127 r * 2 ^ (50 + n) := by
        obtain ⟨q, hq⟩ := hw
        have hlt : squareBit 127 r <<< (50 + n) < 2 ^ (50 + (n + 1)) := by
          rw [Nat.shiftLeft_eq, ← Nat.add_assoc, pow_succ, Nat.mul_comm]
          exact Nat.mul_lt_mul_of_pos_left (by omega) (Nat.two_pow_pos _)
        rw [hq, ← Nat.two_pow_add_eq_or_of_lt hlt, Nat.shiftLeft_eq]
      rw [hor, ih hsq]
      · rw [Nat.add_mul, Nat.add_assoc, Nat.mul_assoc, ← pow_add, Nat.add_comm n 50]
      · apply Nat.dvd_add
        · exact (pow_dvd_pow 2 (by omega)).trans hw
        · exact Nat.dvd_mul_left _ _

theorem log2Word_eq {msb : Nat} (hmsb : bitLen ratio - 1 = msb) (hlo : 64 ≤ msb)
    (hhi : msb < 192) (hratio : 0 < ratio) :
    exists r, Normalized 127 r ∧
      toSigned 128 (log2Word ratio) =
        ((msb : Int) - 128) * 2 ^ 64 + logBits 127 14 r * 2 ^ 50 ∧
      mantissaLog 127 r + (msb - 128) * Real.log 2 ≤ Real.log ratio - 128 * Real.log 2 ∧
      Real.log ratio - 128 * Real.log 2 ≤
        mantissaLog 127 r + (msb - 128) * Real.log 2 + 1 / 2 ^ 127 := by
  have hlog2 : Nat.log2 ratio = msb := by
    rw [← hmsb, bitLen, if_neg (by omega), Nat.add_sub_cancel]
  have hlow : 2 ^ msb ≤ ratio := hlog2 ▸ Nat.log2_self_le (by omega)
  have hhigh : ratio < 2 ^ (msb + 1) := hlog2 ▸ Nat.lt_log2_self
  -- The mantissa drops low bits of a large ratio and is exact for a small one.
  have hmant : exists r, Normalized 127 r ∧
      (if msb ≥ 128 then ratio >>> (msb - 127) else wrap 256 (ratio <<< (127 - msb))) = r ∧
      mantissaLog 127 r + (msb - 128) * Real.log 2 ≤ Real.log ratio - 128 * Real.log 2 ∧
      Real.log ratio - 128 * Real.log 2 ≤
        mantissaLog 127 r + (msb - 128) * Real.log 2 + 1 / 2 ^ 127 := by
    refine ⟨_, ?_, rfl, ?_⟩
    · split
      · rename_i hge
        rw [Nat.shiftRight_eq_div_pow]
        constructor
        · rw [Nat.le_div_iff_mul_le (Nat.two_pow_pos _), ← pow_add,
            show 127 + (msb - 127) = msb by omega]
          exact hlow
        · rw [Nat.div_lt_iff_lt_mul (Nat.two_pow_pos _), ← pow_add,
            show 127 + 1 + (msb - 127) = msb + 1 by omega]
          exact hhigh
      · rename_i hlt
        rw [Nat.shiftLeft_eq]
        have h1 : 2 ^ 127 ≤ ratio * 2 ^ (127 - msb) := by
          calc
            2 ^ 127 = 2 ^ msb * 2 ^ (127 - msb) := by rw [← pow_add]; congr 1; omega
            _ ≤ ratio * 2 ^ (127 - msb) := Nat.mul_le_mul_right _ hlow
        have h2 : ratio * 2 ^ (127 - msb) < 2 ^ (127 + 1) := by
          calc
            ratio * 2 ^ (127 - msb) < 2 ^ (msb + 1) * 2 ^ (127 - msb) :=
              Nat.mul_lt_mul_of_pos_right hhigh (Nat.two_pow_pos _)
            _ = 2 ^ (127 + 1) := by rw [← pow_add]; congr 1; omega
        rw [wrap_of_lt (lt_trans h2 (by norm_num))]
        exact ⟨h1, h2⟩
    · split
      · rename_i hge
        rw [Nat.shiftRight_eq_div_pow]
        have hq : 2 ^ 127 ≤ ratio / 2 ^ (msb - 127) := by
          rw [Nat.le_div_iff_mul_le (Nat.two_pow_pos _), ← pow_add,
            show 127 + (msb - 127) = msb by omega]
          exact hlow
        have hdiv := log_div_bounds (Nat.two_pow_pos (msb - 127)) rfl
          (lt_of_lt_of_le (Nat.two_pow_pos _) hq)
        have hloss : (1 : ℝ) / ((ratio / 2 ^ (msb - 127) : Nat) : ℝ) ≤ 1 / 2 ^ 127 := by
          apply one_div_le_one_div_of_le (by positivity)
          exact_mod_cast hq
        rw [log_cast_two_pow] at hdiv
        have hcast : ((msb - 127 : Nat) : ℝ) = msb - 127 := by
          push_cast [show 127 ≤ msb by omega]
          ring
        rw [hcast] at hdiv
        rw [mantissaLog_eq]
        push_cast at hdiv hloss ⊢
        constructor <;> linarith [hdiv.1, hdiv.2]
      · rename_i hlt
        have h2 : ratio * 2 ^ (127 - msb) < 2 ^ 256 := by
          calc
            ratio * 2 ^ (127 - msb) < 2 ^ (msb + 1) * 2 ^ (127 - msb) :=
              Nat.mul_lt_mul_of_pos_right hhigh (Nat.two_pow_pos _)
            _ = 2 ^ 128 := by rw [← pow_add]; congr 1; omega
            _ ≤ 2 ^ 256 := by norm_num
        rw [Nat.shiftLeft_eq, wrap_of_lt h2]
        have hcast : ((127 - msb : Nat) : ℝ) = 127 - msb := by
          push_cast [show msb ≤ 127 by omega]
          ring
        rw [mantissaLog_eq]
        rw [log_cast_mul hratio (Nat.two_pow_pos _), log_cast_two_pow, hcast]
        have : (0 : ℝ) ≤ 1 / 2 ^ 127 := by positivity
        push_cast
        constructor <;> linarith
  rcases hmant with ⟨r, hr, hreq, hbounds⟩
  refine ⟨r, hr, ?_, hbounds⟩
  have hrmod : r % 2 ^ 128 = r := Nat.mod_eq_of_lt hr.2
  have hbits := logBits_lt (n := 14) hr
  -- The integer part wraps around for prices below one.
  have hwhole : ((((msb : Int) - 128) * 2 ^ 64 % 2 ^ 128).toNat : Int) =
      if msb < 128 then ((msb : Int) - 128) * 2 ^ 64 + 2 ^ 128
      else ((msb : Int) - 128) * 2 ^ 64 := by
    rw [Int.toNat_of_nonneg (Int.emod_nonneg _ (by norm_num))]
    split
    · rw [← Int.add_emod_right, Int.emod_eq_of_lt (by omega) (by omega)]
    · rw [Int.emod_eq_of_lt (by omega) (by omega)]
  have hdvd : 2 ^ (50 + 14) ∣ (((msb : Int) - 128) * 2 ^ 64 % 2 ^ 128).toNat := by
    rw [← Int.natCast_dvd_natCast, hwhole]
    push_cast
    split <;> omega
  unfold log2Word
  simp only
  rw [hmsb, hreq, hrmod, logLoop_eq hr hdvd]
  unfold toSigned
  generalize logBits 127 14 r = bits at hbits ⊢
  generalize (((msb : Int) - 128) * 2 ^ 64 % 2 ^ 128).toNat = word at hwhole ⊢
  push_cast
  split at hwhole
  · rw [if_neg (by omega), hwhole]
    ring
  · rw [if_pos (by omega), hwhole]
    ring

end Log

/-!
# The bracket
-/

section Bracket

variable {p : Nat} {t : Int}

theorem smulI128U128_eq (a : Int) (b : Nat) :
    smulI128U128 a b = (a * b / 2 ^ 128, (a * b % 2 ^ 128).toNat) := by
  unfold smulI128U128
  rw [wideningMulU128_eq]
  simp only
  have hdiv := Nat.div_add_mod (a.natAbs * b) (2 ^ 128)
  have hmod := Nat.mod_lt (a.natAbs * b) (Nat.two_pow_pos 128)
  generalize a.natAbs * b / 2 ^ 128 = hi at *
  generalize a.natAbs * b % 2 ^ 128 = lo at *
  split
  · rename_i hneg
    have hprod : a * b = -((2 ^ 128 * hi + lo : Nat) : Int) := by
      rw [hdiv]
      push_cast
      rw [abs_of_neg hneg]
      ring
    rw [hprod]
    push_cast
    split
    · rename_i hlo
      rw [hlo, Prod.mk.injEq]
      constructor <;> omega
    · rename_i hlo
      unfold wrappingSub
      rw [Nat.mod_eq_of_lt hmod, Prod.mk.injEq]
      constructor <;> omega
  · rename_i hpos
    have hprod : a * b = ((2 ^ 128 * hi + lo : Nat) : Int) := by
      rw [hdiv]
      push_cast
      rw [abs_of_nonneg (not_lt.mp hpos)]
    rw [hprod]
    push_cast
    rw [Prod.mk.injEq]
    constructor <;> omega

def rawLow (log2 : Int) : Int := (log2 * logMul - tickLowOffset) / 2 ^ 128

def rawHigh (log2 : Int) : Int := (log2 * logMul + tickHighOffset) / 2 ^ 128

theorem getTickAtSqrtPrice_eq (p : Nat) :
    getTickAtSqrtPrice p =
      let log2 := toSigned 128 (log2Word (wrap 256 (p <<< 32)))
      let tickLow := clampI64ToTickIndex (rawLow log2)
      let tickHigh := clampI64ToTickIndex (rawHigh log2)
      if tickLow = tickHigh then tickLow
      else if getSqrtPriceAtTick tickHigh ≤ p then tickHigh
      else tickLow := by
  unfold getTickAtSqrtPrice
  simp only [smulI128U128_eq]
  generalize toSigned 128 (log2Word (wrap 256 (p <<< 32))) = log2
  have hlow : (log2 * logMul / 2 ^ 128 -
      if (log2 * logMul % 2 ^ 128).toNat < tickLowOffset then 1 else 0) = rawLow log2 := by
    unfold rawLow tickLowOffset
    split <;> omega
  have hhigh : (log2 * logMul / 2 ^ 128 +
      if 2 ^ 128 ≤ (log2 * logMul % 2 ^ 128).toNat + tickHighOffset then 1 else 0) =
        rawHigh log2 := by
    unfold rawHigh tickHighOffset
    split <;> omega
  rw [hlow, hhigh]

theorem clamp_mono {a b : Int} (h : a ≤ b) : clampI64ToTickIndex a ≤ clampI64ToTickIndex b := by
  unfold clampI64ToTickIndex
  omega

theorem clamp_inRange (a : Int) : TickInRange (clampI64ToTickIndex a) := by
  unfold clampI64ToTickIndex TickInRange minTick maxTick
  omega

theorem log2_bounds (hp : IsValidSqrtPrice p) :
    exists log2 : Int, toSigned 128 (log2Word (wrap 256 (p <<< 32))) = log2 ∧
      |(log2 : ℝ) / 2 ^ 64| ≤ 64 ∧
      (log2 : ℝ) / 2 ^ 64 * Real.log 2 ≤ priceLog p ∧
      priceLog p ≤ ((log2 : ℝ) / 2 ^ 64 + 1 / 2 ^ 14) * Real.log 2 + 1 / 2 ^ 100 := by
  have hlt := hp.lt_two_pow
  have hlow : 2 ^ 32 ≤ p := le_trans (by unfold minSqrtPrice; norm_num) hp.1
  have hratio : wrap 256 (p <<< 32) = p * 2 ^ 32 := by
    rw [Nat.shiftLeft_eq]
    exact wrap_of_lt (mul_two_pow_lt hlt (by norm_num))
  have hpos : 0 < p * 2 ^ 32 := Nat.mul_pos hp.pos (Nat.two_pow_pos _)
  have hbit1 : bitLen (p * 2 ^ 32) ≤ 192 := by
    rw [bitLen_le_iff]
    exact mul_two_pow_lt hlt (by norm_num)
  have hbit2 : 64 < bitLen (p * 2 ^ 32) := by
    by_contra hle
    have := bitLen_le_iff.mp (not_lt.mp hle)
    omega
  generalize hmsb : bitLen (p * 2 ^ 32) - 1 = msb
  have hmsb1 : 64 ≤ msb := by omega
  have hmsb2 : msb ≤ 191 := by omega
  rcases log2Word_eq hmsb hmsb1 (by omega) hpos with
    ⟨r, hr, hword, hloglo, hloghi⟩
  have hbits := logBits_spec (n := 14) hr
  have hbitsLt := logBits_lt (n := 14) hr
  rw [log_cast_mul hp.pos (Nat.two_pow_pos _), log_cast_two_pow] at hloglo hloghi
  generalize logBits 127 14 r = bits at hword hbits hbitsLt
  have hcast : ((((msb : Int) - 128) * 2 ^ 64 + bits * 2 ^ 50 : Int) : ℝ) / 2 ^ 64 =
      (msb - 128) + bits / 2 ^ 14 := by
    push_cast
    ring
  have h1 : (64 : ℝ) ≤ msb := by exact_mod_cast hmsb1
  have h2 : (msb : ℝ) ≤ 191 := by exact_mod_cast hmsb2
  have h3 : (bits : ℝ) / 2 ^ 14 ≤ 1 := by
    rw [div_le_one (by norm_num)]
    exact_mod_cast le_of_lt hbitsLt
  have h4 : (0 : ℝ) ≤ bits / 2 ^ 14 := div_nonneg (Nat.cast_nonneg _) (by norm_num)
  have hscale : (bits : ℝ) / 2 ^ 14 * Real.log 2 ≤ mantissaLog 127 r ∧
      mantissaLog 127 r ≤ (bits / 2 ^ 14 + 1 / 2 ^ 14) * Real.log 2 + 1 / 2 ^ 127 := by
    norm_num at hbits ⊢
    constructor <;> linarith [hbits.1, hbits.2]
  rw [hratio]
  refine ⟨_, hword, ?_, ?_, ?_⟩
  · rw [hcast, abs_le]
    constructor <;> linarith
  · rw [hcast]
    rw [priceLog_eq]
    push_cast at hloglo
    linarith [hscale.1]
  · rw [hcast]
    rw [priceLog_eq]
    push_cast at hloghi
    norm_num at hscale hloghi ⊢
    linarith [hscale.2]

theorem logMul_near : |(logMul : ℝ) / 2 ^ 64 * tickLog - Real.log 2| ≤ 1e-9 := by
  have h := tickLog_bounds
  have h2 := log_two_bounds
  unfold logMul
  rw [abs_le]
  norm_num at h h2 ⊢
  constructor <;> linarith [h.1, h.2, h2.1, h2.2]

theorem exists_floor (hp : IsValidSqrtPrice p) :
    exists t, TickInRange t ∧ getSqrtPriceAtTick t ≤ p ∧
      forall u, TickInRange u -> getSqrtPriceAtTick u ≤ p -> u ≤ t := by
  have hmin : TickInRange minTick ∧ getSqrtPriceAtTick minTick ≤ p :=
    ⟨by decide, price_minTick ▸ hp.1⟩
  rcases Int.exists_greatest_of_bdd
    (P := fun t => TickInRange t ∧ getSqrtPriceAtTick t ≤ p)
    ⟨maxTick, fun t ht => ht.1.2⟩ ⟨minTick, hmin⟩ with ⟨t, ht, hgreatest⟩
  exact ⟨t, ht.1, ht.2, fun u hu hup => hgreatest u ⟨hu, hup⟩⟩

theorem bracket (hp : IsValidSqrtPrice p) (ht : TickInRange t)
    (hle : getSqrtPriceAtTick t ≤ p)
    (hgreatest : forall u, TickInRange u -> getSqrtPriceAtTick u ≤ p -> u ≤ t) {log2 : Int}
    (hlog2 : toSigned 128 (log2Word (wrap 256 (p <<< 32))) = log2) :
    clampI64ToTickIndex (rawLow log2) ≤ t ∧ t ≤ clampI64ToTickIndex (rawHigh log2) ∧
      clampI64ToTickIndex (rawHigh log2) ≤ clampI64ToTickIndex (rawLow log2) + 1 := by
  rcases log2_bounds hp with ⟨log2', heq, habs, hlow, hhigh⟩
  rw [hlog2] at heq
  subst heq
  have hl := tickLog_bounds
  have h2 := log_two_bounds
  have hmul := abs_le.mp logMul_near
  have hx := abs_le.mp habs
  have htick := abs_le.mp (priceLog_inRange ht)
  have htpos : 0 < getSqrtPriceAtTick t := (price_valid ht).pos
  have hlogt := (priceLog_le_iff htpos hp.pos).mpr hle
  -- The product in units of ticks.
  set x : ℝ := (log2 : ℝ) / 2 ^ 64 with hxdef
  set k : ℝ := (logMul : ℝ) / 2 ^ 64 with hkdef
  have hprod : ((log2 * logMul : Int) : ℝ) / 2 ^ 128 = x * k := by
    rw [hxdef, hkdef]
    push_cast
    ring
  have hnear : |x * k * tickLog - x * Real.log 2| ≤ 64 * 1e-9 := by
    rw [mul_assoc, ← mul_sub, abs_mul]
    exact mul_le_mul habs logMul_near (abs_nonneg _) (by norm_num)
  have hnear' := abs_le.mp hnear
  have hlowRaw : ((rawLow log2 : Int) : ℝ) ≤ x * k - tickLowOffset / 2 ^ 128 := by
    rw [← hprod, ← sub_div, le_div_iff₀ (by positivity)]
    have := Int.ediv_mul_le (log2 * logMul - tickLowOffset) (show (2 ^ 128 : Int) ≠ 0 by norm_num)
    have hcast : ((rawLow log2 * 2 ^ 128 : Int) : ℝ) ≤
        ((log2 * logMul - tickLowOffset : Int) : ℝ) := by exact_mod_cast this
    push_cast at hcast ⊢
    linarith
  have hlowRaw' : x * k - tickLowOffset / 2 ^ 128 - 1 < ((rawLow log2 : Int) : ℝ) := by
    have := Int.lt_ediv_add_one_mul_self (log2 * logMul - tickLowOffset)
      (show (0 : Int) < 2 ^ 128 by norm_num)
    have hcast : ((log2 * logMul - tickLowOffset : Int) : ℝ) <
        (((rawLow log2 + 1) * 2 ^ 128 : Int) : ℝ) := by exact_mod_cast this
    rw [← hprod, ← sub_div, sub_lt_iff_lt_add, div_lt_iff₀ (by positivity)]
    push_cast at hcast ⊢
    linarith
  have hhighRaw : ((rawHigh log2 : Int) : ℝ) ≤ x * k + tickHighOffset / 2 ^ 128 := by
    rw [← hprod, ← add_div, le_div_iff₀ (by positivity)]
    have := Int.ediv_mul_le (log2 * logMul + tickHighOffset)
      (show (2 ^ 128 : Int) ≠ 0 by norm_num)
    have hcast : ((rawHigh log2 * 2 ^ 128 : Int) : ℝ) ≤
        ((log2 * logMul + tickHighOffset : Int) : ℝ) := by exact_mod_cast this
    push_cast at hcast ⊢
    linarith
  have hhighRaw' : x * k + tickHighOffset / 2 ^ 128 - 1 < ((rawHigh log2 : Int) : ℝ) := by
    have := Int.lt_ediv_add_one_mul_self (log2 * logMul + tickHighOffset)
      (show (0 : Int) < 2 ^ 128 by norm_num)
    have hcast : ((log2 * logMul + tickHighOffset : Int) : ℝ) <
        (((rawHigh log2 + 1) * 2 ^ 128 : Int) : ℝ) := by exact_mod_cast this
    rw [← hprod, ← add_div, sub_lt_iff_lt_add, div_lt_iff₀ (by positivity)]
    push_cast at hcast ⊢
    linarith
  have hoff : (0.01 : ℝ) ≤ tickLowOffset / 2 ^ 128 ∧
      (tickLowOffset : ℝ) / 2 ^ 128 ≤ 0.011 ∧ (0.8561 : ℝ) ≤ tickHighOffset / 2 ^ 128 ∧
        (tickHighOffset : ℝ) / 2 ^ 128 ≤ 0.857 := by
    unfold tickLowOffset tickHighOffset
    norm_num
  refine ⟨?_, ?_, ?_⟩
  · by_cases hmax : t = maxTick
    · rw [hmax]
      exact (clamp_inRange _).2
    · have hnext : TickInRange (t + 1) :=
        ⟨ht.1.trans (by omega), by have := ht.2; omega⟩
      have hgt : p < getSqrtPriceAtTick (t + 1) := by
        by_contra hge
        have := hgreatest (t + 1) hnext (not_lt.mp hge)
        omega
      have htick' := abs_le.mp (priceLog_inRange hnext)
      have hlogn := (priceLog_le_iff hp.pos (price_valid hnext).pos).mpr (le_of_lt hgt)
      have hraw : rawLow log2 ≤ t := by
        have hlt : ((rawLow log2 : Int) : ℝ) < t + 1 := by
          by_contra hge
          have hge' : (t : ℝ) + 1 + 0.01 ≤ x * k := by linarith [not_lt.mp hge]
          have hscaled : ((t : ℝ) + 1 + 0.01) * tickLog ≤ x * k * tickLog :=
            mul_le_mul_of_nonneg_right hge' (by linarith [hl.1])
          push_cast at htick'
          norm_num at htick' hnear' hscaled
          linarith [htick'.2, hnear'.2, hl.1]
        exact Int.lt_add_one_iff.mp (by exact_mod_cast hlt)
      have hclamp := clamp_mono hraw
      have hself : clampI64ToTickIndex t = t := by
        have := ht.1
        have := ht.2
        unfold clampI64ToTickIndex
        omega
      rw [hself] at hclamp
      exact hclamp
  · have hraw : t ≤ rawHigh log2 := by
      have hlt : (t : ℝ) < (rawHigh log2 : Int) + 1 := by
        by_contra hge
        have hge' : x * k + 0.8561 ≤ t := by linarith [not_lt.mp hge]
        have hscaled : (x * k + 0.8561) * tickLog ≤ t * tickLog :=
          mul_le_mul_of_nonneg_right hge' (by linarith [hl.1])
        have hfraction : (1 : ℝ) / 2 ^ 14 * Real.log 2 ≤ 0.84618 * tickLog := by
          norm_num at hl h2 ⊢
          linarith [hl.1, h2.2]
        norm_num at htick hnear' hscaled hfraction hhigh
        linarith [htick.1, hnear'.1, hl.1]
      exact Int.lt_add_one_iff.mp (by exact_mod_cast hlt)
    have hclamp := clamp_mono hraw
    have hself : clampI64ToTickIndex t = t := by
      have := ht.1
      have := ht.2
      unfold clampI64ToTickIndex
      omega
    rw [hself] at hclamp
    exact hclamp
  · have hdiff : rawHigh log2 ≤ rawLow log2 + 1 := by
      have hlt : ((rawHigh log2 : Int) : ℝ) < (rawLow log2 : Int) + 2 := by linarith
      have : rawHigh log2 < rawLow log2 + 2 := by exact_mod_cast hlt
      omega
    unfold clampI64ToTickIndex
    omega

theorem getTickAtSqrtPrice_spec (hp : IsValidSqrtPrice p) :
    TickInRange (getTickAtSqrtPrice p) ∧
      getSqrtPriceAtTick (getTickAtSqrtPrice p) ≤ p ∧
        forall u, TickInRange u -> getSqrtPriceAtTick u ≤ p -> u ≤ getTickAtSqrtPrice p := by
  rcases exists_floor hp with ⟨t, ht, hle, hgreatest⟩
  have hfloor : getTickAtSqrtPrice p = t := by
    rw [getTickAtSqrtPrice_eq]
    have h := bracket hp ht hle hgreatest rfl
    simp only
    generalize toSigned 128 (log2Word (wrap 256 (p <<< 32))) = log2 at h ⊢
    split
    · omega
    · rename_i hne
      split
      · rename_i hhigh
        have := hgreatest _ (clamp_inRange _) hhigh
        omega
      · rename_i hhigh
        have hnot : t ≠ clampI64ToTickIndex (rawHigh log2) := by
          intro he
          rw [he] at hle
          exact hhigh hle
        omega
  rw [hfloor]
  exact ⟨ht, hle, hgreatest⟩

theorem getTickAtSqrtPrice_eq_iff (hp : IsValidSqrtPrice p) (ht : TickInRange t) :
    getTickAtSqrtPrice p = t ↔
      getSqrtPriceAtTick t ≤ p ∧ (t < maxTick -> p < getSqrtPriceAtTick (t + 1)) := by
  have hspec := getTickAtSqrtPrice_spec hp
  constructor
  · intro h
    rw [h] at hspec
    refine ⟨hspec.2.1, fun hlt => ?_⟩
    by_contra hge
    have := hspec.2.2 (t + 1) ⟨by have := ht.1; omega, by omega⟩ (not_lt.mp hge)
    omega
  · rintro ⟨hle, hnext⟩
    apply le_antisymm
    · by_contra hgt
      have hmax := hspec.1.2
      have hlt := hnext (by omega)
      have hlo := ht.1
      unfold minTick at hlo
      unfold maxTick at hmax
      have := price_le (t := t + 1) (u := getTickAtSqrtPrice p) (by omega) (by omega) (by omega)
      have := hspec.2.1
      omega
    · exact hspec.2.2 t ht hle

theorem getTickAtSqrtPrice_price (ht : TickInRange t) :
    getTickAtSqrtPrice (getSqrtPriceAtTick t) = t := by
  rw [getTickAtSqrtPrice_eq_iff (price_valid ht) ht]
  have hlo := ht.1
  unfold minTick at hlo
  refine ⟨le_refl _, fun hlt => ?_⟩
  unfold maxTick at hlt
  exact price_lt (by omega) (by omega) (by omega)

theorem getTickAtSqrtPrice_mono {q : Nat} (hp : IsValidSqrtPrice p) (hq : IsValidSqrtPrice q)
    (h : p ≤ q) : getTickAtSqrtPrice p ≤ getTickAtSqrtPrice q := by
  have hfloor := getTickAtSqrtPrice_spec hp
  exact (getTickAtSqrtPrice_spec hq).2.2 _ hfloor.1 (hfloor.2.1.trans h)

theorem le_getTickAtSqrtPrice_iff (hp : IsValidSqrtPrice p) (hlo : -2 ^ 20 < t)
    (hhi : t ≤ maxTick) : t ≤ getTickAtSqrtPrice p ↔ getSqrtPriceAtTick t ≤ p := by
  have hspec := getTickAtSqrtPrice_spec hp
  have hmax := hspec.1.2
  unfold maxTick at hmax
  constructor
  · intro hle
    exact (price_le hlo hle (by omega)).trans hspec.2.1
  · intro hle
    by_cases hmin : minTick ≤ t
    · exact hspec.2.2 t ⟨hmin, hhi⟩ hle
    · exact (le_of_lt (not_le.mp hmin)).trans hspec.1.1

/-- The conversions between ticks and prices are floor inverses. -/
theorem getTickAtSqrtPrice_floor :
    (forall p, IsValidSqrtPrice p ->
      TickInRange (getTickAtSqrtPrice p) ∧ getSqrtPriceAtTick (getTickAtSqrtPrice p) ≤ p ∧
        (getTickAtSqrtPrice p < maxTick ->
          p < getSqrtPriceAtTick (getTickAtSqrtPrice p + 1))) ∧
      (forall p q, IsValidSqrtPrice p -> IsValidSqrtPrice q -> p ≤ q ->
        getTickAtSqrtPrice p ≤ getTickAtSqrtPrice q) ∧
      forall t, TickInRange t -> getTickAtSqrtPrice (getSqrtPriceAtTick t) = t := by
  refine ⟨fun p hp => ?_, fun p q hp hq h => getTickAtSqrtPrice_mono hp hq h,
    fun t ht => getTickAtSqrtPrice_price ht⟩
  have hrange := (getTickAtSqrtPrice_spec hp).1
  exact ⟨hrange, (getTickAtSqrtPrice_eq_iff hp hrange).mp rfl⟩

end Bracket

end RmUniswap
