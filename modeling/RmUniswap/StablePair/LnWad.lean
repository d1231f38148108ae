import RmUniswap.StablePair.ExpWad

/-!
# The logarithm of a factor

The argument is shifted until its highest bit is at the top, the quotient of two
polynomials gives the logarithm of its mantissa, and the shift adds a multiple
of the logarithm of two. Below one, down to the least factor of a block, the
result is off by at most five units in the ninth decimal.
-/

namespace RmUniswap

open Foundation
open Foundation.RationalPoly

namespace Wad

section Normalise

variable {xu r byte : Nat}

def shiftOf (r byte : Nat) : Nat :=
  r ^^^ ((0xf8f9f9faf9fdfafbf9fdfcfdfafbfcfef9fafdfafcfcfbfefafafcfbffffffff >>>
    (8 * (31 - ((0x8421084210842108cc6318c6db6d54be >>> byte) &&& 0x1f)))) &&& 0xff)

theorem shiftOf_eq :
    forall i, i < 32 -> forall byte, byte < 256 -> 0 < byte ->
      shiftOf (8 * i) byte = 255 - (8 * i + Nat.log2 byte) := by
  decide +kernel

theorem shiftOf_spec {i : Nat} (h : xu < 2 ^ 256) (hlow : 2 ^ (8 * i) ≤ xu)
    (hhigh : xu < 2 ^ (8 * (i + 1))) :
    2 ^ 255 ≤ xu * 2 ^ shiftOf (8 * i) (xu >>> (8 * i)) ∧
      xu * 2 ^ shiftOf (8 * i) (xu >>> (8 * i)) < 2 ^ 256 := by
  have hi : 8 * i < 256 := (Nat.pow_lt_pow_iff_right (by decide)).mp (lt_of_le_of_lt hlow h)
  obtain ⟨byte, hb⟩ : exists byte, byte = xu >>> (8 * i) := ⟨_, rfl⟩
  rw [← hb]
  rw [Nat.shiftRight_eq_div_pow] at hb
  have hbyte0 : 0 < byte := by
    rw [hb]
    exact Nat.div_pos hlow (by positivity)
  have hbyte : byte < 256 := by
    rw [hb]
    apply Nat.div_lt_of_lt_mul
    rw [Nat.mul_succ, pow_add] at hhigh
    exact hhigh
  have hlog := Nat.log2_self_le (Nat.pos_iff_ne_zero.mp hbyte0)
  have hlog' := Nat.lt_log2_self (n := byte)
  have hmul : byte * 2 ^ (8 * i) ≤ xu := by
    rw [hb]
    exact Nat.div_mul_le_self _ _
  have hmul' : xu < (byte + 1) * 2 ^ (8 * i) := by
    rw [hb]
    exact (Nat.div_lt_iff_lt_mul (by positivity)).mp (Nat.lt_succ_self _)
  have hle : 8 * i + Nat.log2 byte ≤ 255 := by
    have hsmall : Nat.log2 byte < 8 := (Nat.log2_lt (Nat.pos_iff_ne_zero.mp hbyte0)).mpr hbyte
    omega
  have hlow' : 2 ^ (8 * i + Nat.log2 byte) ≤ xu := by
    rw [pow_add, Nat.mul_comm]
    exact (Nat.mul_le_mul_right _ hlog).trans hmul
  have hhigh' : xu < 2 ^ (8 * i + Nat.log2 byte + 1) := by
    rw [Nat.add_assoc, pow_add, Nat.mul_comm]
    exact lt_of_lt_of_le hmul' (Nat.mul_le_mul_right _ hlog')
  rw [shiftOf_eq i (by omega) byte hbyte hbyte0]
  generalize 8 * i + Nat.log2 byte = n at hle hlow' hhigh'
  have hsplit : 2 ^ 255 = 2 ^ n * 2 ^ (255 - n) := by
    rw [← pow_add, Nat.add_sub_cancel' hle]
  have hsplit' : 2 ^ 256 = 2 ^ (n + 1) * 2 ^ (255 - n) := by
    rw [← pow_add]
    congr 1
    omega
  rw [hsplit, hsplit']
  exact ⟨Nat.mul_le_mul_right _ hlow', Nat.mul_lt_mul_of_pos_right hhigh' (by positivity)⟩

theorem search_step {j a : Nat} (hlow : 2 ^ (2 ^ (j + 1) * a) ≤ xu)
    (hhigh : xu < 2 ^ (2 ^ (j + 1) * (a + 1))) :
    exists b, (2 ^ (j + 1) * a ||| if xu >>> (2 ^ (j + 1) * a) > 2 ^ 2 ^ j - 1 then 2 ^ j else 0) =
        2 ^ j * b ∧ 2 ^ (2 ^ j * b) ≤ xu ∧ xu < 2 ^ (2 ^ j * (b + 1)) := by
  have hj : 2 ^ j < 2 ^ (j + 1) := Nat.pow_lt_pow_right (by decide) (by omega)
  have hone : 1 ≤ 2 ^ 2 ^ j := Nat.one_le_two_pow
  rw [Nat.shiftRight_eq_div_pow]
  split
  · rename_i hgt
    refine ⟨2 * a + 1, ?_, ?_, ?_⟩
    · rw [← Nat.two_pow_add_eq_or_of_lt hj]
      ring
    · have hle : 2 ^ 2 ^ j ≤ xu / 2 ^ (2 ^ (j + 1) * a) := by omega
      have hmul := (Nat.le_div_iff_mul_le (by positivity)).mp hle
      rw [← pow_add] at hmul
      have hexp : 2 ^ j * (2 * a + 1) = 2 ^ j + 2 ^ (j + 1) * a := by ring
      rw [hexp]
      exact hmul
    · have hexp : 2 ^ j * (2 * a + 1 + 1) = 2 ^ (j + 1) * (a + 1) := by ring
      rw [hexp]
      exact hhigh
  · rename_i hgt
    have hexp : 2 ^ j * (2 * a) = 2 ^ (j + 1) * a := by ring
    refine ⟨2 * a, ?_, ?_, ?_⟩
    · rw [Nat.or_zero, hexp]
    · rw [hexp]
      exact hlow
    · have hlt : xu / 2 ^ (2 ^ (j + 1) * a) < 2 ^ 2 ^ j := by omega
      have hmul := (Nat.div_lt_iff_lt_mul (by positivity)).mp hlt
      rw [← pow_add] at hmul
      have hexp' : 2 ^ j * (2 * a + 1) = 2 ^ j + 2 ^ (j + 1) * a := by ring
      rw [hexp']
      exact hmul

theorem leadingShift_spec (h0 : 0 < xu) (h : xu < 2 ^ 256) :
    exists r, leadingShift xu = some r ∧ 2 ^ 255 ≤ xu * 2 ^ r ∧ xu * 2 ^ r < 2 ^ 256 := by
  obtain ⟨a, ha, halow, hahigh⟩ := search_step (j := 7) (a := 0) h0 h
  obtain ⟨b, hb, hblow, hbhigh⟩ := search_step halow hahigh
  obtain ⟨c, hc, hclow, hchigh⟩ := search_step hblow hbhigh
  obtain ⟨d, hd, hdlow, hdhigh⟩ := search_step hclow hchigh
  obtain ⟨i, hi, hilow, hihigh⟩ := search_step hdlow hdhigh
  rw [Nat.mul_zero, Nat.zero_or, Nat.shiftRight_zero] at ha
  have ha' : (if xu > 2 ^ 128 - 1 then 1 <<< 7 else 0) = 2 ^ 7 * a := ha
  have hb' : (2 ^ 7 * a ||| if xu >>> (2 ^ 7 * a) > 2 ^ 64 - 1 then 1 <<< 6 else 0) =
      2 ^ 6 * b := hb
  have hc' : (2 ^ 6 * b ||| if xu >>> (2 ^ 6 * b) > 2 ^ 32 - 1 then 1 <<< 5 else 0) =
      2 ^ 5 * c := hc
  have hd' : (2 ^ 5 * c ||| if xu >>> (2 ^ 5 * c) > 2 ^ 16 - 1 then 1 <<< 4 else 0) =
      2 ^ 4 * d := hd
  have hi' : (2 ^ 4 * d ||| if xu >>> (2 ^ 4 * d) > 2 ^ 8 - 1 then 1 <<< 3 else 0) =
      8 * i := hi
  have hbyte : xu >>> (8 * i) < 2 ^ 64 := by
    rw [Nat.shiftRight_eq_div_pow]
    apply Nat.div_lt_of_lt_mul
    have hexp : 2 ^ (2 ^ 3 * (i + 1)) = 2 ^ (8 * i) * 2 ^ 8 := by
      rw [← pow_add]
      congr 1
    rw [hexp] at hihigh
    exact hihigh.trans (Nat.mul_lt_mul_of_pos_left (by decide) (by positivity))
  unfold leadingShift
  dsimp only
  rw [ha', hb', hc', hd', hi', Foundation.narrow_of_lt hbyte]
  exact ⟨_, rfl, shiftOf_spec h hilow hihigh⟩

end Normalise

section Quotient

variable {u : ℝ} {t : Int}

def lnFactor : Int := 1677202110996718588342820967067443963516166

def lnPower : Int := 16597577552685614221487285958193947469193820559219878177908093499208371

def lnConstant : Int := 600920179829731861736702779321621459595472258049074101567377883020018308

def lnOne : ℚ := 10 ^ 18 / 2 ^ 59

def lnScale : ℚ := lnFactor * 2 ^ 96 / 2 ^ 174 / 10 ^ 18

theorem lnBounds :
    (forall c, c ∈ lnQ -> 0 ≤ c) ∧ 12612 ≤ total lnQ ∧ bound 2 lnP ≤ 26000 ∧
      bound (1 / 2) (shift (3 / 2) (logDefect lnScale lnP lnQ)) / total lnQ ^ 2 ≤ 1 / 10 ^ 11 := by
  decide +kernel

theorem lnQ_low (hu : u ∈ Set.Icc (1 : ℝ) 2) : (12612 : ℝ) ≤ eval lnQ u :=
  le_trans (by exact_mod_cast lnBounds.2.1) (total_le_eval lnBounds.1 hu.1)

theorem abs_lnP_le (hu : u ∈ Set.Icc (1 : ℝ) 2) : |eval lnP u| ≤ (26000 : ℝ) := by
  have habs : |u| ≤ ((2 : ℚ) : ℝ) := by
    push_cast
    exact abs_le.mpr ⟨by linarith [hu.1], hu.2⟩
  have hle : (bound 2 lnP : ℝ) ≤ 26000 := by exact_mod_cast lnBounds.2.2.1
  exact (abs_eval_le habs lnP).trans hle

theorem lnOne_mem : (lnOne : ℝ) ∈ Set.Icc (1 : ℝ) 2 := by
  unfold lnOne
  norm_num

theorem abs_lnAnchor_le :
    |lnScale * (eval lnP lnOne / eval lnQ lnOne) +
      (lnPower : ℝ) * (159 - 196) / 2 ^ 174 / 10 ^ 18 + lnConstant / 2 ^ 174 / 10 ^ 18| ≤
        (1 / 10 ^ 12 : ℝ) := by
  obtain ⟨hlow, hhigh⟩ : -(1 / 10 ^ 12 : ℚ) ≤
        lnScale * ((shift lnOne lnP).headD 0 / (shift lnOne lnQ).headD 0) +
          lnPower * (159 - 196) / 2 ^ 174 / 10 ^ 18 + lnConstant / 2 ^ 174 / 10 ^ 18 ∧
      lnScale * ((shift lnOne lnP).headD 0 / (shift lnOne lnQ).headD 0) +
        lnPower * (159 - 196) / 2 ^ 174 / 10 ^ 18 + lnConstant / 2 ^ 174 / 10 ^ 18 ≤
          (1 / 10 ^ 12 : ℚ) := by
    decide +kernel
  have hlow' := (Rat.cast_le (K := ℝ)).mpr hlow
  have hhigh' := (Rat.cast_le (K := ℝ)).mpr hhigh
  rw [eval_cast, eval_cast]
  push_cast at hlow' hhigh' ⊢
  exact abs_le.mpr ⟨hlow', hhigh'⟩

theorem abs_lnQuotient_sub_le (hu : u ∈ Set.Icc (1 : ℝ) 2) :
    |(lnScale * (eval lnP u / eval lnQ u) - Real.log u) -
      (lnScale * (eval lnP lnOne / eval lnQ lnOne) - Real.log lnOne)| ≤ 1 / 10 ^ 11 := by
  have hbound := lnBounds.2.2.2
  have hclose := abs_quotient_sub_log_le (p := lnP) lnScale lnBounds.1
    (lt_of_lt_of_le (by norm_num) lnBounds.2.1) hu lnOne_mem
  have hdist : |u - lnOne| ≤ 1 := by
    have hone := lnOne_mem
    exact abs_le.mpr ⟨by linarith [hu.1, hone.2], by linarith [hu.2, hone.1]⟩
  have hcast :
      ((bound (1 / 2) (shift (3 / 2) (logDefect lnScale lnP lnQ)) / total lnQ ^ 2 : ℚ) : ℝ) ≤
        1 / 10 ^ 11 := by
    have h := (Rat.cast_le (K := ℝ)).mpr hbound
    push_cast at h ⊢
    exact h
  have hmul := mul_le_mul hcast hdist (abs_nonneg _) (by norm_num)
  rw [mul_one] at hmul
  exact hclose.trans hmul

theorem lnRatio_spec (ht : |t| ≤ 2 ^ 97) (hu : fixed 96 t ∈ Set.Icc (1 : ℝ) 2) :
    exists p, div (lnNumerator t) (lnDenominator t) = some p ∧
      Near 96 p (eval lnP (fixed 96 t) / eval lnQ (fixed 96 t)) 2 ∧ |p| ≤ 2 ^ 98 := by
  have hQ := lnQ_low hu
  have hQ0 : 0 < eval lnQ (fixed 96 t) := lt_of_lt_of_le (by norm_num) hQ
  have hP := abs_lnP_le hu
  have hratio : |eval lnP (fixed 96 t)| / eval lnQ (fixed 96 t) ≤ 26000 / 12612 :=
    div_le_div₀ (by norm_num) hP (by norm_num) hQ
  have hden := lnDenominator_near ht
  have hlow : (2 : ℝ) ^ 109 ≤ lnDenominator t := by
    have hle := neg_le_of_abs_le hden
    have hmul : (2 : ℝ) ^ 96 * 12612 ≤ 2 ^ 96 * eval lnQ (fixed 96 t) :=
      mul_le_mul_of_nonneg_left hQ (by positivity)
    norm_num at hmul hle ⊢
    linarith
  have hreal : (0 : ℝ) < lnDenominator t := lt_of_lt_of_le (by positivity) hlow
  have hpos : 0 < lnDenominator t := by exact_mod_cast hreal
  have hnum := lnNumerator_near ht
  have hnear : Near 96 ((lnNumerator t).tdiv (lnDenominator t))
      (eval lnP (fixed 96 t) / eval lnQ (fixed 96 t)) 2 := by
    apply (Near.quotient (t := 96) hnum.1 hden hQ0 hpos).mono
    have hfraction :
        (2 ^ 102 + 2 ^ 96 * (|eval lnP (fixed 96 t)| / eval lnQ (fixed 96 t)) * 64) /
          (lnDenominator t : ℝ) ≤ 1 := by
      rw [div_le_one hreal]
      apply le_trans _ hlow
      norm_num at hratio ⊢
      linarith
    linarith
  have habs : |(((lnNumerator t).tdiv (lnDenominator t) : Int) : ℝ)| ≤ 2 ^ 98 := by
    have hbounds := abs_le.mp hnear
    have hquotient := hratio
    rw [← abs_of_pos hQ0, ← abs_div] at hquotient
    have hquotient' := abs_le.mp hquotient
    norm_num at hbounds hquotient' ⊢
    exact abs_le.mpr ⟨by linarith [hbounds.1, hquotient'.1], by linarith [hbounds.2, hquotient'.2]⟩
  refine ⟨_, div_eq (ne_of_gt hpos) hnum.2 (by decide), hnear, ?_⟩
  exact_mod_cast habs

end Quotient

section Result

variable {t p y : Int} {xu r : Nat} {w : ℝ}

noncomputable def lnValue (p : Int) (r : Nat) : ℝ :=
  fixed 174 (lnFactor * p + lnPower * (159 - r) + lnConstant)

theorem lnValue_eq (p : Int) (r : Nat) :
    lnValue p r = (lnFactor * p + lnPower * (159 - r) + lnConstant) / 2 ^ 174 := by
  unfold lnValue fixed
  push_cast
  rfl

theorem lnWad_floor (h0 : 0 < xu) (h : xu < 2 ^ 255) (hshift : leadingShift xu = some r)
    (hhigh : xu * 2 ^ r < 2 ^ 256) (hr : r ≤ 255)
    (hdiv : div (lnNumerator (xu * 2 ^ r / 2 ^ 159 : Nat))
      (lnDenominator (xu * 2 ^ r / 2 ^ 159 : Nat)) = some p) (hp : |p| ≤ 2 ^ 98) :
    lnWad xu = some ⌊lnValue p r⌋ := by
  have hword : toRaw 256 (xu : Int) = xu := by
    have hraw := toRaw_of_nonneg (w := 256) (x := xu) (by omega)
      (by exact_mod_cast h.trans (by decide))
    exact_mod_cast hraw
  have hmantissa : toSigned 256 (wrap 256 (xu <<< r) >>> 159) = (xu * 2 ^ r / 2 ^ 159 : Nat) := by
    rw [Nat.shiftLeft_eq, wrap_of_lt hhigh, Nat.shiftRight_eq_div_pow]
    apply toSigned_of_lt
    have hsmall : xu * 2 ^ r / 2 ^ 159 < 2 ^ 97 := Nat.div_lt_of_lt_mul (by omega)
    exact hsmall.trans (by decide)
  have hfactor : |lnFactor * p| ≤ 2 ^ 240 := abs_mul_le_pow (a := 142) (by decide) hp
  have hpower : |lnPower * (159 - r)| ≤ 2 ^ 242 :=
    abs_mul_le_pow (a := 234) (b := 8) (by decide) (abs_le.mpr ⟨by omega, by omega⟩)
  have hfactor' : |lnFactor * p| ≤ 2 ^ 242 := hfactor.trans (by norm_num)
  have hsum := abs_add_le_pow hpower hfactor'
  have hconstant : |lnConstant| ≤ 2 ^ 243 := by decide
  unfold lnWad
  rw [if_neg (by omega), hword]
  dsimp only
  rw [hshift, Option.bind_eq_bind, Option.bind_some, hmantissa, hdiv, Option.bind_eq_bind,
    Option.bind_some]
  have hfirst : wrappingMul 1677202110996718588342820967067443963516166 p = lnFactor * p :=
    wrappingMul_eq (a := 142) (by decide) hp (by decide)
  have hsecond : wrappingMul
      16597577552685614221487285958193947469193820559219878177908093499208371 (159 - r) =
        lnPower * (159 - r) :=
    wrappingMul_eq (a := 234) (b := 8) (by decide) (abs_le.mpr ⟨by omega, by omega⟩) (by decide)
  have hthird : wrappingAdd
      600920179829731861736702779321621459595472258049074101567377883020018308
        (lnPower * (159 - r) + lnFactor * p) = lnConstant + (lnPower * (159 - r) + lnFactor * p) :=
    wrappingAdd_eq hconstant hsum (by decide)
  rw [hfirst, hsecond, wrappingAdd_eq hpower hfactor' (by decide), hthird]
  have hfloor := Int.floor_div_natCast
    (((lnConstant + (lnPower * (159 - r) + lnFactor * p) : Int)) : ℝ) (2 ^ 174)
  rw [Int.floor_intCast] at hfloor
  rw [lnValue_eq]
  unfold sar
  have hvalue : ((lnFactor * p + lnPower * (159 - r) + lnConstant) / 2 ^ 174 : ℝ) =
      (((lnConstant + (lnPower * (159 - r) + lnFactor * p) : Int)) : ℝ) /
        ((2 ^ 174 : Nat) : ℝ) := by
    push_cast
    ring
  rw [hvalue, hfloor]
  push_cast
  rfl

theorem abs_lnPower_sub_le : |(lnPower : ℝ) / 2 ^ 174 / 10 ^ 18 - Real.log 2| ≤ 11 / 10 ^ 11 := by
  have hnear := abs_le.mp Real.log_two_near_10
  unfold lnPower
  norm_num at hnear ⊢
  exact abs_le.mpr ⟨by linarith, by linarith⟩

theorem abs_lnValue_sub_le {u : ℝ} (hu : u ∈ Set.Icc (1 : ℝ) 2)
    (hp : Near 96 p (eval lnP u / eval lnQ u) 2) (hlow : 171 ≤ r) (hhigh : r ≤ 221) :
    |lnValue p r / 10 ^ 18 - (Real.log u - Real.log lnOne + (196 - r) * Real.log 2)| ≤
      4 / 10 ^ 9 := by
  have hfirst : |(lnFactor : ℝ) / 2 ^ 174 / 10 ^ 18 * (p - 2 ^ 96 * (eval lnP u / eval lnQ u))| ≤
      1 / 10 ^ 12 := by
    have hfactor : |(lnFactor : ℝ) / 2 ^ 174 / 10 ^ 18| ≤ 1 / 10 ^ 13 := by
      unfold lnFactor
      norm_num
    rw [abs_mul]
    exact (mul_le_mul hfactor hp (abs_nonneg _) (by positivity)).trans (by norm_num)
  have hsecond := abs_lnQuotient_sub_le hu
  have hthird := abs_lnAnchor_le
  have hfourth : |((lnPower : ℝ) / 2 ^ 174 / 10 ^ 18 - Real.log 2) * (196 - r)| ≤
      11 / 10 ^ 11 * 25 := by
    have hdist : |(196 : ℝ) - r| ≤ 25 := by
      have hge : (171 : ℝ) ≤ r := by exact_mod_cast hlow
      have hle : (r : ℝ) ≤ 221 := by exact_mod_cast hhigh
      exact abs_le.mpr ⟨by linarith, by linarith⟩
    rw [abs_mul]
    exact mul_le_mul abs_lnPower_sub_le hdist (abs_nonneg _) (by norm_num)
  have hsplit : lnValue p r / 10 ^ 18 - (Real.log u - Real.log lnOne + (196 - r) * Real.log 2) =
      (lnFactor : ℝ) / 2 ^ 174 / 10 ^ 18 * (p - 2 ^ 96 * (eval lnP u / eval lnQ u)) +
        ((lnScale * (eval lnP u / eval lnQ u) - Real.log u) -
          (lnScale * (eval lnP lnOne / eval lnQ lnOne) - Real.log lnOne)) +
        (lnScale * (eval lnP lnOne / eval lnQ lnOne) +
          (lnPower : ℝ) * (159 - 196) / 2 ^ 174 / 10 ^ 18 + lnConstant / 2 ^ 174 / 10 ^ 18) +
        ((lnPower : ℝ) / 2 ^ 174 / 10 ^ 18 - Real.log 2) * (196 - r) := by
    rw [lnValue_eq]
    unfold lnScale
    push_cast
    ring
  rw [hsplit]
  apply (abs_add_le _ _).trans
  have hthree := (abs_add_three _ _ _).trans (add_le_add (add_le_add hfirst hsecond) hthird)
  exact (add_le_add hthree hfourth).trans (by norm_num)

theorem log_normalised (h0 : 0 < xu) :
    Real.log (xu / 10 ^ 18) =
      Real.log (xu * 2 ^ r / 2 ^ 255) - Real.log lnOne + (196 - r) * Real.log 2 := by
  have hx : (xu : ℝ) ≠ 0 := by exact_mod_cast Nat.pos_iff_ne_zero.mp h0
  have hone : (lnOne : ℝ) = 10 ^ 18 / 2 ^ 59 := by
    unfold lnOne
    push_cast
    rfl
  rw [hone, Real.log_div hx (by positivity), Real.log_div (by positivity) (by positivity),
    Real.log_div (by positivity) (by positivity), Real.log_mul hx (by positivity),
    Real.log_pow 2, Real.log_pow 2, Real.log_pow 2]
  push_cast
  ring

theorem abs_log_sub_log_le {u : ℝ} (hu : 1 ≤ u) (hlow : u ≤ w) (hhigh : w ≤ u + 1 / 2 ^ 96) :
    |Real.log w - Real.log u| ≤ 1 / 2 ^ 96 := by
  have hu0 : 0 < u := lt_of_lt_of_le one_pos hu
  have hw0 : 0 < w := lt_of_lt_of_le hu0 hlow
  have hmono := Real.log_le_log hu0 hlow
  have hratio := Real.log_le_sub_one_of_pos (div_pos hw0 hu0)
  rw [Real.log_div (ne_of_gt hw0) (ne_of_gt hu0)] at hratio
  have hdiv : w / u ≤ 1 + 1 / 2 ^ 96 := by
    rw [div_le_iff₀ hu0]
    have hgrow : (1 / 2 ^ 96 : ℝ) ≤ 1 / 2 ^ 96 * u := le_mul_of_one_le_right (by positivity) hu
    linarith
  rw [abs_of_nonneg (by linarith)]
  linarith

/-- From the least factor of a block to one the result is the logarithm, up to
five units in the ninth decimal. -/
theorem lnWad_spec (hlow : 2 ^ 35 ≤ xu) (hhigh : xu < 2 ^ 60) :
    exists y, lnWad xu = some y ∧
      |(y : ℝ) / 10 ^ 18 - Real.log (xu / 10 ^ 18)| ≤ 5 / 10 ^ 9 := by
  have h0 : 0 < xu := lt_of_lt_of_le (by decide) hlow
  have hword : xu < 2 ^ 255 := hhigh.trans (by decide)
  obtain ⟨r, hshift, hlow', hhigh'⟩ := leadingShift_spec h0 (hword.trans (by decide))
  have hr : r ≤ 220 := by
    have hlt : 2 ^ (35 + r) < 2 ^ 256 := by
      rw [pow_add]
      exact lt_of_le_of_lt (Nat.mul_le_mul_right _ hlow) hhigh'
    have hexp := (Nat.pow_lt_pow_iff_right (by decide)).mp hlt
    omega
  have hr' : 196 ≤ r := by
    have hlt : 2 ^ 255 < 2 ^ (60 + r) := by
      rw [pow_add]
      exact lt_of_le_of_lt hlow' (Nat.mul_lt_mul_of_pos_right hhigh (by positivity))
    have hexp := (Nat.pow_lt_pow_iff_right (by decide)).mp hlt
    omega
  obtain ⟨t, ht⟩ : exists t, t = xu * 2 ^ r / 2 ^ 159 := ⟨_, rfl⟩
  have htlow : 2 ^ 96 ≤ t := by omega
  have hthigh : t < 2 ^ 97 := by omega
  have hu : fixed 96 t ∈ Set.Icc (1 : ℝ) 2 := by
    have hge : (2 : ℝ) ^ 96 ≤ t := by exact_mod_cast htlow
    have hle : (t : ℝ) ≤ 2 ^ 97 := by exact_mod_cast le_of_lt hthigh
    unfold fixed
    rw [Int.cast_natCast]
    refine ⟨(one_le_div (by positivity)).mpr hge, (div_le_iff₀ (by positivity)).mpr ?_⟩
    norm_num at hle ⊢
    exact hle
  have htabs : |(t : Int)| ≤ 2 ^ 97 := abs_le.mpr ⟨by omega, by omega⟩
  obtain ⟨p, hdiv, hp, hpabs⟩ := lnRatio_spec htabs hu
  have hfloor := lnWad_floor h0 hword hshift hhigh' (by omega)
    (by rw [← ht]; exact hdiv) hpabs
  refine ⟨_, hfloor, ?_⟩
  have hvalue := abs_lnValue_sub_le hu hp (by omega) (by omega : r ≤ 221)
  have hmantissa : |Real.log (xu * 2 ^ r / 2 ^ 255) - Real.log (fixed 96 t)| ≤ 1 / 2 ^ 96 := by
    have hle : (t : ℝ) * 2 ^ 159 ≤ xu * 2 ^ r := by
      have hnat : t * 2 ^ 159 ≤ xu * 2 ^ r := by omega
      exact_mod_cast hnat
    have hge : (xu : ℝ) * 2 ^ r ≤ (t + 1) * 2 ^ 159 := by
      have hnat : xu * 2 ^ r ≤ (t + 1) * 2 ^ 159 := by omega
      exact_mod_cast hnat
    apply abs_log_sub_log_le hu.1
    · unfold fixed
      rw [Int.cast_natCast, div_le_div_iff₀ (by positivity) (by positivity)]
      norm_num at hle ⊢
      linarith
    · unfold fixed
      rw [Int.cast_natCast, ← add_div, div_le_div_iff₀ (by positivity) (by positivity)]
      norm_num at hge ⊢
      linarith
  rw [log_normalised (r := r) h0]
  have hround : |(⌊lnValue p r⌋ : ℝ) / 10 ^ 18 - lnValue p r / 10 ^ 18| ≤ 1 / 10 ^ 18 := by
    have hle := Int.floor_le (lnValue p r)
    have hlt := Int.lt_floor_add_one (lnValue p r)
    rw [← sub_div, abs_div, abs_of_pos (by positivity : (0 : ℝ) < 10 ^ 18)]
    apply div_le_div_of_nonneg_right _ (by positivity)
    exact abs_le.mpr ⟨by linarith, by linarith⟩
  have hsum := abs_add_three
    ((⌊lnValue p r⌋ : ℝ) / 10 ^ 18 - lnValue p r / 10 ^ 18)
    (lnValue p r / 10 ^ 18 -
      (Real.log (fixed 96 t) - Real.log lnOne + (196 - r) * Real.log 2))
    (Real.log (fixed 96 t) - Real.log (xu * 2 ^ r / 2 ^ 255))
  rw [abs_sub_comm (Real.log (fixed 96 t))] at hsum
  have hsplit : (⌊lnValue p r⌋ : ℝ) / 10 ^ 18 -
      (Real.log (xu * 2 ^ r / 2 ^ 255) - Real.log lnOne + (196 - r) * Real.log 2) =
        ((⌊lnValue p r⌋ : ℝ) / 10 ^ 18 - lnValue p r / 10 ^ 18) +
        (lnValue p r / 10 ^ 18 -
          (Real.log (fixed 96 t) - Real.log lnOne + (196 - r) * Real.log 2)) +
        (Real.log (fixed 96 t) - Real.log (xu * 2 ^ r / 2 ^ 255)) := by ring
  rw [hsplit]
  exact hsum.trans ((add_le_add (add_le_add hround hvalue) hmantissa).trans (by norm_num))

end Result

end Wad

end RmUniswap
