import RmUniswap.Foundation.Bits
import RmUniswap.Types.Basic

/-!
# Slab coordinates

A tick is compressed by the spacing and its sign bit flipped inside the width
of the compressed protocol range, so that keys keep the order of ticks.
-/

namespace RmUniswap

open Foundation

def maxBits : Nat := bitLen maxTick.toNat + 1

def spacingBits (tickSpacing : Nat) : Nat := bitLen tickSpacing - 1

def indexBits (tickSpacing : Nat) : Nat := maxBits - spacingBits tickSpacing

def fromTick (tickIdx : Int) (tickSpacing : Nat) : Nat :=
  let compressed : Int := tickIdx / tickSpacing
  let x := (compressed % 2 ^ 32).toNat
  let bits := indexBits tickSpacing
  let mask := (2 ^ 32 - 1) >>> (32 - bits)
  let sign := 1 <<< (bits - 1)
  (x &&& mask) ^^^ sign

def toTick (i : Nat) (tickSpacing : Nat) : Int :=
  let bits := indexBits tickSpacing
  let sign := 1 <<< (bits - 1)
  let raw := i ^^^ sign
  let shifted := wrap 32 (raw <<< (32 - bits))
  let compressed := toSigned 32 shifted / 2 ^ (32 - bits)
  compressed * tickSpacing

def fromParts (cacheIndex slotIndex : Nat) : Nat :=
  (cacheIndex <<< 5) ||| (slotIndex &&& 0x1F)

def slotIndex (i : Nat) : Nat := i &&& 0x1F

def cacheIndex (i : Nat) : Nat := (i >>> 5) &&& 0xFFFF

/-- The number of pages a spacing needs. -/
def calculateCacheCap (s : TickSpacing) : Nat :=
  cacheIndex (fromTick maxTick s.asU32) + 1

/-!
# Widths
-/

theorem maxBits_eq : maxBits = 21 := by decide

theorem spacingBits_spec {s : Nat} (hs : 0 < s) :
    2 ^ spacingBits s ≤ s ∧ s < 2 ^ (spacingBits s + 1) := by
  have hlog : bitLen s = Nat.log2 s + 1 := by
    rw [bitLen, if_neg (by omega)]
  rw [spacingBits, hlog, Nat.add_sub_cancel]
  exact ⟨Nat.log2_self_le (by omega), Nat.lt_log2_self⟩

theorem spacingBits_lt {s : Nat} (hs : 0 < s) (hmax : s < 2 ^ 15) : spacingBits s < 15 :=
  (Nat.pow_lt_pow_iff_right (by norm_num)).mp
    (Nat.lt_of_le_of_lt (spacingBits_spec hs).1 hmax)

theorem indexBits_bounds {s : Nat} (hs : 0 < s) (hmax : s < 2 ^ 15) :
    7 ≤ indexBits s ∧ indexBits s ≤ 21 := by
  have := spacingBits_lt hs hmax
  have := maxBits_eq
  unfold indexBits
  omega

theorem compressed_bounds {t : Int} {s : Nat} (hs : 0 < s) (hmax : s < 2 ^ 15)
    (hlo : -2 ^ 20 ≤ t) (hhi : t < 2 ^ 20) :
    -2 ^ (indexBits s - 1) ≤ t / s ∧ t / s < 2 ^ (indexBits s - 1) := by
  have hbits := spacingBits_lt hs hmax
  have hspec := (spacingBits_spec hs).1
  have hwidth : (2 ^ 20 : Int) = 2 ^ (indexBits s - 1) * 2 ^ spacingBits s := by
    rw [← pow_add]
    congr 1
    have := maxBits_eq
    unfold indexBits
    omega
  have hspos : (0 : Int) < s := by exact_mod_cast hs
  have hcast : (2 ^ spacingBits s : Int) ≤ s := by exact_mod_cast hspec
  have hp : (0 : Int) < 2 ^ (indexBits s - 1) := by positivity
  have hle : (2 ^ 20 : Int) ≤ 2 ^ (indexBits s - 1) * s := by
    rw [hwidth]
    exact mul_le_mul_of_nonneg_left hcast (le_of_lt hp)
  constructor
  · rw [Int.le_ediv_iff_mul_le hspos, neg_mul]
    omega
  · rw [Int.ediv_lt_iff_lt_mul hspos]
    omega

/-!
# The coordinate of a tick
-/

theorem fromTick_eq {t : Int} {s : Nat} (hs : 0 < s) (hmax : s < 2 ^ 15)
    (hlo : -2 ^ 20 ≤ t) (hhi : t < 2 ^ 20) :
    ((fromTick t s : Nat) : Int) = t / s + 2 ^ (indexBits s - 1) := by
  have hbounds := compressed_bounds hs hmax hlo hhi
  have hbits := indexBits_bounds hs hmax
  unfold fromTick
  simp only
  rw [Nat.one_shiftLeft, mask_eq (by omega)]
  exact land_mask_xor_sign (by omega) (by omega) hbounds.1 hbounds.2

theorem fromTick_congr {t u : Int} {s : Nat} (h : t / s = u / s) : fromTick t s = fromTick u s := by
  unfold fromTick
  rw [h]

theorem fromTick_lt {t : Int} {s : Nat} (hs : 0 < s) (hmax : s < 2 ^ 15)
    (hlo : -2 ^ 20 ≤ t) (hhi : t < 2 ^ 20) : fromTick t s < 2 ^ 21 := by
  have heq := fromTick_eq hs hmax hlo hhi
  have hbounds := compressed_bounds hs hmax hlo hhi
  have hbits := indexBits_bounds hs hmax
  have hpow : (2 : Int) ^ (indexBits s - 1) ≤ 2 ^ 20 :=
    pow_le_pow_right₀ (by norm_num) (by omega)
  omega

theorem fromTick_lt_iff {a b : Int} {s : Nat} (hs : 0 < s) (hmax : s < 2 ^ 15)
    (ha : -2 ^ 20 ≤ a ∧ a < 2 ^ 20) (hb : -2 ^ 20 ≤ b ∧ b < 2 ^ 20) :
    fromTick a s < fromTick b s ↔ a / s < b / s := by
  have hfa := fromTick_eq hs hmax ha.1 ha.2
  have hfb := fromTick_eq hs hmax hb.1 hb.2
  omega

theorem toTick_fromTick {t : Int} {s : Nat} (hs : 0 < s) (hmax : s < 2 ^ 15)
    (hlo : -2 ^ 20 ≤ t) (hhi : t < 2 ^ 20) :
    toTick (fromTick t s) s = t / s * s := by
  have hbounds := compressed_bounds hs hmax hlo hhi
  have hbits := indexBits_bounds hs hmax
  have hxor : fromTick t s ^^^ 1 <<< (indexBits s - 1) =
      ((t / s % 2 ^ 32).toNat &&& (2 ^ indexBits s - 1)) := by
    unfold fromTick
    simp only
    rw [Nat.xor_assoc, Nat.xor_self, Nat.xor_zero, mask_eq (by omega)]
  unfold toTick
  simp only
  rw [hxor, sign_extend (by omega) (by omega) hbounds.1 hbounds.2]

theorem TickSpacing.asU32_bounds {s : TickSpacing} (h : s.IsPositive) :
    0 < s.asU32 ∧ s.asU32 < 2 ^ 15 := by
  have heq := TickSpacing.asU32_eq h
  have hlt := s.inRange.2
  unfold TickSpacing.IsPositive at h
  norm_num at hlt
  omega

theorem fromTick_le {t : Int} {s : Nat} (hs : 0 < s) (hmax : s < 2 ^ 15)
    (hlo : -2 ^ 20 ≤ t) (hhi : t ≤ maxTick) : fromTick t s ≤ 1935848 := by
  have heq := fromTick_eq hs hmax hlo (lt_of_le_of_lt hhi (by decide))
  have hbits := indexBits_bounds hs hmax
  have hpow : (2 : Int) ^ (indexBits s - 1) ≤ 2 ^ 20 :=
    pow_le_pow_right₀ (by norm_num) (by omega)
  have hdiv : t / s ≤ 887272 := by
    have hspos : (0 : Int) < s := by exact_mod_cast hs
    have hone : (1 : Int) ≤ s := by exact_mod_cast hs
    unfold maxTick at hhi
    rw [← Int.lt_add_one_iff, Int.ediv_lt_iff_lt_mul hspos]
    nlinarith
  omega

theorem cacheIndex_eq {i : Nat} (h : i < 2 ^ 21) : cacheIndex i = i / 32 := by
  unfold cacheIndex
  rw [Nat.shiftRight_eq_div_pow, show (0xFFFF : Nat) = 2 ^ 16 - 1 by norm_num,
    Nat.and_two_pow_sub_one_eq_mod]
  omega

theorem slotIndex_eq (i : Nat) : slotIndex i = i % 32 := Nat.and_two_pow_sub_one_eq_mod i 5

theorem slotIndex_lt (i : Nat) : slotIndex i < 32 := by
  rw [slotIndex_eq]
  exact Nat.mod_lt i (by norm_num)

theorem fromParts_eq {c slot : Nat} (h : slot < 32) : fromParts c slot = c * 32 + slot := by
  unfold fromParts
  rw [show (0x1F : Nat) = 2 ^ 5 - 1 by norm_num, Nat.and_two_pow_sub_one_eq_mod,
    Nat.mod_eq_of_lt (by omega), ← Nat.shiftLeft_add_eq_or_of_lt (by omega), Nat.shiftLeft_eq]

theorem fromParts_cacheIndex {i : Nat} (h : i < 2 ^ 21) :
    fromParts (cacheIndex i) (slotIndex i) = i := by
  rw [fromParts_eq (slotIndex_lt i), cacheIndex_eq h, slotIndex_eq]
  exact Nat.div_add_mod' i 32

theorem calculateCacheCap_lt {s : TickSpacing} (h : s.IsPositive) :
    calculateCacheCap s < 2 ^ 16 := by
  have hs := TickSpacing.asU32_bounds h
  have hle := fromTick_le hs.1 hs.2 (t := maxTick) (by decide) (le_refl _)
  unfold calculateCacheCap
  rw [cacheIndex_eq (by omega)]
  omega

theorem cacheIndex_fromTick_lt {s : TickSpacing} (h : s.IsPositive) {t : Int}
    (hlo : -2 ^ 20 ≤ t) (hhi : t ≤ maxTick) :
    cacheIndex (fromTick t s.asU32) < calculateCacheCap s := by
  have hs := TickSpacing.asU32_bounds h
  have hlast := fromTick_le hs.1 hs.2 (t := maxTick) (by decide) (le_refl _)
  have hmax : maxTick < 2 ^ 20 := by decide
  have hle : fromTick t s.asU32 ≤ fromTick maxTick s.asU32 := by
    rw [← not_lt, fromTick_lt_iff hs.1 hs.2 ⟨by decide, hmax⟩ ⟨hlo, lt_of_le_of_lt hhi hmax⟩,
      not_lt]
    exact Int.ediv_le_ediv (by exact_mod_cast hs.1) hhi
  unfold calculateCacheCap
  rw [cacheIndex_eq (by omega), cacheIndex_eq (by omega)]
  omega

/-!
# Ticks and keys

Every tick of the protocol has a key. Keys are ordered as compressed ticks are
and decode to the tick rounded down to the spacing; the page of a key exists,
and the number of pages is a {lit}`u16`.
-/

theorem indexer_isomorphism {s : TickSpacing} (hs : s.IsPositive) {a b : Int}
    (ha : TickInRange a) (hb : TickInRange b) :
    (fromTick a s.asU32 < fromTick b s.asU32 ↔ a / s.value < b / s.value) ∧
      (fromTick a s.asU32 = fromTick b s.asU32 ↔ a / s.value = b / s.value) ∧
      (fromTick b s.asU32 < fromTick a s.asU32 ↔ b / s.value < a / s.value) ∧
      toTick (fromTick a s.asU32) s.asU32 = a / s.value * s.value ∧
      FitsSigned 32 (toTick (fromTick a s.asU32) s.asU32) ∧
      (s.value ∣ a -> toTick (fromTick a s.asU32) s.asU32 = a) ∧
      fromParts (cacheIndex (fromTick a s.asU32)) (slotIndex (fromTick a s.asU32)) =
        fromTick a s.asU32 ∧
      cacheIndex (fromTick a s.asU32) < calculateCacheCap s ∧
      calculateCacheCap s < 2 ^ 16 := by
  have hbounds := TickSpacing.asU32_bounds hs
  have hvalue : (s.asU32 : Int) = s.value := TickSpacing.asU32_eq hs
  have hwidth {t : Int} (ht : TickInRange t) : -2 ^ 20 ≤ t ∧ t < 2 ^ 20 :=
    ⟨le_trans (by decide) ht.1, lt_of_le_of_lt ht.2 (by decide)⟩
  have hwa := hwidth ha
  have hwb := hwidth hb
  have hkeya := fromTick_eq hbounds.1 hbounds.2 hwa.1 hwa.2
  have hkeyb := fromTick_eq hbounds.1 hbounds.2 hwb.1 hwb.2
  have hdecode := toTick_fromTick hbounds.1 hbounds.2 hwa.1 hwa.2
  rw [hvalue] at hkeya hkeyb hdecode
  have hfloor := Int.mul_ediv_add_emod a s.value
  rw [mul_comm] at hfloor
  have hmod := Int.emod_nonneg a (by unfold TickSpacing.IsPositive at hs; omega : s.value ≠ 0)
  have hmodlt := Int.emod_lt_of_pos a (lt_of_lt_of_le (by norm_num) hs : 0 < s.value)
  have hfits : FitsSigned 32 (a / s.value * s.value) := by
    have hspacing := s.inRange.2
    unfold FitsSigned
    norm_num at hspacing ⊢
    omega
  refine ⟨by omega, by omega, by omega, hdecode, hdecode ▸ hfits, ?_, ?_, ?_, ?_⟩
  · intro hdvd
    rw [hdecode]
    exact Int.ediv_mul_cancel hdvd
  · exact fromParts_cacheIndex (fromTick_lt hbounds.1 hbounds.2 hwa.1 hwa.2)
  · exact cacheIndex_fromTick_lt hs hwa.1 ha.2
  · exact calculateCacheCap_lt hs

/-- The lowest tick, which a spacing of sixty does not divide. -/
theorem indexer_isomorphism_minTick :
    toTick (fromTick minTick 60) 60 = -887280 ∧ cacheIndex (fromTick minTick 60) < 1487 := by
  have h := indexer_isomorphism (s := ⟨60, by decide⟩) (a := minTick) (b := 0) (by decide)
    (by decide) (by decide)
  exact ⟨h.2.2.2.1, lt_of_lt_of_le h.2.2.2.2.2.2.2.1 (by decide)⟩

end RmUniswap
