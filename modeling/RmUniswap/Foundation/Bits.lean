import RmUniswap.Foundation.FixedWidth

/-!
# Bit manipulation on naturals

Lowest set bits, powers of two, shifts across two limbs, and inverses modulo a
power of two by Newton's iteration.
-/

namespace RmUniswap
namespace Foundation

/-!
# Trailing zeros
-/

def trailingZeros : Nat -> Nat -> Nat
  | 0, _ => 0
  | w + 1, n => if n % 2 = 1 then 0 else trailingZeros w (n / 2) + 1

def countOnes : Nat -> Nat -> Nat
  | 0, _ => 0
  | w + 1, n => n % 2 + countOnes w (n / 2)

def complement (w x : Nat) : Nat := (2 ^ w - 1) ^^^ x

theorem trailingZeros_spec {w n : Nat} (hpos : 0 < n) (hlt : n < 2 ^ w) :
    exists m, n = 2 ^ trailingZeros w n * (2 * m + 1) := by
  induction w generalizing n with
  | zero =>
      omega
  | succ w ih =>
      unfold trailingZeros
      split
      · exact ⟨n / 2, by omega⟩
      · have hhalf : n / 2 < 2 ^ w := by
          rw [pow_succ] at hlt; omega
        rcases ih (n := n / 2) (by omega) hhalf with ⟨m, hm⟩
        refine ⟨m, ?_⟩
        rw [pow_succ, Nat.mul_assoc, Nat.mul_left_comm, ← hm]
        omega

theorem trailingZeros_two_pow_mul {w k m : Nat} (h : k < w) :
    trailingZeros w (2 ^ k * (2 * m + 1)) = k := by
  induction w generalizing k with
  | zero =>
      omega
  | succ w ih =>
      unfold trailingZeros
      cases k with
      | zero =>
          rw [if_pos (by omega)]
      | succ k =>
          rw [if_neg (by rw [pow_succ, Nat.mul_assoc, Nat.mul_left_comm]; omega)]
          rw [show 2 ^ (k + 1) * (2 * m + 1) / 2 = 2 ^ k * (2 * m + 1) by
            rw [pow_succ, Nat.mul_assoc, Nat.mul_left_comm]; omega, ih (by omega)]

theorem trailingZeros_lt {w n : Nat} (hpos : 0 < n) (hlt : n < 2 ^ w) :
    trailingZeros w n < w := by
  rcases trailingZeros_spec hpos hlt with ⟨m, hm⟩
  have hle : 2 ^ trailingZeros w n ≤ n := by
    calc
      2 ^ trailingZeros w n ≤ 2 ^ trailingZeros w n * (2 * m + 1) :=
        Nat.le_mul_of_pos_right _ (by omega)
      _ = n := hm.symm
  exact (Nat.pow_lt_pow_iff_right (by norm_num)).mp (Nat.lt_of_le_of_lt hle hlt)

/-!
# Clearing and isolating the lowest set bit
-/

theorem land_pred (k m : Nat) :
    (2 ^ k * (2 * m + 1)) &&& (2 ^ k * (2 * m + 1) - 1) = 2 ^ k * (2 * m) := by
  induction k with
  | zero =>
      apply Nat.eq_of_testBit_eq
      intro i
      rw [pow_zero, Nat.one_mul, Nat.one_mul, Nat.add_sub_cancel, Nat.testBit_and]
      cases i with
      | zero => simp
      | succ i =>
          rw [Nat.testBit_succ, Nat.testBit_succ, show (2 * m + 1) / 2 = m by omega,
            show 2 * m / 2 = m by omega, Bool.and_self]
  | succ k ih =>
      have hpos : 0 < 2 ^ k * (2 * m + 1) := by positivity
      have hdouble : 2 ^ (k + 1) * (2 * m + 1) = 2 * (2 ^ k * (2 * m + 1)) := by ring
      rw [hdouble, show 2 ^ (k + 1) * (2 * m) = 2 * (2 ^ k * (2 * m)) by ring, ← ih]
      generalize 2 ^ k * (2 * m + 1) = n at hpos
      apply Nat.eq_of_testBit_eq
      intro i
      rw [Nat.testBit_and]
      cases i with
      | zero => simp
      | succ i =>
          rw [Nat.testBit_succ, Nat.testBit_succ, Nat.testBit_succ,
            show 2 * n / 2 = n by omega, show (2 * n - 1) / 2 = n - 1 by omega,
            show 2 * (n &&& n - 1) / 2 = n &&& n - 1 by omega, Nat.testBit_and]

def isPowerOfTwo (x : Nat) : Bool := x != 0 && (x &&& (x - 1)) == 0

theorem isPowerOfTwo_iff {w x : Nat} (h : x < 2 ^ w) :
    isPowerOfTwo x = true ↔ 0 < x ∧ x = 2 ^ trailingZeros w x := by
  unfold isPowerOfTwo
  rcases Nat.eq_zero_or_pos x with rfl | hpos
  · simp
  · rcases trailingZeros_spec hpos h with ⟨m, hm⟩
    have hland := land_pred (trailingZeros w x) m
    rw [← hm] at hland
    have hk : 0 < 2 ^ trailingZeros w x := Nat.two_pow_pos _
    simp only [bne_iff_ne, ne_eq, Bool.and_eq_true, beq_iff_eq, hland, hpos, true_and]
    constructor
    · rintro ⟨_, hzero⟩
      have : m = 0 := by
        rcases Nat.mul_eq_zero.mp hzero with h0 | h0 <;> omega
      rw [this] at hm
      simpa using hm
    · intro hx
      have : m = 0 := by
        have : 2 ^ trailingZeros w x * (2 * m + 1) = 2 ^ trailingZeros w x * 1 := by
          rw [← hm, ← hx, mul_one]
        have := Nat.eq_of_mul_eq_mul_left hk this
        omega
      refine ⟨by omega, by rw [this]; simp⟩

private theorem land_complement {v m : Nat} (h : m < 2 ^ v) :
    m &&& (2 ^ v - (m + 1)) = 0 := by
  apply Nat.eq_of_testBit_eq
  intro i
  rw [Nat.testBit_and, Nat.testBit_two_pow_sub_succ h]
  simp only [Nat.zero_testBit]
  cases m.testBit i <;> simp

theorem land_neg {w k m : Nat} (h : 2 ^ k * (2 * m + 1) < 2 ^ w) :
    (2 ^ k * (2 * m + 1)) &&& (2 ^ w - 2 ^ k * (2 * m + 1)) = 2 ^ k := by
  induction k generalizing w with
  | zero =>
      simp only [pow_zero, Nat.one_mul] at h ⊢
      cases w with
      | zero => omega
      | succ w =>
          have hm : m < 2 ^ w := by rw [pow_succ] at h; omega
          apply Nat.eq_of_testBit_eq
          intro i
          cases i with
          | zero =>
              have hodd : (2 ^ (w + 1) - (2 * m + 1)) % 2 = 1 := by
                rw [pow_succ]; omega
              simp [hodd]
          | succ i =>
              have hhalf : (2 ^ (w + 1) - (2 * m + 1)) / 2 = 2 ^ w - (m + 1) := by
                rw [pow_succ]; omega
              rw [Nat.testBit_and, Nat.testBit_succ, Nat.testBit_succ, hhalf,
                show (2 * m + 1) / 2 = m by omega, ← Nat.testBit_and,
                land_complement hm]
              simp [Nat.testBit_succ]
  | succ k ih =>
      have hdouble : 2 ^ (k + 1) * (2 * m + 1) = 2 * (2 ^ k * (2 * m + 1)) := by ring
      rw [hdouble] at h ⊢
      cases w with
      | zero =>
          have : 0 < 2 ^ k * (2 * m + 1) := by positivity
          omega
      | succ w =>
          have hlt : 2 ^ k * (2 * m + 1) < 2 ^ w := by rw [pow_succ] at h; omega
          have := ih hlt
          generalize 2 ^ k * (2 * m + 1) = n at *
          rw [show 2 ^ (w + 1) - 2 * n = 2 * (2 ^ w - n) by rw [pow_succ]; omega]
          apply Nat.eq_of_testBit_eq
          intro i
          cases i with
          | zero => simp [pow_succ]
          | succ i =>
              rw [Nat.testBit_and, Nat.testBit_succ, Nat.testBit_succ, Nat.testBit_succ,
                show 2 * n / 2 = n by omega, show 2 * (2 ^ w - n) / 2 = 2 ^ w - n by omega,
                ← Nat.testBit_and, this, pow_succ, Nat.mul_div_cancel _ (by norm_num)]

/-!
# Two's complement
-/

def toSigned (w x : Nat) : Int :=
  if x < 2 ^ (w - 1) then x else (x : Int) - 2 ^ w

theorem mask_eq {b : Nat} (h : b ≤ 32) : (2 ^ 32 - 1) >>> (32 - b) = 2 ^ b - 1 := by
  rw [Nat.shiftRight_eq_div_pow]
  have hsplit : 2 ^ 32 = 2 ^ b * 2 ^ (32 - b) := by
    rw [← pow_add, Nat.add_sub_cancel' h]
  have hb : 0 < 2 ^ b := Nat.two_pow_pos b
  have hp : 0 < 2 ^ (32 - b) := Nat.two_pow_pos _
  rw [Nat.div_eq_iff hp, hsplit, Nat.sub_mul, Nat.one_mul]
  have : 2 ^ (32 - b) ≤ 2 ^ b * 2 ^ (32 - b) := Nat.le_mul_of_pos_left _ hb
  omega

theorem xor_two_pow {k x : Nat} (h : x < 2 ^ k) : x ^^^ 2 ^ k = x + 2 ^ k := by
  have hor : x + 2 ^ k = 2 ^ k ||| x := by
    rw [Nat.add_comm, ← Nat.mul_one (2 ^ k), Nat.two_pow_add_eq_or_of_lt h]
  rw [hor]
  apply Nat.eq_of_testBit_eq
  intro i
  rw [Nat.testBit_xor, Nat.testBit_or, Nat.testBit_two_pow]
  rcases Nat.lt_trichotomy i k with hi | hi | hi
  · simp [show k ≠ i by omega]
  · rw [← hi] at h
    simp [hi.symm, Nat.testBit_lt_two_pow h]
  · simp [show k ≠ i by omega]

theorem add_two_pow_xor {k x : Nat} (h : x < 2 ^ k) : (x + 2 ^ k) ^^^ 2 ^ k = x := by
  rw [← xor_two_pow h, Nat.xor_assoc, Nat.xor_self, Nat.xor_zero]

theorem land_mask {b : Nat} {c : Int} (hb : 0 < b) (hb32 : b ≤ 32)
    (hlo : -2 ^ (b - 1) ≤ c) (hhi : c < 2 ^ (b - 1)) :
    (((c % 2 ^ 32).toNat &&& (2 ^ b - 1) : Nat) : Int) = if 0 ≤ c then c else c + 2 ^ b := by
  have hpow : (2 : Int) ^ b = 2 * 2 ^ (b - 1) := by
    rw [← pow_succ', Nat.sub_add_cancel hb]
  have hdvd : ((2 ^ b : Nat) : Int) ∣ 2 ^ 32 := by
    push_cast
    exact pow_dvd_pow 2 hb32
  have hcast : (((c % 2 ^ 32).toNat % 2 ^ b : Nat) : Int) = c % 2 ^ b := by
    rw [Int.natCast_mod, Int.toNat_of_nonneg (Int.emod_nonneg _ (by norm_num)),
      Int.emod_emod_of_dvd _ hdvd]
    push_cast
    rfl
  rw [Nat.and_two_pow_sub_one_eq_mod, hcast]
  split
  · exact Int.emod_eq_of_lt (by omega) (by omega)
  · rw [← Int.add_emod_right, Int.emod_eq_of_lt (by omega) (by omega)]

theorem land_mask_xor_sign {b : Nat} {c : Int} (hb : 0 < b) (hb32 : b ≤ 32)
    (hlo : -2 ^ (b - 1) ≤ c) (hhi : c < 2 ^ (b - 1)) :
    ((((c % 2 ^ 32).toNat &&& (2 ^ b - 1)) ^^^ 2 ^ (b - 1) : Nat) : Int) =
      c + 2 ^ (b - 1) := by
  have hland := land_mask hb hb32 hlo hhi
  have hpow : (2 : Int) ^ b = 2 * 2 ^ (b - 1) := by
    rw [← pow_succ', Nat.sub_add_cancel hb]
  generalize (c % 2 ^ 32).toNat &&& (2 ^ b - 1) = x at hland
  have hcast : ((2 ^ (b - 1) : Nat) : Int) = 2 ^ (b - 1) := by push_cast; rfl
  split at hland
  · have hx : x < 2 ^ (b - 1) := by omega
    rw [xor_two_pow hx]
    push_cast
    omega
  · have hx : x - 2 ^ (b - 1) < 2 ^ (b - 1) := by omega
    have hsplit : x = x - 2 ^ (b - 1) + 2 ^ (b - 1) := by omega
    rw [hsplit, add_two_pow_xor hx]
    omega

theorem sign_extend {b : Nat} {c : Int} (hb : 0 < b) (hb32 : b ≤ 32)
    (hlo : -2 ^ (b - 1) ≤ c) (hhi : c < 2 ^ (b - 1)) :
    toSigned 32 (wrap 32 (((c % 2 ^ 32).toNat &&& (2 ^ b - 1)) <<< (32 - b))) /
      2 ^ (32 - b) = c := by
  have hland := land_mask hb hb32 hlo hhi
  have hpow : (2 : Int) ^ b = 2 * 2 ^ (b - 1) := by
    rw [← pow_succ', Nat.sub_add_cancel hb]
  have hsplit : (2 : Int) ^ 32 = 2 ^ b * 2 ^ (32 - b) := by
    rw [← pow_add, Nat.add_sub_cancel' hb32]
  have hhalf : (2147483648 : Int) = 2 ^ (b - 1) * 2 ^ (32 - b) := by
    rw [← pow_add, show b - 1 + (32 - b) = 31 by omega]
    norm_num
  generalize (c % 2 ^ 32).toNat &&& (2 ^ b - 1) = x at hland
  have hp : (0 : Int) < 2 ^ (32 - b) := by positivity
  have hx : (x : Int) < 2 ^ b := by
    split at hland <;> omega
  have hshift : ((wrap 32 (x <<< (32 - b)) : Nat) : Int) = x * 2 ^ (32 - b) := by
    rw [wrap_of_lt]
    · rw [Nat.shiftLeft_eq]
      push_cast
      rfl
    · rw [Nat.shiftLeft_eq]
      have : (x : Int) * 2 ^ (32 - b) < 2 ^ 32 := by
        rw [hsplit]
        exact mul_lt_mul_of_pos_right hx hp
      exact_mod_cast this
  have hcond : wrap 32 (x <<< (32 - b)) < 2 ^ (32 - 1) ↔ (x : Int) < 2 ^ (b - 1) := by
    rw [← Int.ofNat_lt]
    push_cast
    rw [hshift, hhalf]
    exact mul_lt_mul_iff_left₀ hp
  unfold toSigned
  rw [hshift]
  split
  · rename_i h
    have hxc := hcond.mp h
    rw [Int.mul_ediv_cancel _ (by omega)]
    split at hland <;> omega
  · rename_i h
    have hxc := not_lt.mp (fun hlt => h (hcond.mpr hlt))
    rw [hsplit, ← sub_mul, Int.mul_ediv_cancel _ (by omega)]
    split at hland <;> omega

/-!
# Shifts across two limbs
-/

theorem shiftRight_or_shiftLeft {w s lo hi : Nat} (hsw : s ≤ w)
    (hlo : lo < 2 ^ w) :
    (lo >>> s) ||| wrap w (hi <<< (w - s)) = ((hi * 2 ^ w + lo) / 2 ^ s) % 2 ^ w := by
  have hsplit : 2 ^ w = 2 ^ (w - s) * 2 ^ s := by
    rw [← pow_add, Nat.sub_add_cancel hsw]
  have hlow : lo >>> s < 2 ^ (w - s) := by
    rw [Nat.shiftRight_eq_div_pow]
    exact Nat.div_lt_of_lt_mul (by rw [Nat.mul_comm, ← hsplit]; exact hlo)
  have hhigh : wrap w (hi <<< (w - s)) = (hi % 2 ^ s) <<< (w - s) := by
    rw [wrap, Nat.shiftLeft_eq, Nat.shiftLeft_eq, hsplit, Nat.mul_comm (2 ^ (w - s)),
      Nat.mul_mod_mul_right]
  rw [hhigh, Nat.or_comm, ← Nat.shiftLeft_add_eq_or_of_lt hlow, Nat.shiftLeft_eq,
    Nat.shiftRight_eq_div_pow]
  have hdiv : (hi * 2 ^ w + lo) / 2 ^ s = hi * 2 ^ (w - s) + lo / 2 ^ s := by
    rw [hsplit, ← Nat.mul_assoc, Nat.add_comm, Nat.add_mul_div_right _ _ (Nat.two_pow_pos s),
      Nat.add_comm]
  rw [Nat.shiftRight_eq_div_pow] at hlow
  rw [hdiv, Nat.add_mod]
  have hmul : hi * 2 ^ (w - s) % 2 ^ w = hi % 2 ^ s * 2 ^ (w - s) := by
    rw [hsplit, Nat.mul_comm (2 ^ (w - s)), Nat.mul_mod_mul_right]
  have hlt : hi % 2 ^ s * 2 ^ (w - s) + lo / 2 ^ s < 2 ^ w := by
    have := Nat.mod_lt hi (Nat.two_pow_pos s)
    calc
      hi % 2 ^ s * 2 ^ (w - s) + lo / 2 ^ s
          < hi % 2 ^ s * 2 ^ (w - s) + 2 ^ (w - s) := by omega
      _ = (hi % 2 ^ s + 1) * 2 ^ (w - s) := by ring
      _ ≤ 2 ^ s * 2 ^ (w - s) := Nat.mul_le_mul_right _ this
      _ = 2 ^ w := by rw [hsplit, Nat.mul_comm]
  rw [hmul, Nat.mod_eq_of_lt (a := lo / 2 ^ s) (by omega), Nat.mod_eq_of_lt hlt]

/-!
# Inverses modulo a power of two

One Newton step squares the error of an approximate inverse.
-/

def newtonStep (w d inv : Nat) : Nat :=
  wrap w (inv * wrappingSub w 2 (wrap w (d * inv)))

theorem newtonStep_error {w k d inv : Nat} (hk : 2 * k ≤ w)
    (h : (2 ^ k : Int) ∣ 1 - d * inv) :
    (2 ^ (2 * k) : Int) ∣ 1 - d * newtonStep w d inv := by
  have hring : ((newtonStep w d inv : Nat) : ZMod (2 ^ w)) =
      (inv : ZMod (2 ^ w)) * (2 - d * inv) := by
    rw [newtonStep, wrap, ZMod.natCast_mod, Nat.cast_mul, cast_wrappingSub, wrap,
      ZMod.natCast_mod]
    push_cast
    ring
  have hmod : ((2 ^ w : Nat) : Int) ∣
      (1 - d * newtonStep w d inv) - (1 - d * inv) * (1 - d * inv) := by
    rw [← ZMod.intCast_zmod_eq_zero_iff_dvd]
    push_cast
    rw [hring]
    ring
  have hsquare : (2 ^ (2 * k) : Int) ∣ (1 - d * inv) * (1 - d * inv) := by
    rw [two_mul, pow_add]
    exact mul_dvd_mul h h
  have hpow : (2 ^ (2 * k) : Int) ∣ ((2 ^ w : Nat) : Int) := by
    push_cast
    exact pow_dvd_pow 2 hk
  have := dvd_add (hpow.trans hmod) hsquare
  simpa using this

end Foundation
end RmUniswap
