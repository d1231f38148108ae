import Mathlib

/-!
# Binary logarithms by squaring

A fixed-point number in one binade is squared again and again; each square that
leaves the binade yields one bit of the logarithm. Every square is rounded
down, so the bits never exceed the logarithm, and the loss stays tiny.
-/

namespace RmUniswap
namespace Foundation

def squareBit (w r : Nat) : Nat := r * r / 2 ^ (2 * w + 1)

def squareMantissa (w r : Nat) : Nat := r * r / 2 ^ (w + squareBit w r)

def logBits (w : Nat) : Nat -> Nat -> Nat
  | 0, _ => 0
  | n + 1, r => squareBit w r * 2 ^ n + logBits w n (squareMantissa w r)

def Normalized (w r : Nat) : Prop := 2 ^ w ≤ r ∧ r < 2 ^ (w + 1)

section Bits

variable {w r n : Nat}

theorem square_bounds (h : Normalized w r) : 2 ^ (2 * w) ≤ r * r ∧ r * r < 2 ^ (2 * w + 2) := by
  constructor
  · calc
      2 ^ (2 * w) = 2 ^ w * 2 ^ w := by rw [← pow_add]; congr 1; omega
      _ ≤ r * r := Nat.mul_le_mul h.1 h.1
  · calc
      r * r < 2 ^ (w + 1) * 2 ^ (w + 1) := Nat.mul_lt_mul'' h.2 h.2
      _ = 2 ^ (2 * w + 2) := by rw [← pow_add]; congr 1; omega

theorem squareBit_le (h : Normalized w r) : squareBit w r ≤ 1 := by
  have hlt := (square_bounds h).2
  unfold squareBit
  rw [← Nat.lt_succ_iff, Nat.div_lt_iff_lt_mul (Nat.two_pow_pos _)]
  calc
    r * r < 2 ^ (2 * w + 2) := hlt
    _ = 2 * 2 ^ (2 * w + 1) := by rw [← pow_succ']

theorem Normalized.square (h : Normalized w r) : Normalized w (squareMantissa w r) := by
  have hbounds := square_bounds h
  have hbit := squareBit_le h
  have hpos := Nat.two_pow_pos (2 * w + 1)
  have hdiv := Nat.div_add_mod (r * r) (2 ^ (2 * w + 1))
  have hmod := Nat.mod_lt (r * r) hpos
  unfold squareMantissa
  rcases Nat.le_one_iff_eq_zero_or_eq_one.mp hbit with hf | hf
  · have hlow : r * r < 2 ^ (2 * w + 1) := by
      unfold squareBit at hf
      rw [hf] at hdiv
      omega
    rw [hf]
    constructor
    · rw [Nat.le_div_iff_mul_le (Nat.two_pow_pos _), ← pow_add]
      calc
        2 ^ (w + (w + 0)) = 2 ^ (2 * w) := by congr 1; omega
        _ ≤ r * r := hbounds.1
    · rw [Nat.div_lt_iff_lt_mul (Nat.two_pow_pos _), ← pow_add]
      calc
        r * r < 2 ^ (2 * w + 1) := hlow
        _ = 2 ^ (w + 1 + (w + 0)) := by congr 1; omega
  · have hhigh : 2 ^ (2 * w + 1) ≤ r * r := by
      unfold squareBit at hf
      rw [hf] at hdiv
      omega
    rw [hf]
    constructor
    · rw [Nat.le_div_iff_mul_le (Nat.two_pow_pos _), ← pow_add]
      calc
        2 ^ (w + (w + 1)) = 2 ^ (2 * w + 1) := by congr 1; omega
        _ ≤ r * r := hhigh
    · rw [Nat.div_lt_iff_lt_mul (Nat.two_pow_pos _), ← pow_add]
      calc
        r * r < 2 ^ (2 * w + 2) := hbounds.2
        _ = 2 ^ (w + 1 + (w + 1)) := by congr 1; omega

theorem logBits_lt (h : Normalized w r) : logBits w n r < 2 ^ n := by
  induction n generalizing r with
  | zero =>
      exact Nat.one_pos
  | succ n ih =>
      have hbit := squareBit_le h
      have hrest := ih h.square
      unfold logBits
      rw [pow_succ]
      nlinarith [Nat.two_pow_pos n]

end Bits

/-!
# Accuracy
-/

section Accuracy

variable {w r n d q x : Nat}

theorem log_div_bounds (hd : 0 < d) (hq : q = x / d) (hq0 : 0 < q) :
    Real.log q + Real.log d ≤ Real.log x ∧
      Real.log x ≤ Real.log q + Real.log d + 1 / q := by
  have hdiv := Nat.div_add_mod x d
  have hmod := Nat.mod_lt x hd
  rw [← hq] at hdiv
  have hq' : (0 : ℝ) < q := by exact_mod_cast hq0
  have hd' : (0 : ℝ) < d := by exact_mod_cast hd
  have hlow : (q : ℝ) * d ≤ x := by
    have : q * d ≤ x := by
      rw [hq]
      exact Nat.div_mul_le_self x d
    exact_mod_cast this
  have hhigh : (x : ℝ) ≤ q * d * (1 + 1 / q) := by
    have hle : x ≤ (q + 1) * d := by nlinarith
    have hle' : (x : ℝ) ≤ (q + 1) * d := by exact_mod_cast hle
    calc
      (x : ℝ) ≤ (q + 1) * d := hle'
      _ = q * d * (1 + 1 / q) := by field_simp
  have hx : (0 : ℝ) < x := lt_of_lt_of_le (mul_pos hq' hd') hlow
  constructor
  · rw [← Real.log_mul hq'.ne' hd'.ne']
    exact Real.log_le_log (mul_pos hq' hd') hlow
  · have hone : (0 : ℝ) < 1 + 1 / q := by positivity
    calc
      Real.log x ≤ Real.log (q * d * (1 + 1 / q)) := Real.log_le_log hx hhigh
      _ = Real.log q + Real.log d + Real.log (1 + 1 / q) := by
        rw [Real.log_mul (mul_pos hq' hd').ne' hone.ne', Real.log_mul hq'.ne' hd'.ne']
      _ ≤ Real.log q + Real.log d + 1 / q := by
        have := Real.log_le_sub_one_of_pos hone
        linarith

theorem Normalized.pos (h : Normalized w r) : 0 < r :=
  lt_of_lt_of_le (Nat.two_pow_pos w) h.1

theorem Normalized.one_div_le (h : Normalized w r) : (1 : ℝ) / r ≤ 1 / 2 ^ w := by
  apply one_div_le_one_div_of_le (by positivity)
  exact_mod_cast h.1

noncomputable def mantissaLog (w r : Nat) : ℝ := Real.log r - w * Real.log (2 : Nat)

theorem mantissaLog_eq (w r : Nat) : mantissaLog w r = Real.log r - w * Real.log 2 :=
  rfl

theorem mantissaLog_bounds (h : Normalized w r) :
    0 ≤ mantissaLog w r ∧ mantissaLog w r ≤ Real.log 2 := by
  have hlow : ((2 : ℝ) ^ w) ≤ r := by exact_mod_cast h.1
  have hhigh : (r : ℝ) ≤ 2 ^ (w + 1) := by exact_mod_cast le_of_lt h.2
  have hpos : (0 : ℝ) < 2 ^ w := by positivity
  have h1 := Real.log_le_log hpos hlow
  have h2 := Real.log_le_log (lt_of_lt_of_le hpos hlow) hhigh
  rw [Real.log_pow] at h1 h2
  push_cast at h2
  rw [mantissaLog_eq]
  constructor <;> linarith

theorem mantissaLog_square (h : Normalized w r) :
    squareBit w r * Real.log 2 + mantissaLog w (squareMantissa w r) ≤ 2 * mantissaLog w r ∧
      2 * mantissaLog w r ≤
        squareBit w r * Real.log 2 + mantissaLog w (squareMantissa w r) + 1 / 2 ^ w := by
  have hsq := h.square
  have hbounds := log_div_bounds (x := r * r) (d := 2 ^ (w + squareBit w r))
    (q := squareMantissa w r) (Nat.two_pow_pos _) rfl hsq.pos
  have hr : (r : ℝ) ≠ 0 := by exact_mod_cast h.pos.ne'
  have hloss := hsq.one_div_le
  rw [Nat.cast_mul, Real.log_mul hr hr, Nat.cast_pow, Real.log_pow] at hbounds
  push_cast at hbounds
  rw [mantissaLog_eq, mantissaLog_eq]
  constructor <;> linarith [hbounds.1, hbounds.2]

theorem logBits_spec (h : Normalized w r) :
    logBits w n r * Real.log 2 ≤ 2 ^ n * mantissaLog w r ∧
      2 ^ n * mantissaLog w r ≤
        (logBits w n r + 1) * Real.log 2 + (2 ^ n - 1) * (1 / 2 ^ w) := by
  induction n generalizing r with
  | zero =>
      have hm := mantissaLog_bounds h
      unfold logBits
      norm_num
      exact hm
  | succ n ih =>
      have hstep := mantissaLog_square h
      have hrest := ih h.square
      have hpow : (0 : ℝ) < 2 ^ n := by positivity
      unfold logBits
      push_cast
      rw [pow_succ]
      constructor
      · nlinarith [hstep.1, hrest.1]
      · nlinarith [hstep.2, hrest.2]

end Accuracy

end Foundation
end RmUniswap
