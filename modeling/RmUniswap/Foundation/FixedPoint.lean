import RmUniswap.Foundation.RationalPoly

/-!
# Fixed point arithmetic

A fixed point number is an integer at a number of fractional bits. The relation
to the real number it stands for carries an error, and each operation says what
it does to the error. A polynomial is evaluated from its leading coefficient,
one product, one shift and one sum for each further one.
-/

namespace RmUniswap
namespace Foundation

open RationalPoly

def Near (s : Nat) (z : Int) (r e : ℝ) : Prop := |(z : ℝ) - 2 ^ s * r| ≤ e

noncomputable def fixed (s : Nat) (z : Int) : ℝ := z / 2 ^ s

def hornerStep (s : Nat) (x z c : Int) : Int := z * x / 2 ^ s + c

def hornerPoly (s : Nat) (p : List ℚ) (cs : List Int) : List ℚ :=
  cs.foldl (fun p c => (c / 2 ^ s : ℚ) :: p) p

section Division

theorem abs_ediv_sub_le (a : Int) {b : Int} (hb : 0 < b) : |((a / b : Int) : ℝ) - a / b| ≤ 1 := by
  have hb' : (0 : ℝ) < b := by exact_mod_cast hb
  have hlow : ((a / b : Int) : ℝ) * b ≤ a := by
    exact_mod_cast Int.ediv_mul_le a (ne_of_gt hb)
  have hhigh : (a : ℝ) ≤ (((a / b : Int) : ℝ) + 1) * b := by
    exact_mod_cast le_of_lt (Int.lt_ediv_add_one_mul_self a hb)
  have hle := (le_div_iff₀ hb').mpr hlow
  have hge := (div_le_iff₀ hb').mpr hhigh
  exact abs_le.mpr ⟨by linarith, by linarith⟩

theorem abs_tdiv_le (a b : Int) : |a.tdiv b| ≤ |a| := by
  rw [Int.abs_eq_natAbs, Int.abs_eq_natAbs, Int.natAbs_tdiv]
  exact_mod_cast Nat.div_le_self _ _

theorem abs_mul_tdiv_sub_le (a : Int) {b : Int} (hb : b ≠ 0) : |b * a.tdiv b - a| ≤ |b| := by
  have hsplit : b * a.tdiv b - a = -a.tmod b := by
    have h := Int.mul_tdiv_add_tmod a b
    omega
  rw [hsplit, abs_neg, Int.abs_eq_natAbs, Int.abs_eq_natAbs, Int.natAbs_tmod]
  exact_mod_cast le_of_lt (Nat.mod_lt _ (Int.natAbs_pos.mpr hb))

theorem abs_tdiv_sub_le (a : Int) {b : Int} (hb : b ≠ 0) :
    |((a.tdiv b : Int) : ℝ) - a / b| ≤ 1 := by
  have hb' : (0 : ℝ) < |(b : ℝ)| := abs_pos.mpr (by exact_mod_cast hb)
  have hrest : |(b : ℝ) * ((a.tdiv b : Int) : ℝ) - a| ≤ |(b : ℝ)| := by
    exact_mod_cast abs_mul_tdiv_sub_le a hb
  have hne : (b : ℝ) ≠ 0 := by exact_mod_cast hb
  have hdiff : ((a.tdiv b : Int) : ℝ) - a / b = (b * ((a.tdiv b : Int) : ℝ) - a) / b := by
    field_simp
  rw [hdiff, abs_div]
  exact (div_le_one hb').mpr hrest

end Division

namespace Near

variable {s : Nat} {z w x c : Int} {r r' e e' B : ℝ}

theorem self (s : Nat) (z : Int) : Near s z (fixed s z) 0 := by
  unfold Near fixed
  rw [mul_div_cancel₀ _ (by positivity), sub_self, abs_zero]

theorem mono (h : Near s z r e) (he : e ≤ e') : Near s z r e' := h.trans he

theorem nonneg (h : Near s z r e) : 0 ≤ e := (abs_nonneg _).trans h

theorem add_const (h : Near s z r e) (c : Int) : Near s (z + c) (r + c / 2 ^ s) e := by
  unfold Near at h ⊢
  have hsum : ((z + c : Int) : ℝ) - 2 ^ s * (r + c / 2 ^ s) = z - 2 ^ s * r := by
    push_cast
    field_simp
    ring
  rw [hsum]
  exact h

theorem add (hz : Near s z r e) (hw : Near s w r' e') : Near s (z + w) (r + r') (e + e') := by
  unfold Near at hz hw ⊢
  have hsum : ((z + w : Int) : ℝ) - 2 ^ s * (r + r') =
      (z - 2 ^ s * r) + (w - 2 ^ s * r') := by
    push_cast
    ring
  rw [hsum]
  exact (abs_add_le _ _).trans (add_le_add hz hw)

theorem mul_shift (h : Near s z r e) (hx : |fixed s x| ≤ B) :
    Near s (z * x / 2 ^ s) (r * fixed s x) (B * e + 1) := by
  have hfloor := abs_ediv_sub_le (z * x) (by positivity : (0 : Int) < 2 ^ s)
  have hsplit : ((z * x / 2 ^ s : Int) : ℝ) - 2 ^ s * (r * fixed s x) =
      (((z * x / 2 ^ s : Int) : ℝ) - ((z * x : Int) : ℝ) / ((2 ^ s : Int) : ℝ)) +
        fixed s x * (z - 2 ^ s * r) := by
    unfold fixed
    push_cast
    field_simp
    ring
  have hmul : |fixed s x * (z - 2 ^ s * r)| ≤ B * e := by
    rw [abs_mul]
    exact mul_le_mul hx h (abs_nonneg _) ((abs_nonneg _).trans hx)
  unfold Near
  rw [hsplit]
  exact (abs_add_le _ _).trans (by linarith)

theorem mul_shift_near (hz : Near s z r e) (hw : Near s w r' e') :
    Near s (z * w / 2 ^ s) (r * r') ((|r'| + e' / 2 ^ s) * e + |r| * e' + 1) := by
  have hfixed : |fixed s w| ≤ |r'| + e' / 2 ^ s := by
    have hpow : (0 : ℝ) < 2 ^ s := by positivity
    have hdiff : fixed s w - r' = (w - 2 ^ s * r') / 2 ^ s := by
      unfold fixed
      field_simp
    have hle : |fixed s w - r'| ≤ e' / 2 ^ s := by
      rw [hdiff, abs_div, abs_of_pos hpow]
      exact div_le_div_of_nonneg_right hw (le_of_lt hpow)
    have habs := abs_sub_abs_le_abs_sub (fixed s w) r'
    linarith
  have hshift := mul_shift hz hfixed
  have hmul : |r * (w - 2 ^ s * r')| ≤ |r| * e' := by
    rw [abs_mul]
    exact mul_le_mul_of_nonneg_left hw (abs_nonneg r)
  have hsplit : ((z * w / 2 ^ s : Int) : ℝ) - 2 ^ s * (r * r') =
      (((z * w / 2 ^ s : Int) : ℝ) - 2 ^ s * (r * fixed s w)) + r * (w - 2 ^ s * r') := by
    unfold fixed
    field_simp
    ring
  unfold Near at hshift ⊢
  rw [hsplit]
  exact (abs_add_le _ _).trans (by linarith)

theorem horner {p : List ℚ} (h : Near s z (eval p (fixed s x)) e) (hx : |fixed s x| ≤ B)
    (c : Int) :
    Near s (hornerStep s x z c) (eval ((c / 2 ^ s : ℚ) :: p) (fixed s x)) (B * e + 1) := by
  have hstep := (mul_shift h hx).add_const c
  have heval : eval ((c / 2 ^ s : ℚ) :: p) (fixed s x) =
      eval p (fixed s x) * fixed s x + c / 2 ^ s := by
    rw [eval_cons]
    push_cast
    ring
  rw [heval]
  exact hstep

theorem horner_foldl {p : List ℚ} (h : Near s z (eval p (fixed s x)) e)
    (hx : |fixed s x| ≤ B) (cs : List Int) :
    Near s (cs.foldl (hornerStep s x) z) (eval (hornerPoly s p cs) (fixed s x))
      (cs.foldl (fun e _ => B * e + 1) e) := by
  induction cs generalizing z p e with
  | nil =>
      exact h
  | cons c cs ih =>
      exact ih (horner h hx c)

theorem quotient {t : Nat} (hz : Near (s + t) z r e) (hw : Near s w r' e') (hr : 0 < r')
    (hw0 : 0 < w) :
    Near t (z.tdiv w) (r / r') ((e + 2 ^ t * (|r| / r') * e') / w + 1) := by
  have hw' : (0 : ℝ) < w := by exact_mod_cast hw0
  have hdiv := abs_tdiv_sub_le z (ne_of_gt hw0)
  have hsplit : ((z.tdiv w : Int) : ℝ) - 2 ^ t * (r / r') =
      (z - 2 ^ (s + t) * r - 2 ^ t * (r / r') * (w - 2 ^ s * r')) / w +
        (((z.tdiv w : Int) : ℝ) - z / w) := by
    rw [pow_add]
    field_simp
    ring
  have hmul : |2 ^ t * (r / r') * (w - 2 ^ s * r')| ≤ 2 ^ t * (|r| / r') * e' := by
    rw [abs_mul, abs_mul, abs_div, abs_of_pos hr, abs_of_pos (by positivity : (0 : ℝ) < 2 ^ t)]
    exact mul_le_mul_of_nonneg_left hw (by positivity)
  have hnum : |z - 2 ^ (s + t) * r - 2 ^ t * (r / r') * (w - 2 ^ s * r')| ≤
      e + 2 ^ t * (|r| / r') * e' := (abs_sub _ _).trans (add_le_add hz hmul)
  unfold Near
  rw [hsplit]
  apply (abs_add_le _ _).trans
  rw [abs_div, abs_of_pos hw']
  exact add_le_add (div_le_div_of_nonneg_right hnum (le_of_lt hw')) hdiv

end Near

end Foundation
end RmUniswap
