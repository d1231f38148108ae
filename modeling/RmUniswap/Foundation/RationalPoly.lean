import Mathlib

/-!
# Polynomials with rational coefficients

A polynomial is the list of its coefficients, the constant one first. Sums,
products, derivatives and bounds are computed on the lists, so that a numeric
fact about a polynomial on an interval is a computation on rationals.
-/

namespace RmUniswap
namespace Foundation

namespace RationalPoly

def add : List ℚ -> List ℚ -> List ℚ
  | [], q => q
  | p, [] => p
  | a :: p, b :: q => (a + b) :: add p q

def scale (c : ℚ) (p : List ℚ) : List ℚ := p.map (c * ·)

def mul : List ℚ -> List ℚ -> List ℚ
  | [], _ => []
  | c :: p, q => add (scale c q) (0 :: mul p q)

def sub (p q : List ℚ) : List ℚ := add p (scale (-1) q)

def derivative : List ℚ -> List ℚ
  | [] => []
  | _ :: p => add p (0 :: derivative p)

def shift (c : ℚ) : List ℚ -> List ℚ
  | [] => []
  | a :: p => add [a] (add (scale c (shift c p)) (0 :: shift c p))

def magnitude (c : ℚ) : ℚ := if c < 0 then -c else c

def bound (b : ℚ) : List ℚ -> ℚ
  | [] => 0
  | c :: p => magnitude c + b * bound b p

def total : List ℚ -> ℚ
  | [] => 0
  | c :: p => c + total p

noncomputable def eval : List ℚ -> ℝ -> ℝ
  | [], _ => 0
  | c :: p, x => c + x * eval p x

@[simp] theorem eval_nil (x : ℝ) : eval [] x = 0 := rfl

@[simp] theorem eval_cons (c : ℚ) (p : List ℚ) (x : ℝ) :
    eval (c :: p) x = c + x * eval p x := rfl

theorem eval_add (p q : List ℚ) (x : ℝ) : eval (add p q) x = eval p x + eval q x := by
  induction p generalizing q with
  | nil =>
      simp [add]
  | cons a p ih =>
      cases q with
      | nil =>
          simp [add]
      | cons b q =>
          simp only [add, eval_cons, ih]
          push_cast
          ring

theorem eval_scale (c : ℚ) (p : List ℚ) (x : ℝ) : eval (scale c p) x = c * eval p x := by
  induction p with
  | nil =>
      simp [scale]
  | cons a p ih =>
      have hcons : scale c (a :: p) = (c * a) :: scale c p := rfl
      rw [hcons, eval_cons, ih, eval_cons]
      push_cast
      ring

theorem eval_mul (p q : List ℚ) (x : ℝ) : eval (mul p q) x = eval p x * eval q x := by
  induction p with
  | nil =>
      simp [mul]
  | cons c p ih =>
      simp only [mul, eval_add, eval_scale, eval_cons, ih]
      push_cast
      ring

theorem eval_sub (p q : List ℚ) (x : ℝ) : eval (sub p q) x = eval p x - eval q x := by
  rw [sub, eval_add, eval_scale]
  push_cast
  ring

theorem eval_shift (c : ℚ) (p : List ℚ) (x : ℝ) : eval (shift c p) x = eval p (c + x) := by
  induction p with
  | nil =>
      rfl
  | cons a p ih =>
      simp only [shift, eval_add, eval_scale, eval_cons, eval_nil, ih]
      push_cast
      ring

theorem hasDerivAt_eval (p : List ℚ) (x : ℝ) : HasDerivAt (eval p) (eval (derivative p) x) x := by
  induction p with
  | nil =>
      exact hasDerivAt_const x 0
  | cons c p ih =>
      have hmul := ((hasDerivAt_id x).mul ih).const_add (c : ℝ)
      refine hmul.congr_deriv ?_
      simp only [derivative, eval_add, eval_cons, id_eq]
      push_cast
      ring

theorem abs_cast_le_magnitude (c : ℚ) : |(c : ℝ)| = magnitude c := by
  unfold magnitude
  split
  · rename_i h
    have hneg : (c : ℝ) < 0 := by exact_mod_cast h
    rw [abs_of_neg hneg]
    push_cast
    rfl
  · rename_i h
    have hpos : (0 : ℝ) ≤ c := by exact_mod_cast not_lt.mp h
    exact abs_of_nonneg hpos

theorem abs_eval_le {b : ℚ} {x : ℝ} (h : |x| ≤ b) (p : List ℚ) : |eval p x| ≤ bound b p := by
  induction p with
  | nil =>
      simp [bound]
  | cons c p ih =>
      have hb : (0 : ℝ) ≤ b := (abs_nonneg x).trans h
      have hmul : |x * eval p x| ≤ b * bound b p := by
        rw [abs_mul]
        exact mul_le_mul h ih (abs_nonneg _) hb
      calc
        |eval (c :: p) x| ≤ |(c : ℝ)| + |x * eval p x| := abs_add_le _ _
        _ ≤ magnitude c + b * bound b p := by
          rw [abs_cast_le_magnitude]
          exact add_le_add_right hmul _
        _ = bound b (c :: p) := by
          rw [bound]
          push_cast
          rfl

theorem eval_zero (p : List ℚ) : eval p 0 = (p.headD 0 : ℚ) := by
  cases p with
  | nil =>
      simp
  | cons c p =>
      simp

theorem eval_cast (p : List ℚ) (c : ℚ) : eval p c = ((shift c p).headD 0 : ℚ) := by
  have h := eval_shift c p 0
  rw [add_zero, eval_zero] at h
  exact h.symm

theorem le_eval {b : ℚ} {x : ℝ} (h : |x| ≤ b) (p : List ℚ) :
    ((p.headD 0 - b * bound b p.tail : ℚ) : ℝ) ≤ eval p x := by
  have hb : (0 : ℝ) ≤ b := (abs_nonneg x).trans h
  cases p with
  | nil =>
      simp [bound]
  | cons c p =>
      have hmul : |x * eval p x| ≤ b * bound b p := by
        rw [abs_mul]
        exact mul_le_mul h (abs_eval_le h p) (abs_nonneg _) hb
      have hge := neg_le_of_abs_le hmul
      rw [eval_cons, List.headD_cons, List.tail_cons]
      push_cast
      linarith

theorem total_nonneg {p : List ℚ} (hp : forall c, c ∈ p -> 0 ≤ c) : 0 ≤ total p := by
  induction p with
  | nil =>
      exact le_refl 0
  | cons c p ih =>
      exact add_nonneg (hp c List.mem_cons_self) (ih fun a ha => hp a (List.mem_cons_of_mem _ ha))

theorem total_le_eval {p : List ℚ} (hp : forall c, c ∈ p -> 0 ≤ c) {x : ℝ} (hx : 1 ≤ x) :
    (total p : ℝ) ≤ eval p x := by
  induction p with
  | nil =>
      simp [total]
  | cons c p ih =>
      have htail : forall a, a ∈ p -> 0 ≤ a := fun a ha => hp a (List.mem_cons_of_mem _ ha)
      have hrest := ih htail
      have htotal : (0 : ℝ) ≤ total p := by
        exact_mod_cast total_nonneg htail
      have hgrow : eval p x ≤ x * eval p x := by
        nlinarith
      rw [eval_cons, total]
      push_cast
      linarith

end RationalPoly

end Foundation
end RmUniswap
