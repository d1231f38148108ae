import RmUniswap.Foundation.FixedPoint
import RmUniswap.StablePair.Wad

/-!
# The polynomials of the exponential and the logarithm

On reduced arguments no product or sum of the polynomials leaves its word, so
wrapping arithmetic is that of the integers and each polynomial is close to its
exact value.
-/

namespace RmUniswap

open Foundation
open Foundation.RationalPoly

namespace Wad

section Words

variable {a b n : Nat} {x y z c : Int}

theorem abs_mul_le_pow (hx : |x| ≤ 2 ^ a) (hy : |y| ≤ 2 ^ b) : |x * y| ≤ 2 ^ (a + b) := by
  rw [abs_mul, pow_add]
  exact mul_le_mul hx hy (abs_nonneg y) (by positivity)

theorem abs_add_le_pow (hx : |x| ≤ 2 ^ a) (hy : |y| ≤ 2 ^ a) : |x + y| ≤ 2 ^ (a + 1) := by
  have hsum := abs_add_le x y
  rw [pow_succ]
  omega

theorem abs_ediv_le_pow (hx : |x| ≤ 2 ^ (a + b)) : |x / 2 ^ b| ≤ 2 ^ a := by
  have hpow : (0 : Int) < 2 ^ b := by positivity
  rw [pow_add] at hx
  have hle := abs_le.mp hx
  apply abs_le.mpr
  constructor
  · rw [Int.le_ediv_iff_mul_le hpow, neg_mul]
    exact hle.1
  · exact Int.ediv_le_of_le_mul hpow hle.2

theorem wrappingMul_eq (hx : |x| ≤ 2 ^ a) (hy : |y| ≤ 2 ^ b) (h : a + b < 255) :
    wrappingMul x y = x * y :=
  wrapSigned_of_fits (by decide) (fitsSigned_of_abs_le (abs_mul_le_pow hx hy) (by omega))

theorem wrappingAdd_eq (hx : |x| ≤ 2 ^ a) (hy : |y| ≤ 2 ^ a) (h : a < 254) :
    wrappingAdd x y = x + y :=
  wrapSigned_of_fits (by decide) (fitsSigned_of_abs_le (abs_add_le_pow hx hy) (by omega))

theorem wrappingSub_eq (hx : |x| ≤ 2 ^ a) (hy : |y| ≤ 2 ^ a) (h : a < 254) :
    wrappingSub x y = x - y := by
  have hneg : |-y| ≤ 2 ^ a := by
    rw [abs_neg]
    exact hy
  have hadd := wrappingAdd_eq hx hneg h
  unfold wrappingAdd at hadd
  unfold wrappingSub
  rw [sub_eq_add_neg]
  exact hadd

theorem shl_eq (hx : |x| ≤ 2 ^ a) (h : a + b < 255) : shl x b = x * 2 ^ b := by
  have hpow : |(2 : Int) ^ b| ≤ 2 ^ b := le_of_eq (abs_of_pos (by positivity))
  exact wrapSigned_of_fits (by decide)
    (fitsSigned_of_abs_le (abs_mul_le_pow hx hpow) (by omega))

theorem step_eq (hz : |z| ≤ 2 ^ n) (hx : |x| ≤ 2 ^ 97) (hc : |c| ≤ 2 ^ n) (hn : n ≤ 152) :
    step x z c = hornerStep 96 x z c ∧ |hornerStep 96 x z c| ≤ 2 ^ (n + 2) := by
  have hmul := abs_mul_le_pow hz hx
  have hshift : |z * x / 2 ^ 96| ≤ 2 ^ (n + 1) := abs_ediv_le_pow hmul
  have hc' : |c| ≤ 2 ^ (n + 1) := hc.trans (pow_le_pow_right₀ (by norm_num) (by omega))
  refine ⟨?_, abs_add_le_pow hshift hc'⟩
  unfold step sar hornerStep
  rw [wrappingMul_eq hz hx (by omega), wrappingAdd_eq hshift hc' (by omega)]

theorem foldl_step (cs : List Int) (hz : |z| ≤ 2 ^ n) (hx : |x| ≤ 2 ^ 97)
    (hcs : forall c, c ∈ cs -> |c| ≤ 2 ^ n) (hn : n + 2 * cs.length ≤ 152) :
    cs.foldl (step x) z = cs.foldl (hornerStep 96 x) z ∧
      |cs.foldl (hornerStep 96 x) z| ≤ 2 ^ (n + 2 * cs.length) := by
  induction cs generalizing z n with
  | nil =>
      exact ⟨rfl, hz⟩
  | cons c cs ih =>
      rw [List.length_cons] at hn
      have hone := step_eq hz hx (hcs c List.mem_cons_self) (by omega)
      have htail (d : Int) (hd : d ∈ cs) : |d| ≤ 2 ^ (n + 2) :=
        (hcs d (List.mem_cons_of_mem _ hd)).trans (pow_le_pow_right₀ (by norm_num) (by omega))
      have hrest := ih hone.2 htail (by omega)
      rw [List.foldl_cons, List.foldl_cons, hone.1, List.length_cons]
      have hexp : n + 2 * (cs.length + 1) = n + 2 + 2 * cs.length := by ring
      rw [hexp]
      exact hrest

theorem near_seed (x c : Int) : Near 96 (x + c) (eval [c / 2 ^ 96, 1] (fixed 96 x)) 0 := by
  have hseed := (Near.self 96 x).add_const c
  have heval : eval [c / 2 ^ 96, 1] (fixed 96 x) = fixed 96 x + c / 2 ^ 96 := by
    simp only [eval_cons, eval_nil]
    push_cast
    ring
  rw [heval]
  exact hseed

theorem horner_near {B : ℝ} (c : Int) (cs : List Int) (hx : |x| ≤ 2 ^ 97) (hB : |fixed 96 x| ≤ B)
    (hlow : 97 ≤ n) (hc : |c| ≤ 2 ^ n) (hcs : forall d, d ∈ cs -> |d| ≤ 2 ^ n)
    (hn : n + 1 + 2 * cs.length ≤ 152) :
    Near 96 (cs.foldl (step x) (wrappingAdd x c))
        (eval (hornerPoly 96 [c / 2 ^ 96, 1] cs) (fixed 96 x))
        (cs.foldl (fun e _ => B * e + 1) 0) ∧
      |cs.foldl (step x) (wrappingAdd x c)| ≤ 2 ^ (n + 1 + 2 * cs.length) := by
  have hx' : |x| ≤ 2 ^ n := hx.trans (pow_le_pow_right₀ (by norm_num) hlow)
  have hcs' (d : Int) (hd : d ∈ cs) : |d| ≤ 2 ^ (n + 1) :=
    (hcs d hd).trans (pow_le_pow_right₀ (by norm_num) (by omega))
  have hfold := foldl_step cs (abs_add_le_pow hx' hc) hx hcs' hn
  rw [wrappingAdd_eq hx' hc (by omega), hfold.1]
  exact ⟨Near.horner_foldl (near_seed x c) hB cs, hfold.2⟩

theorem abs_fixed_le (hx : |x| ≤ 2 ^ n) : |fixed 96 x| ≤ 2 ^ n / 2 ^ 96 := by
  have hcast : |(x : ℝ)| ≤ 2 ^ n := by exact_mod_cast hx
  unfold fixed
  rw [abs_div, abs_of_pos (by positivity : (0 : ℝ) < 2 ^ 96)]
  exact div_le_div_of_nonneg_right hcast (by positivity)

theorem lastStep_near {p : List ℚ} {e B : ℝ} {b : Nat}
    (h : Near 96 z (eval p (fixed 96 x)) e) (hB : |fixed 96 x| ≤ B)
    (hz : |z| ≤ 2 ^ n) (hx : |x| ≤ 2 ^ 97) (hc : |c| ≤ 2 ^ b) (hn : n + 97 ≤ 253)
    (hb : b + 96 ≤ n + 97) :
    Near 192 (wrappingAdd (wrappingMul z x) (shl c 96))
        (eval ((c / 2 ^ 96 : ℚ) :: p) (fixed 96 x)) (2 ^ 96 * (B * e)) ∧
      |wrappingAdd (wrappingMul z x) (shl c 96)| ≤ 2 ^ (n + 98) := by
  have hmul := abs_mul_le_pow hz hx
  have hpow : |(2 : Int) ^ 96| ≤ 2 ^ 96 := le_of_eq (abs_of_pos (by positivity))
  have hshl : |c * 2 ^ 96| ≤ 2 ^ (n + 97) :=
    (abs_mul_le_pow hc hpow).trans (pow_le_pow_right₀ (by norm_num) hb)
  rw [wrappingMul_eq hz hx (by omega), shl_eq hc (by omega),
    wrappingAdd_eq hmul hshl (by omega)]
  refine ⟨?_, abs_add_le_pow hmul hshl⟩
  have hsplit : ((z * x + c * 2 ^ 96 : Int) : ℝ) -
      2 ^ 192 * eval ((c / 2 ^ 96 : ℚ) :: p) (fixed 96 x) =
        2 ^ 96 * (fixed 96 x * (z - 2 ^ 96 * eval p (fixed 96 x))) := by
    rw [eval_cons]
    unfold fixed
    push_cast
    field_simp
    ring
  have hle : |fixed 96 x * (z - 2 ^ 96 * eval p (fixed 96 x))| ≤ B * e := by
    rw [abs_mul]
    exact mul_le_mul hB h (abs_nonneg _) ((abs_nonneg _).trans hB)
  unfold Near
  rw [hsplit, abs_mul, abs_of_pos (by positivity : (0 : ℝ) < 2 ^ 96)]
  exact mul_le_mul_of_nonneg_left hle (by positivity)

theorem wrappingSub_eq_wrappingAdd (x y : Int) : wrappingSub x y = wrappingAdd x (-y) := by
  unfold wrappingSub wrappingAdd
  rw [sub_eq_add_neg]

end Words

section Exponential

variable {x : Int}

def expQ : List ℚ :=
  hornerPoly 96 [(-2855989394907223263936484059900 : Int) / 2 ^ 96, 1] expCoefficients

def expY : List ℚ :=
  hornerPoly 96 [(1346386616545796478920950773328 : Int) / 2 ^ 96, 1]
    [57155421227552351082224309758442]

def expZ : List ℚ := add expY [(-94201549194550492254356042504812 : Int) / 2 ^ 96, 1]

def expP : List ℚ :=
  (4385272521454847904659076985693276 : Int) / 2 ^ 96 ::
    add (mul expZ expY) [(28719021644029726153956944680412240 : Int) / 2 ^ 96]

theorem expDenominator_near (hx : |x| ≤ 2 ^ 95) :
    Near 96 (expDenominator x) (eval expQ (fixed 96 x)) 2 := by
  have hnear := horner_near (n := 116) (-2855989394907223263936484059900) expCoefficients
    (hx.trans (by norm_num)) (abs_fixed_le hx) (by decide)
    (by norm_num) (by norm_num [expCoefficients]) (by decide)
  unfold expDenominator
  rw [wrappingSub_eq_wrappingAdd]
  apply hnear.1.mono
  norm_num [expCoefficients]

theorem expNumerator_near (hx : |x| ≤ 2 ^ 95) :
    Near 192 (expNumerator x) (eval expP (fixed 96 x)) (2 ^ 108) := by
  have hx' : |x| ≤ 2 ^ 97 := hx.trans (by norm_num)
  have hB := abs_fixed_le hx
  have hseed := horner_near (n := 106) 1346386616545796478920950773328
    [57155421227552351082224309758442] hx' hB (by decide)
    (by norm_num) (by norm_num) (by decide)
  unfold expNumerator
  dsimp only
  rw [List.foldl_cons, List.foldl_nil] at hseed
  generalize step x (wrappingAdd x 1346386616545796478920950773328)
    57155421227552351082224309758442 = y at hseed ⊢
  have hy : Near 96 y (eval expY (fixed 96 x)) 1 := by
    apply hseed.1.mono
    norm_num
  have hyle : |y| ≤ 2 ^ 109 := hseed.2
  have hz : Near 96 (y + (x + -94201549194550492254356042504812))
      (eval expZ (fixed 96 x)) 1 := by
    have hsum := hy.add (near_seed x (-94201549194550492254356042504812))
    rw [← eval_add, add_zero] at hsum
    exact hsum
  have hzle : |y + (x + -94201549194550492254356042504812)| ≤ 2 ^ 110 :=
    abs_add_le_pow hyle
      ((abs_add_le_pow (hx.trans (by norm_num : (2 : Int) ^ 95 ≤ 2 ^ 108)) (by decide)).trans
        (by norm_num))
  have hwords : wrappingSub (wrappingAdd y x) 94201549194550492254356042504812 =
      y + (x + -94201549194550492254356042504812) := by
    rw [wrappingAdd_eq hyle (hx.trans (by norm_num)) (by decide),
      wrappingSub_eq (a := 110) (abs_add_le_pow hyle (hx.trans (by norm_num)))
        (by decide) (by decide)]
    ring
  generalize y + (x + -94201549194550492254356042504812) = z at hz hzle hwords
  rw [hwords, wrappingMul_eq hzle hyle (by decide)]
  have hprod := abs_mul_le_pow hzle hyle
  have hmul : |z * y / 2 ^ 96| ≤ 2 ^ 123 := abs_ediv_le_pow hprod
  have hnear := (hz.mul_shift_near hy).add_const 28719021644029726153956944680412240
  unfold sar
  rw [wrappingAdd_eq hmul (by decide) (by decide)]
  have hpoly : eval expZ (fixed 96 x) * eval expY (fixed 96 x) +
      (28719021644029726153956944680412240 : Int) / 2 ^ 96 =
        eval (add (mul expZ expY) [(28719021644029726153956944680412240 : Int) / 2 ^ 96])
          (fixed 96 x) := by
    rw [eval_add, eval_mul, eval_cons, eval_nil, mul_zero, add_zero]
    push_cast
    rfl
  have herror : (|eval expY (fixed 96 x)| + 1 / 2 ^ 96) * 1 + |eval expZ (fixed 96 x)| * 1 + 1 ≤
      (2 : ℝ) ^ 12 := by
    have hhalf : |fixed 96 x| ≤ ((1 / 2 : ℚ) : ℝ) := by
      apply hB.trans
      norm_num
    have hboundY : bound (1 / 2) expY ≤ 2 ^ 10 := by
      decide +kernel
    have hboundZ : bound (1 / 2) expZ ≤ 2 ^ 11 := by
      decide +kernel
    have hevalY : |eval expY (fixed 96 x)| ≤ (2 ^ 10 : ℚ) :=
      (abs_eval_le hhalf expY).trans (by exact_mod_cast hboundY)
    have hevalZ : |eval expZ (fixed 96 x)| ≤ (2 ^ 11 : ℚ) :=
      (abs_eval_le hhalf expZ).trans (by exact_mod_cast hboundZ)
    push_cast at hevalY hevalZ
    linarith
  rw [hpoly] at hnear
  have hlast := lastStep_near (b := 112) (n := 124) (c := 4385272521454847904659076985693276)
    (hnear.mono herror) hB (abs_add_le_pow hmul (by decide)) hx' (by decide) (by decide) (by decide)
  apply hlast.1.mono
  norm_num

end Exponential

section Logarithm

variable {x : Int}

def lnQ : List ℚ :=
  hornerPoly 96 [(5573035233440673466300451813936 : Int) / 2 ^ 96, 1] lnCoefficients

def lnSteps : List Int :=
  [24828157081833163892658089445524, 43456485725739037958740375743393,
    -11111509109440967052023855526967, -45023709667254063763336534515857,
    -14706773417378608786704636184526]

def lnP : List ℚ :=
  (-795164235651350426258249787498 : Int) / 2 ^ 96 ::
    hornerPoly 96 [(3273285459638523848632254066296 : Int) / 2 ^ 96, 1] lnSteps

theorem wrappingAdd_comm (x y : Int) : wrappingAdd x y = wrappingAdd y x := by
  unfold wrappingAdd
  rw [add_comm]

theorem wrappingMul_comm (x y : Int) : wrappingMul x y = wrappingMul y x := by
  unfold wrappingMul
  rw [mul_comm]

theorem lnDenominator_near (hx : |x| ≤ 2 ^ 97) :
    Near 96 (lnDenominator x) (eval lnQ (fixed 96 x)) 64 := by
  have hnear := horner_near (n := 109) 5573035233440673466300451813936 lnCoefficients
    hx (abs_fixed_le hx) (by decide) (by decide) (by norm_num [lnCoefficients]) (by decide)
  have hstep : (fun q c => wrappingAdd c (sar (wrappingMul x q) 96)) = step x := by
    funext q c
    unfold step
    rw [wrappingAdd_comm, wrappingMul_comm]
  unfold lnDenominator
  rw [wrappingAdd_comm, hstep]
  apply hnear.1.mono
  norm_num [lnCoefficients]

theorem lnNumerator_near (hx : |x| ≤ 2 ^ 97) :
    Near 192 (lnNumerator x) (eval lnP (fixed 96 x)) (2 ^ 102) ∧ |lnNumerator x| ≤ 2 ^ 215 := by
  have hB := abs_fixed_le hx
  have hnear := horner_near (n := 106) 3273285459638523848632254066296 lnSteps
    hx hB (by decide) (by decide) (by norm_num [lnSteps]) (by decide)
  have hlast := lastStep_near (b := 100) (c := -795164235651350426258249787498)
    hnear.1 hB hnear.2 hx (by decide) (by decide) (by decide)
  have hshl : shl (-795164235651350426258249787498) 96 =
      -shl 795164235651350426258249787498 96 := by
    rw [shl_eq (a := 100) (by decide) (by decide), shl_eq (a := 100) (by decide) (by decide),
      neg_mul]
  have hwords : lnNumerator x =
      wrappingAdd (wrappingMul (lnSteps.foldl (step x)
        (wrappingAdd x 3273285459638523848632254066296)) x)
        (shl (-795164235651350426258249787498) 96) := by
    unfold lnNumerator lnSteps
    simp only [List.foldl_cons, List.foldl_nil, wrappingSub_eq_wrappingAdd, hshl]
    unfold step
    rw [wrappingAdd_comm x]
  rw [hwords]
  refine ⟨hlast.1.mono ?_, hlast.2⟩
  norm_num [lnSteps]

end Logarithm

end Wad

end RmUniswap
