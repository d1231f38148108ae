import RmUniswap.Math.SwapMonotone

/-!
# Moves in two parts

A move made in two parts takes in at least as much as the whole move and frees at
most as much, and two amounts one after the other move the price no further than
their sum, respectively no less far when it is the output that is given. Every
rounding is against the caller once more.
-/

namespace RmUniswap

open Foundation

theorem divCeil_add_le {a b d : Nat} (hd : 0 < d) :
    divCeil (a + b) d ≤ divCeil a d + divCeil b d := by
  rw [divCeil_le_iff hd, Nat.add_mul]
  exact Nat.add_le_add (le_divCeil_mul hd) (le_divCeil_mul hd)

namespace Fee

theorem net_add_le (fee : Fee) (x y : Nat) : fee.net x + fee.net y ≤ fee.net (x + y) := by
  unfold net
  rw [Nat.add_mul]
  exact Nat.div_add_div_le_add_div

theorem onTop_add_le {fee : Fee} (hfee : fee.isValid = true) (x y : Nat) :
    fee.onTop (x + y) ≤ fee.onTop x + fee.onTop y := by
  unfold onTop
  split
  · exact le_refl _
  · rename_i hmax
    have hcomp := complement_eq hfee
    have hpips : fee.pips ≤ maxFee := by simpa [isValid] using hfee
    have hne : fee.pips ≠ maxFee := by simpa [isMax] using hmax
    rw [Nat.add_mul]
    exact divCeil_add_le (by omega)

end Fee

/-!
# Amounts of a move in two parts
-/

section Moves

variable {zeroForOne : Bool} {liquidity current middle next : Nat}

theorem outputOfMove_add_le (liquidity : Nat) (hcurrent : 0 < current) (hnext : 0 < next)
    (h : Farther zeroForOne current middle) (h' : Farther zeroForOne middle next) :
    outputOfMove liquidity current middle + outputOfMove liquidity middle next ≤
      outputOfMove liquidity current next := by
  cases zeroForOne with
  | true =>
      have h : middle ≤ current := h
      have h' : next ≤ middle := h'
      rw [outputOfMove_down h, outputOfMove_down h', outputOfMove_down (h'.trans h)]
      refine (Nat.div_add_div_le_add_div).trans (Nat.div_le_div_right ?_)
      rw [← Nat.mul_add]
      exact Nat.mul_le_mul_left _ (by omega)
  | false =>
      have h : current ≤ middle := h
      have h' : middle ≤ next := h'
      have hmiddle : 0 < middle := hcurrent.trans_le h
      rw [outputOfMove_up h, outputOfMove_up h', outputOfMove_up (h.trans h'),
        Nat.le_div_iff_mul_le (Nat.mul_pos hcurrent hnext), ← Nat.mul_assoc (2 ^ 96),
        ← Nat.mul_assoc (2 ^ 96), ← Nat.mul_assoc (2 ^ 96)]
      generalize 2 ^ 96 * liquidity = a
      have hfirst := Nat.div_mul_le_self (a * (middle - current)) (current * middle)
      have hlast := Nat.div_mul_le_self (a * (next - middle)) (middle * next)
      generalize a * (middle - current) / (current * middle) = k at hfirst ⊢
      generalize a * (next - middle) / (middle * next) = j at hlast ⊢
      -- both parts over the common denominator
      have hwhole : (middle - current) * next + (next - middle) * current =
          middle * (next - current) := by
        zify [h, h', h.trans h']
        ring
      refine Nat.le_of_mul_le_mul_right ?_ hmiddle
      calc
        (k + j) * (current * next) * middle =
            k * (current * middle) * next + j * (middle * next) * current := by ring
        _ ≤ a * (middle - current) * next + a * (next - middle) * current :=
          Nat.add_le_add (Nat.mul_le_mul_right _ hfirst) (Nat.mul_le_mul_right _ hlast)
        _ = a * ((middle - current) * next + (next - middle) * current) := by ring
        _ = a * (next - current) * middle := by
          rw [hwhole]
          ring

theorem inputOfMove_le_add (liquidity : Nat) (hcurrent : 0 < current) (hnext : 0 < next)
    (h : Farther zeroForOne current middle) (h' : Farther zeroForOne middle next) :
    inputOfMove liquidity current next ≤
      inputOfMove liquidity current middle + inputOfMove liquidity middle next := by
  cases zeroForOne with
  | true =>
      have h : middle ≤ current := h
      have h' : next ≤ middle := h'
      have hmiddle : 0 < middle := hnext.trans_le h'
      rw [inputOfMove_down h, inputOfMove_down h', inputOfMove_down (h'.trans h),
        divCeil_le_iff (Nat.mul_pos hnext hcurrent), ← Nat.mul_assoc (2 ^ 96),
        ← Nat.mul_assoc (2 ^ 96), ← Nat.mul_assoc (2 ^ 96)]
      generalize 2 ^ 96 * liquidity = a
      have hfirst := le_divCeil_mul (a := a * (current - middle)) (Nat.mul_pos hmiddle hcurrent)
      have hlast := le_divCeil_mul (a := a * (middle - next)) (Nat.mul_pos hnext hmiddle)
      generalize divCeil (a * (current - middle)) (middle * current) = k at hfirst ⊢
      generalize divCeil (a * (middle - next)) (next * middle) = j at hlast ⊢
      have hwhole : (current - middle) * next + (middle - next) * current =
          middle * (current - next) := by
        zify [h, h', h'.trans h]
        ring
      refine Nat.le_of_mul_le_mul_right ?_ hmiddle
      calc
        a * (current - next) * middle =
            a * ((current - middle) * next + (middle - next) * current) := by
          rw [hwhole]
          ring
        _ = a * (current - middle) * next + a * (middle - next) * current := by ring
        _ ≤ k * (middle * current) * next + j * (next * middle) * current :=
          Nat.add_le_add (Nat.mul_le_mul_right _ hfirst) (Nat.mul_le_mul_right _ hlast)
        _ = (k + j) * (next * current) * middle := by ring
  | false =>
      have h : current ≤ middle := h
      have h' : middle ≤ next := h'
      rw [inputOfMove_up h, inputOfMove_up h', inputOfMove_up (h.trans h')]
      refine le_trans (divCeil_mono ?_) (divCeil_add_le (Nat.two_pow_pos 96))
      rw [← Nat.mul_add]
      exact Nat.mul_le_mul_left _ (by omega)

theorem StepSound.input_le {target : Nat} {s : SwapStep} (hcurrent : 0 < current)
    (h : StepSound current target liquidity s) :
    inputOfMove liquidity current s.sqrtRatioNextX96 ≤ s.amountIn := by
  have hnext := h.valid.pos
  rcases le_total target current with hdir | hdir
  · have hmove := h.down hdir
    rw [inputOfMove_down hmove.le_current, divCeil_le_iff (Nat.mul_pos hnext hcurrent),
      ← Nat.mul_assoc, Nat.mul_comm (2 ^ 96)]
    exact hmove.input
  · have hmove := h.up hdir
    rw [inputOfMove_up hmove.current_le, divCeil_le_iff (Nat.two_pow_pos 96)]
    exact hmove.input

theorem StepSound.output_le {target : Nat} {s : SwapStep} (hcurrent : 0 < current)
    (h : StepSound current target liquidity s) :
    s.amountOut ≤ outputOfMove liquidity current s.sqrtRatioNextX96 := by
  have hnext := h.valid.pos
  rcases le_total target current with hdir | hdir
  · have hmove := h.down hdir
    rw [outputOfMove_down hmove.le_current, Nat.le_div_iff_mul_le (Nat.two_pow_pos 96)]
    exact hmove.output
  · have hmove := h.up hdir
    rw [outputOfMove_up hmove.current_le, Nat.le_div_iff_mul_le (Nat.mul_pos hcurrent hnext),
      ← Nat.mul_assoc (2 ^ 96), Nat.mul_comm (2 ^ 96)]
    exact hmove.output

end Moves

/-!
# Prices after two amounts
-/

section Prices

variable {zeroForOne : Bool} {current liquidity x y : Nat}

def Direct (zeroForOne : Bool) (current liquidity amount : Nat) : Prop :=
  zeroForOne = true -> liquidity * 2 ^ 96 + amount * current < 2 ^ 256

theorem Direct.of_lt {amount : Nat} (hl : liquidity < 2 ^ 128) (hcurrent : current < 2 ^ 160)
    (hamount : zeroForOne = true -> amount < 2 ^ 95) :
    Direct zeroForOne current liquidity amount := by
  unfold Direct
  intro hz
  have hnumerator : liquidity * 2 ^ 96 < 2 ^ 224 := mul_two_pow_lt hl (by norm_num)
  have hproduct : amount * current < 2 ^ 95 * 2 ^ 160 := Nat.mul_lt_mul'' (hamount hz) hcurrent
  have hword : 2 ^ 224 + 2 ^ 95 * 2 ^ 160 ≤ 2 ^ 256 := by norm_num
  exact (Nat.add_lt_add hnumerator hproduct).trans_le hword

theorem priceOfInput_add (hl0 : 0 < liquidity)
    (hsum : Direct zeroForOne current liquidity (x + y)) :
    Farther zeroForOne
      (priceOfInput zeroForOne (priceOfInput zeroForOne current liquidity x) liquidity y)
      (priceOfInput zeroForOne current liquidity (x + y)) := by
  cases zeroForOne with
  | true =>
      have hn : 0 < liquidity * 2 ^ 96 := Nat.mul_pos hl0 (Nat.two_pow_pos 96)
      have hsum := hsum rfl
      unfold Farther priceOfInput
      dsimp only
      rw [if_pos rfl, if_pos rfl, if_pos rfl, if_pos rfl]
      generalize liquidity * 2 ^ 96 = n at hn hsum ⊢
      generalize 2 ^ 256 = word at hsum ⊢
      have hdistrib : (x + y) * current = x * current + y * current := Nat.add_mul _ _ _
      rw [if_pos hsum, if_pos (show n + x * current < word by omega)]
      have hden : 0 < n + x * current := Nat.add_pos_left hn _
      have hfirst := le_divCeil_mul (a := n * current) hden
      have hle : divCeil (n * current) (n + x * current) ≤ current := by
        rw [divCeil_le_iff hden, Nat.mul_comm n]
        exact Nat.mul_le_mul_left _ (Nat.le_add_right _ _)
      generalize divCeil (n * current) (n + x * current) = p at hfirst hle ⊢
      have hproduct : y * p ≤ y * current := Nat.mul_le_mul_left _ hle
      rw [if_pos (show n + y * p < word by omega)]
      have hlast := le_divCeil_mul (a := n * p) (Nat.add_pos_left hn (y * p))
      generalize divCeil (n * p) (n + y * p) = q at hlast ⊢
      rw [divCeil_le_iff (Nat.add_pos_left hn _), hdistrib]
      -- cross-multiplied, with the middle price eliminated
      by_cases hall : n ≤ q * y
      · calc
          n * current ≤ q * y * current := Nat.mul_le_mul_right _ hall
          _ = q * (y * current) := Nat.mul_assoc _ _ _
          _ ≤ q * (n + (x * current + y * current)) := Nat.mul_le_mul_left _ (by omega)
      · have hrest : q * y ≤ n := le_of_lt (not_le.mp hall)
        have hmiddle : p * (n - q * y) ≤ q * n := by
          zify [hrest]
          zify at hlast
          linarith
        have hscaled : n * (current * (n - q * y)) ≤ n * (q * (n + x * current)) :=
          calc
            n * (current * (n - q * y)) = n * current * (n - q * y) := (Nat.mul_assoc _ _ _).symm
            _ ≤ p * (n + x * current) * (n - q * y) := Nat.mul_le_mul_right _ hfirst
            _ = p * (n - q * y) * (n + x * current) := by ring
            _ ≤ q * n * (n + x * current) := Nat.mul_le_mul_right _ hmiddle
            _ = n * (q * (n + x * current)) := by ring
        have hcleared := Nat.le_of_mul_le_mul_left hscaled hn
        zify [hrest] at hcleared
        zify
        linarith
  | false =>
      unfold Farther priceOfInput
      dsimp only
      rw [if_neg Bool.false_ne_true, if_neg Bool.false_ne_true, if_neg Bool.false_ne_true,
        if_neg Bool.false_ne_true, Nat.add_assoc, Nat.add_mul]
      exact Nat.add_le_add_left (Nat.div_add_div_le_add_div) _

theorem priceOfOutput_add (hl0 : 0 < liquidity)
    (hroom : zeroForOne = false -> (x + y) * current < liquidity * 2 ^ 96)
    (hroom' : zeroForOne = false ->
      y * priceOfOutput zeroForOne current liquidity x < liquidity * 2 ^ 96) :
    Farther zeroForOne (priceOfOutput zeroForOne current liquidity (x + y))
      (priceOfOutput zeroForOne (priceOfOutput zeroForOne current liquidity x) liquidity y) := by
  cases zeroForOne with
  | true =>
      unfold Farther priceOfOutput
      dsimp only
      rw [if_pos rfl, if_pos rfl, if_pos rfl, if_pos rfl, Nat.sub_sub, Nat.add_mul]
      exact Nat.sub_le_sub_left (divCeil_add_le hl0) _
  | false =>
      have hn : 0 < liquidity * 2 ^ 96 := Nat.mul_pos hl0 (Nat.two_pow_pos 96)
      have hroom := hroom rfl
      have hroom' := hroom' rfl
      unfold Farther priceOfOutput
      unfold priceOfOutput at hroom'
      dsimp only at hroom' ⊢
      rw [if_neg Bool.false_ne_true] at hroom'
      rw [if_neg Bool.false_ne_true, if_neg Bool.false_ne_true, if_neg Bool.false_ne_true,
        if_neg Bool.false_ne_true]
      generalize liquidity * 2 ^ 96 = n at hn hroom hroom' ⊢
      have hdistrib : (x + y) * current = x * current + y * current := Nat.add_mul _ _ _
      have hfirst := le_divCeil_mul (a := n * current) (show 0 < n - x * current by omega)
      generalize divCeil (n * current) (n - x * current) = p at hfirst hroom' ⊢
      have hlast := le_divCeil_mul (a := n * p) (Nat.sub_pos_of_lt hroom')
      generalize divCeil (n * p) (n - y * p) = q at hlast ⊢
      rw [divCeil_le_iff (Nat.sub_pos_of_lt hroom)]
      have hx : x * current ≤ n := by omega
      have hmiddle : p * (n + q * y) ≤ q * n := by
        zify [le_of_lt hroom'] at hlast
        zify
        linarith
      have hscaled : n * (current * (n + q * y)) ≤ n * (q * (n - x * current)) :=
        calc
          n * (current * (n + q * y)) = n * current * (n + q * y) := (Nat.mul_assoc _ _ _).symm
          _ ≤ p * (n - x * current) * (n + q * y) := Nat.mul_le_mul_right _ hfirst
          _ = p * (n + q * y) * (n - x * current) := by ring
          _ ≤ q * n * (n - x * current) := Nat.mul_le_mul_right _ hmiddle
          _ = n * (q * (n - x * current)) := by ring
      have hcleared := Nat.le_of_mul_le_mul_left hscaled hn
      zify [hx] at hcleared
      zify [le_of_lt hroom]
      linarith

theorem priceOfInput_short {target : Nat} (hcurrent : 0 < current) (htarget : 0 < target)
    (hl0 : 0 < liquidity) (hl : liquidity < 2 ^ 128)
    (hshort : x < inputOfMove liquidity current target) :
    priceOfInput (decide (current ≥ target)) current liquidity x ≠ target := by
  have hn : 0 < liquidity * 2 ^ 96 := Nat.mul_pos hl0 (Nat.two_pow_pos 96)
  have hq96lt : liquidity * 2 ^ 96 < 2 ^ 256 :=
    (mul_two_pow_lt hl (by norm_num) : liquidity * 2 ^ 96 < 2 ^ 224).trans (by norm_num)
  by_cases hdir : target ≤ current
  · rw [inputOfMove_down hdir, lt_divCeil_iff (Nat.mul_pos htarget hcurrent),
      ← Nat.mul_assoc (2 ^ 96), Nat.mul_comm (2 ^ 96)] at hshort
    rw [decide_eq_true hdir]
    unfold priceOfInput
    dsimp only
    rw [if_pos rfl]
    generalize liquidity * 2 ^ 96 = n at hn hq96lt hshort ⊢
    generalize 2 ^ 256 = word at hq96lt ⊢
    split
    · exact (ne_of_lt ((amount0_add_direct hn rfl).2.2 hshort)).symm
    · rename_i hover
      have hpos : 0 < x := by
        refine Nat.pos_of_ne_zero fun hzero => hover ?_
        rw [hzero, Nat.zero_mul, Nat.add_zero]
        exact hq96lt
      exact (ne_of_lt ((amount0_add_fallback hcurrent hpos rfl).2.2 hshort)).symm
  · have hlt : current < target := not_le.mp hdir
    rw [inputOfMove_up (le_of_lt hlt), lt_divCeil_iff (Nat.two_pow_pos 96),
      Nat.mul_comm liquidity] at hshort
    rw [decide_eq_false hdir]
    unfold priceOfInput
    dsimp only
    rw [if_neg Bool.false_ne_true]
    have hmove : x * 2 ^ 96 / liquidity < target - current := (Nat.div_lt_iff_lt_mul hl0).mpr hshort
    omega

end Prices

/-!
# Steps in two parts
-/

def SwapStep.gross (s : SwapStep) : Nat := s.amountIn + s.feeAmount

theorem Fee.gross_le_add {fee : Fee} (hfee : fee.isValid = true) {x y z : Nat} (h : z ≤ x + y) :
    z + fee.onTop z ≤ x + fee.onTop x + (y + fee.onTop y) := by
  have hmono : fee.onTop z ≤ fee.onTop (x + y) := Fee.onTop_mono h
  have hadd := Fee.onTop_add_le hfee x y
  omega

theorem Direct.mono {zeroForOne : Bool} {current liquidity amount amount' : Nat}
    (h : Direct zeroForOne current liquidity amount') (hle : amount ≤ amount') :
    Direct zeroForOne current liquidity amount := by
  unfold Direct at h ⊢
  intro hz
  exact (Nat.add_le_add_left (Nat.mul_le_mul_right _ hle) _).trans_lt (h hz)

section Steps

variable {current target liquidity : Nat} {remaining : Int} {fee : Fee} {s : SwapStep}

theorem computeSwapStep_fee (hout : 0 < remaining)
    (h : computeSwapStep current target liquidity remaining fee = .ok s) : fee.isMax = false := by
  unfold computeSwapStep at h
  rw [if_neg (ne_of_gt hout), decide_eq_false (not_lt.mpr (le_of_lt hout))] at h
  cases hmax : fee.isMax with
  | false =>
      rfl
  | true =>
      rw [hmax] at h
      cases h

theorem plainStep_price_of_covers (hcovers : Covers current target liquidity remaining fee) :
    (plainStep current target liquidity remaining fee).sqrtRatioNextX96 = target := by
  unfold plainStep
  rw [if_pos hcovers]
  rfl

theorem plainStep_output (hin : remaining < 0) :
    (plainStep current target liquidity remaining fee).amountOut =
      outputOfMove liquidity current
        (plainStep current target liquidity remaining fee).sqrtRatioNextX96 := by
  unfold plainStep
  rw [if_pos hin]
  split <;> rfl

theorem plainStep_gross (hout : 0 < remaining) :
    (plainStep current target liquidity remaining fee).gross =
      inputOfMove liquidity current
        (plainStep current target liquidity remaining fee).sqrtRatioNextX96 +
      fee.onTop (inputOfMove liquidity current
        (plainStep current target liquidity remaining fee).sqrtRatioNextX96) := by
  unfold plainStep
  rw [if_neg (not_lt.mpr (le_of_lt hout))]
  split <;> rfl

theorem covers_exactIn (hin : remaining < 0) :
    Covers current target liquidity remaining fee ↔
      inputOfMove liquidity current target ≤ fee.net remaining.natAbs := by
  unfold Covers
  rw [if_pos hin]

theorem covers_exactOut (hout : 0 < remaining) :
    Covers current target liquidity remaining fee ↔
      outputOfMove liquidity current target ≤ remaining.natAbs := by
  unfold Covers
  rw [if_neg (not_lt.mpr (le_of_lt hout))]

theorem plainStep_short_in (hin : remaining < 0)
    (hshort : ¬ Covers current target liquidity remaining fee) :
    (plainStep current target liquidity remaining fee).amountIn = fee.net remaining.natAbs ∧
      (plainStep current target liquidity remaining fee).sqrtRatioNextX96 =
        priceOfInput (decide (current ≥ target)) current liquidity
          (fee.net remaining.natAbs) := by
  unfold plainStep
  rw [if_neg hshort, if_pos hin]
  exact ⟨rfl, rfl⟩

theorem plainStep_short_out (hout : 0 < remaining)
    (hshort : ¬ Covers current target liquidity remaining fee) :
    (plainStep current target liquidity remaining fee).amountOut = remaining.natAbs ∧
      (plainStep current target liquidity remaining fee).sqrtRatioNextX96 =
        priceOfOutput (decide (current ≥ target)) current liquidity remaining.natAbs := by
  unfold plainStep
  rw [if_neg hshort, if_neg (not_lt.mpr (le_of_lt hout))]
  exact ⟨rfl, rfl⟩

theorem plainStep_price_ne (hcurrent : 0 < current) (htarget : 0 < target) (hl0 : 0 < liquidity)
    (hl : liquidity < 2 ^ 128) (hin : remaining < 0)
    (hshort : ¬ Covers current target liquidity remaining fee) :
    (plainStep current target liquidity remaining fee).sqrtRatioNextX96 ≠ target := by
  rw [(plainStep_short_in hin hshort).2]
  rw [covers_exactIn hin, not_le] at hshort
  exact priceOfInput_short hcurrent htarget hl0 hl hshort

end Steps

/-- A step that ends short of its target, the step that goes on from there, and the
step of both amounts together. -/
structure SplitSteps (current target liquidity : Nat) (remaining remaining1 : Int) (fee : Fee)
    (s s1 s' : SwapStep) : Prop where
  currentValid : IsValidSqrtPrice current
  targetValid : IsValidSqrtPrice target
  positive : 0 < liquidity
  liquidityFits : liquidity < 2 ^ 128
  feeValid : fee.isValid = true
  sign : remaining < 0 ∧ remaining1 < 0 ∨ 0 < remaining ∧ 0 < remaining1
  fits : FitsSigned 256 remaining
  fits1 : FitsSigned 256 remaining1
  fits' : FitsSigned 256 (remaining + remaining1)
  short : ¬ Covers current target liquidity remaining fee
  off : s.sqrtRatioNextX96 ≠ target
  first : computeSwapStep current target liquidity remaining fee = .ok s
  second : computeSwapStep s.sqrtRatioNextX96 target liquidity remaining1 fee = .ok s1
  whole : computeSwapStep current target liquidity (remaining + remaining1) fee = .ok s'

namespace SplitSteps

variable {current target liquidity : Nat} {remaining remaining1 : Int} {fee : Fee}
  {s s1 s' : SwapStep}

section Facts

variable (h : SplitSteps current target liquidity remaining remaining1 fee s s1 s')

include h

theorem sound : StepSound current target liquidity s ∧ StepFills target remaining s :=
  computeSwapStep_sound h.currentValid h.targetValid h.positive h.liquidityFits h.feeValid
    (by have := h.sign; omega) h.fits h.first

theorem sound1 : StepSound s.sqrtRatioNextX96 target liquidity s1 ∧
    StepFills target remaining1 s1 :=
  computeSwapStep_sound h.sound.1.valid h.targetValid h.positive h.liquidityFits h.feeValid
    (by have := h.sign; omega) h.fits1 h.second

theorem sound' : StepSound current target liquidity s' ∧
    StepFills target (remaining + remaining1) s' :=
  computeSwapStep_sound h.currentValid h.targetValid h.positive h.liquidityFits h.feeValid
    (by have := h.sign; omega) h.fits' h.whole

theorem first_eq : s = plainStep current target liquidity remaining fee :=
  computeSwapStep_eq h.currentValid h.targetValid h.positive h.liquidityFits h.feeValid
    (by have := h.sign; omega) h.fits h.first

theorem second_eq : s1 = plainStep s.sqrtRatioNextX96 target liquidity remaining1 fee :=
  computeSwapStep_eq h.sound.1.valid h.targetValid h.positive h.liquidityFits h.feeValid
    (by have := h.sign; omega) h.fits1 h.second

theorem whole_eq : s' = plainStep current target liquidity (remaining + remaining1) fee :=
  computeSwapStep_eq h.currentValid h.targetValid h.positive h.liquidityFits h.feeValid
    (by have := h.sign; omega) h.fits' h.whole

theorem direction :
    decide (s.sqrtRatioNextX96 ≥ target) = decide (current ≥ target) := by
  have hbetween := h.sound.1.between
  by_cases hdir : target ≤ current
  · rw [decide_eq_true hdir] at hbetween ⊢
    exact decide_eq_true hbetween.2
  · rw [decide_eq_false hdir] at hbetween ⊢
    refine decide_eq_false fun hge => h.off (le_antisymm ?_ hge)
    exact hbetween.2

theorem farther : Farther (decide (current ≥ target)) current s.sqrtRatioNextX96 ∧
    Farther (decide (current ≥ target)) s.sqrtRatioNextX96 s1.sqrtRatioNextX96 ∧
    Farther (decide (current ≥ target)) s1.sqrtRatioNextX96 target := by
  have hsecond := h.sound1.1.between
  rw [h.direction] at hsecond
  exact ⟨h.sound.1.between.1, hsecond.1, hsecond.2⟩

theorem natAbs_add : (remaining + remaining1).natAbs = remaining.natAbs + remaining1.natAbs := by
  have hsign := h.sign
  omega

end Facts

/-!
# Exact inputs
-/

section ExactIn

variable (h : SplitSteps current target liquidity remaining remaining1 fee s s1 s')
  (hin : remaining < 0)

include h hin

/-- Where the second input pays for the rest of the way, the sum does for all of it. -/
theorem covers_of_second
    (hcovers : Covers s.sqrtRatioNextX96 target liquidity remaining1 fee) :
    Covers current target liquidity (remaining + remaining1) fee := by
  have hsign := h.sign
  have hparts := inputOfMove_le_add liquidity h.currentValid.pos h.targetValid.pos
    h.farther.1 h.sound.1.between.2
  have hpaid := h.sound.1.input_le h.currentValid.pos
  have hnet := Fee.net_add_le fee remaining.natAbs remaining1.natAbs
  have hfirst := (plainStep_short_in hin h.short).1
  rw [← h.first_eq] at hfirst
  rw [covers_exactIn (by omega)] at hcovers
  rw [covers_exactIn (by omega), h.natAbs_add]
  omega

theorem in_gross : s'.gross ≤ s.gross + s1.gross := by
  have hsign := h.sign
  have hspent := (plainStep_spends h.feeValid h.short h.first_eq).1 hin
  by_cases hcovers : Covers s.sqrtRatioNextX96 target liquidity remaining1 fee
  · have hwhole := h.covers_of_second hin hcovers
    have hparts := inputOfMove_le_add liquidity h.currentValid.pos h.targetValid.pos
      h.farther.1 h.sound.1.between.2
    have hpaid := h.sound.1.input_le h.currentValid.pos
    have hfirst := (plainStep_short_in hin h.short).1
    rw [← h.first_eq] at hfirst
    rw [hfirst] at hpaid
    have hsecond := h.second_eq
    have hwhole' := h.whole_eq
    have hshort := h.short
    unfold plainStep at hsecond hwhole'
    rw [if_pos hcovers] at hsecond
    rw [if_pos hwhole] at hwhole'
    rw [covers_exactIn hin] at hshort
    rw [covers_exactIn (by omega)] at hwhole
    have hmax : fee.isMax = false := by
      by_contra hmax
      have hpips : fee.pips = maxFee := by simpa [Fee.isMax] using hmax
      unfold Fee.net at hshort hwhole
      rw [Fee.complement_eq h.feeValid, hpips, Nat.sub_self, Nat.mul_zero, Nat.zero_div]
        at hshort hwhole
      exact hshort hwhole
    rw [Fee.le_net_iff h.feeValid hmax] at hpaid
    have hgross := Fee.gross_le_add h.feeValid hparts
    rw [hsecond, hwhole']
    unfold SwapStep.gross fullStep
    dsimp only
    omega
  · have hspent1 := (plainStep_spends h.feeValid hcovers h.second_eq).1 (by omega)
    have hfill := (h.sound'.2.input (by omega)).1
    have habs := h.natAbs_add
    unfold SwapStep.gross
    omega

theorem in_output (hdirect : Direct (decide (current ≥ target)) current liquidity
      (remaining + remaining1).natAbs) : s.amountOut + s1.amountOut ≤ s'.amountOut := by
  have hsign := h.sign
  have hnext := h.sound1.1.valid.pos
  have hparts := outputOfMove_add_le liquidity h.currentValid.pos hnext
    h.farther.1 h.farther.2.1
  have houtput : s.amountOut = outputOfMove liquidity current s.sqrtRatioNextX96 := by
    rw [h.first_eq]
    exact plainStep_output hin
  have houtput1 : s1.amountOut =
      outputOfMove liquidity s.sqrtRatioNextX96 s1.sqrtRatioNextX96 := by
    rw [h.second_eq]
    exact plainStep_output (by omega)
  have houtput' : s'.amountOut = outputOfMove liquidity current s'.sqrtRatioNextX96 := by
    rw [h.whole_eq]
    exact plainStep_output (by omega)
  have hprice : Farther (decide (current ≥ target)) s1.sqrtRatioNextX96 s'.sqrtRatioNextX96 := by
    by_cases hwhole : Covers current target liquidity (remaining + remaining1) fee
    · have htarget := plainStep_price_of_covers hwhole
      rw [← h.whole_eq] at htarget
      rw [htarget]
      exact h.farther.2.2
    · have hshort : ¬ Covers s.sqrtRatioNextX96 target liquidity remaining1 fee :=
        fun hcovers => hwhole (h.covers_of_second hin hcovers)
      have hfirst := (plainStep_short_in hin h.short).2
      have hsecond := (plainStep_short_in (by omega) hshort).2
      have hwhole' := (plainStep_short_in (by omega) hwhole).2
      rw [← h.first_eq] at hfirst
      rw [← h.second_eq, h.direction, hfirst] at hsecond
      rw [← h.whole_eq, h.natAbs_add] at hwhole'
      have hnet := Fee.net_add_le fee remaining.natAbs remaining1.natAbs
      have hle := Fee.net_le h.feeValid (remaining.natAbs + remaining1.natAbs)
      rw [h.natAbs_add] at hdirect
      rw [hsecond, hwhole']
      exact (priceOfInput_add h.positive (hdirect.mono (hnet.trans hle))).trans
        (priceOfInput_mono h.currentValid.pos h.positive h.liquidityFits hnet)
  have hmono := outputOfMove_mono liquidity h.currentValid.pos (h.farther.1.trans h.farther.2.1)
    hprice
  omega

end ExactIn

/-!
# Exact outputs
-/

section ExactOut

variable (h : SplitSteps current target liquidity remaining remaining1 fee s s1 s')
  (hout : 0 < remaining)

include h hout

theorem covers_of_whole (hcovers : Covers current target liquidity (remaining + remaining1) fee) :
    Covers s.sqrtRatioNextX96 target liquidity remaining1 fee := by
  have hsign := h.sign
  have hparts := outputOfMove_add_le liquidity h.currentValid.pos h.targetValid.pos
    h.farther.1 h.sound.1.between.2
  have hpaid := h.sound.1.output_le h.currentValid.pos
  have hfirst := (plainStep_short_out hout h.short).1
  rw [← h.first_eq] at hfirst
  rw [covers_exactOut (by omega), h.natAbs_add] at hcovers
  rw [covers_exactOut (by omega)]
  omega

theorem out_output : s.amountOut + s1.amountOut ≤ s'.amountOut := by
  have hsign := h.sign
  have hfirst := (plainStep_short_out hout h.short).1
  rw [← h.first_eq] at hfirst
  by_cases hwhole : Covers current target liquidity (remaining + remaining1) fee
  · have hparts := outputOfMove_add_le liquidity h.currentValid.pos h.targetValid.pos
      h.farther.1 h.sound.1.between.2
    have hpaid := h.sound.1.output_le h.currentValid.pos
    have hsecond := h.second_eq
    have hwhole' := h.whole_eq
    unfold plainStep at hsecond hwhole'
    rw [if_pos (h.covers_of_whole hout hwhole)] at hsecond
    rw [if_pos hwhole] at hwhole'
    rw [hwhole']
    unfold fullStep at hsecond ⊢
    rw [hsecond]
    dsimp only
    omega
  · have hwhole' := (plainStep_short_out (by omega) hwhole).1
    have hfill := (h.sound1.2.output (by omega)).1
    rw [← h.whole_eq, h.natAbs_add] at hwhole'
    omega

theorem out_gross : s'.gross ≤ s.gross + s1.gross := by
  have hsign := h.sign
  have hnext := h.sound1.1.valid.pos
  have hgross : s.gross = inputOfMove liquidity current s.sqrtRatioNextX96 +
      fee.onTop (inputOfMove liquidity current s.sqrtRatioNextX96) := by
    rw [h.first_eq]
    exact plainStep_gross hout
  have hgross1 : s1.gross =
      inputOfMove liquidity s.sqrtRatioNextX96 s1.sqrtRatioNextX96 +
      fee.onTop (inputOfMove liquidity s.sqrtRatioNextX96 s1.sqrtRatioNextX96) := by
    rw [h.second_eq]
    exact plainStep_gross (by omega)
  have hgross' : s'.gross = inputOfMove liquidity current s'.sqrtRatioNextX96 +
      fee.onTop (inputOfMove liquidity current s'.sqrtRatioNextX96) := by
    rw [h.whole_eq]
    exact plainStep_gross (by omega)
  have hprice : Farther (decide (current ≥ target)) s'.sqrtRatioNextX96 s1.sqrtRatioNextX96 := by
    by_cases hcovers : Covers s.sqrtRatioNextX96 target liquidity remaining1 fee
    · have htarget := plainStep_price_of_covers hcovers
      rw [← h.second_eq] at htarget
      rw [htarget]
      exact h.sound'.1.between.2
    · have hwhole : ¬ Covers current target liquidity (remaining + remaining1) fee :=
        fun hwhole => hcovers (h.covers_of_whole hout hwhole)
      have hfirst := (plainStep_short_out hout h.short).2
      have hsecond := (plainStep_short_out (by omega) hcovers).2
      have hwhole' := (plainStep_short_out (by omega) hwhole).2
      rw [← h.first_eq] at hfirst
      rw [← h.second_eq, h.direction] at hsecond
      rw [← h.whole_eq, h.natAbs_add] at hwhole'
      rw [covers_exactOut (by omega), not_le] at hcovers
      rw [covers_exactOut (by omega), not_le, h.natAbs_add] at hwhole
      have hdir := h.direction
      rw [hsecond, hwhole', hfirst]
      refine priceOfOutput_add h.positive (fun hup => ?_) fun hup => ?_
      · exact output_room h.currentValid.pos h.positive (not_le.mp (of_decide_eq_false hup)) hwhole
      · rw [← hfirst]
        exact output_room h.sound.1.valid.pos h.positive
          (not_le.mp (of_decide_eq_false (hdir.trans hup))) hcovers
  have hmono := inputOfMove_mono liquidity h.currentValid.pos hnext h.sound'.1.between.1 hprice
  have hparts := inputOfMove_le_add liquidity h.currentValid.pos hnext
    h.farther.1 h.farther.2.1
  rw [hgross, hgross1, hgross']
  exact Fee.gross_le_add h.feeValid (hmono.trans hparts)

end ExactOut

theorem no_better (h : SplitSteps current target liquidity remaining remaining1 fee s s1 s')
    (hdirect : remaining < 0 -> Direct (decide (current ≥ target)) current liquidity
      (remaining + remaining1).natAbs) :
    s'.gross ≤ s.gross + s1.gross ∧ s.amountOut + s1.amountOut ≤ s'.amountOut := by
  rcases h.sign with ⟨hin, _⟩ | ⟨hout, _⟩
  · exact ⟨h.in_gross hin, h.in_output hin (hdirect hin)⟩
  · exact ⟨h.out_gross hout, h.out_output hout⟩

end SplitSteps

end RmUniswap
