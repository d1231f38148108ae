import RmUniswap.Math.SwapFormula

/-!
# Larger amounts move further

Of two steps that differ in the remaining amount only, the one with more left uses
more, frees more and ends further away. The direct formula for the next price and
its overflow fallback are compared across the amount where the code switches.
-/

namespace RmUniswap

open Foundation

def Farther (zeroForOne : Bool) (p q : Nat) : Prop :=
  if zeroForOne then q ≤ p else p ≤ q

theorem Farther.refl (zeroForOne : Bool) (p : Nat) : Farther zeroForOne p p := by
  cases zeroForOne with
  | true => exact le_refl p
  | false => exact le_refl p

theorem Farther.trans {zeroForOne : Bool} {p q r : Nat} (h : Farther zeroForOne p q)
    (h' : Farther zeroForOne q r) : Farther zeroForOne p r := by
  cases zeroForOne with
  | true => exact Nat.le_trans h' h
  | false => exact Nat.le_trans h h'

theorem Farther.dist_le {zeroForOne : Bool} {p q r : Nat} (h : Farther zeroForOne p q)
    (h' : Farther zeroForOne q r) : Nat.dist p q ≤ Nat.dist p r := by
  cases zeroForOne with
  | true =>
      have h : q ≤ p := h
      have h' : r ≤ q := h'
      rw [Nat.dist_eq_sub_of_le_right h, Nat.dist_eq_sub_of_le_right (h'.trans h)]
      exact Nat.sub_le_sub_left h' p
  | false =>
      have h : p ≤ q := h
      have h' : q ≤ r := h'
      rw [Nat.dist_eq_sub_of_le h, Nat.dist_eq_sub_of_le (h.trans h')]
      exact Nat.sub_le_sub_right h' p

theorem divCeil_anti {n d d' : Nat} (hd : 0 < d) (h : d ≤ d') : divCeil n d' ≤ divCeil n d := by
  rw [divCeil_le_iff (hd.trans_le h)]
  exact (le_divCeil_mul hd).trans (Nat.mul_le_mul_left _ h)

/-!
# Amounts of longer moves
-/

section Moves

variable {zeroForOne : Bool} {current next next' : Nat}

theorem inputOfMove_mono (liquidity : Nat) (hcurrent : 0 < current) (hnext : 0 < next')
    (hle : Farther zeroForOne current next) (h : Farther zeroForOne next next') :
    inputOfMove liquidity current next ≤ inputOfMove liquidity current next' := by
  cases zeroForOne with
  | true =>
      have hle : next ≤ current := hle
      have h : next' ≤ next := h
      have hpos : 0 < next' * current := Nat.mul_pos hnext hcurrent
      rw [inputOfMove_down hle, inputOfMove_down (h.trans hle),
        divCeil_le_iff (Nat.mul_pos (hnext.trans_le h) hcurrent)]
      calc
        2 ^ 96 * (liquidity * (current - next)) ≤ 2 ^ 96 * (liquidity * (current - next')) :=
          Nat.mul_le_mul_left _ (Nat.mul_le_mul_left _ (Nat.sub_le_sub_left h _))
        _ ≤ _ := le_divCeil_mul hpos
        _ ≤ _ := Nat.mul_le_mul_left _ (Nat.mul_le_mul_right _ h)
  | false =>
      have hle : current ≤ next := hle
      have h : next ≤ next' := h
      rw [inputOfMove_up hle, inputOfMove_up (hle.trans h)]
      exact divCeil_mono (Nat.mul_le_mul_left _ (Nat.sub_le_sub_right h _))

theorem outputOfMove_mono (liquidity : Nat) (hcurrent : 0 < current)
    (hle : Farther zeroForOne current next) (h : Farther zeroForOne next next') :
    outputOfMove liquidity current next ≤ outputOfMove liquidity current next' := by
  cases zeroForOne with
  | true =>
      have hle : next ≤ current := hle
      have h : next' ≤ next := h
      rw [outputOfMove_down hle, outputOfMove_down (h.trans hle)]
      exact Nat.div_le_div_right (Nat.mul_le_mul_left _ (Nat.sub_le_sub_left h _))
  | false =>
      have hle : current ≤ next := hle
      have h : next ≤ next' := h
      have hnext : 0 < next := hcurrent.trans_le hle
      rw [outputOfMove_up hle, outputOfMove_up (hle.trans h),
        Nat.le_div_iff_mul_le (Nat.mul_pos hcurrent (hnext.trans_le h)),
        ← Nat.mul_assoc (2 ^ 96), ← Nat.mul_assoc (2 ^ 96)]
      generalize 2 ^ 96 * liquidity = a
      have hfree := Nat.div_mul_le_self (a * (next - current)) (current * next)
      generalize a * (next - current) / (current * next) = k at hfree ⊢
      -- the price per unit of the first part bounds the one of the rest
      have hrate : k * current ≤ a := by
        have hscaled : k * current * next ≤ a * next :=
          calc
            k * current * next = k * (current * next) := Nat.mul_assoc _ _ _
            _ ≤ a * (next - current) := hfree
            _ ≤ a * next := Nat.mul_le_mul_left _ (Nat.sub_le _ _)
        exact Nat.le_of_mul_le_mul_right hscaled hnext
      calc
        k * (current * next') = k * (current * next) + k * current * (next' - next) := by
          rw [← Nat.mul_assoc, ← Nat.mul_assoc, ← Nat.mul_add, Nat.add_sub_cancel' h]
        _ ≤ a * (next - current) + a * (next' - next) :=
          Nat.add_le_add hfree (Nat.mul_le_mul_right _ hrate)
        _ = a * (next' - current) := by
          rw [← Nat.mul_add]
          congr 1
          omega

end Moves

/-!
# Prices after larger amounts
-/

section Prices

variable {zeroForOne : Bool} {current liquidity amount amount' : Nat}

theorem fallback_le_direct {n : Nat} (hn : 0 < n) (hcurrent : 0 < current)
    (h : amount < amount') :
    divCeil n (n / current + amount') ≤ divCeil (n * current) (n + amount * current) := by
  rw [divCeil_le_iff (Nat.add_pos_right _ (Nat.zero_lt_of_lt h))]
  have hcover := le_divCeil_mul (a := n * current) (Nat.add_pos_left hn (amount * current))
  have hfloor := Nat.lt_div_mul_add (a := n) hcurrent
  have hden : n + amount * current ≤ (n / current + amount') * current := by
    have : (amount + 1) * current ≤ amount' * current := Nat.mul_le_mul_right _ h
    rw [Nat.add_mul] at this ⊢
    omega
  have hscaled : n * current ≤
      divCeil (n * current) (n + amount * current) * (n / current + amount') * current := by
    rw [Nat.mul_assoc]
    exact hcover.trans (Nat.mul_le_mul_left _ hden)
  exact Nat.le_of_mul_le_mul_right hscaled hcurrent

theorem priceOfInput_mono (hcurrent : 0 < current) (hl0 : 0 < liquidity)
    (hl : liquidity < 2 ^ 128) (h : amount ≤ amount') :
    Farther zeroForOne (priceOfInput zeroForOne current liquidity amount)
      (priceOfInput zeroForOne current liquidity amount') := by
  have hn : 0 < liquidity * 2 ^ 96 := Nat.mul_pos hl0 (Nat.two_pow_pos 96)
  have hq96lt : liquidity * 2 ^ 96 < 2 ^ 256 :=
    (mul_two_pow_lt hl (by norm_num) : liquidity * 2 ^ 96 < 2 ^ 224).trans (by norm_num)
  have hprod : amount * current ≤ amount' * current := Nat.mul_le_mul_right _ h
  cases zeroForOne with
  | true =>
      unfold Farther priceOfInput
      dsimp only
      rw [if_pos rfl, if_pos rfl, if_pos rfl]
      generalize liquidity * 2 ^ 96 = n at hn hq96lt ⊢
      generalize 2 ^ 256 = word at hq96lt ⊢
      by_cases hsmall : n + amount' * current < word
      · rw [if_pos hsmall, if_pos (Nat.lt_of_le_of_lt (Nat.add_le_add_left hprod n) hsmall)]
        exact divCeil_anti (Nat.add_pos_left hn _) (Nat.add_le_add_left hprod n)
      · rw [if_neg hsmall]
        by_cases hdirect : n + amount * current < word
        · rw [if_pos hdirect]
          refine fallback_le_direct hn hcurrent (lt_of_le_of_ne h fun heq => hsmall ?_)
          rw [← heq]
          exact hdirect
        · rw [if_neg hdirect]
          have hpos : 0 < amount := by
            refine Nat.pos_of_ne_zero fun hzero => hdirect ?_
            rw [hzero, Nat.zero_mul, Nat.add_zero]
            exact hq96lt
          exact divCeil_anti (Nat.add_pos_right _ hpos) (Nat.add_le_add_left h _)
  | false =>
      unfold Farther priceOfInput
      dsimp only
      rw [if_neg Bool.false_ne_true, if_neg Bool.false_ne_true, if_neg Bool.false_ne_true]
      exact Nat.add_le_add_left (Nat.div_le_div_right (Nat.mul_le_mul_right _ h)) _

theorem priceOfOutput_mono (h : amount ≤ amount')
    (hroom : zeroForOne = false -> amount' * current < liquidity * 2 ^ 96) :
    Farther zeroForOne (priceOfOutput zeroForOne current liquidity amount)
      (priceOfOutput zeroForOne current liquidity amount') := by
  unfold Farther priceOfOutput
  dsimp only
  cases zeroForOne with
  | true =>
      rw [if_pos rfl, if_pos rfl, if_pos rfl]
      exact Nat.sub_le_sub_left (divCeil_mono (Nat.mul_le_mul_right _ h)) _
  | false =>
      have hprod : amount * current ≤ amount' * current := Nat.mul_le_mul_right _ h
      have hroom := hroom rfl
      rw [if_neg Bool.false_ne_true, if_neg Bool.false_ne_true, if_neg Bool.false_ne_true]
      exact divCeil_anti (Nat.sub_pos_of_lt hroom) (Nat.sub_le_sub_left hprod _)

theorem output_room {target : Nat} (hcurrent : 0 < current) (hl0 : 0 < liquidity)
    (hlt : current < target) (h : amount < outputOfMove liquidity current target) :
    amount * current < liquidity * 2 ^ 96 := by
  have hn : 0 < liquidity * 2 ^ 96 := Nat.mul_pos hl0 (Nat.two_pow_pos 96)
  have htarget : 0 < target := Nat.zero_lt_of_lt hlt
  rw [outputOfMove_up (le_of_lt hlt)] at h
  have hfree := (Nat.le_div_iff_mul_le (Nat.mul_pos hcurrent htarget)).mp (le_of_lt h)
  rw [← Nat.mul_assoc (2 ^ 96), Nat.mul_comm (2 ^ 96), ← Nat.mul_assoc] at hfree
  have hless : liquidity * 2 ^ 96 * (target - current) < liquidity * 2 ^ 96 * target :=
    Nat.mul_lt_mul_of_pos_left (Nat.sub_lt htarget hcurrent) hn
  exact Nat.lt_of_mul_lt_mul_right (hfree.trans_lt hless)

end Prices

/-!
# Steps with more left
-/

/-- A step that uses no more, frees no more and ends no further away. -/
structure StepLe (zeroForOne : Bool) (s s' : SwapStep) : Prop where
  input : s.amountIn + s.feeAmount ≤ s'.amountIn + s'.feeAmount
  output : s.amountOut ≤ s'.amountOut
  price : Farther zeroForOne s.sqrtRatioNextX96 s'.sqrtRatioNextX96

section Steps

variable {current target liquidity : Nat} {remaining remaining' : Int} {fee : Fee}
  {s s' : SwapStep}

theorem StepSound.between (h : StepSound current target liquidity s) :
    Farther (decide (current ≥ target)) current s.sqrtRatioNextX96 ∧
      Farther (decide (current ≥ target)) s.sqrtRatioNextX96 target := by
  by_cases hdir : target ≤ current
  · have hdown := h.down hdir
    rw [decide_eq_true hdir]
    exact ⟨hdown.le_current, hdown.target_le⟩
  · have hup := h.up (le_of_lt (not_le.mp hdir))
    rw [decide_eq_false hdir]
    exact ⟨hup.current_le, hup.le_target⟩

theorem Covers.mono (hsign : remaining < 0 ↔ remaining' < 0)
    (hle : remaining.natAbs ≤ remaining'.natAbs)
    (h : Covers current target liquidity remaining fee) :
    Covers current target liquidity remaining' fee := by
  unfold Covers at h ⊢
  by_cases hneg : remaining < 0
  · rw [if_pos hneg] at h
    rw [if_pos (hsign.mp hneg)]
    exact h.trans (Fee.net_mono hle)
  · rw [if_neg hneg] at h
    rw [if_neg (fun h' => hneg (hsign.mpr h'))]
    exact h.trans hle

theorem amount_le_full {amount amount' used : Nat} (hfee : fee.isValid = true)
    (hshort : ¬ used ≤ fee.net amount) (hfull : used ≤ fee.net amount') :
    amount ≤ used + fee.onTop used := by
  have hmax : fee.isMax = false := by
    by_contra hmax
    have hpips : fee.pips = maxFee := by simpa [Fee.isMax] using hmax
    unfold Fee.net at hshort hfull
    rw [Fee.complement_eq hfee, hpips, Nat.sub_self, Nat.mul_zero, Nat.zero_div] at hshort hfull
    exact hshort hfull
  rw [Fee.le_net_iff hfee hmax] at hshort
  exact le_of_lt (not_le.mp hshort)

theorem computeSwapStep_mono (hcurrent : IsValidSqrtPrice current)
    (htarget : IsValidSqrtPrice target) (hl0 : 0 < liquidity) (hl : liquidity < 2 ^ 128)
    (hfee : fee.isValid = true) (hne : remaining ≠ 0) (hfits : FitsSigned 256 remaining)
    (hne' : remaining' ≠ 0) (hfits' : FitsSigned 256 remaining')
    (hsign : remaining < 0 ↔ remaining' < 0) (hle : remaining.natAbs ≤ remaining'.natAbs)
    (h : computeSwapStep current target liquidity remaining fee = .ok s)
    (h' : computeSwapStep current target liquidity remaining' fee = .ok s') :
    (Covers current target liquidity remaining fee -> s' = s) ∧
      StepLe (decide (current ≥ target)) s s' := by
  have hbetween :=
    (computeSwapStep_sound hcurrent htarget hl0 hl hfee hne hfits h).1.between
  have hvalid := (computeSwapStep_sound hcurrent htarget hl0 hl hfee hne hfits h).1.valid
  have hvalid' := (computeSwapStep_sound hcurrent htarget hl0 hl hfee hne' hfits' h').1.valid
  have hs := computeSwapStep_eq hcurrent htarget hl0 hl hfee hne hfits h
  have hs' := computeSwapStep_eq hcurrent htarget hl0 hl hfee hne' hfits' h'
  unfold plainStep at hs hs'
  by_cases hcovers : Covers current target liquidity remaining fee
  · rw [if_pos hcovers] at hs
    rw [if_pos (hcovers.mono hsign hle)] at hs'
    have heq : s' = s := hs'.trans hs.symm
    rw [heq]
    exact ⟨fun _ => rfl, le_refl _, le_refl _, Farther.refl _ _⟩
  refine ⟨fun hfull => absurd hfull hcovers, ?_⟩
  rw [if_neg hcovers] at hs
  by_cases hcovers' : Covers current target liquidity remaining' fee
  · -- the larger amount pays for the whole way
    rw [if_pos hcovers'] at hs'
    unfold Covers at hcovers hcovers'
    by_cases hneg : remaining < 0
    · rw [if_pos hneg] at hs hcovers
      rw [if_pos (hsign.mp hneg)] at hcovers'
      have hgross := amount_le_full hfee hcovers hcovers'
      have hnet := Fee.net_le hfee remaining.natAbs
      refine ⟨?_, ?_, ?_⟩
      · rw [hs, hs']
        unfold inputStep fullStep
        dsimp only
        omega
      · have hout := outputOfMove_mono liquidity hcurrent.pos hbetween.1 hbetween.2
        rw [hs']
        rw [hs] at hout ⊢
        exact hout
      · rw [hs']
        exact hbetween.2
    · rw [if_neg hneg] at hs hcovers
      rw [if_neg (fun h => hneg (hsign.mpr h))] at hcovers'
      have hin := inputOfMove_mono liquidity hcurrent.pos htarget.pos hbetween.1
        hbetween.2
      refine ⟨?_, ?_, ?_⟩
      · rw [hs']
        rw [hs] at hin ⊢
        exact Nat.add_le_add hin (Fee.onTop_mono hin)
      · rw [hs, hs']
        exact le_of_lt (not_le.mp hcovers)
      · rw [hs']
        exact hbetween.2
  · rw [if_neg hcovers'] at hs'
    unfold Covers at hcovers'
    by_cases hneg : remaining < 0
    · rw [if_pos hneg] at hs
      rw [if_pos (hsign.mp hneg)] at hs'
      have hfarther : Farther (decide (current ≥ target)) s.sqrtRatioNextX96
          s'.sqrtRatioNextX96 := by
        rw [hs, hs']
        exact priceOfInput_mono hcurrent.pos hl0 hl (Fee.net_mono hle)
      have hout := outputOfMove_mono liquidity hcurrent.pos hbetween.1 hfarther
      have hnet := Fee.net_le hfee remaining.natAbs
      have hnet' := Fee.net_le hfee remaining'.natAbs
      refine ⟨?_, ?_, hfarther⟩
      · rw [hs, hs']
        unfold inputStep
        dsimp only
        omega
      · rw [hs, hs'] at hout ⊢
        exact hout
    · have hneg' : ¬ remaining' < 0 := fun h => hneg (hsign.mpr h)
      rw [if_neg hneg] at hs
      rw [if_neg hneg'] at hs' hcovers'
      have hfarther : Farther (decide (current ≥ target)) s.sqrtRatioNextX96
          s'.sqrtRatioNextX96 := by
        rw [hs, hs']
        refine priceOfOutput_mono hle fun hup => ?_
        exact output_room hcurrent.pos hl0 (not_le.mp (of_decide_eq_false hup))
          (not_le.mp hcovers')
      have hin := inputOfMove_mono liquidity hcurrent.pos hvalid'.pos
        hbetween.1 hfarther
      refine ⟨?_, ?_, hfarther⟩
      · rw [hs, hs'] at hin ⊢
        exact Nat.add_le_add hin (Fee.onTop_mono hin)
      · rw [hs, hs']
        exact hle

end Steps

end RmUniswap
