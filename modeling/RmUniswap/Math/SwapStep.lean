import RmUniswap.Math.Swap

/-!
# Swap steps round in favour of the pool

The next price lies between the current price and the target, the input covers
the move and the output does not exceed it.
-/

namespace RmUniswap

open Foundation

/-- A move down: token0 covers it, token1 pays no more than it frees. -/
structure MovesDown (current target liquidity : Nat) (s : SwapStep) : Prop where
  target_le : target ≤ s.sqrtRatioNextX96
  le_current : s.sqrtRatioNextX96 ≤ current
  input : liquidity * 2 ^ 96 * (current - s.sqrtRatioNextX96) ≤
    s.amountIn * (s.sqrtRatioNextX96 * current)
  output : s.amountOut * 2 ^ 96 ≤ liquidity * (current - s.sqrtRatioNextX96)

/-- A move up: token1 covers it, token0 pays no more than it frees. -/
structure MovesUp (current target liquidity : Nat) (s : SwapStep) : Prop where
  current_le : current ≤ s.sqrtRatioNextX96
  le_target : s.sqrtRatioNextX96 ≤ target
  input : liquidity * (s.sqrtRatioNextX96 - current) ≤ s.amountIn * 2 ^ 96
  output : s.amountOut * (current * s.sqrtRatioNextX96) ≤
    liquidity * 2 ^ 96 * (s.sqrtRatioNextX96 - current)

/-!
# Next prices
-/

section NextPrices

variable {n p t a q : Nat}

theorem amount0_add_direct (hn : 0 < n)
    (hq : q = divCeil (n * p) (n + a * p)) :
    q ≤ p ∧ n * (p - q) ≤ a * (q * p) ∧ (a * (t * p) < n * (p - t) -> t < q) := by
  have hden : 0 < n + a * p := by omega
  have hle : q ≤ p := by
    rw [hq, divCeil_le_iff hden]
    nlinarith [Nat.zero_le (p * (a * p))]
  have hcover : n * p ≤ q * (n + a * p) := by
    rw [hq]
    exact le_divCeil_mul hden
  refine ⟨hle, ?_, ?_⟩
  · rw [Nat.mul_sub]
    have : q * (n + a * p) = n * q + a * (q * p) := by ring
    omega
  · intro ht
    rw [hq, lt_divCeil_iff hden]
    rw [Nat.mul_sub] at ht
    have : t * (n + a * p) = n * t + a * (t * p) := by ring
    omega

theorem amount0_add_fallback (hp : 0 < p) (ha : 0 < a)
    (hq : q = divCeil n (n / p + a)) :
    q ≤ p ∧ n * (p - q) ≤ a * (q * p) ∧ (a * (t * p) < n * (p - t) -> t < q) := by
  have hden : 0 < n / p + a := Nat.add_pos_right _ ha
  have hfloor : n / p * p ≤ n := Nat.div_mul_le_self n p
  have hle : q ≤ p := by
    rw [hq, divCeil_le_iff hden]
    have hlt := Nat.lt_div_mul_add (a := n) hp
    calc
      n ≤ n / p * p + p := le_of_lt hlt
      _ = p * (n / p + 1) := by ring
      _ ≤ p * (n / p + a) := Nat.mul_le_mul_left _ (by omega)
  have hcover : n ≤ q * (n / p + a) := by
    rw [hq]
    exact le_divCeil_mul hden
  refine ⟨hle, ?_, ?_⟩
  · have hscaled : n * p ≤ n * q + a * (q * p) := by
      calc
        n * p ≤ q * (n / p + a) * p := Nat.mul_le_mul_right _ hcover
        _ = q * (n / p * p) + a * (q * p) := by ring
        _ ≤ q * n + a * (q * p) := Nat.add_le_add_right (Nat.mul_le_mul_left _ hfloor) _
        _ = n * q + a * (q * p) := by ring
    rw [Nat.mul_sub]
    omega
  · intro ht
    rw [hq, lt_divCeil_iff hden]
    rw [Nat.mul_sub] at ht
    have hscaled : t * (n / p + a) * p < n * p := by
      calc
        t * (n / p + a) * p = t * (n / p * p) + a * (t * p) := by ring
        _ ≤ t * n + a * (t * p) := Nat.add_le_add_right (Nat.mul_le_mul_left _ hfloor) _
        _ = n * t + a * (t * p) := by ring
        _ < n * p := by omega
    exact Nat.lt_of_mul_lt_mul_right hscaled

theorem amount0_sub (hlt : a * p < n) (hq : q = divCeil (n * p) (n - a * p)) :
    p ≤ q ∧ a * (p * q) ≤ n * (q - p) ∧ (a * (p * t) ≤ n * (t - p) -> p ≤ t -> q ≤ t) := by
  have hden : 0 < n - a * p := by omega
  have hcover : n * p ≤ q * (n - a * p) := by
    rw [hq]
    exact le_divCeil_mul hden
  have hle : p ≤ q := by
    have : n * p ≤ q * n := hcover.trans (Nat.mul_le_mul_left _ (Nat.sub_le _ _))
    rw [Nat.mul_comm] at this
    exact Nat.le_of_mul_le_mul_right this (by omega)
  refine ⟨hle, ?_, ?_⟩
  · rw [Nat.mul_sub] at hcover ⊢
    have h1 : q * (a * p) = a * (p * q) := by ring
    have h2 : q * n = n * q := Nat.mul_comm _ _
    have h3 : q * (a * p) ≤ q * n := Nat.mul_le_mul_left _ (le_of_lt hlt)
    omega
  · intro ht hpt
    rw [hq, divCeil_le_iff hden, Nat.mul_sub]
    rw [Nat.mul_sub] at ht
    have h1 : t * (a * p) = a * (p * t) := by ring
    have h2 : t * n = n * t := Nat.mul_comm _ _
    have h3 : n * p ≤ n * t := Nat.mul_le_mul_left _ hpt
    omega

end NextPrices

/-!
# Fees
-/

theorem amountLessFeeExactIn_spec {amount net : Nat} {fee : Fee} (hfee : fee.isValid = true)
    (ha : amount < 2 ^ 256) (h : amountLessFeeExactIn amount fee = .ok net) :
    net ≤ amount ∧ net * maxFee ≤ amount * fee.complement := by
  have hcomp := Fee.complement_eq hfee
  have hpips : fee.pips ≤ maxFee := by simpa [Fee.isValid] using hfee
  unfold amountLessFeeExactIn at h
  split at h
  · rename_i hzero
    cases h
    have hzero : fee.pips = 0 := by simpa [Fee.isZero] using hzero
    rw [hcomp, hzero, Nat.sub_zero]
    exact ⟨le_refl _, le_refl _⟩
  · split at h
    · cases h
      rw [Nat.zero_mul]
      exact ⟨Nat.zero_le _, Nat.zero_le _⟩
    · have hlt : fee.complement < 2 ^ 32 := by
        rw [hcomp]
        exact Nat.lt_of_le_of_lt (Nat.sub_le _ _) (by decide)
      have hnet := ((mulDivU32Floor_eq_ok ha hlt (by decide) (by decide)).mp h).1
      have hle : net * maxFee ≤ amount * fee.complement := by
        rw [hnet]
        exact Nat.div_mul_le_self _ _
      refine ⟨?_, hle⟩
      have : net * maxFee ≤ amount * maxFee :=
        hle.trans (Nat.mul_le_mul_left _ (by rw [hcomp]; exact Nat.sub_le _ _))
      exact Nat.le_of_mul_le_mul_right this (by decide)

theorem feeOnExactInput_le {amount net used charged : Nat} {fee : Fee}
    (hfee : fee.isValid = true) (hamount : amount < 2 ^ 256)
    (hle : net ≤ amount) (hnet : net * maxFee ≤ amount * fee.complement) (hused : used ≤ net)
    (h : feeOnExactInput used fee = .ok charged) : used + charged ≤ amount := by
  have hcomp := Fee.complement_eq hfee
  have hpips : fee.pips ≤ maxFee := by simpa [Fee.isValid] using hfee
  unfold feeOnExactInput at h
  split at h
  · cases h
    omega
  · rename_i hnot
    split at h
    · rename_i hmax
      have hmax : fee.pips = maxFee := by simpa [Fee.isMax] using hmax
      rw [hcomp, hmax, Nat.sub_self, Nat.mul_zero] at hnet
      have : net = 0 := (Nat.mul_eq_zero.mp (Nat.le_zero.mp hnet)).resolve_right (by decide)
      exact absurd (Or.inl (by omega)) hnot
    · rename_i hmax
      have hmax : fee.pips ≠ maxFee := by simpa [Fee.isMax] using hmax
      have hpos : 0 < fee.complement := by omega
      have hlt : fee.complement < 2 ^ 32 := by
        rw [hcomp]
        exact Nat.lt_of_le_of_lt (Nat.sub_le _ _) (by decide)
      have hused256 : used < 2 ^ 256 := by omega
      have hcharged := ((mulDivU32Ceil_eq_ok hused256 fee.pips_lt hpos hlt).mp h).1
      have hbound : charged ≤ amount - used := by
        rw [hcharged, divCeil_le_iff hpos, Nat.sub_mul]
        have hsplit : used * maxFee = used * fee.pips + used * fee.complement := by
          rw [← Nat.mul_add, hcomp]
          congr 1
          omega
        have : used * maxFee ≤ net * maxFee := Nat.mul_le_mul_right _ hused
        omega
      omega

/-!
# Moves and sound steps
-/

section Steps

variable {current target liquidity amount : Nat} {fee : Fee} {s : SwapStep}

theorem MovesDown.up_of_eq (h : MovesDown current target liquidity s)
    (heq : current = target) : MovesUp current target liquidity s := by
  have hnext : s.sqrtRatioNextX96 = current := le_antisymm h.le_current (heq ▸ h.target_le)
  have hout := h.output
  rw [hnext, Nat.sub_self, Nat.mul_zero] at hout
  have hzero : s.amountOut = 0 :=
    (Nat.mul_eq_zero.mp (Nat.le_zero.mp hout)).resolve_right (by norm_num)
  exact
    { current_le := le_of_eq hnext.symm
      le_target := by rw [hnext, heq]
      input := by rw [hnext, Nat.sub_self, Nat.mul_zero]; exact Nat.zero_le _
      output := by rw [hzero, Nat.zero_mul]; exact Nat.zero_le _ }

structure StepSound (current target liquidity : Nat) (s : SwapStep) : Prop where
  valid : IsValidSqrtPrice s.sqrtRatioNextX96
  down : target ≤ current -> MovesDown current target liquidity s
  up : current ≤ target -> MovesUp current target liquidity s

theorem StepSound.of_down (hvalid : IsValidSqrtPrice s.sqrtRatioNextX96)
    (hle : target ≤ current) (h : MovesDown current target liquidity s) :
    StepSound current target liquidity s where
  valid := hvalid
  down := fun _ => h
  up := fun hge => h.up_of_eq (le_antisymm hge hle)

theorem StepSound.of_up (hvalid : IsValidSqrtPrice s.sqrtRatioNextX96)
    (hlt : current < target) (h : MovesUp current target liquidity s) :
    StepSound current target liquidity s where
  valid := hvalid
  down := fun hle => absurd hle (not_le.mpr hlt)
  up := fun _ => h

/-!
# The amounts of a move
-/

section Moves

variable {next fee : Nat}

theorem moves_down (hcurrent : 0 < current) (hnext : 0 < next) (hle : target ≤ next)
    (hge : next ≤ current) {amountIn amountOut : Nat}
    (hin : divCeil (2 ^ 96 * (liquidity * (current - next))) (next * current) ≤ amountIn ∨
      liquidity * 2 ^ 96 * (current - next) ≤ amountIn * (next * current))
    (hout : amountOut ≤ liquidity * (current - next) / 2 ^ 96 ∨
      amountOut * 2 ^ 96 ≤ liquidity * (current - next)) :
    MovesDown current target liquidity ⟨next, amountIn, amountOut, fee⟩ where
  target_le := hle
  le_current := hge
  input := by
    have hpos : 0 < next * current := Nat.mul_pos hnext hcurrent
    rcases hin with hin | hin
    · have := (divCeil_le_iff hpos).mp hin
      rwa [← Nat.mul_assoc (2 ^ 96), Nat.mul_comm (2 ^ 96)] at this
    · exact hin
  output := by
    rcases hout with hout | hout
    · exact (Nat.le_div_iff_mul_le (Nat.two_pow_pos 96)).mp hout
    · exact hout

theorem moves_up (hcurrent : 0 < current) (hnext : 0 < next) (hle : current ≤ next)
    (hge : next ≤ target) {amountIn amountOut : Nat}
    (hin : divCeil (liquidity * (next - current)) (2 ^ 96) ≤ amountIn ∨
      liquidity * (next - current) ≤ amountIn * 2 ^ 96)
    (hout : amountOut ≤ 2 ^ 96 * (liquidity * (next - current)) / (current * next) ∨
      amountOut * (current * next) ≤ liquidity * 2 ^ 96 * (next - current)) :
    MovesUp current target liquidity ⟨next, amountIn, amountOut, fee⟩ where
  current_le := hle
  le_target := hge
  input := by
    rcases hin with hin | hin
    · exact (divCeil_le_iff (Nat.two_pow_pos 96)).mp hin
    · exact hin
  output := by
    have hpos : 0 < current * next := Nat.mul_pos hcurrent hnext
    rcases hout with hout | hout
    · have := (Nat.le_div_iff_mul_le hpos).mp hout
      rwa [← Nat.mul_assoc (2 ^ 96), Nat.mul_comm (2 ^ 96)] at this
    · exact hout

end Moves

/-!
# Exact input
-/

section ExactIn

variable {net next : Nat}

theorem inputDown (hcurrent : IsValidSqrtPrice current) (htarget : IsValidSqrtPrice target)
    (hl0 : 0 < liquidity) (hl : liquidity < 2 ^ 128) (hnet : 0 < net)
    (hshort : net < divCeil (2 ^ 96 * (liquidity * (current - target))) (target * current))
    (h : getNextSqrtPriceFromInput current liquidity net true = .ok next) :
    IsValidSqrtPrice next ∧ target ≤ next ∧ next ≤ current ∧
      liquidity * 2 ^ 96 * (current - next) ≤ net * (next * current) := by
  have hpos : 0 < target * current := Nat.mul_pos htarget.pos hcurrent.pos
  have hn : 0 < liquidity * 2 ^ 96 := Nat.mul_pos hl0 (Nat.two_pow_pos 96)
  have hlt : net * (target * current) < liquidity * 2 ^ 96 * (current - target) := by
    have := (lt_divCeil_iff hpos).mp hshort
    rwa [← Nat.mul_assoc (2 ^ 96), Nat.mul_comm (2 ^ 96)] at this
  rcases (amount0Add_eq_ok hl hcurrent.lt_two_pow).mp h with ⟨hvalid, hcase⟩
  split at hcase
  · have hprice := amount0_add_direct (t := target) hn hcase
    exact ⟨hvalid, le_of_lt (hprice.2.2 hlt), hprice.1, hprice.2.1⟩
  · have hprice := amount0_add_fallback (t := target) hcurrent.pos hnet hcase.2
    exact ⟨hvalid, le_of_lt (hprice.2.2 hlt), hprice.1, hprice.2.1⟩

theorem inputUp (hl0 : 0 < liquidity) (hnet : net < 2 ^ 256)
    (hshort : net < divCeil (liquidity * (target - current)) (2 ^ 96))
    (h : getNextSqrtPriceFromInput current liquidity net false = .ok next) :
    IsValidSqrtPrice next ∧ current ≤ next ∧ next ≤ target ∧
      liquidity * (next - current) ≤ net * 2 ^ 96 := by
  rcases (amount1Add_eq_ok hnet).mp h with ⟨hvalid, hprice⟩
  have hdiff : next - current = net * 2 ^ 96 / liquidity := by
    rw [hprice, Nat.add_sub_cancel_left]
  have hmove : net * 2 ^ 96 / liquidity < target - current := by
    rw [Nat.div_lt_iff_lt_mul hl0, Nat.mul_comm (target - current)]
    exact (lt_divCeil_iff (Nat.two_pow_pos 96)).mp hshort
  refine ⟨hvalid, ?_, ?_, ?_⟩
  · rw [hprice]
    exact Nat.le_add_right _ _
  · rw [hprice]
    omega
  · rw [hdiff, Nat.mul_comm liquidity]
    exact Nat.div_mul_le_self _ _

theorem computeExactIn_sound (hcurrent : IsValidSqrtPrice current)
    (htarget : IsValidSqrtPrice target) (hl0 : 0 < liquidity) (hl : liquidity < 2 ^ 128)
    (hfee : fee.isValid = true) (ha : amount < 2 ^ 256)
    (h : computeExactIn current target liquidity amount fee (decide (current ≥ target)) = .ok s) :
    StepSound current target liquidity s ∧ s.amountIn + s.feeAmount ≤ amount ∧
      (s.sqrtRatioNextX96 = target ∨ s.amountIn + s.feeAmount = amount) := by
  unfold computeExactIn at h
  rcases bind_eq_ok.mp h with ⟨net, hnet, hrest⟩
  have hspec := amountLessFeeExactIn_spec hfee ha hnet
  have hgross : net + wrappingSub 256 amount net = amount := by
    rw [wrappingSub_of_le hspec.1 ha]
    exact Nat.add_sub_cancel' hspec.1
  split at hrest
  · cases hrest
    refine ⟨⟨hcurrent, fun hle => ?_, fun hle => ?_⟩, ?_, ?_⟩
    · exact moves_down hcurrent.pos hcurrent.pos hle (le_refl _) (Or.inr (by simp))
        (Or.inr (by simp))
    · exact moves_up hcurrent.pos hcurrent.pos (le_refl _) hle (Or.inr (by simp))
        (Or.inr (by simp))
    · simp only
      split <;> omega
    · simp only
      split
      · rename_i heq
        exact Or.inl heq
      · exact Or.inr (Nat.zero_add _)
  · rename_i hnet0
    by_cases hdir : target ≤ current
    · rw [decide_eq_true hdir, if_pos rfl, getAmount0Delta_eq hl htarget hcurrent hdir,
        roundDiv_true, ok_bind] at hrest
      simp only [if_true, ok_bind, getAmount1DeltaWithLiquidityDelta_eq, roundDiv_false] at hrest
      split at hrest
      · rename_i hreach
        rcases bind_eq_ok.mp hrest with ⟨charged, hcharged, hok⟩
        cases hok
        exact ⟨StepSound.of_down htarget hdir (moves_down hcurrent.pos htarget.pos (le_refl _)
          hdir (Or.inl (le_refl _)) (Or.inl (le_refl _))),
          feeOnExactInput_le hfee ha hspec.1 hspec.2 hreach hcharged, Or.inl rfl⟩
      · rename_i hreach
        rcases bind_eq_ok.mp hrest with ⟨next, hnext, hrest⟩
        rcases inputDown hcurrent htarget hl0 hl (Nat.pos_of_ne_zero hnet0) (not_le.mp hreach)
          hnext with ⟨hvalid, hle, hge, hin⟩
        rw [getAmount1Delta_eq hl hcurrent hge, roundDiv_false, ok_bind] at hrest
        cases hrest
        exact ⟨StepSound.of_down hvalid hdir (moves_down hcurrent.pos hvalid.pos hle hge
          (Or.inr hin) (Or.inl (le_refl _))), le_of_eq hgross, Or.inr hgross⟩
    · have hlt : current < target := not_le.mp hdir
      rw [decide_eq_false hdir, if_neg Bool.false_ne_true,
        getAmount1Delta_eq hl htarget (le_of_lt hlt), roundDiv_true, ok_bind] at hrest
      simp only [Bool.false_eq_true, if_false,
        getAmount0DeltaWithLiquidityDelta_eq hl hcurrent htarget, roundDiv_false, ok_bind]
        at hrest
      split at hrest
      · rename_i hreach
        rcases bind_eq_ok.mp hrest with ⟨charged, hcharged, hok⟩
        cases hok
        exact ⟨StepSound.of_up htarget hlt (moves_up hcurrent.pos htarget.pos (le_of_lt hlt)
          (le_refl _) (Or.inl (le_refl _)) (Or.inl (le_refl _))),
          feeOnExactInput_le hfee ha hspec.1 hspec.2 hreach hcharged, Or.inl rfl⟩
      · rename_i hreach
        rcases bind_eq_ok.mp hrest with ⟨next, hnext, hrest⟩
        rcases inputUp hl0 (Nat.lt_of_le_of_lt hspec.1 ha) (not_le.mp hreach) hnext with
          ⟨hvalid, hle, hge, hin⟩
        rw [getAmount0Delta_eq hl hcurrent hvalid hle, roundDiv_false, ok_bind] at hrest
        cases hrest
        exact ⟨StepSound.of_up hvalid hlt (moves_up hcurrent.pos hvalid.pos hle hge (Or.inr hin)
          (Or.inl (le_refl _))), le_of_eq hgross, Or.inr hgross⟩

end ExactIn

/-!
# Exact output
-/

section ExactOut

variable {next : Nat}

theorem outputDown (hcurrent : IsValidSqrtPrice current) (hl0 : 0 < liquidity)
    (ha : amount < 2 ^ 256)
    (hshort : amount < liquidity * (current - target) / 2 ^ 96)
    (h : getNextSqrtPriceFromOutput current liquidity amount true = .ok next) :
    IsValidSqrtPrice next ∧ target ≤ next ∧ next ≤ current ∧
      amount * 2 ^ 96 ≤ liquidity * (current - next) := by
  rcases (amount1Sub_eq_ok hcurrent.lt_two_pow ha).mp h with ⟨hvalid, hprice⟩
  have hdiff : current - next = divCeil (amount * 2 ^ 96) liquidity := by omega
  have hmove : divCeil (amount * 2 ^ 96) liquidity ≤ current - target := by
    rw [divCeil_le_iff hl0, Nat.mul_comm (current - target)]
    exact (Nat.le_div_iff_mul_le (Nat.two_pow_pos 96)).mp (le_of_lt hshort)
  refine ⟨hvalid, ?_, by omega, ?_⟩
  · have hlt : 0 < current - target := by
      rcases Nat.eq_zero_or_pos (current - target) with hzero | hpos
      · rw [hzero, Nat.mul_zero, Nat.zero_div] at hshort
        exact absurd hshort (Nat.not_lt_zero _)
      · exact hpos
    omega
  · rw [hdiff, Nat.mul_comm liquidity]
    exact le_divCeil_mul hl0

theorem outputUp (hcurrent : IsValidSqrtPrice current) (htarget : IsValidSqrtPrice target)
    (hl : liquidity < 2 ^ 128) (hlt : current < target)
    (hshort : amount < 2 ^ 96 * (liquidity * (target - current)) / (current * target))
    (h : getNextSqrtPriceFromOutput current liquidity amount false = .ok next) :
    IsValidSqrtPrice next ∧ current ≤ next ∧ next ≤ target ∧
      amount * (current * next) ≤ liquidity * 2 ^ 96 * (next - current) := by
  have hpos : 0 < current * target := Nat.mul_pos hcurrent.pos htarget.pos
  rcases (amount0Sub_eq_ok hl hcurrent.lt_two_pow).mp h with ⟨hvalid, hsmall, hprice⟩
  have hfree : amount * (current * target) ≤ liquidity * 2 ^ 96 * (target - current) := by
    have := (Nat.le_div_iff_mul_le hpos).mp (le_of_lt hshort)
    rwa [← Nat.mul_assoc (2 ^ 96), Nat.mul_comm (2 ^ 96)] at this
  have hmove := amount0_sub (t := target) hsmall hprice
  exact ⟨hvalid, hmove.1, hmove.2.2 hfree (le_of_lt hlt), hmove.2.1⟩

theorem computeExactOut_sound (hcurrent : IsValidSqrtPrice current)
    (htarget : IsValidSqrtPrice target) (hl0 : 0 < liquidity) (hl : liquidity < 2 ^ 128)
    (ha : amount < 2 ^ 256)
    (h : computeExactOut current target liquidity amount fee (decide (current ≥ target)) = .ok s) :
    StepSound current target liquidity s ∧ s.amountOut ≤ amount ∧
      (s.sqrtRatioNextX96 = target ∨ s.amountOut = amount) := by
  unfold computeExactOut at h
  by_cases hdir : target ≤ current
  · rw [decide_eq_true hdir, if_pos rfl, getAmount1Delta_eq hl hcurrent hdir, roundDiv_false,
      ok_bind] at h
    simp only [if_true, getAmount0DeltaWithLiquidityDelta_eq hl htarget hcurrent, roundDiv_true,
      ok_bind] at h
    split at h
    · rename_i hreach
      rcases bind_eq_ok.mp h with ⟨charged, hcharged, hok⟩
      cases hok
      exact ⟨StepSound.of_down htarget hdir (moves_down hcurrent.pos htarget.pos (le_refl _) hdir
        (Or.inl (le_refl _)) (Or.inl (le_refl _))), hreach, Or.inl rfl⟩
    · rename_i hreach
      rcases bind_eq_ok.mp h with ⟨next, hnext, hrest⟩
      rcases outputDown hcurrent hl0 ha (not_le.mp hreach) hnext with ⟨hvalid, hle, hge, hout⟩
      rw [getAmount0Delta_eq hl hvalid hcurrent hge, roundDiv_true, ok_bind] at hrest
      rcases bind_eq_ok.mp hrest with ⟨charged, hcharged, hok⟩
      cases hok
      exact ⟨StepSound.of_down hvalid hdir (moves_down hcurrent.pos hvalid.pos hle hge
        (Or.inl (le_refl _)) (Or.inr hout)), le_refl _, Or.inr rfl⟩
  · have hlt : current < target := not_le.mp hdir
    rw [decide_eq_false hdir, if_neg Bool.false_ne_true,
      getAmount0Delta_eq hl hcurrent htarget (le_of_lt hlt), roundDiv_false, ok_bind] at h
    simp only [Bool.false_eq_true, if_false, ok_bind, getAmount1DeltaWithLiquidityDelta_eq,
      roundDiv_true] at h
    split at h
    · rename_i hreach
      rcases bind_eq_ok.mp h with ⟨charged, hcharged, hok⟩
      cases hok
      exact ⟨StepSound.of_up htarget hlt (moves_up hcurrent.pos htarget.pos (le_of_lt hlt)
        (le_refl _) (Or.inl (le_refl _)) (Or.inl (le_refl _))), hreach, Or.inl rfl⟩
    · rename_i hreach
      rcases bind_eq_ok.mp h with ⟨next, hnext, hrest⟩
      rcases outputUp hcurrent htarget hl hlt (not_le.mp hreach) hnext with
        ⟨hvalid, hle, hge, hout⟩
      rw [getAmount1Delta_eq hl hvalid hle, roundDiv_true, ok_bind] at hrest
      rcases bind_eq_ok.mp hrest with ⟨charged, hcharged, hok⟩
      cases hok
      exact ⟨StepSound.of_up hvalid hlt (moves_up hcurrent.pos hvalid.pos hle hge
        (Or.inl (le_refl _)) (Or.inr hout)), le_refl _, Or.inr rfl⟩

end ExactOut

/-!
# The step
-/

structure StepFills (target : Nat) (amount : Int) (s : SwapStep) : Prop where
  input : amount < 0 -> s.amountIn + s.feeAmount ≤ amount.natAbs ∧
    (s.sqrtRatioNextX96 = target ∨ s.amountIn + s.feeAmount = amount.natAbs)
  output : 0 < amount -> s.amountOut ≤ amount.natAbs ∧
    (s.sqrtRatioNextX96 = target ∨ s.amountOut = amount.natAbs)

theorem computeSwapStep_sound {remaining : Int} (hcurrent : IsValidSqrtPrice current)
    (htarget : IsValidSqrtPrice target) (hl0 : 0 < liquidity) (hl : liquidity < 2 ^ 128)
    (hfee : fee.isValid = true) (hne : remaining ≠ 0) (hfits : FitsSigned 256 remaining)
    (h : computeSwapStep current target liquidity remaining fee = .ok s) :
    StepSound current target liquidity s ∧ StepFills target remaining s := by
  have ha : remaining.natAbs < 2 ^ 256 := by
    have hlo := hfits.1
    have hhi := hfits.2
    norm_num at hlo hhi ⊢
    omega
  unfold computeSwapStep at h
  rw [if_neg hne] at h
  simp only at h
  by_cases hneg : remaining < 0
  · simp only [hneg, decide_true, Bool.not_true, Bool.false_and, Bool.false_eq_true,
      if_false, if_true] at h
    have hspec := computeExactIn_sound hcurrent htarget hl0 hl hfee ha h
    exact ⟨hspec.1, fun _ => hspec.2, fun hpos => absurd hpos (by omega)⟩
  · simp only [hneg, decide_false, Bool.not_false, Bool.true_and, Bool.false_eq_true,
      if_false] at h
    split at h
    · cases h
    · have hspec := computeExactOut_sound hcurrent htarget hl0 hl ha h
      exact ⟨hspec.1, fun hlt => absurd hlt hneg, fun _ => hspec.2⟩

end Steps

end RmUniswap
