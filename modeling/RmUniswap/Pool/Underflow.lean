import RmUniswap.Math.SwapTotal
import RmUniswap.Pool.Backed

/-!
# Underflow at a crossing

Only a crossing can report that the active liquidity underflows. In a sound pool
it does so only at a tick whose net liquidity at or below leaves the range of
liquidity.
-/

namespace RmUniswap

open Foundation

variable {A : Type} [LawfulAllocator TickSlabValue A]

/-!
# Errors of an iteration
-/

section Errors

variable {e : Error}

theorem calculateSwapFee_eq_error {protocolFee : ProtocolFee} {zeroForOne : Bool} {lpFee : Fee}
    (h : protocolFee.calculateSwapFee zeroForOne lpFee = .error e) :
    e = .invalidLpFee ∨ e = .feeTooLarge := by
  unfold ProtocolFee.calculateSwapFee at h
  split at h
  · cases h
    exact Or.inl rfl
  · dsimp only at h
    split at h
    · cases h
    · exact Or.inr (okOr_eq_error.mp h).2

theorem setLpFee_eq_error {swapFee : SwapFee} {lpFee : Fee}
    (h : swapFee.setLpFee lpFee = .error e) : e = .invalidLpFee ∨ e = .feeTooLarge := by
  unfold SwapFee.setLpFee at h
  split at h
  · cases h
  · rcases bind_eq_error.mp h with h | ⟨_, _, h⟩
    · unfold calculateEffectiveFee at h
      rcases bind_eq_error.mp h with h | ⟨_, _, h⟩
      · exact calculateSwapFee_eq_error h
      · rcases bind_eq_error.mp h with h | ⟨_, _, h⟩
        · exact calculateSwapFee_eq_error h
        · cases h
    · cases h

theorem checkLimit_eq_error {zeroForOne : Bool} {price limit : Nat}
    (h : checkLimit zeroForOne price limit = .error e) :
    e = .invalidPoolSqrtPrice ∨ e = .priceLimitAlreadyExceeded := by
  unfold checkLimit at h
  split at h
  · cases h
    exact Or.inl rfl
  · split at h
    · split at h <;> cases h
      exact Or.inr rfl
    · split at h <;> cases h
      exact Or.inr rfl

theorem u256ToI256_eq_error {value : Nat} (h : u256ToI256 value = .error e) :
    e = .signedOverflow := by
  unfold u256ToI256 at h
  split at h
  · cases h
  · cases h
    rfl

theorem settleAmounts_eq_error {amountSpecified remaining calculated : Int} {step : SwapStep}
    (h : settleAmounts amountSpecified remaining calculated step = .error e) :
    e = .signedOverflow ∨ e = .amountOverflow := by
  unfold settleAmounts at h
  split at h
  · rcases bind_eq_error.mp h with h | ⟨_, _, h⟩
    · exact Or.inl (u256ToI256_eq_error h)
    · rcases bind_eq_error.mp h with h | ⟨_, _, h⟩
      · exact Or.inr (okOr_eq_error.mp h).2
      · rcases bind_eq_error.mp h with h | ⟨_, _, h⟩
        · exact Or.inr (okOr_eq_error.mp h).2
        · rcases bind_eq_error.mp h with h | ⟨_, _, h⟩
          · exact Or.inl (u256ToI256_eq_error h)
          · rcases bind_eq_error.mp h with h | ⟨_, _, h⟩
            · exact Or.inr (okOr_eq_error.mp h).2
            · cases h
  · rcases bind_eq_error.mp h with h | ⟨_, _, h⟩
    · exact Or.inr (okOr_eq_error.mp h).2
    · rcases bind_eq_error.mp h with h | ⟨_, _, h⟩
      · exact Or.inl (u256ToI256_eq_error h)
      · rcases bind_eq_error.mp h with h | ⟨_, _, h⟩
        · exact Or.inr (okOr_eq_error.mp h).2
        · rcases bind_eq_error.mp h with h | ⟨_, _, h⟩
          · exact Or.inl (u256ToI256_eq_error h)
          · rcases bind_eq_error.mp h with h | ⟨_, _, h⟩
            · exact Or.inr (okOr_eq_error.mp h).2
            · cases h

theorem splitFee_eq_error {fee : Fee} {pips amountToProtocol : Nat} {step : SwapStep}
    (h : splitFee fee pips amountToProtocol step = .error e) : e = .amountOverflow := by
  unfold splitFee at h
  split at h
  · rcases bind_eq_error.mp h with h | ⟨_, _, h⟩
    · unfold protocolDelta at h
      split at h
      · cases h
      · rcases bind_eq_error.mp h with h | ⟨_, _, h⟩
        · exact (okOr_eq_error.mp h).2
        · rcases bind_eq_error.mp h with h | ⟨_, _, h⟩
          · exact (okOr_eq_error.mp h).2
          · cases h
    · rcases bind_eq_error.mp h with h | ⟨_, _, h⟩
      · exact (okOr_eq_error.mp h).2
      · rcases bind_eq_error.mp h with h | ⟨_, _, h⟩
        · exact (okOr_eq_error.mp h).2
        · cases h
  · cases h

theorem growFee_eq_error {growth feeAmount liquidity : Nat}
    (h : growFee growth feeAmount liquidity = .error e) : e = .feeTooLarge := by
  unfold growFee at h
  split at h
  · split at h
    · exact (okOr_eq_error.mp h).2
    · cases h
      rfl
  · cases h

theorem computeSwapStep_eq_error {current target liquidity : Nat} {remaining : Int} {fee : Fee}
    (hcurrent : IsValidSqrtPrice current) (htarget : IsValidSqrtPrice target)
    (hl0 : 0 < liquidity) (hl : liquidity < 2 ^ 128) (hfee : fee.isValid = true)
    (hfits : FitsSigned 256 remaining)
    (h : computeSwapStep current target liquidity remaining fee = .error e) :
    0 < remaining ∧ fee.isMax = true ∧ e = .maxFeeExactOut := by
  by_cases hmax : 0 < remaining -> fee.isMax = false
  · rcases computeSwapStep_total hcurrent htarget hl0 hl hfee hmax hfits with ⟨s, hs⟩
    rw [hs] at h
    cases h
  · push Not at hmax
    have hfull : fee.isMax = true := by simpa using hmax.2
    have hneg : ¬ remaining < 0 := not_lt.mpr (le_of_lt hmax.1)
    unfold computeSwapStep at h
    rw [if_neg (ne_of_gt hmax.1)] at h
    dsimp only at h
    rw [hfull, decide_eq_false hneg, if_pos (by rfl)] at h
    cases h
    exact ⟨hmax.1, hfull, rfl⟩

theorem swapDelta_eq_error {ctx : SwapContext} {s : SwapLoopState}
    (h : ctx.swapDelta s = .error e) : e = .i128Overflow := by
  have hspecified (h : (do
      let settled <- okOr .i128Overflow
        (checkedSigned 256 (ctx.amountSpecified - s.amountSpecifiedRemaining))
      okOr .i128Overflow (checkedSigned 128 settled) : Except Error Int) = .error e) :
      e = .i128Overflow := by
    rcases bind_eq_error.mp h with h | ⟨_, _, h⟩
    · exact (okOr_eq_error.mp h).2
    · exact (okOr_eq_error.mp h).2
  unfold SwapContext.swapDelta at h
  dsimp only at h
  split at h
  · rcases bind_eq_error.mp h with h | ⟨_, _, h⟩
    · exact hspecified h
    · rcases bind_eq_error.mp h with h | ⟨_, _, h⟩
      · exact (okOr_eq_error.mp h).2
      · cases h
  · rcases bind_eq_error.mp h with h | ⟨_, _, h⟩
    · exact (okOr_eq_error.mp h).2
    · rcases bind_eq_error.mp h with h | ⟨_, _, h⟩
      · exact hspecified h
      · cases h

end Errors

namespace SwapContext

theorem Ready.advance_error {ctx : SwapContext} {s : SwapLoopState} {ticks : TickSlab A}
    {target : StepTarget} {e : Error} (h : ctx.Ready s) (hrun : ¬ ctx.Halted s)
    (ht : target.Spec ctx.zeroForOne ticks s.tick) (he : ctx.advance target s = .error e) :
    e = .maxFeeExactOut ∨ e = .signedOverflow ∨ e = .amountOverflow ∨ e = .feeTooLarge := by
  have hl : 0 < s.liquidity := Nat.pos_of_ne_zero fun hz => hrun (Or.inr hz)
  unfold advance at he
  rcases bind_eq_error.mp he with he | ⟨_, _, he⟩
  · exact Or.inl (computeSwapStep_eq_error h.price (h.clampedTarget hrun ht).1 hl h.liquidity
      h.fee h.remaining he).2.2
  · rcases bind_eq_error.mp he with he | ⟨_, _, he⟩
    · rcases settleAmounts_eq_error he with he | he
      · exact Or.inr (Or.inl he)
      · exact Or.inr (Or.inr (Or.inl he))
    · rcases bind_eq_error.mp he with he | ⟨_, _, he⟩
      · exact Or.inr (Or.inr (Or.inl (splitFee_eq_error he)))
      · rcases bind_eq_error.mp he with he | ⟨_, _, he⟩
        · exact Or.inr (Or.inr (Or.inr (growFee_eq_error he)))
        · cases he

end SwapContext

/-!
# Swaps
-/

namespace Pool

variable {P : Type} {p q : Pool P A} {params : SwapParamsInner} {ctx : SwapContext}
  {cs : List StepComputations} {b : SwapLoopState × TickSlab A}

theorem netBelow_of_accounting {ticks ticks' : SortedMap Int TickInfoInner}
    (h : Positions.accounting ticks' = Positions.accounting ticks) (t : Int) :
    netBelow ticks' t = netBelow ticks t := by
  have hsum (m : SortedMap Int TickInfoInner) : netBelow m t =
      (Positions.accounting m).sum fun k e => if k ≤ t then e.2 else 0 := by
    unfold netBelow Positions.accounting SortedMap.sum SortedMap.mapValues
    rw [List.map_map]
    rfl
  rw [hsum, hsum, h]

/-- A swap that reports an underflow has met a tick up to which the net liquidity
is no liquidity. -/
theorem Sound.underflow (hp : p.Sound) {fuel : Nat}
    (h : p.swap params fuel = some (.error .liquidityUnderflow, q)) :
    exists t, ¬ (0 ≤ netBelow p.ticks.snapshot t ∧ netBelow p.ticks.snapshot t < 2 ^ 128) := by
  generalize hlist : p.swapComputations params fuel = list
  have hcases := swap_cases h
  rw [hlist] at hcases
  cases hcases with
  | rejected hrejected =>
      rcases hrejected with hfee | hlimit
      · unfold resolveSwapFee at hfee
        split at hfee
        · rcases setLpFee_eq_error hfee with he | he <;> cases he
        · cases hfee
      · rcases checkLimit_eq_error hlimit with he | he <;> cases he
  | unsettled hrun hhalt hdelta =>
      cases swapDelta_eq_error hdelta
  | @failed ctx cs last b e ticks hrun hend =>
      have hb := hrun.final hp.toUsable
      cases hend with
      | rejected hrunning hadvance _ =>
          rcases hb.ready.advance_error hrunning (hb.target_spec hrunning) hadvance with
            he | he | he | he <;> cases he
      | failed hrunning hadvance hstep =>
          rcases SwapContext.step_cases hb.ready hrunning hb.holds with
            ⟨_, he, _⟩ | ⟨c, hc, hadvances, hcrosses⟩
          · rw [hadvance] at he
            cases he
          · rw [hstep] at hcrosses
            cases hcrosses with
            | underflow hsome hget _ hnone =>
                have hactive := SwapContext.crossed_active hb hrunning hadvances hsome hget
                  (hrun.follows hp)
                rw [checkedAddSigned_eq_none, hactive,
                  netBelow_of_accounting (hrun.accounting hp.toUsable)] at hnone
                refine ⟨c.next.tick, ?_⟩
                omega

end Pool

end RmUniswap
