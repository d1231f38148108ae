import RmUniswap.Pool.SwapAmounts
import RmUniswap.Pool.SwapEnd

/-!
# What a swap may do for its request

The price moves one way and not past the limit, the deltas have the signs of their
tokens, and the specified amount bounds the side it specifies.
-/

namespace RmUniswap

open Foundation

variable {A : Type} [LawfulAllocator TickSlabValue A]

namespace SwapContext

structure KeepsSign (ctx : SwapContext) (s : SwapLoopState) : Prop where
  exactIn : ctx.amountSpecified < 0 -> s.amountSpecifiedRemaining ≤ 0
  exactOut : 0 < ctx.amountSpecified -> 0 ≤ s.amountSpecifiedRemaining

section Request

variable {ctx : SwapContext} {a b : SwapLoopState × TickSlab A} {c : StepComputations}
  {cs : List StepComputations}

theorem Iterates.fills (h : ctx.Invariant a) (hi : ctx.Iterates a c b) :
    StepFills (ctx.clampedTarget (ctx.stepTarget a.2 a.1.tick)) a.1.amountSpecifiedRemaining
      c.swapStep :=
  (h.ready.sound hi.running (h.target_spec hi.running) hi.advances).2

theorem Iterates.keepsSign (h : ctx.Invariant a) (hi : ctx.Iterates a c b)
    (hsign : ctx.KeepsSign a.1) : ctx.KeepsSign b.1 := by
  have hfills := hi.fills h
  have hsettles := hi.advances.settles
  have hne : a.1.amountSpecifiedRemaining ≠ 0 := fun hz => hi.running (Or.inl (Or.inl hz))
  rw [hi.next h]
  constructor
  · intro hin
    have hremaining := (hsettles.exactIn (le_of_lt hin)).1
    have hle := hsign.exactIn hin
    have hused := (hfills.input (lt_of_le_of_ne hle hne)).1
    dsimp only at hremaining ⊢
    omega
  · intro hout
    have hremaining := (hsettles.exactOut hout).1
    have hle := hsign.exactOut hout
    have hused := (hfills.output (lt_of_le_of_ne hle (Ne.symm hne))).1
    dsimp only at hremaining ⊢
    omega

theorem run_keepsSign (h : Run ctx.Iterates a cs b) (ha : ctx.Invariant a)
    (hsign : ctx.KeepsSign a.1) : ctx.KeepsSign b.1 := by
  have hkept := h.invariant (I := fun a => ctx.Invariant a ∧ ctx.KeepsSign a.1)
    (fun _ _ _ hs hi => ⟨hi.invariant hs.1, hi.keepsSign hs.1 hs.2⟩) ⟨ha, hsign⟩
  exact hkept.2

theorem Iterates.price (h : ctx.Invariant a) (hi : ctx.Iterates a c b) :
    (ctx.zeroForOne = true -> b.1.sqrtPriceX96 ≤ a.1.sqrtPriceX96) ∧
      (ctx.zeroForOne = false -> a.1.sqrtPriceX96 ≤ b.1.sqrtPriceX96) := by
  have ht := h.target_spec hi.running
  rw [hi.next h]
  exact ⟨fun hz => (h.ready.moves_down hi.running hz ht hi.advances).2.2.2,
    fun hz => (h.ready.moves_up hi.running hz ht hi.advances).2.1⟩

theorem run_price (h : Run ctx.Iterates a cs b) (ha : ctx.Invariant a) :
    (ctx.zeroForOne = true -> b.1.sqrtPriceX96 ≤ a.1.sqrtPriceX96) ∧
      (ctx.zeroForOne = false -> a.1.sqrtPriceX96 ≤ b.1.sqrtPriceX96) := by
  induction h with
  | nil a =>
      exact ⟨fun _ => le_refl _, fun _ => le_refl _⟩
  | cons hone _ ih =>
      have hstep := hone.price ha
      have hrest := ih (hone.invariant ha)
      exact ⟨fun hz => (hrest.1 hz).trans (hstep.1 hz),
        fun hz => (hstep.2 hz).trans (hrest.2 hz)⟩

end Request

end SwapContext

/-- The result of a swap that started at a price, measured against its parameters. -/
structure SwapResult.Respects (result : SwapResult) (params : SwapParamsInner)
    (sqrtPriceX96 : Nat) : Prop where
  between : min sqrtPriceX96 params.sqrtPriceLimit ≤ result.sqrtPriceX96 ∧
    result.sqrtPriceX96 ≤ max sqrtPriceX96 params.sqrtPriceLimit
  down : params.zeroForOne = true -> result.sqrtPriceX96 ≤ sqrtPriceX96
  up : params.zeroForOne = false -> sqrtPriceX96 ≤ result.sqrtPriceX96
  input : 0 ≤ result.swapDelta.input params.zeroForOne
  output : 0 ≤ result.swapDelta.output params.zeroForOne
  exactIn : params.amountSpecified < 0 ->
    result.swapDelta.input params.zeroForOne ≤ -params.amountSpecified
  exactOut : 0 < params.amountSpecified ->
    result.swapDelta.output params.zeroForOne ≤ params.amountSpecified
  filled : result.sqrtPriceX96 ≠ params.sqrtPriceLimit -> result.liquidity ≠ 0 ->
    result.swapDelta.specified params = params.amountSpecified

namespace Pool

variable {P : Type} {p p' : Pool P A} {params : SwapParamsInner} {ctx : SwapContext}
  {cs : List StepComputations} {b : SwapLoopState × TickSlab A} {delta : BalanceDelta}
  {result : SwapResult}

theorem specified_eq (params : SwapParamsInner) (delta : BalanceDelta) :
    (params.amountSpecified < 0 -> delta.specified params = -delta.input params.zeroForOne) ∧
      (0 < params.amountSpecified ->
        delta.specified params = delta.output params.zeroForOne) := by
  unfold BalanceDelta.specified BalanceDelta.input BalanceDelta.output
  constructor
  · intro hin
    rw [decide_eq_true hin]
    cases params.zeroForOne with
    | false => exact (neg_neg _).symm
    | true => exact (neg_neg _).symm
  · intro hout
    rw [decide_eq_false (not_lt.mpr (le_of_lt hout))]
    cases params.zeroForOne with
    | false => rfl
    | true => rfl

theorem LoopRun.respects (h : LoopRun p params ctx cs b) (hp : p.Usable)
    (hhalt : ctx.Halted b.1) (hdelta : ctx.swapDelta b.1 = .ok delta) :
    (swapResult ctx delta b.1).Respects params p.state.sqrtPriceX96 := by
  have hready := (h.final hp).ready
  have hprice := SwapContext.run_price h.run (h.start hp)
  have hamounts := h.swapDelta hp hdelta
  have hspecified := ctx.swapDelta_specified h.zeroForOne h.amountSpecified hdelta
  have hsides := specified_eq params delta
  have hlimitEq : ctx.sqrtPriceLimitX96 = params.sqrtPriceLimit := by
    rcases h.context with ⟨_, _, rfl⟩
    rfl
  have hsign : ctx.KeepsSign b.1 := by
    refine SwapContext.run_keepsSign h.run (h.start hp) ⟨fun hin => ?_, fun hout => ?_⟩
    · rw [h.amountSpecified] at hin
      exact le_of_lt hin
    · rw [h.amountSpecified] at hout
      exact le_of_lt hout
  have hdown := hready.down
  have hup := hready.up
  rw [h.zeroForOne] at hprice hdown hup
  rw [hlimitEq] at hdown hup
  exact
    { between := by
        show _ ≤ b.1.sqrtPriceX96 ∧ b.1.sqrtPriceX96 ≤ _
        cases hz : params.zeroForOne with
        | true =>
            have hmoved : b.1.sqrtPriceX96 ≤ p.state.sqrtPriceX96 := hprice.1 hz
            exact ⟨min_le_of_right_le (hdown hz), le_max_of_le_left hmoved⟩
        | false =>
            have hmoved : p.state.sqrtPriceX96 ≤ b.1.sqrtPriceX96 := hprice.2 hz
            exact ⟨min_le_of_left_le hmoved, le_max_of_le_right (hup hz)⟩
      down := hprice.1
      up := hprice.2
      input := by
        show 0 ≤ delta.input params.zeroForOne
        rw [hamounts.1]
        exact Int.natCast_nonneg _
      output := by
        show 0 ≤ delta.output params.zeroForOne
        rw [hamounts.2]
        exact Int.natCast_nonneg _
      exactIn := fun hin => by
        show delta.input params.zeroForOne ≤ _
        have hside := hsides.1 hin
        have hremaining := hsign.exactIn (h.amountSpecified.symm ▸ hin)
        omega
      exactOut := fun hout => by
        show delta.output params.zeroForOne ≤ _
        have hside := hsides.2 hout
        have hremaining := hsign.exactOut (h.amountSpecified.symm ▸ hout)
        omega
      filled := fun hprice hliquidity => by
        show delta.specified params = _
        rcases hhalt with (hfilled | hstop) | hdry
        · rw [hspecified, hfilled, sub_zero]
        · rw [hlimitEq] at hstop
          exact absurd hstop hprice
        · exact absurd hdry hliquidity }

theorem Usable.respects (hp : p.Usable) (h : p.Swaps params (.ok result) p') :
    result.Respects params p.state.sqrtPriceX96 := by
  rcases h with ⟨fuel, h⟩
  generalize hlist : p.swapComputations params fuel = list
  have hcases := swap_cases h
  rw [hlist] at hcases
  cases hcases with
  | @empty ctx hzero =>
      have hside (z : Bool) : BalanceDelta.default.input z = 0 ∧
          BalanceDelta.default.output z = 0 := by
        cases z <;> exact ⟨rfl, rfl⟩
      exact
        { between := ⟨min_le_left _ _, le_max_left _ _⟩
          down := fun _ => le_refl _
          up := fun _ => le_refl _
          input := le_of_eq (hside _).1.symm
          output := le_of_eq (hside _).2.symm
          exactIn := fun hin => absurd hin (by omega)
          exactOut := fun hout => absurd hout (by omega)
          filled := fun _ _ => by
            show BalanceDelta.default.specified params = _
            unfold BalanceDelta.specified
            rw [hzero]
            split <;> rfl }
  | done hrun hhalt hdelta =>
      exact hrun.respects hp hhalt hdelta

/-- A successful swap respects its request. -/
theorem swap_respects [PositionsAccess P] (hp : p.Accepted)
    (h : p.Swaps params (.ok result) p') : result.Respects params p.state.sqrtPriceX96 :=
  hp.sound.toUsable.respects h

theorem swap_respects_sample :
    Sample.result.Respects Sample.sell Sample.restored.state.sqrtPriceX96 := by
  have hresult : (Sample.restored.swap Sample.sell 3).map Prod.fst =
      some (.ok Sample.result) := by
    decide +kernel
  exact swap_respects Sample.restored_accepted ⟨3, Sample.swap_eq hresult⟩

end Pool

end RmUniswap
