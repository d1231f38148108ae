import RmUniswap.Pool.Sound

/-!
# What a swap charges and pays

The amounts a swap settles are sums over its iterations: it charges the inputs and
the fees of its steps, and pays their outputs.
-/

namespace RmUniswap

open Foundation

variable {A : Type} [LawfulAllocator TickSlabValue A]

def BalanceDelta.Fits (delta : BalanceDelta) : Prop :=
  FitsSigned 128 delta.amount0 ∧ FitsSigned 128 delta.amount1

namespace SwapContext

/-- What the loop has charged so far. -/
def charged (ctx : SwapContext) (s : SwapLoopState) : Int :=
  if ctx.amountSpecified > 0 then -s.amountCalculated
  else s.amountSpecifiedRemaining - ctx.amountSpecified

/-- What the loop has paid out so far. -/
def paid (ctx : SwapContext) (s : SwapLoopState) : Int :=
  if ctx.amountSpecified > 0 then ctx.amountSpecified - s.amountSpecifiedRemaining
  else s.amountCalculated

section Amounts

variable {ctx : SwapContext} {a b : SwapLoopState × TickSlab A} {c : StepComputations}
  {cs : List StepComputations}

theorem charged_start {s : SwapLoopState}
    (hremaining : s.amountSpecifiedRemaining = ctx.amountSpecified)
    (hcalculated : s.amountCalculated = 0) : ctx.charged s = 0 := by
  unfold charged
  split
  · rw [hcalculated, neg_zero]
  · rw [hremaining, sub_self]

theorem paid_start {s : SwapLoopState}
    (hremaining : s.amountSpecifiedRemaining = ctx.amountSpecified)
    (hcalculated : s.amountCalculated = 0) : ctx.paid s = 0 := by
  unfold paid
  split
  · rw [hremaining, sub_self]
  · exact hcalculated

theorem Iterates.charged (h : ctx.Invariant a) (hi : ctx.Iterates a c b) :
    ctx.charged b.1 = ctx.charged a.1 + (c.swapStep.amountIn + c.swapStep.feeAmount : Nat) := by
  have hsettles := hi.advances.settles
  rw [hi.next h]
  unfold SwapContext.charged
  push_cast
  split
  · rename_i hout
    have hcalculated := (hsettles.exactOut hout).2
    dsimp only at hcalculated ⊢
    omega
  · rename_i hin
    have hremaining := (hsettles.exactIn (not_lt.mp hin)).1
    dsimp only at hremaining ⊢
    omega

theorem Iterates.paid (h : ctx.Invariant a) (hi : ctx.Iterates a c b) :
    ctx.paid b.1 = ctx.paid a.1 + (c.swapStep.amountOut : Nat) := by
  have hsettles := hi.advances.settles
  rw [hi.next h]
  unfold SwapContext.paid
  split
  · rename_i hout
    have hremaining := (hsettles.exactOut hout).1
    dsimp only at hremaining ⊢
    omega
  · rename_i hin
    have hcalculated := (hsettles.exactIn (not_lt.mp hin)).2
    dsimp only at hcalculated ⊢
    omega

theorem Iterates.amountToProtocol (h : ctx.Invariant a) (hi : ctx.Iterates a c b) :
    b.1.amountToProtocol + c.feeAmount = a.1.amountToProtocol + c.swapStep.feeAmount := by
  have hfees := hi.advances.fees
  have hnext : b.1.amountToProtocol = c.next.amountToProtocol := by rw [hi.next h]
  omega

theorem run_charged (h : Run ctx.Iterates a cs b) (ha : ctx.Invariant a) :
    ctx.charged b.1 = ctx.charged a.1 +
      ((cs.map fun c => c.swapStep.amountIn + c.swapStep.feeAmount).sum : Nat) := by
  have hsum := h.sum_eq (f := fun a => ctx.charged a.1)
    (g := fun c => ((c.swapStep.amountIn + c.swapStep.feeAmount : Nat) : Int))
    (fun _ _ _ hs hi => ⟨Iterates.invariant hs hi, Iterates.charged hs hi⟩) ha
  rw [hsum, Nat.cast_list_sum, List.map_map]
  rfl

theorem run_paid (h : Run ctx.Iterates a cs b) (ha : ctx.Invariant a) :
    ctx.paid b.1 = ctx.paid a.1 + ((cs.map fun c => c.swapStep.amountOut).sum : Nat) := by
  have hsum := h.sum_eq (f := fun a => ctx.paid a.1)
    (g := fun c => ((c.swapStep.amountOut : Nat) : Int))
    (fun _ _ _ hs hi => ⟨Iterates.invariant hs hi, Iterates.paid hs hi⟩) ha
  rw [hsum, Nat.cast_list_sum, List.map_map]
  rfl

theorem run_amountToProtocol (h : Run ctx.Iterates a cs b) (ha : ctx.Invariant a) :
    b.1.amountToProtocol + (cs.map StepComputations.feeAmount).sum =
      a.1.amountToProtocol + (cs.map fun c => c.swapStep.feeAmount).sum := by
  induction h with
  | nil a =>
      rfl
  | cons hone _ ih =>
      have hstep := Iterates.amountToProtocol ha hone
      have hrest := ih (Iterates.invariant ha hone)
      simp only [List.map_cons, List.sum_cons]
      omega

end Amounts

theorem swapDelta_eq_ok {ctx : SwapContext} {s : SwapLoopState} {delta : BalanceDelta}
    (hamount : ctx.amountSpecified ≠ 0) (h : ctx.swapDelta s = .ok delta) :
    delta = if ctx.zeroForOne then { amount0 := -ctx.charged s, amount1 := ctx.paid s }
      else { amount0 := ctx.paid s, amount1 := -ctx.charged s } := by
  have hspecified {amount : Int} (h : (do
      let settled <- okOr .i128Overflow
        (checkedSigned 256 (ctx.amountSpecified - s.amountSpecifiedRemaining))
      okOr .i128Overflow (checkedSigned 128 settled) : Except Error Int) = .ok amount) :
      amount = ctx.amountSpecified - s.amountSpecifiedRemaining := by
    rcases bind_eq_ok.mp h with ⟨settled, hsettled, h⟩
    rw [(checkedSigned_eq_some.mp (okOr_eq_ok.mp h)).1,
      (checkedSigned_eq_some.mp (okOr_eq_ok.mp hsettled)).1]
  have hcalculated {amount : Int}
      (h : (okOr .i128Overflow (checkedSigned 128 s.amountCalculated) : Except Error Int) =
        .ok amount) : amount = s.amountCalculated :=
    (checkedSigned_eq_some.mp (okOr_eq_ok.mp h)).1
  unfold swapDelta at h
  unfold charged paid
  dsimp only at h
  by_cases hin : ctx.amountSpecified < 0
  · have hnot : ¬ ctx.amountSpecified > 0 := by omega
    rw [decide_eq_true hin] at h
    rw [if_neg hnot, if_neg hnot]
    cases hz : ctx.zeroForOne with
    | true =>
        rw [hz, if_pos rfl] at h
        rcases bind_eq_ok.mp h with ⟨amount0, h0, h⟩
        rcases bind_eq_ok.mp h with ⟨amount1, h1, h⟩
        cases h
        rw [if_pos rfl, hspecified h0, hcalculated h1, neg_sub]
    | false =>
        rw [hz, if_neg (by decide)] at h
        rcases bind_eq_ok.mp h with ⟨amount0, h0, h⟩
        rcases bind_eq_ok.mp h with ⟨amount1, h1, h⟩
        cases h
        rw [if_neg (by decide), hcalculated h0, hspecified h1, neg_sub]
  · have hout : ctx.amountSpecified > 0 := by omega
    rw [decide_eq_false hin] at h
    rw [if_pos hout, if_pos hout]
    cases hz : ctx.zeroForOne with
    | true =>
        rw [hz, if_neg (by decide)] at h
        rcases bind_eq_ok.mp h with ⟨amount0, h0, h⟩
        rcases bind_eq_ok.mp h with ⟨amount1, h1, h⟩
        cases h
        rw [if_pos rfl, hcalculated h0, hspecified h1, neg_neg]
    | false =>
        rw [hz, if_pos rfl] at h
        rcases bind_eq_ok.mp h with ⟨amount0, h0, h⟩
        rcases bind_eq_ok.mp h with ⟨amount1, h1, h⟩
        cases h
        rw [if_neg (by decide), hspecified h0, hcalculated h1, neg_neg]

theorem swapDelta_fits {ctx : SwapContext} {s : SwapLoopState} {delta : BalanceDelta}
    (h : ctx.swapDelta s = .ok delta) : delta.Fits := by
  unfold swapDelta at h
  have hside {x : Except Error Int} {settled : Int}
      (hx : (do
        let y <- x
        okOr Error.i128Overflow (checkedSigned 128 y)) = .ok settled) : FitsSigned 128 settled := by
    rcases bind_eq_ok.mp hx with ⟨y, _, hy⟩
    have heq := checkedSigned_eq_some.mp (okOr_eq_ok.mp hy)
    rw [← heq.1] at heq
    exact heq.2
  have hcalculated {settled : Int}
      (hx : okOr Error.i128Overflow (checkedSigned 128 s.amountCalculated) = .ok settled) :
      FitsSigned 128 settled := by
    have heq := checkedSigned_eq_some.mp (okOr_eq_ok.mp hx)
    rw [← heq.1] at heq
    exact heq.2
  dsimp only at h
  split at h
  · rcases bind_eq_ok.mp h with ⟨amount0, h0, hrest⟩
    rcases bind_eq_ok.mp hrest with ⟨amount1, h1, hok⟩
    cases hok
    exact ⟨hside h0, hcalculated h1⟩
  · rcases bind_eq_ok.mp h with ⟨amount0, h0, hrest⟩
    rcases bind_eq_ok.mp hrest with ⟨amount1, h1, hok⟩
    cases hok
    exact ⟨hcalculated h0, hside h1⟩

theorem swapDelta_total {ctx : SwapContext} {s : SwapLoopState}
    (hcharged : 0 ≤ ctx.charged s ∧ ctx.charged s ≤ 2 ^ 127)
    (hpaid : 0 ≤ ctx.paid s ∧ ctx.paid s < 2 ^ 127) :
    exists delta, ctx.swapDelta s = .ok delta := by
  unfold charged at hcharged
  unfold paid at hpaid
  have hspecified : FitsSigned 128 (ctx.amountSpecified - s.amountSpecifiedRemaining) := by
    unfold FitsSigned
    split at hcharged <;> rename_i hsign <;> simp only [hsign, if_true, if_false] at hpaid <;> omega
  have hcalculated : FitsSigned 128 s.amountCalculated := by
    unfold FitsSigned
    split at hcharged <;> rename_i hsign <;> simp only [hsign, if_true, if_false] at hpaid <;> omega
  have hwide : FitsSigned 256 (ctx.amountSpecified - s.amountSpecifiedRemaining) := by
    unfold FitsSigned at hspecified ⊢
    omega
  unfold swapDelta
  dsimp only
  rw [checkedSigned_eq_some.mpr ⟨rfl, hwide⟩, okOr_some, ok_bind,
    checkedSigned_eq_some.mpr ⟨rfl, hspecified⟩, okOr_some,
    checkedSigned_eq_some.mpr ⟨rfl, hcalculated⟩, okOr_some]
  split
  · exact ⟨_, rfl⟩
  · exact ⟨_, rfl⟩

end SwapContext

/-- What a delta takes from the caller in the input token of a swap. -/
def BalanceDelta.input (delta : BalanceDelta) (zeroForOne : Bool) : Int :=
  if zeroForOne then -delta.amount0 else -delta.amount1

/-- What a delta gives the caller in the output token of a swap. -/
def BalanceDelta.output (delta : BalanceDelta) (zeroForOne : Bool) : Int :=
  if zeroForOne then delta.amount1 else delta.amount0

namespace Pool

variable {P : Type} {p p' : Pool P A} {params : SwapParamsInner} {ctx : SwapContext}
  {cs : List StepComputations} {b : SwapLoopState × TickSlab A} {delta : BalanceDelta}

theorem LoopRun.amountSpecified (h : LoopRun p params ctx cs b) :
    ctx.amountSpecified = params.amountSpecified := by
  rcases h.context with ⟨_, _, rfl⟩
  rfl

theorem LoopRun.swapDelta (h : LoopRun p params ctx cs b) (hp : p.Usable)
    (hdelta : ctx.swapDelta b.1 = .ok delta) :
    delta.input params.zeroForOne =
        ((cs.map fun c => c.swapStep.amountIn + c.swapStep.feeAmount).sum : Nat) ∧
      delta.output params.zeroForOne = ((cs.map fun c => c.swapStep.amountOut).sum : Nat) := by
  have hspecified := h.amountSpecified
  have hz := h.zeroForOne
  have heq := SwapContext.swapDelta_eq_ok (by rw [hspecified]; exact h.amount) hdelta
  have hcharged0 : ctx.charged (p.swapStart params) = 0 :=
    SwapContext.charged_start hspecified.symm rfl
  have hpaid0 : ctx.paid (p.swapStart params) = 0 :=
    SwapContext.paid_start hspecified.symm rfl
  have hcharged := SwapContext.run_charged h.run (h.start hp)
  have hpaid := SwapContext.run_paid h.run (h.start hp)
  rw [hcharged0, zero_add] at hcharged
  rw [hpaid0, zero_add] at hpaid
  rw [heq, hz, ← hcharged, ← hpaid]
  unfold BalanceDelta.input BalanceDelta.output
  cases params.zeroForOne with
  | true => exact ⟨neg_neg _, rfl⟩
  | false => exact ⟨neg_neg _, rfl⟩

end Pool

end RmUniswap
