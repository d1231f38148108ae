import RmUniswap.Math.SwapCompose
import RmUniswap.Pool.SwapPath

/-!
# A swap in two parts

A swap that is made in two parts is compared with the swap of both amounts. The
loops run side by side until the first part ends; the step that ends it and the one
that goes on from there are worth no more than the one step of the whole, and after
that the loops meet again with at least as much for the whole.
-/

namespace RmUniswap

open Foundation

variable {A : Type} [LawfulAllocator TickSlabValue A]

namespace SwapContext

def taken (cs : List StepComputations) : Nat := (cs.map StepComputations.gross).sum

def freed (cs : List StepComputations) : Nat := (cs.map fun c => c.swapStep.amountOut).sum

def used (ctx : SwapContext) (cs : List StepComputations) : Nat :=
  if ctx.amountSpecified < 0 then taken cs else freed cs

@[simp] theorem taken_nil : taken [] = 0 := rfl

@[simp] theorem freed_nil : freed [] = 0 := rfl

@[simp] theorem taken_cons (c : StepComputations) (cs : List StepComputations) :
    taken (c :: cs) = c.swapStep.gross + taken cs := by
  unfold taken
  rw [List.map_cons, List.sum_cons]
  rfl

@[simp] theorem freed_cons (c : StepComputations) (cs : List StepComputations) :
    freed (c :: cs) = c.swapStep.amountOut + freed cs := by
  unfold freed
  rw [List.map_cons, List.sum_cons]

/-!
# What is left of the amount
-/

section Rest

variable {ctx : SwapContext} {a b : SwapLoopState × TickSlab A} {c : StepComputations}
  {cs : List StepComputations}

theorem Iterates.rest (h : ctx.Live a) (hi : ctx.Iterates a c b) :
    b.1.amountSpecifiedRemaining.natAbs + ctx.used [c] = a.1.amountSpecifiedRemaining.natAbs := by
  have hsettles := hi.advances.settles
  have hbefore := h.sign
  have hafter := (hi.live h).sign
  unfold used
  rw [taken_cons, freed_cons, taken_nil, freed_nil, Nat.add_zero, Nat.add_zero]
  unfold SwapStep.gross
  rw [hi.next h.invariant] at hafter ⊢
  rcases lt_or_gt_of_ne h.amount with hin | hout
  · have hused := (hsettles.exactIn (le_of_lt hin)).1
    have hle := hbefore.exactIn hin
    have hle' := hafter.exactIn hin
    rw [if_pos hin]
    dsimp only at hused hle' ⊢
    omega
  · have hused := (hsettles.exactOut hout).1
    have hge := hbefore.exactOut hout
    have hge' := hafter.exactOut hout
    rw [if_neg (not_lt.mpr (le_of_lt hout))]
    dsimp only at hused hge' ⊢
    omega

theorem used_cons (ctx : SwapContext) (c : StepComputations) (cs : List StepComputations) :
    ctx.used (c :: cs) = ctx.used [c] + ctx.used cs := by
  unfold used
  split
  · rw [taken_cons, taken_cons, taken_nil, Nat.add_zero]
  · rw [freed_cons, freed_cons, freed_nil, Nat.add_zero]

theorem run_rest (h : Run ctx.Iterates a cs b) (ha : ctx.Live a) :
    b.1.amountSpecifiedRemaining.natAbs + ctx.used cs = a.1.amountSpecifiedRemaining.natAbs := by
  induction h with
  | nil a =>
      unfold used
      split <;> rfl
  | @cons a mid b c cs hi _ ih =>
      have hfirst := hi.rest ha
      have hrest := ih (hi.live ha)
      rw [used_cons]
      omega

theorem run_of_halted (h : Run ctx.Iterates a cs b) (hhalt : ctx.Halted a.1) :
    cs = [] ∧ b = a := by
  cases h with
  | nil _ => exact ⟨rfl, rfl⟩
  | cons hi _ => exact absurd hhalt hi.running

end Rest

/-!
# Loops with more left
-/

section Compare

variable {ctx : SwapContext} {a b a' b' : SwapLoopState × TickSlab A} {c c' : StepComputations}
  {cs cs' : List StepComputations} {m : Int} {st : PoolState}

theorem Beside.swapStep (hb : Beside a a') (h : ctx.Invariant a)
    (h' : (ctx.resumed m st).Invariant a') (hi' : (ctx.resumed m st).Iterates a' c' b') :
    computeSwapStep a.1.sqrtPriceX96 (ctx.clampedTarget (ctx.stepTarget a.2 a.1.tick))
      a.1.liquidity a'.1.amountSpecifiedRemaining ctx.fee = .ok c'.swapStep := by
  have hstep := hi'.advances.swapStep
  rw [hb.stepTarget h h', hb.price, hb.liquidity] at hstep
  exact hstep

theorem Iterates.beside_of_price (h : ctx.Invariant a) (h' : (ctx.resumed m st).Invariant a')
    (hb : Beside a a') (hi : ctx.Iterates a c b) (hi' : (ctx.resumed m st).Iterates a' c' b')
    (hprice : c'.next.sqrtPriceX96 = c.next.sqrtPriceX96) : Beside b b' := by
  have htarget := hb.stepTarget h h'
  refine hi.beside h h' hi' htarget hb.ticks hb.liquidity hprice ?_
  rw [hi.advances.tick, hi'.advances.tick, hprice, htarget]
  unfold tickAfter
  rw [hb.price, hb.tick]
  rfl

theorem same_sign (h : ctx.Live a) (h' : (ctx.resumed m st).Live a') (hsign : ctx.SameSign m)
    (hrun : ¬ ctx.Halted a.1) (hrun' : ¬ (ctx.resumed m st).Halted a'.1) :
    a.1.amountSpecifiedRemaining < 0 ∧ a'.1.amountSpecifiedRemaining < 0 ∧
        ctx.amountSpecified < 0 ∨
      0 < a.1.amountSpecifiedRemaining ∧ 0 < a'.1.amountSpecifiedRemaining ∧
        0 < ctx.amountSpecified := by
  have hside := h.remaining_sign hrun
  have hside' := h'.remaining_sign hrun'
  change (_ ↔ m < 0) ∧ (_ ↔ 0 < m) at hside'
  unfold SameSign at hsign
  omega

/-- The step of the loop with more left goes at least as far, and is the same one where
the smaller rest pays for the whole way. -/
theorem Iterates.step_mono (h : ctx.Live a) (h' : (ctx.resumed m st).Live a') (hb : Beside a a')
    (hsign : ctx.SameSign m)
    (hrest : a.1.amountSpecifiedRemaining.natAbs ≤ a'.1.amountSpecifiedRemaining.natAbs)
    (hi : ctx.Iterates a c b) (hi' : (ctx.resumed m st).Iterates a' c' b') :
    (Covers a.1.sqrtPriceX96 (ctx.clampedTarget (ctx.stepTarget a.2 a.1.tick)) a.1.liquidity
        a.1.amountSpecifiedRemaining ctx.fee -> c'.swapStep = c.swapStep) ∧
      c.swapStep.gross ≤ c'.swapStep.gross ∧ c.swapStep.amountOut ≤ c'.swapStep.amountOut := by
  have hready := h.invariant.ready
  have hclamp := hready.clampedTarget hi.running (h.invariant.target_spec hi.running)
  have hpositive : 0 < a.1.liquidity := Nat.pos_of_ne_zero fun hz => hi.running (Or.inr hz)
  have hside := same_sign h h' hsign hi.running hi'.running
  have hmono := computeSwapStep_mono hready.price hclamp.1 hpositive hready.liquidity hready.fee
    (by omega) hready.remaining (by omega) h'.invariant.ready.remaining (by omega) hrest
    hi.advances.swapStep (hb.swapStep h.invariant h'.invariant hi')
  exact ⟨hmono.1, hmono.2.input, hmono.2.output⟩

/-- Beside a loop, the one with more left takes in and pays out no less, and has no less
left at its end. -/
theorem run_beside (h : Run ctx.Iterates a cs b) (hhalt : ctx.Halted b.1) (ha : ctx.Live a)
    (h' : Run (ctx.resumed m st).Iterates a' cs' b') (hhalt' : (ctx.resumed m st).Halted b'.1)
    (ha' : (ctx.resumed m st).Live a') (hsign : ctx.SameSign m) (hb : Beside a a')
    (hrest : a.1.amountSpecifiedRemaining.natAbs ≤ a'.1.amountSpecifiedRemaining.natAbs) :
    taken cs ≤ taken cs' ∧ freed cs ≤ freed cs' ∧
      b.1.amountSpecifiedRemaining.natAbs ≤ b'.1.amountSpecifiedRemaining.natAbs := by
  induction h generalizing a' cs' with
  | nil a =>
      refine ⟨Nat.zero_le _, Nat.zero_le _, ?_⟩
      by_cases hzero : a.1.amountSpecifiedRemaining = 0
      · rw [hzero]
        exact Nat.zero_le _
      · rw [(run_of_halted h' (hb.halted hhalt hzero)).2]
        exact hrest
  | @cons a mid b c cs hi hlast ih =>
      have hne : a.1.amountSpecifiedRemaining ≠ 0 := fun hz => hi.running (Or.inl (Or.inl hz))
      have hrun' : ¬ (ctx.resumed m st).Halted a'.1 := hb.running hi.running (by omega)
      cases h' with
      | nil _ =>
          exact absurd hhalt' hrun'
      | @cons _ mid' _ c' cs' hi' hlast' =>
          have hstep := hi.step_mono ha ha' hb hsign hrest hi'
          rw [taken_cons, taken_cons, freed_cons, freed_cons]
          by_cases hcovers : Covers a.1.sqrtPriceX96
              (ctx.clampedTarget (ctx.stepTarget a.2 a.1.tick)) a.1.liquidity
              a.1.amountSpecifiedRemaining ctx.fee
          · have hequal := hstep.1 hcovers
            have hprice : c'.next.sqrtPriceX96 = c.next.sqrtPriceX96 := by
              rw [hi.advances.price, hi'.advances.price, hequal]
            have hmid := hi.beside_of_price ha.invariant ha'.invariant hb hi' hprice
            have hused := hi.rest ha
            have hused' := hi'.rest ha'
            have hsame : (ctx.resumed m st).used [c'] = ctx.used [c] := by
              unfold used SameSign at *
              rw [taken_cons, taken_cons, freed_cons, freed_cons, hequal]
              change (if m < 0 then _ else _) = _
              split <;> split <;> first | rfl | omega
            have hmore := ih hhalt (hi.live ha) hlast' (hi'.live ha') hmid (by omega)
            rw [hequal]
            omega
          · -- the smaller rest is used up
            have hspent := hi.spent ha hcovers
            rcases run_of_halted hlast (Or.inl (Or.inl hspent)) with ⟨rfl, rfl⟩
            rw [taken_nil, freed_nil, hspent]
            have hgross := hstep.2.1
            have houtput := hstep.2.2
            refine ⟨?_, ?_, Nat.zero_le _⟩
            · omega
            · omega

end Compare

/-!
# The two parts and the whole
-/

/-- A run that ends, the run that goes on from its place, and the run of both amounts. -/
structure SplitRuns (ctx : SwapContext) (m n : Int) (st st' : PoolState)
    (a b s e a' e' : SwapLoopState × TickSlab A) (cs ds cs' : List StepComputations) : Prop where
  first : Run ctx.Iterates a cs b
  halted : ctx.Halted b.1
  offLimit : b.1.sqrtPriceX96 ≠ ctx.sqrtPriceLimitX96
  live : ctx.Live a
  second : Run (ctx.resumed m st).Iterates s ds e
  halted1 : (ctx.resumed m st).Halted e.1
  live1 : (ctx.resumed m st).Live s
  goesOn : Beside b s
  rest1 : s.1.amountSpecifiedRemaining = m
  whole : Run (ctx.resumed n st').Iterates a' cs' e'
  halted' : (ctx.resumed n st').Halted e'.1
  live' : (ctx.resumed n st').Live a'
  beside : Beside a a'
  rest' : a'.1.amountSpecifiedRemaining = a.1.amountSpecifiedRemaining + m
  sign1 : ctx.SameSign m
  sign' : ctx.SameSign n
  small : ctx.amountSpecified < 0 -> ctx.zeroForOne = true ->
    a'.1.amountSpecifiedRemaining.natAbs < 2 ^ 95

def NoBetter (cs ds cs' : List StepComputations) : Prop :=
  taken cs' ≤ taken cs + taken ds ∧ freed cs + freed ds ≤ freed cs'

section Last

variable {ctx : SwapContext} {m n : Int} {st st' : PoolState}
  {a b s e a' e' b' : SwapLoopState × TickSlab A} {c c' : StepComputations}
  {cs ds cs' : List StepComputations}

theorem SplitRuns.noBetter_of (h : SplitRuns ctx m n st st' a b s e a' e' cs ds cs')
    (hspent : b.1.amountSpecifiedRemaining = 0)
    (hin : ctx.amountSpecified < 0 -> freed cs + freed ds ≤ freed cs' ∧
      e.1.amountSpecifiedRemaining.natAbs ≤ e'.1.amountSpecifiedRemaining.natAbs)
    (hout : 0 < ctx.amountSpecified -> taken cs' ≤ taken cs + taken ds ∧
      e'.1.amountSpecifiedRemaining.natAbs ≤ e.1.amountSpecifiedRemaining.natAbs) :
    NoBetter cs ds cs' := by
  have hused := run_rest h.first h.live
  have hused1 := run_rest h.second h.live1
  have hused' := run_rest h.whole h.live'
  have hsign1 := h.sign1
  have hsign' := h.sign'
  have hleft := h.live.sign
  have hexactIn := hleft.exactIn
  have hexactOut := hleft.exactOut
  rw [hspent] at hused
  rw [h.rest1] at hused1
  rw [h.rest'] at hused'
  unfold used at hused hused1 hused'
  change _ + (if m < 0 then _ else _) = _ at hused1
  change _ + (if n < 0 then _ else _) = _ at hused'
  unfold SameSign at hsign1 hsign'
  unfold NoBetter
  rcases lt_or_gt_of_ne h.live.amount with hneg | hpos
  · have hcases := hin hneg
    have hle := hexactIn hneg
    rw [if_pos hneg] at hused
    rw [if_pos (by omega)] at hused1 hused'
    omega
  · have hcases := hout hpos
    have hge := hexactOut hpos
    rw [if_neg (by omega)] at hused hused1 hused'
    omega

theorem SplitRuns.last_reached (h : SplitRuns ctx m n st st' a b s e a' e' [c] ds (c' :: cs'))
    (hi : ctx.Iterates a c b) (hi' : (ctx.resumed n st').Iterates a' c' b')
    (hrest : Run (ctx.resumed n st').Iterates b' cs' e')
    (hshort : ¬ Covers a.1.sqrtPriceX96 (ctx.clampedTarget (ctx.stepTarget a.2 a.1.tick))
      a.1.liquidity a.1.amountSpecifiedRemaining ctx.fee)
    (hreached : c.next.sqrtPriceX96 = ctx.clampedTarget (ctx.stepTarget a.2 a.1.tick)) :
    NoBetter [c] ds (c' :: cs') := by
  have hready := h.live.invariant.ready
  have hclamp := hready.clampedTarget hi.running (h.live.invariant.target_spec hi.running)
  have hpositive : 0 < a.1.liquidity := Nat.pos_of_ne_zero fun hz => hi.running (Or.inr hz)
  have hside := same_sign h.live h.live' h.sign' hi.running hi'.running
  have hstep := h.beside.swapStep h.live.invariant h.live'.invariant hi'
  have heq := computeSwapStep_eq hready.price hclamp.1 hpositive hready.liquidity hready.fee
    (by omega) hready.remaining hi.advances.swapStep
  have heq' := computeSwapStep_eq hready.price hclamp.1 hpositive hready.liquidity hready.fee
    (by omega) h.live'.invariant.ready.remaining hstep
  have hsound := computeSwapStep_sound hready.price hclamp.1 hpositive hready.liquidity hready.fee
    (by omega) h.live'.invariant.ready.remaining hstep
  have hspent := hi.spent h.live hshort
  rw [hi.advances.price] at hreached
  have hout : 0 < ctx.amountSpecified := by
    rcases hside with ⟨hneg, _⟩ | ⟨_, _, hout⟩
    · rw [heq] at hreached
      exact absurd hreached
        (plainStep_price_ne hready.price.pos hclamp.1.pos hpositive hready.liquidity hneg hshort)
    · exact hout
  have hpos : 0 < a.1.amountSpecifiedRemaining := by omega
  have hpos' : 0 < a'.1.amountSpecifiedRemaining := by omega
  refine h.noBetter_of hspent (fun hin => by omega) fun _ => ?_
  -- both steps need the input of their moves
  have hgross : c'.swapStep.gross ≤ c.swapStep.gross := by
    have hmono := inputOfMove_mono a.1.liquidity hready.price.pos hclamp.1.pos
      hsound.1.between.1 hsound.1.between.2
    have hfull : c.swapStep.gross = _ := (congrArg SwapStep.gross heq).trans (plainStep_gross hpos)
    have hfull' : c'.swapStep.gross = _ :=
      (congrArg SwapStep.gross heq').trans (plainStep_gross hpos')
    rw [← heq, hreached] at hfull
    rw [← heq'] at hfull'
    rw [hfull, hfull']
    exact Nat.add_le_add hmono (Fee.onTop_mono hmono)
  rw [taken_cons, taken_cons, taken_nil, Nat.add_zero]
  by_cases hcovers : Covers a.1.sqrtPriceX96 (ctx.clampedTarget (ctx.stepTarget a.2 a.1.tick))
      a.1.liquidity a'.1.amountSpecifiedRemaining ctx.fee
  · have hprice : c'.next.sqrtPriceX96 = c.next.sqrtPriceX96 := by
      have htarget := plainStep_price_of_covers hcovers
      rw [← heq'] at htarget
      rw [hi.advances.price, hi'.advances.price, hreached, htarget]
    have hmid := hi.beside_of_price h.live.invariant h.live'.invariant h.beside hi' hprice
    have hused' := hi'.rest h.live'
    have hpaid : a.1.amountSpecifiedRemaining.natAbs ≤ c'.swapStep.amountOut := by
      rw [covers_exactOut hpos, not_le] at hshort
      unfold plainStep at heq'
      rw [if_pos hcovers] at heq'
      rw [heq']
      exact le_of_lt hshort
    have hfewer : b'.1.amountSpecifiedRemaining.natAbs ≤ s.1.amountSpecifiedRemaining.natAbs := by
      have hn : ¬ n < 0 := by
        have := h.sign'
        unfold SameSign at this
        omega
      have hsum := h.rest'
      have hm := h.rest1
      have hsign1 := h.sign1
      unfold SameSign at hsign1
      unfold used at hused'
      change _ + (if n < 0 then _ else _) = _ at hused'
      rw [if_neg hn, freed_cons, freed_nil, Nat.add_zero] at hused'
      omega
    have hsignC : (ctx.resumed n st').SameSign m := by
      have := h.sign'
      have := h.sign1
      unfold SameSign at *
      change n < 0 ∧ m < 0 ∨ 0 < n ∧ 0 < m
      omega
    have hmeet : Beside b' s := hmid.symm.trans h.goesOn
    have hless := run_beside hrest h.halted' (hi'.live h.live') h.second h.halted1 h.live1 hsignC
      hmeet hfewer
    exact ⟨by omega, hless.2.2⟩
  · have hspent' := hi'.spent h.live' (by
      rw [h.beside.stepTarget h.live.invariant h.live'.invariant, h.beside.price,
        h.beside.liquidity]
      exact hcovers)
    rcases run_of_halted hrest (Or.inl (Or.inl hspent')) with ⟨rfl, rfl⟩
    rw [taken_nil, Nat.add_zero, hspent']
    exact ⟨by omega, Nat.zero_le _⟩

theorem Iterates.off_target (h : ctx.Invariant a) (hi : ctx.Iterates a c b)
    (hoff : c.next.sqrtPriceX96 ≠ ctx.clampedTarget (ctx.stepTarget a.2 a.1.tick)) :
    c.next.sqrtPriceX96 ≠ (ctx.stepTarget a.2 a.1.tick).sqrtPriceX96 := by
  have ht := h.target_spec hi.running
  have hclamp := h.ready.clampedTarget hi.running ht
  intro hreached
  apply hoff
  cases hz : ctx.zeroForOne with
  | true =>
      have hmove := (h.ready.moves_down hi.running hz ht hi.advances).1.target_le
      have hle := (hclamp.2.1 hz).2.1
      rw [← hi.advances.price] at hmove
      omega
  | false =>
      have hmove := (h.ready.moves_up hi.running hz ht hi.advances).1.le_target
      have hle := (hclamp.2.2 hz).2.1
      rw [← hi.advances.price] at hmove
      omega

theorem Iterates.liquidity_short (h : ctx.Invariant a) (hi : ctx.Iterates a c b)
    (hoff : c.next.sqrtPriceX96 ≠ (ctx.stepTarget a.2 a.1.tick).sqrtPriceX96) :
    b.1.liquidity = a.1.liquidity := by
  rcases hi.cases h with ⟨_, hb, _⟩ | ⟨k, _, hsome, _⟩
  · rw [hb]
    exact hi.advances.liquidity
  · have hreached := (crossed_eq_some.mp hsome).1
    rw [hi.advances.toTarget] at hreached
    exact absurd hreached hoff

theorem tickAfter_moved (ctx : SwapContext) (target : StepTarget) {start start' : SwapLoopState}
    {price : Nat} (h : price ≠ start.sqrtPriceX96) (h' : price ≠ start'.sqrtPriceX96) :
    ctx.tickAfter target start price = ctx.tickAfter target start' price := by
  unfold tickAfter
  rw [if_pos h, if_pos h']

theorem SplitRuns.splitSteps {d : StepComputations} {s' : SwapLoopState × TickSlab A}
    (h : SplitRuns ctx m n st st' a b s e a' e' [c] (d :: ds) (c' :: cs'))
    (hi : ctx.Iterates a c b) (hd : (ctx.resumed m st).Iterates s d s')
    (hi' : (ctx.resumed n st').Iterates a' c' b')
    (hshort : ¬ Covers a.1.sqrtPriceX96 (ctx.clampedTarget (ctx.stepTarget a.2 a.1.tick))
      a.1.liquidity a.1.amountSpecifiedRemaining ctx.fee)
    (hoff : c.next.sqrtPriceX96 ≠ ctx.clampedTarget (ctx.stepTarget a.2 a.1.tick)) :
    SplitSteps a.1.sqrtPriceX96 (ctx.clampedTarget (ctx.stepTarget a.2 a.1.tick)) a.1.liquidity
      a.1.amountSpecifiedRemaining m ctx.fee c.swapStep d.swapStep c'.swapStep := by
  have hready := h.live.invariant.ready
  have hclamp := hready.clampedTarget hi.running (h.live.invariant.target_spec hi.running)
  have hside := same_sign h.live h.live' h.sign' hi.running hi'.running
  have hsign1 := h.sign1
  have hofftarget := hi.off_target h.live.invariant hoff
  have hagain := hi.target_again h.live.invariant h.live1.invariant h.goesOn hofftarget
  have hprice : s.1.sqrtPriceX96 = c.swapStep.sqrtRatioNextX96 := by
    rw [h.goesOn.price, hi.next h.live.invariant]
    exact hi.advances.price
  have hliquidity : s.1.liquidity = a.1.liquidity := by
    rw [h.goesOn.liquidity, hi.liquidity_short h.live.invariant hofftarget]
  have hsecond := hd.advances.swapStep
  rw [hagain, hprice, hliquidity, h.rest1] at hsecond
  have hwhole := h.beside.swapStep h.live.invariant h.live'.invariant hi'
  have hfits' := h.live'.invariant.ready.remaining
  rw [h.rest'] at hwhole hfits'
  have hfits1 := h.live1.invariant.ready.remaining
  rw [h.rest1] at hfits1
  rw [hi.advances.price] at hoff
  unfold SameSign at hsign1
  exact
    { currentValid := hready.price
      targetValid := hclamp.1
      positive := Nat.pos_of_ne_zero fun hz => hi.running (Or.inr hz)
      liquidityFits := hready.liquidity
      feeValid := hready.fee
      sign := by omega
      fits := hready.remaining
      fits1 := hfits1
      fits' := hfits'
      short := hshort
      off := hoff
      first := hi.advances.swapStep
      second := hsecond
      whole := hwhole }

/-- Where both the step that goes on and the step of the whole reach the clamped target,
the loops meet there. -/
theorem SplitRuns.meet {d : StepComputations} {s' : SwapLoopState × TickSlab A}
    (h : SplitRuns ctx m n st st' a b s e a' e' [c] (d :: ds) (c' :: cs'))
    (hi : ctx.Iterates a c b) (hd : (ctx.resumed m st).Iterates s d s')
    (hi' : (ctx.resumed n st').Iterates a' c' b')
    (hshort : ¬ Covers a.1.sqrtPriceX96 (ctx.clampedTarget (ctx.stepTarget a.2 a.1.tick))
      a.1.liquidity a.1.amountSpecifiedRemaining ctx.fee)
    (hoff : c.next.sqrtPriceX96 ≠ ctx.clampedTarget (ctx.stepTarget a.2 a.1.tick))
    (hreached : d.next.sqrtPriceX96 = ctx.clampedTarget (ctx.stepTarget a.2 a.1.tick))
    (hreached' : c'.next.sqrtPriceX96 = ctx.clampedTarget (ctx.stepTarget a.2 a.1.tick)) :
    Beside s' b' := by
  have hinvariant := h.live.invariant
  have hofftarget := hi.off_target hinvariant hoff
  have hagain := hi.target_again hinvariant h.live1.invariant h.goesOn hofftarget
  have htarget' := h.beside.stepTarget hinvariant h.live'.invariant
  have hinvariant' : ((ctx.resumed m st).resumed n st').Invariant a' := h.live'.invariant
  have hstep' : ((ctx.resumed m st).resumed n st').Iterates a' c' b' := hi'
  refine hd.beside h.live1.invariant hinvariant' hstep' (htarget'.trans hagain.symm) ?_ ?_
    (hreached'.trans hreached.symm) ?_
  · rw [h.beside.ticks, h.goesOn.ticks, hi.accounting hinvariant]
  · rw [h.beside.liquidity, h.goesOn.liquidity, hi.liquidity_short hinvariant hofftarget]
  · rw [hd.advances.tick, hstep'.advances.tick, hreached, hreached', hagain]
    change ctx.tickAfter (((ctx.resumed m st).resumed n st').stepTarget a'.2 a'.1.tick) a'.1 _ =
      ctx.tickAfter _ s.1 _
    rw [show ((ctx.resumed m st).resumed n st').stepTarget a'.2 a'.1.tick = _ from htarget']
    refine tickAfter_moved ctx _ ?_ ?_
    · rw [h.beside.price]
      intro heq
      refine hshort ?_
      rw [heq]
      exact covers_self
    · rw [h.goesOn.price, hi.next hinvariant]
      exact hoff.symm

theorem SplitRuns.direct (h : SplitRuns ctx m n st st' a b s e a' e' cs ds cs')
    (hrun : ¬ ctx.Halted a.1)
    (hshort : ¬ Covers a.1.sqrtPriceX96 (ctx.clampedTarget (ctx.stepTarget a.2 a.1.tick))
      a.1.liquidity a.1.amountSpecifiedRemaining ctx.fee)
    (hin : a.1.amountSpecifiedRemaining < 0) :
    Direct (decide (a.1.sqrtPriceX96 ≥ ctx.clampedTarget (ctx.stepTarget a.2 a.1.tick)))
      a.1.sqrtPriceX96 a.1.liquidity (a.1.amountSpecifiedRemaining + m).natAbs := by
  have hready := h.live.invariant.ready
  have hclamp := hready.clampedTarget hrun (h.live.invariant.target_spec hrun)
  rw [← h.rest']
  refine Direct.of_lt hready.liquidity hready.price.lt_two_pow fun hdown => ?_
  have hneg : ctx.amountSpecified < 0 := (h.live.remaining_sign hrun).1.mp hin
  refine h.small hneg ?_
  cases hz : ctx.zeroForOne with
  | true => rfl
  | false =>
      refine absurd ?_ hshort
      rw [le_antisymm (of_decide_eq_true hdown) (hclamp.2.2 hz).1]
      exact covers_self

theorem SplitRuns.last_short (h : SplitRuns ctx m n st st' a b s e a' e' [c] ds (c' :: cs'))
    (hi : ctx.Iterates a c b) (hi' : (ctx.resumed n st').Iterates a' c' b')
    (hrest : Run (ctx.resumed n st').Iterates b' cs' e')
    (hshort : ¬ Covers a.1.sqrtPriceX96 (ctx.clampedTarget (ctx.stepTarget a.2 a.1.tick))
      a.1.liquidity a.1.amountSpecifiedRemaining ctx.fee)
    (hoff : c.next.sqrtPriceX96 ≠ ctx.clampedTarget (ctx.stepTarget a.2 a.1.tick)) :
    NoBetter [c] ds (c' :: cs') := by
  have hinvariant := h.live.invariant
  have hspent := hi.spent h.live hshort
  have hside := same_sign h.live h.live' h.sign' hi.running hi'.running
  have hsign1 := h.sign1
  have hsign' := h.sign'
  have hsum := h.rest'
  have hofftarget := hi.off_target hinvariant hoff
  unfold SameSign at hsign1 hsign'
  have hrun : ¬ (ctx.resumed m st).Halted s.1 := by
    have hliquidity := hi.liquidity_short hinvariant hofftarget
    rintro ((hzero | hlimit) | hdry)
    · have hm := h.rest1
      omega
    · exact h.offLimit (h.goesOn.price.symm.trans hlimit)
    · exact hi.running (Or.inr (hliquidity.symm.trans (h.goesOn.liquidity.symm.trans hdry)))
  have hsecond := h.second
  cases hsecond with
  | nil _ => exact absurd h.halted1 hrun
  | @cons _ s' _ d ds hd hlast =>
      have hsteps := h.splitSteps hi hd hi' hshort hoff
      have hbetter := hsteps.no_better fun hin => h.direct hi.running hshort hin
      have hused := hi.rest h.live
      have hused1 := hd.rest h.live1
      have hused' := hi'.rest h.live'
      rw [hspent] at hused
      rw [h.rest1] at hused1
      rw [h.rest'] at hused'
      unfold used at hused hused1 hused'
      change _ + (if m < 0 then _ else _) = _ at hused1
      change _ + (if n < 0 then _ else _) = _ at hused'
      rw [taken_cons, freed_cons, taken_nil, freed_nil] at hused hused1 hused'
      refine h.noBetter_of hspent (fun hneg => ?_) fun hpos => ?_
      · -- an exact input: the second part is the one that may end here
        rw [if_pos hneg] at hused
        rw [if_pos (by omega)] at hused1 hused'
        rw [freed_cons, freed_cons, freed_cons, freed_nil]
        by_cases hcovers : Covers c.swapStep.sqrtRatioNextX96
            (ctx.clampedTarget (ctx.stepTarget a.2 a.1.tick)) a.1.liquidity m ctx.fee
        · have hwhole := hsteps.covers_of_second (by omega) hcovers
          have hd1 := plainStep_price_of_covers hcovers
          have hd2 := plainStep_price_of_covers hwhole
          rw [← hsteps.second_eq, ← hd.advances.price] at hd1
          rw [← hsteps.whole_eq, ← hi'.advances.price] at hd2
          have hmeet := h.meet hi hd hi' hshort hoff hd1 hd2
          have hmore := run_beside hlast h.halted1 (hd.live h.live1) hrest h.halted'
            (hi'.live h.live') (show (ctx.resumed m st).SameSign n by
              change m < 0 ∧ n < 0 ∨ 0 < m ∧ 0 < n
              omega) hmeet (by omega)
          omega
        · have hagain := hi.target_again hinvariant h.live1.invariant h.goesOn hofftarget
          have hprice : s.1.sqrtPriceX96 = c.swapStep.sqrtRatioNextX96 := by
            rw [h.goesOn.price, hi.next hinvariant]
            exact hi.advances.price
          have hliquidity : s.1.liquidity = a.1.liquidity := by
            rw [h.goesOn.liquidity, hi.liquidity_short hinvariant hofftarget]
          have hspent1 := hd.spent h.live1 (by
            rw [hagain, hprice, hliquidity, h.rest1]
            exact hcovers)
          rcases run_of_halted hlast (Or.inl (Or.inl hspent1)) with ⟨rfl, rfl⟩
          rw [freed_nil, hspent1]
          omega
      · rw [if_neg (by omega)] at hused hused1 hused'
        rw [taken_cons, taken_cons, taken_cons, taken_nil]
        by_cases hwhole : Covers a.1.sqrtPriceX96
            (ctx.clampedTarget (ctx.stepTarget a.2 a.1.tick)) a.1.liquidity
            (a.1.amountSpecifiedRemaining + m) ctx.fee
        · have hcovers := hsteps.covers_of_whole (by omega) hwhole
          have hd1 := plainStep_price_of_covers hcovers
          have hd2 := plainStep_price_of_covers hwhole
          rw [← hsteps.second_eq, ← hd.advances.price] at hd1
          rw [← hsteps.whole_eq, ← hi'.advances.price] at hd2
          have hmeet := h.meet hi hd hi' hshort hoff hd1 hd2
          have hless := run_beside hrest h.halted' (hi'.live h.live') hlast h.halted1
            (hd.live h.live1) (show (ctx.resumed n st').SameSign m by
              change n < 0 ∧ m < 0 ∨ 0 < n ∧ 0 < m
              omega) hmeet.symm (by omega)
          omega
        · have hspent' := hi'.spent h.live' (by
            rw [h.beside.stepTarget hinvariant h.live'.invariant, h.beside.price,
              h.beside.liquidity, h.rest']
            exact hwhole)
          rcases run_of_halted hrest (Or.inl (Or.inl hspent')) with ⟨rfl, rfl⟩
          rw [taken_nil, hspent']
          omega

end Last

theorem SplitRuns.step_covered {ctx : SwapContext} {m n : Int} {st st' : PoolState}
    {a b s e a' e' mid mid' : SwapLoopState × TickSlab A} {c c' : StepComputations}
    {cs ds cs' : List StepComputations}
    (h : SplitRuns ctx m n st st' a b s e a' e' (c :: cs) ds (c' :: cs'))
    (hi : ctx.Iterates a c mid) (hlast : Run ctx.Iterates mid cs b)
    (hi' : (ctx.resumed n st').Iterates a' c' mid')
    (hlast' : Run (ctx.resumed n st').Iterates mid' cs' e')
    (hcovers : Covers a.1.sqrtPriceX96 (ctx.clampedTarget (ctx.stepTarget a.2 a.1.tick))
      a.1.liquidity a.1.amountSpecifiedRemaining ctx.fee) :
    c'.swapStep = c.swapStep ∧ SplitRuns ctx m n st st' mid b s e mid' e' cs ds cs' := by
  have hside := same_sign h.live h.live' h.sign' hi.running hi'.running
  have hsum := h.rest'
  have hsign1 := h.sign1
  unfold SameSign at hsign1
  have hequal := (hi.step_mono h.live h.live' h.beside h.sign' (by omega) hi').1 hcovers
  have hprice : c'.next.sqrtPriceX96 = c.next.sqrtPriceX96 := by
    rw [hi.advances.price, hi'.advances.price, hequal]
  have hlive := hi.live h.live
  have hlive' := hi'.live h.live'
  have hused := hi.rest h.live
  have hused' := hi'.rest h.live'
  have hn := h.sign'
  unfold SameSign at hn
  have hsame : (ctx.resumed n st').used [c'] = ctx.used [c] := by
    unfold used
    rw [taken_cons, taken_cons, freed_cons, freed_cons, hequal]
    change (if n < 0 then _ else _) = _
    split <;> split <;> first | rfl | omega
  have hleft := hlive.sign
  have hleft' := hlive'.sign
  have hexactIn := hleft.exactIn
  have hexactOut := hleft.exactOut
  have hexactIn' : n < 0 -> mid'.1.amountSpecifiedRemaining ≤ 0 := hleft'.exactIn
  have hexactOut' : 0 < n -> 0 ≤ mid'.1.amountSpecifiedRemaining := hleft'.exactOut
  have hsmall := h.small
  have hrest' : mid'.1.amountSpecifiedRemaining = mid.1.amountSpecifiedRemaining + m := by
    omega
  refine ⟨hequal,
    { first := hlast
      halted := h.halted
      offLimit := h.offLimit
      live := hlive
      second := h.second
      halted1 := h.halted1
      live1 := h.live1
      goesOn := h.goesOn
      rest1 := h.rest1
      whole := hlast'
      halted' := h.halted'
      live' := hlive'
      beside := hi.beside_of_price h.live.invariant h.live'.invariant h.beside hi' hprice
      rest' := hrest'
      sign1 := h.sign1
      sign' := h.sign'
      small := fun hneg hz => ?_ }⟩
  have := hsmall hneg hz
  omega

theorem run_split {ctx : SwapContext} {m n : Int} {st st' : PoolState}
    {a b s e a' e' : SwapLoopState × TickSlab A} {cs ds cs' : List StepComputations}
    (h : SplitRuns ctx m n st st' a b s e a' e' cs ds cs') : NoBetter cs ds cs' := by
  have hfirst := h.first
  induction hfirst generalizing a' cs' with
  | nil a =>
      have hsum := h.rest'
      have hm := h.rest1
      have hmeet : Beside s a' := h.goesOn.symm.trans h.beside
      by_cases hzero : a.1.amountSpecifiedRemaining = 0
      · rw [hzero, zero_add] at hsum
        have hsign : m < 0 ∧ n < 0 ∨ 0 < m ∧ 0 < n := by
          have := h.sign1
          have := h.sign'
          unfold SameSign at *
          omega
        have hmore := run_beside h.second h.halted1 h.live1 h.whole h.halted' h.live' hsign hmeet
          (by omega)
        have hless := run_beside h.whole h.halted' h.live' h.second h.halted1 h.live1
          (show n < 0 ∧ m < 0 ∨ 0 < n ∧ 0 < m by omega) hmeet.symm (by omega)
        unfold NoBetter
        rw [taken_nil, freed_nil]
        omega
      · -- without liquidity neither the second part nor the whole moves
        rcases run_of_halted h.second (h.goesOn.halted h.halted hzero) with ⟨rfl, _⟩
        rcases run_of_halted h.whole (h.beside.halted h.halted hzero) with ⟨rfl, _⟩
        exact ⟨le_refl _, le_refl _⟩
  | @cons a mid b c cs hi hlast ih =>
      have hsum := h.rest'
      have hsign := h.live.remaining_sign hi.running
      have hne : a.1.amountSpecifiedRemaining ≠ 0 := fun hz => hi.running (Or.inl (Or.inl hz))
      have hrun' : ¬ (ctx.resumed n st').Halted a'.1 := by
        refine h.beside.running hi.running ?_
        have := h.sign1
        unfold SameSign at this
        omega
      have hwhole := h.whole
      cases hwhole with
      | nil _ => exact absurd h.halted' hrun'
      | @cons _ mid' _ c' cs' hi' hlast' =>
          by_cases hcovers : Covers a.1.sqrtPriceX96
              (ctx.clampedTarget (ctx.stepTarget a.2 a.1.tick)) a.1.liquidity
              a.1.amountSpecifiedRemaining ctx.fee
          · rcases h.step_covered hi hlast hi' hlast' hcovers with ⟨hequal, hnext⟩
            have hmore := ih hnext
            unfold NoBetter at hmore ⊢
            rw [taken_cons, taken_cons, freed_cons, freed_cons, hequal]
            omega
          · have hspent := hi.spent h.live hcovers
            rcases run_of_halted hlast (Or.inl (Or.inl hspent)) with ⟨rfl, rfl⟩
            by_cases hreached : c.next.sqrtPriceX96 =
                ctx.clampedTarget (ctx.stepTarget a.2 a.1.tick)
            · exact h.last_reached hi hi' hlast' hcovers hreached
            · exact h.last_short hi hi' hlast' hcovers hreached

end SwapContext

/-!
# Swaps in two parts
-/

/-- A request and the two requests it is made of. -/
structure SwapParamsInner.Parts (whole first second : SwapParamsInner) : Prop where
  direction : first.zeroForOne = whole.zeroForOne
  direction1 : second.zeroForOne = whole.zeroForOne
  limit : first.sqrtPriceLimit = whole.sqrtPriceLimit
  limit1 : second.sqrtPriceLimit = whole.sqrtPriceLimit
  feeOverride : first.lpFeeOverride = whole.lpFeeOverride
  feeOverride1 : second.lpFeeOverride = whole.lpFeeOverride
  sum : whole.amountSpecified = first.amountSpecified + second.amountSpecified
  sign : first.amountSpecified < 0 ∧ second.amountSpecified < 0 ∨
    0 < first.amountSpecified ∧ 0 < second.amountSpecified

namespace Pool

variable {P : Type} {p p' q q' : Pool P A} {whole first second : SwapParamsInner}
  {result result1 result' : SwapResult}

theorem LoopRun.resumed {ctx ctx' : SwapContext} {cs cs' : List StepComputations}
    {b b' : SwapLoopState × TickSlab A} (h : LoopRun p first ctx cs b)
    (h' : LoopRun p' second ctx' cs' b') (hspacing : p'.tickSpacing = p.tickSpacing)
    (hfees : p'.swapFee = p.swapFee) (hdirection : second.zeroForOne = first.zeroForOne)
    (hlimit : second.sqrtPriceLimit = first.sqrtPriceLimit)
    (hoverride : second.lpFeeOverride = first.lpFeeOverride) :
    ctx' = ctx.resumed second.amountSpecified p'.state := by
  rcases h.context with ⟨swapFee, hfee, rfl⟩
  rcases h'.context with ⟨swapFee', hfee', rfl⟩
  have hsame : swapFee' = swapFee := by
    unfold resolveSwapFee at hfee hfee'
    rw [hoverride, hfees, hfee] at hfee'
    cases hfee'
    rfl
  unfold swapContext SwapContext.resumed
  rw [hsame, hdirection, hlimit, hspacing]

theorem Swaps.split (hp : p.Usable) (hparts : whole.Parts first second)
    (hsmall : whole.amountSpecified < 0 -> whole.zeroForOne = true ->
      whole.amountSpecified.natAbs < 2 ^ 95)
    (h : p.Swaps first (.ok result) p') (h1 : p'.Swaps second (.ok result1) q)
    (h' : p.Swaps whole (.ok result') q') :
    result'.swapDelta.input whole.zeroForOne ≤
        result.swapDelta.input whole.zeroForOne + result1.swapDelta.input whole.zeroForOne ∧
      result.swapDelta.output whole.zeroForOne + result1.swapDelta.output whole.zeroForOne ≤
        result'.swapDelta.output whole.zeroForOne := by
  have hp' := hp.swap h
  have hsum := hparts.sum
  have hsign := hparts.sign
  rcases h with ⟨fuel, h⟩
  rcases h1 with ⟨fuel1, h1⟩
  rcases h' with ⟨fuel', h'⟩
  generalize hlist : p.swapComputations first fuel = cs
  generalize hlist1 : p'.swapComputations second fuel1 = ds
  generalize hlist' : p.swapComputations whole fuel' = cs'
  have hcases := swap_cases h
  have hcases1 := swap_cases h1
  have hcases' := swap_cases h'
  rw [hlist] at hcases
  rw [hlist1] at hcases1
  rw [hlist'] at hcases'
  cases hcases with
  | empty hzero => omega
  | @done ctx cs b delta hrun hhalt hdelta =>
      cases hcases1 with
      | empty hzero => omega
      | @done ctx1 ds e delta1 hrun1 hhalt1 hdelta1 =>
          cases hcases' with
          | empty hzero => omega
          | @done ctx' cs' e' delta' hrun' hhalt' hdelta' =>
              have hctx1 := hrun.resumed hrun1 rfl rfl
                (hparts.direction1.trans hparts.direction.symm)
                (hparts.limit1.trans hparts.limit.symm)
                (hparts.feeOverride1.trans hparts.feeOverride.symm)
              have hctx' := hrun.resumed hrun' rfl rfl hparts.direction.symm hparts.limit.symm
                hparts.feeOverride.symm
              subst hctx1 hctx'
              have hspecified := hrun.amountSpecified
              have hpast := checkLimit_eq_ok hrun1.limit
              have hsides := hrun.swapDelta hp hdelta
              have hsides1 := hrun1.swapDelta hp' hdelta1
              have hsides' := hrun'.swapDelta hp hdelta'
              have hzero := hrun.zeroForOne
              have hbetter := SwapContext.run_split
                { first := hrun.run
                  halted := hhalt
                  offLimit := fun heq => by
                    rcases hrun.context with ⟨swapFee, _, rfl⟩
                    have hlimit : second.sqrtPriceLimit = first.sqrtPriceLimit :=
                      hparts.limit1.trans hparts.limit.symm
                    change b.1.sqrtPriceX96 = first.sqrtPriceLimit at heq
                    change (_ -> _ < b.1.sqrtPriceX96) ∧ (_ -> b.1.sqrtPriceX96 < _) at hpast
                    cases hz : second.zeroForOne with
                    | true =>
                        have := hpast.1 hz
                        omega
                    | false =>
                        have := hpast.2 hz
                        omega
                  live := hrun.live hp
                  second := hrun1.run
                  halted1 := hhalt1
                  live1 := hrun1.live hp'
                  goesOn := ⟨rfl, rfl, rfl, rfl⟩
                  rest1 := rfl
                  whole := hrun'.run
                  halted' := hhalt'
                  live' := hrun'.live hp
                  beside := ⟨rfl, rfl, rfl, rfl⟩
                  rest' := hsum
                  sign1 := by
                    unfold SwapContext.SameSign
                    omega
                  sign' := by
                    unfold SwapContext.SameSign
                    omega
                  small := fun hin hz => by
                    refine hsmall (by omega) ?_
                    rw [← hparts.direction, ← hzero]
                    exact hz }
              rw [hparts.direction] at hsides
              rw [hparts.direction1] at hsides1
              show delta'.input _ ≤ delta.input _ + delta1.input _ ∧
                delta.output _ + delta1.output _ ≤ delta'.output _
              rw [hsides.1, hsides.2, hsides1.1, hsides1.2, hsides'.1, hsides'.2]
              exact ⟨by exact_mod_cast hbetter.1, by exact_mod_cast hbetter.2⟩

/-- Making a swap in two parts never pays: the swap of both amounts takes in no more and
pays out no less. An exact input of token0 is taken below the bound at which the price
formula of the code changes. -/
theorem swap_split [PositionsAccess P] (hp : p.Reachable) (hparts : whole.Parts first second)
    (hsmall : whole.amountSpecified < 0 -> whole.zeroForOne = true ->
      whole.amountSpecified.natAbs < 2 ^ 95)
    (h : p.Swaps first (.ok result) p') (h1 : p'.Swaps second (.ok result1) q)
    (h' : p.Swaps whole (.ok result') q') :
    result'.swapDelta.input whole.zeroForOne ≤
        result.swapDelta.input whole.zeroForOne + result1.swapDelta.input whole.zeroForOne ∧
      result.swapDelta.output whole.zeroForOne + result1.swapDelta.output whole.zeroForOne ≤
        result'.swapDelta.output whole.zeroForOne :=
  Swaps.split hp.usable hparts hsmall h h1 h'

end Pool

namespace Sample

def sellTwice : SwapParamsInner :=
  { sell with
    amountSpecified := -2 * 10 ^ 15
    amountFits := by decide }

def resultAgain : SwapResult :=
  { result with
    swapDelta := { amount0 := -10 ^ 15, amount1 := 994024895398478 }
    sqrtPriceX96 := 79070495945349311067275802387
    tick := -40 }

def resultTwice : SwapResult :=
  { resultAgain with
    swapDelta := { amount0 := -2 * 10 ^ 15, amount1 := 1990031876438381 } }

end Sample

namespace Pool

theorem swap_split_sample :
    Sample.resultTwice.swapDelta.input true ≤
        Sample.result.swapDelta.input true + Sample.resultAgain.swapDelta.input true ∧
      Sample.result.swapDelta.output true + Sample.resultAgain.swapDelta.output true ≤
        Sample.resultTwice.swapDelta.output true := by
  have hparts : Sample.sellTwice.Parts Sample.sell Sample.sell :=
    ⟨rfl, rfl, rfl, rfl, rfl, rfl, by decide, by decide⟩
  have hfirst : (Sample.restored.swap Sample.sell 3).map Prod.fst = some (.ok Sample.result) := by
    decide +kernel
  have hsecond : ((Sample.swapped Sample.restored Sample.sell 3).swap Sample.sell 3).map Prod.fst =
      some (.ok Sample.resultAgain) := by
    decide +kernel
  have hwhole : (Sample.restored.swap Sample.sellTwice 3).map Prod.fst =
      some (.ok Sample.resultTwice) := by
    decide +kernel
  exact swap_split Sample.restored_accepted.reachable hparts (fun _ _ => by decide)
    ⟨3, Sample.swap_eq hfirst⟩ ⟨3, Sample.swap_eq hsecond⟩ ⟨3, Sample.swap_eq hwhole⟩

end Pool

end RmUniswap
