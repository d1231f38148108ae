import RmUniswap.Math.SwapMonotone
import RmUniswap.Pool.Quote
import RmUniswap.Pool.Termination

/-!
# Swaps of larger amounts

Two swaps that differ in the amount only take the same steps for as long as the
smaller amount pays for whole steps. The step that ends the smaller swap is compared
with its counterpart, and the larger swap only adds to it.
-/

namespace RmUniswap

open Foundation

variable {A : Type} [LawfulAllocator TickSlabValue A]

def SwapContext.withAmount (ctx : SwapContext) (amountSpecified : Int) : SwapContext :=
  { ctx with amountSpecified }

def SwapLoopState.withRemaining (s : SwapLoopState) (amountSpecifiedRemaining : Int) :
    SwapLoopState :=
  { s with amountSpecifiedRemaining }

def StepComputations.gross (c : StepComputations) : Nat :=
  c.swapStep.amountIn + c.swapStep.feeAmount

namespace SwapContext

section Withs

variable {ctx : SwapContext} {s : SwapLoopState} {target : StepTarget} {c c' : StepComputations}
  {m r : Int}

def SameSign (ctx : SwapContext) (m : Int) : Prop :=
  ctx.amountSpecified < 0 ∧ m < 0 ∨ 0 < ctx.amountSpecified ∧ 0 < m

theorem advance_withRemaining (hsign : ctx.SameSign m) (h : ctx.advance target s = .ok c)
    (h' : (ctx.withAmount m).advance target (s.withRemaining r) = .ok c')
    (hstep : c'.swapStep = c.swapStep) :
    c'.next = c.next.withRemaining c'.next.amountSpecifiedRemaining ∧
      c'.crossing = c.crossing := by
  have hsettles := (advance_eq_ok h).settles
  have hsettles' := (advance_eq_ok h').settles
  have hcalculated : c'.next.amountCalculated = c.next.amountCalculated := by
    rw [hstep] at hsettles'
    rcases hsign with ⟨hin, hin'⟩ | ⟨hout, hout'⟩
    · exact (hsettles'.exactIn (le_of_lt hin')).2.trans (hsettles.exactIn (le_of_lt hin)).2.symm
    · exact (hsettles'.exactOut hout').2.trans (hsettles.exactOut hout).2.symm
  unfold advance at h h'
  rcases bind_eq_ok.mp h with ⟨step, _, h⟩
  rcases bind_eq_ok.mp h with ⟨amounts, _, h⟩
  rcases bind_eq_ok.mp h with ⟨fees, hfees, h⟩
  rcases bind_eq_ok.mp h with ⟨growth, hgrowth, h⟩
  rcases bind_eq_ok.mp h' with ⟨step', _, h'⟩
  rcases bind_eq_ok.mp h' with ⟨amounts', _, h'⟩
  rcases bind_eq_ok.mp h' with ⟨fees', hfees', h'⟩
  rcases bind_eq_ok.mp h' with ⟨growth', hgrowth', h'⟩
  cases h
  cases h'
  dsimp only at hstep hcalculated
  subst hstep
  have hfees' : splitFee ctx.fee ctx.protocolFeePips s.amountToProtocol step' = .ok fees' := hfees'
  rw [hfees] at hfees'
  cases hfees'
  have hgrowth' : growFee s.feeGrowthGlobalX128 fees.1 s.liquidity = .ok growth' := hgrowth'
  rw [hgrowth] at hgrowth'
  cases hgrowth'
  refine ⟨?_, rfl⟩
  unfold SwapLoopState.withRemaining
  dsimp only
  rw [hcalculated]
  rfl

theorem step_withRemaining {ticks : TickSlab A} {b b' : SwapLoopState × TickSlab A}
    (hsign : ctx.SameSign m) (h : ctx.advance (ctx.stepTarget ticks s.tick) s = .ok c)
    (h' : (ctx.withAmount m).advance ((ctx.withAmount m).stepTarget ticks (s.withRemaining r).tick)
      (s.withRemaining r) = .ok c')
    (hequal : c'.swapStep = c.swapStep) (hstep : ctx.step s ticks = (.ok b.1, b.2))
    (hstep' : (ctx.withAmount m).step (s.withRemaining r) ticks = (.ok b'.1, b'.2)) :
    b'.1 = b.1.withRemaining b'.1.amountSpecifiedRemaining ∧ b'.2 = b.2 := by
  have hlevel := advance_withRemaining hsign h h' hequal
  rcases b with ⟨b, ticksB⟩
  rcases b' with ⟨b', ticksB'⟩
  unfold step at hstep hstep'
  dsimp only at hstep hstep'
  rw [h] at hstep
  rw [h'] at hstep'
  dsimp only at hstep hstep'
  rw [hlevel.2] at hstep'
  cases hcrossing : c.crossing with
  | none =>
      rw [hcrossing] at hstep hstep'
      cases hstep
      cases hstep'
      exact ⟨hlevel.1, rfl⟩
  | some tickIndexer =>
      rw [hcrossing] at hstep hstep'
      dsimp only at hstep hstep'
      have hcross : (ctx.withAmount m).cross ticks (s.withRemaining r).liquidity tickIndexer
          c'.next.feeGrowthGlobalX128 =
          ctx.cross ticks s.liquidity tickIndexer c.next.feeGrowthGlobalX128 := by
        rw [hlevel.1]
        rfl
      rw [hcross] at hstep'
      generalize ctx.cross ticks s.liquidity tickIndexer c.next.feeGrowthGlobalX128 = crossed
        at hstep hstep'
      rcases crossed with ⟨_ | liquidity, ticks'⟩
      · cases hstep
      · cases hstep
        cases hstep'
        dsimp only
        rw [hlevel.1]
        exact ⟨rfl, rfl⟩

end Withs

/-!
# Steps in parallel
-/

section Parallel

variable {ctx : SwapContext} {a b a' b' : SwapLoopState × TickSlab A} {c c' : StepComputations}
  {cs cs' : List StepComputations} {m : Int}

/-- The second state differs in the rest only, of which it has at least as much. -/
structure Ahead (a a' : SwapLoopState × TickSlab A) : Prop where
  state : a'.1 = a.1.withRemaining a'.1.amountSpecifiedRemaining
  ticks : a'.2 = a.2
  rest : a.1.amountSpecifiedRemaining.natAbs ≤ a'.1.amountSpecifiedRemaining.natAbs

theorem Ahead.running (h : Ahead a a') (hrun : ¬ ctx.Halted a.1) :
    ¬ (ctx.withAmount m).Halted a'.1 := by
  have hrest := h.rest
  rw [h.state]
  rintro ((hzero | hlimit) | hdry)
  · change a'.1.amountSpecifiedRemaining = 0 at hzero
    exact hrun (Or.inl (Or.inl (by omega)))
  · exact hrun (Or.inl (Or.inr hlimit))
  · exact hrun (Or.inr hdry)

theorem Iterates.spent (h : ctx.Live a) (hi : ctx.Iterates a c b)
    (hshort : ¬ Covers a.1.sqrtPriceX96 (ctx.clampedTarget (ctx.stepTarget a.2 a.1.tick))
      a.1.liquidity a.1.amountSpecifiedRemaining ctx.fee) :
    b.1.amountSpecifiedRemaining = 0 := by
  have hready := h.invariant.ready
  have hclamp := hready.clampedTarget hi.running (h.invariant.target_spec hi.running)
  have hne : a.1.amountSpecifiedRemaining ≠ 0 := fun hz => hi.running (Or.inl (Or.inl hz))
  have hpositive : 0 < a.1.liquidity := Nat.pos_of_ne_zero fun hz => hi.running (Or.inr hz)
  have heq := computeSwapStep_eq hready.price hclamp.1 hpositive hready.liquidity hready.fee
    hne hready.remaining hi.advances.swapStep
  have hspends := plainStep_spends hready.fee hshort heq
  have hsign := h.remaining_sign hi.running
  have hsettles := hi.advances.settles
  rw [hi.next h.invariant]
  dsimp only
  rcases lt_or_gt_of_ne h.amount with hin | hout
  · have hremaining := (hsettles.exactIn (le_of_lt hin)).1
    have hused := hspends.1 (hsign.1.mpr hin)
    dsimp only at hremaining
    omega
  · have hremaining := (hsettles.exactOut hout).1
    have hused := hspends.2 (hsign.2.mpr hout)
    dsimp only at hremaining
    omega

/-- The steps of the two requests compare, and agree when the smaller rest pays for
the whole way. -/
theorem Iterates.ahead_step (h : ctx.Live a) (h' : (ctx.withAmount m).Live a')
    (hahead : Ahead a a') (hsign : ctx.SameSign m) (hi : ctx.Iterates a c b)
    (hi' : (ctx.withAmount m).Iterates a' c' b') :
    (b.1.amountSpecifiedRemaining ≠ 0 -> c'.swapStep = c.swapStep) ∧
      StepLe ctx.zeroForOne c.swapStep c'.swapStep := by
  have ht := h.invariant.target_spec hi.running
  have hready := h.invariant.ready
  have hready' := h'.invariant.ready
  have hclamp := hready.clampedTarget hi.running ht
  have hne : a.1.amountSpecifiedRemaining ≠ 0 := fun hz => hi.running (Or.inl (Or.inl hz))
  have hne' : a'.1.amountSpecifiedRemaining ≠ 0 := fun hz => hi'.running (Or.inl (Or.inl hz))
  have hpositive : 0 < a.1.liquidity := Nat.pos_of_ne_zero fun hz => hi.running (Or.inr hz)
  have hside := h.remaining_sign hi.running
  have hside' := h'.remaining_sign hi'.running
  have hsame : a.1.amountSpecifiedRemaining < 0 ↔ a'.1.amountSpecifiedRemaining < 0 := by
    change (_ ↔ m < 0) ∧ (_ ↔ 0 < m) at hside'
    unfold SameSign at hsign
    omega
  have hstep := hi.advances.swapStep
  have hstep' := hi'.advances.swapStep
  rw [hahead.state, hahead.ticks] at hstep'
  change computeSwapStep a.1.sqrtPriceX96 (ctx.clampedTarget (ctx.stepTarget a.2 a.1.tick))
    a.1.liquidity a'.1.amountSpecifiedRemaining ctx.fee = .ok c'.swapStep at hstep'
  have hmono := computeSwapStep_mono hready.price hclamp.1 hpositive hready.liquidity hready.fee
    hne hready.remaining hne' hready'.remaining hsame hahead.rest hstep hstep'
  by_cases hcovers : Covers a.1.sqrtPriceX96 (ctx.clampedTarget (ctx.stepTarget a.2 a.1.tick))
      a.1.liquidity a.1.amountSpecifiedRemaining ctx.fee
  · have hequal := hmono.1 hcovers
    refine ⟨fun _ => hequal, ?_⟩
    rw [hequal]
    exact ⟨le_refl _, le_refl _, Farther.refl _ _⟩
  · refine ⟨fun hgo => absurd (hi.spent h hcovers) hgo, ?_⟩
    -- a zero-width step is paid for
    have hdirection : decide (a.1.sqrtPriceX96 ≥
        ctx.clampedTarget (ctx.stepTarget a.2 a.1.tick)) = ctx.zeroForOne := by
      cases hz : ctx.zeroForOne with
      | true =>
          exact decide_eq_true (hclamp.2.1 hz).1
      | false =>
          refine decide_eq_false fun hge => hcovers ?_
          rw [le_antisymm hge (hclamp.2.2 hz).1]
          exact covers_self
    rw [← hdirection]
    exact hmono.2

theorem Iterates.ahead (h : ctx.Live a) (h' : (ctx.withAmount m).Live a')
    (hahead : Ahead a a') (hsign : ctx.SameSign m) (hi : ctx.Iterates a c b)
    (hi' : (ctx.withAmount m).Iterates a' c' b') (hequal : c'.swapStep = c.swapStep) :
    Ahead b b' := by
  have hadvance := hi.computes
  have hresult := hi.result
  have hadvance' := hi'.computes
  have hresult' := hi'.result
  rw [hahead.state, hahead.ticks] at hadvance' hresult'
  have hstate := step_withRemaining hsign hadvance hadvance' hequal hresult hresult'
  refine ⟨hstate.1, hstate.2, ?_⟩
  have hkeeps := (hi.live h).sign
  have hkeeps' := (hi'.live h').sign
  have hsettles := hi.advances.settles
  have hsettles' := hi'.advances.settles
  have hrest := hahead.rest
  have hbefore := h.sign
  have hbefore' := h'.sign
  rw [hequal] at hsettles'
  rw [hi.next h.invariant] at hkeeps ⊢
  rw [hi'.next h'.invariant] at hkeeps' ⊢
  rcases hsign with ⟨hin, hin'⟩ | ⟨hout, hout'⟩
  · have hused := (hsettles.exactIn (le_of_lt hin)).1
    have hused' := (hsettles'.exactIn (le_of_lt hin')).1
    have hle := hkeeps.exactIn hin
    have hle' := hkeeps'.exactIn hin'
    have hbelow := hbefore.exactIn hin
    have hbelow' := hbefore'.exactIn hin'
    dsimp only at hused hused' hle hle' ⊢
    omega
  · have hused := (hsettles.exactOut hout).1
    have hused' := (hsettles'.exactOut hout').1
    have hle := hkeeps.exactOut hout
    have hle' := hkeeps'.exactOut hout'
    have habove := hbefore.exactOut hout
    have habove' := hbefore'.exactOut hout'
    dsimp only at hused hused' hle hle' ⊢
    omega

end Parallel

/-!
# Runs in parallel
-/

section Runs

variable {ctx : SwapContext} {a b a' b' : SwapLoopState × TickSlab A}
  {cs cs' : List StepComputations} {m : Int}

theorem run_farther (h : Run ctx.Iterates a cs b) (ha : ctx.Invariant a) :
    Farther ctx.zeroForOne a.1.sqrtPriceX96 b.1.sqrtPriceX96 := by
  have hprice := run_price h ha
  unfold Farther
  cases hz : ctx.zeroForOne with
  | true => exact hprice.1 hz
  | false => exact hprice.2 hz

theorem run_mono (h : Run ctx.Iterates a cs b) (hhalt : ctx.Halted b.1) (ha : ctx.Live a)
    (h' : Run (ctx.withAmount m).Iterates a' cs' b') (hhalt' : (ctx.withAmount m).Halted b'.1)
    (ha' : (ctx.withAmount m).Live a') (hsign : ctx.SameSign m) (hahead : Ahead a a') :
    (cs.map StepComputations.gross).sum ≤ (cs'.map StepComputations.gross).sum ∧
      (cs.map fun c => c.swapStep.amountOut).sum ≤ (cs'.map fun c => c.swapStep.amountOut).sum ∧
      Farther ctx.zeroForOne b.1.sqrtPriceX96 b'.1.sqrtPriceX96 := by
  induction h generalizing a' cs' with
  | nil a =>
      have hprice := run_farther h' ha'.invariant
      rw [hahead.state] at hprice
      exact ⟨Nat.zero_le _, Nat.zero_le _, hprice⟩
  | @cons a mid b c cs hi hrest ih =>
      cases h' with
      | nil a' =>
          exact absurd hhalt' (hahead.running hi.running)
      | @cons a' mid' b' c' cs' hi' hrest' =>
          have hstep := hi.ahead_step ha ha' hahead hsign hi'
          by_cases hgo : mid.1.amountSpecifiedRemaining = 0
          · -- the smaller swap ends with this step
            have hdone : ctx.Halted mid.1 := Or.inl (Or.inl hgo)
            cases hrest with
            | nil _ =>
                have hlonger := run_farther hrest' (hi'.live ha').invariant
                have hfarther := hstep.2.price
                rw [← hi.advances.price, ← hi'.advances.price] at hfarther
                rw [hi'.next ha'.invariant] at hlonger
                rw [hi.next ha.invariant]
                simp only [List.map_cons, List.map_nil, List.sum_cons, List.sum_nil, Nat.add_zero]
                exact ⟨hstep.2.input.trans (Nat.le_add_right _ _),
                  hstep.2.output.trans (Nat.le_add_right _ _), hfarther.trans hlonger⟩
            | cons hnext _ =>
                exact absurd hdone hnext.running
          · have hequal := hstep.1 hgo
            have hmid := hi.ahead ha ha' hahead hsign hi' hequal
            have hmore := ih hhalt (hi.live ha) hrest' (hi'.live ha') hmid
            simp only [List.map_cons, List.sum_cons]
            unfold StepComputations.gross at hmore ⊢
            rw [hequal]
            exact ⟨Nat.add_le_add_left hmore.1 _, Nat.add_le_add_left hmore.2.1 _, hmore.2.2⟩

end Runs

end SwapContext

/-!
# Swaps and quotes
-/

/-- The same request for at least as large an amount of the same kind. -/
structure SwapParamsInner.Extends (params' params : SwapParamsInner) : Prop where
  direction : params'.zeroForOne = params.zeroForOne
  limit : params'.sqrtPriceLimit = params.sqrtPriceLimit
  feeOverride : params'.lpFeeOverride = params.lpFeeOverride
  amount : params'.amountSpecified ≤ params.amountSpecified ∧ params.amountSpecified < 0 ∨
    0 < params.amountSpecified ∧ params.amountSpecified ≤ params'.amountSpecified

/-- A result that takes in, pays out and moves the price no more than another one. -/
structure SwapResult.AtMost (result result' : SwapResult) (zeroForOne : Bool)
    (sqrtPriceX96 : Nat) : Prop where
  input : result.swapDelta.input zeroForOne ≤ result'.swapDelta.input zeroForOne
  output : result.swapDelta.output zeroForOne ≤ result'.swapDelta.output zeroForOne
  distance : Nat.dist sqrtPriceX96 result.sqrtPriceX96 ≤
    Nat.dist sqrtPriceX96 result'.sqrtPriceX96

namespace Pool

variable {P : Type} {p q q' : Pool P A} {params params' : SwapParamsInner} {ctx : SwapContext}
  {cs : List StepComputations} {b : SwapLoopState × TickSlab A} {result result' : SwapResult}

theorem LoopRun.live (h : LoopRun p params ctx cs b) (hp : p.Usable) :
    ctx.Live (p.swapStart params, p.ticks) := by
  rcases h.context with ⟨swapFee, hfee, rfl⟩
  exact swapStart_live .exclusive hp h.amount hfee h.limit

theorem LoopRun.withAmount {ctx' : SwapContext} {cs' : List StepComputations}
    {b' : SwapLoopState × TickSlab A} (h : LoopRun p params ctx cs b)
    (h' : LoopRun p params' ctx' cs' b') (hparams : params'.Extends params) :
    ctx' = ctx.withAmount params'.amountSpecified ∧ ctx.SameSign params'.amountSpecified ∧
      SwapContext.Ahead (p.swapStart params, p.ticks) (p.swapStart params', p.ticks) := by
  have hamount := hparams.amount
  have hspecified := h.amountSpecified
  rcases h.context with ⟨swapFee, hfee, rfl⟩
  rcases h'.context with ⟨swapFee', hfee', rfl⟩
  have hsame : swapFee' = swapFee := by
    unfold resolveSwapFee at hfee hfee'
    rw [hparams.feeOverride, hfee] at hfee'
    cases hfee'
    rfl
  refine ⟨?_, ?_, ?_, rfl, ?_⟩
  · unfold swapContext SwapContext.withAmount
    rw [hsame, hparams.direction, hparams.limit]
  · unfold SwapContext.SameSign
    rw [hspecified]
    omega
  · unfold swapStart SwapLoopState.withRemaining
    rw [hparams.direction]
  · change params.amountSpecified.natAbs ≤ params'.amountSpecified.natAbs
    omega

theorem Swaps.atMost (hp : p.Usable) (hparams : params'.Extends params)
    (h : p.Swaps params (.ok result) q) (h' : p.Swaps params' (.ok result') q') :
    result.AtMost result' params.zeroForOne p.state.sqrtPriceX96 := by
  rcases h with ⟨fuel, h⟩
  rcases h' with ⟨fuel', h'⟩
  have hamount := hparams.amount
  generalize hlist : p.swapComputations params fuel = list
  generalize hlist' : p.swapComputations params' fuel' = list'
  have hcases := swap_cases h
  have hcases' := swap_cases h'
  rw [hlist] at hcases
  rw [hlist'] at hcases'
  cases hcases with
  | empty hzero =>
      omega
  | @done ctx cs b delta hrun hhalt hdelta =>
      cases hcases' with
      | empty hzero =>
          omega
      | @done ctx' cs' b' delta' hrun' hhalt' hdelta' =>
          have hsides := hrun.swapDelta hp hdelta
          have hsides' := hrun'.swapDelta hp hdelta'
          rcases hrun.withAmount hrun' hparams with ⟨rfl, hsign, hahead⟩
          have hmono := SwapContext.run_mono hrun.run hhalt (hrun.live hp) hrun'.run hhalt'
            (hrun'.live hp) hsign hahead
          have hmoved := SwapContext.run_farther hrun.run (hrun.start hp)
          rw [hparams.direction] at hsides'
          refine ⟨?_, ?_, hmoved.dist_le hmono.2.2⟩
          · show delta.input _ ≤ delta'.input _
            rw [hsides.1, hsides'.1]
            exact Int.ofNat_le.mpr hmono.1
          · show delta.output _ ≤ delta'.output _
            rw [hsides.2, hsides'.2]
            exact Int.ofNat_le.mpr hmono.2.1

/-- Swaps and quotes grow with the amount. -/
theorem quotes_mono [PositionsAccess P] (access : Access) (hp : p.Accepted)
    (hparams : params'.Extends params) {fuel fuel' : Nat}
    (h : (p.runSwap access params fuel).map Prod.fst = some (.ok result))
    (h' : (p.runSwap access params' fuel').map Prod.fst = some (.ok result')) :
    result.AtMost result' params.zeroForOne p.state.sqrtPriceX96 := by
  have husable := hp.sound.toUsable
  have hswaps {params : SwapParamsInner} {fuel : Nat} {result : SwapResult}
      (h : (p.runSwap access params fuel).map Prod.fst = some (.ok result)) :
      exists q, p.Swaps params (.ok result) q := by
    have hswap : (p.swap params fuel).map Prod.fst = some (.ok result) := by
      cases access with
      | shared =>
          rw [← quoteSwap_eq husable]
          exact h
      | exclusive => exact h
    rcases Option.map_eq_some_iff.mp hswap with ⟨⟨r, q⟩, hq, hr⟩
    cases hr
    exact ⟨q, fuel, hq⟩
  rcases hswaps h with ⟨q, hq⟩
  rcases hswaps h' with ⟨q', hq'⟩
  exact Swaps.atMost husable hparams hq hq'

end Pool

namespace Sample

def sellAll : SwapParamsInner :=
  { sell with
    amountSpecified := -10 ^ 16
    amountFits := by decide }

def emptied : SwapResult :=
  { result with
    swapDelta := { amount0 := -3013394245478362, amount1 := 2995354955910780 }
    sqrtPriceX96 := 78990846045029531151608375686
    tick := -61
    liquidity := 0 }

end Sample

namespace Pool

theorem quotes_mono_sample :
    Sample.result.AtMost Sample.emptied true Sample.restored.state.sqrtPriceX96 := by
  have hresult : (Sample.restored.runSwap .shared Sample.sell 3).map Prod.fst =
      some (.ok Sample.result) := by
    decide +kernel
  have hresult' : (Sample.restored.runSwap .shared Sample.sellAll 6).map Prod.fst =
      some (.ok Sample.emptied) := by
    decide +kernel
  have hparams : Sample.sellAll.Extends Sample.sell := ⟨rfl, rfl, rfl, by decide⟩
  exact quotes_mono .shared Sample.restored_accepted hparams hresult hresult'

end Pool

end RmUniswap
