import RmUniswap.Pool.OrderedTicks
import RmUniswap.Pool.SwapRequest

/-!
# Termination of the swap loop

An iteration after which the exit test fails has reached its target, so it ended at
an initialized tick or at the end of a word and moved the tick past it. The ticks
and word ends left on the way to the limit bound the iterations still to come.
-/

namespace RmUniswap

open Foundation

variable {A : Type} [LawfulAllocator TickSlabValue A]

namespace SwapContext

/-- The exit test at the head of the loop. -/
def Exits (ctx : SwapContext) (s : SwapLoopState) : Prop :=
  s.amountSpecifiedRemaining = 0 ∨ s.sqrtPriceX96 = ctx.sqrtPriceLimitX96

instance (ctx : SwapContext) (s : SwapLoopState) : Decidable (ctx.Exits s) :=
  inferInstanceAs (Decidable (_ ∨ _))

def IsWordEnd (ctx : SwapContext) (k : Int) : Prop :=
  k % (256 * ctx.tickSpacing.value) =
    if ctx.zeroForOne then 0 else 255 * ctx.tickSpacing.value

instance (ctx : SwapContext) : DecidablePred ctx.IsWordEnd :=
  fun _ => inferInstanceAs (Decidable (_ = _))

noncomputable def way (ctx : SwapContext) (t : Int) : Finset Int :=
  if ctx.zeroForOne then Finset.Icc (getTickAtSqrtPrice ctx.sqrtPriceLimitX96) t
  else Finset.Ioc t (getTickAtSqrtPrice ctx.sqrtPriceLimitX96)

noncomputable def initializedOnWay (ctx : SwapContext) (ticks : SortedMap Int TickInfoInner)
    (t : Int) : Finset Int :=
  (ctx.way t).filter (· ∈ ticks.keys)

noncomputable def wordEndsOnWay (ctx : SwapContext) (t : Int) : Finset Int :=
  (ctx.way t).filter ctx.IsWordEnd

noncomputable def stops (ctx : SwapContext) (a : SwapLoopState × TickSlab A) : Finset Int :=
  ctx.initializedOnWay a.2.snapshot a.1.tick ∪ ctx.wordEndsOnWay a.1.tick

section Progress

variable {ctx : SwapContext} {a b : SwapLoopState × TickSlab A} {c : StepComputations}
  {ticks : TickSlab A} {t : Int}

theorem not_exits_of_running {s : SwapLoopState} (h : ¬ ctx.Halted s) : ¬ ctx.Exits s :=
  fun hexit => h (Or.inl hexit)

theorem wordBoundary_isWordEnd_down (hs : ctx.tickSpacing.IsPositive)
    (hz : ctx.zeroForOne = true) (ht : t ≤ maxTick) (hne : ctx.wordBoundary t ≠ minTick) :
    ctx.IsWordEnd (ctx.wordBoundary t) := by
  have hle := wordStart_le hs t
  have heq : ctx.wordBoundary t =
      t / ctx.tickSpacing.value / 2 ^ 8 * 2 ^ 8 * ctx.tickSpacing.value := by
    unfold wordBoundary at hne ⊢
    dsimp only at hne ⊢
    rw [hz, if_pos rfl] at hne ⊢
    omega
  unfold IsWordEnd
  rw [heq, hz, if_pos rfl, Int.mul_assoc, show (2 : Int) ^ 8 = 256 by norm_num, Int.mul_emod_left]

theorem wordBoundary_isWordEnd_up (hs : ctx.tickSpacing.IsPositive)
    (hz : ctx.zeroForOne = false) (ht : minTick - 1 ≤ t) (hne : ctx.wordBoundary t ≠ maxTick) :
    ctx.IsWordEnd (ctx.wordBoundary t) := by
  have hlt := lt_wordEnd hs t
  have heq : ctx.wordBoundary t = 255 * ctx.tickSpacing.value +
      (t / ctx.tickSpacing.value + 1) / 2 ^ 8 * (256 * ctx.tickSpacing.value) := by
    rw [show 255 * ctx.tickSpacing.value +
      (t / ctx.tickSpacing.value + 1) / 2 ^ 8 * (256 * ctx.tickSpacing.value) =
      ((t / ctx.tickSpacing.value + 1) / 2 ^ 8 * 2 ^ 8 + 255) * ctx.tickSpacing.value by ring]
    have horder : minTick ≤ maxTick := by decide
    unfold wordBoundary at hne ⊢
    dsimp only at hne ⊢
    rw [hz, if_neg Bool.false_ne_true] at hne ⊢
    omega
  unfold TickSpacing.IsPositive at hs
  unfold IsWordEnd
  rw [heq, hz, if_neg Bool.false_ne_true, Int.add_mul_emod_self_right,
    Int.emod_eq_of_lt (by omega) (by omega)]

/-- What a run of a swap keeps: the loop invariant and the sign of the rest. -/
structure Live (ctx : SwapContext) (a : SwapLoopState × TickSlab A) : Prop where
  invariant : ctx.Invariant a
  sign : ctx.KeepsSign a.1
  amount : ctx.amountSpecified ≠ 0

theorem Iterates.live (h : ctx.Live a) (hi : ctx.Iterates a c b) : ctx.Live b :=
  ⟨hi.invariant h.invariant, hi.keepsSign h.invariant h.sign, h.amount⟩

theorem Live.remaining_sign (h : ctx.Live a) (hrun : ¬ ctx.Halted a.1) :
    (a.1.amountSpecifiedRemaining < 0 ↔ ctx.amountSpecified < 0) ∧
      (0 < a.1.amountSpecifiedRemaining ↔ 0 < ctx.amountSpecified) := by
  have hne : a.1.amountSpecifiedRemaining ≠ 0 := fun hz => hrun (Or.inl (Or.inl hz))
  have hin := h.sign.exactIn
  have hout := h.sign.exactOut
  have hamount := h.amount
  omega

theorem Iterates.reaches_clamped (h : ctx.Live a) (hi : ctx.Iterates a c b)
    (hgo : b.1.amountSpecifiedRemaining ≠ 0) :
    c.next.sqrtPriceX96 = ctx.clampedTarget (ctx.stepTarget a.2 a.1.tick) := by
  have hfills := hi.fills h.invariant
  have hadvances := hi.advances
  have hne : a.1.amountSpecifiedRemaining ≠ 0 := fun hz => hi.running (Or.inl (Or.inl hz))
  rw [hi.next h.invariant] at hgo
  rw [hadvances.price]
  rcases lt_or_gt_of_ne h.amount with hin | hout
  · have hremaining := (hadvances.settles.exactIn (le_of_lt hin)).1
    have hle := h.sign.exactIn hin
    rcases (hfills.input (lt_of_le_of_ne hle hne)).2 with hreached | hused
    · exact hreached
    · dsimp only at hremaining hgo
      omega
  · have hremaining := (hadvances.settles.exactOut hout).1
    have hle := h.sign.exactOut hout
    rcases (hfills.output (lt_of_le_of_ne hle (Ne.symm hne))).2 with hreached | hused
    · exact hreached
    · dsimp only at hremaining hgo
      omega

/-- Short of the exit test, an iteration ended at its target's own price, which the
limit does not cut off. -/
theorem Iterates.reaches (h : ctx.Live a) (hi : ctx.Iterates a c b) (hgo : ¬ ctx.Exits b.1) :
    c.next.sqrtPriceX96 = (ctx.stepTarget a.2 a.1.tick).sqrtPriceX96 ∧
      (ctx.stepTarget a.2 a.1.tick).sqrtPriceX96 ≠ ctx.sqrtPriceLimitX96 := by
  have hclamped := hi.reaches_clamped h (fun hz => hgo (Or.inl hz))
  have hlimit : c.next.sqrtPriceX96 ≠ ctx.sqrtPriceLimitX96 := by
    intro heq
    apply hgo
    rw [hi.next h.invariant]
    exact Or.inr heq
  have hreached : c.next.sqrtPriceX96 = (ctx.stepTarget a.2 a.1.tick).sqrtPriceX96 := by
    unfold SwapContext.clampedTarget getSqrtPriceTarget at hclamped
    split at hclamped
    · rcases max_choice (ctx.stepTarget a.2 a.1.tick).sqrtPriceX96 ctx.sqrtPriceLimitX96
        with heq | heq
      · exact hclamped.trans heq
      · exact absurd (hclamped.trans heq) hlimit
    · rcases min_choice (ctx.stepTarget a.2 a.1.tick).sqrtPriceX96 ctx.sqrtPriceLimitX96
        with heq | heq
      · exact hclamped.trans heq
      · exact absurd (hclamped.trans heq) hlimit
  exact ⟨hreached, hreached ▸ hlimit⟩

theorem Iterates.tick_eq (h : ctx.Live a) (hi : ctx.Iterates a c b) (hgo : ¬ ctx.Exits b.1) :
    b.1.tick =
      if ctx.zeroForOne then (ctx.stepTarget a.2 a.1.tick).tickIndex - 1
      else (ctx.stepTarget a.2 a.1.tick).tickIndex := by
  rw [hi.next h.invariant]
  show c.next.tick = _
  rw [hi.advances.tick, tickAfter, if_pos (hi.reaches h hgo).1]

theorem Iterates.tick_moves (h : ctx.Live a) (hi : ctx.Iterates a c b) (hgo : ¬ ctx.Exits b.1) :
    if ctx.zeroForOne then b.1.tick < a.1.tick else a.1.tick < b.1.tick := by
  have ht := h.invariant.target_spec hi.running
  have htick := hi.tick_eq h hgo
  cases hz : ctx.zeroForOne with
  | true =>
      rw [hz, if_pos rfl] at htick
      rw [if_pos rfl]
      have hle := (ht.down hz).1
      omega
  | false =>
      rw [hz, if_neg Bool.false_ne_true] at htick
      rw [if_neg Bool.false_ne_true]
      have hlt := (ht.up hz).1
      omega

/-!
# The stops left
-/

theorem Iterates.target_mem_way (h : ctx.Live a) (hi : ctx.Iterates a c b)
    (hgo : ¬ ctx.Exits b.1) :
    (ctx.stepTarget a.2 a.1.tick).tickIndex ∈ ctx.way a.1.tick := by
  have ht := h.invariant.target_spec hi.running
  have hready := h.invariant.ready
  have hreached := hi.reaches h hgo
  have hfloor := getTickAtSqrtPrice_spec hready.limit
  have hclamp := hready.clampedTarget hi.running ht
  have hc := hi.advances
  generalize ctx.stepTarget a.2 a.1.tick = target at *
  unfold way
  cases hz : ctx.zeroForOne with
  | true =>
      rw [if_pos rfl, Finset.mem_Icc]
      refine ⟨?_, (ht.down hz).1⟩
      -- a target below the tick of the limit would have a smaller price
      by_contra hlt
      have hlo := ht.inRange.1
      have hhi := hfloor.1.2
      unfold minTick at hlo
      unfold maxTick at hhi
      have hprice := price_lt (by omega) (not_le.mp hlt) (by omega)
      have hmove := hready.moves_down hi.running hz ht hc
      rw [← ht.price, ← hreached.1] at hprice
      exact absurd (hprice.trans_le hfloor.2.1) (not_lt.mpr hmove.2.2.1)
  | false =>
      rw [if_neg Bool.false_ne_true, Finset.mem_Ioc]
      refine ⟨(ht.up hz).1, hfloor.2.2 _ ht.inRange ?_⟩
      have hmove := hready.moves_up hi.running hz ht hc
      rw [← ht.price, ← hreached.1]
      exact hmove.2.2.2

/-- It is initialized or ends its word: a boundary clamped to the end of the
protocol range has the price of the limit. -/
theorem Iterates.target_mem_stops (h : ctx.Live a) (hi : ctx.Iterates a c b)
    (hgo : ¬ ctx.Exits b.1) :
    (ctx.stepTarget a.2 a.1.tick).tickIndex ∈ ctx.stops a := by
  have hway := hi.target_mem_way h hgo
  have ht := h.invariant.target_spec hi.running
  have hready := h.invariant.ready
  rw [stops, Finset.mem_union, initializedOnWay, wordEndsOnWay, Finset.mem_filter,
    Finset.mem_filter]
  rcases ht.indexer with ⟨info, hget, _⟩ | ⟨_, hnone⟩
  · exact Or.inl ⟨hway, SortedMap.mem_keys_of_get? hget⟩
  · have hboundary := stepTarget_tickIndex hnone
    have hreached := hi.reaches h hgo
    have hc := hi.advances
    have hlimit := hready.limit
    have hprice := ht.price
    rw [hboundary] at hway hprice
    refine Or.inr ⟨hboundary ▸ hway, ?_⟩
    rw [hboundary]
    cases hz : ctx.zeroForOne with
    | true =>
        refine wordBoundary_isWordEnd_down hready.spacing hz hready.inTick.upper fun hmin => ?_
        have hmove := (hready.moves_down hi.running hz ht hc).2.2.1
        rw [hreached.1] at hmove
        rw [hmin, price_minTick] at hprice
        exact hreached.2 (le_antisymm (hprice ▸ hlimit.1) hmove)
    | false =>
        refine wordBoundary_isWordEnd_up hready.spacing hz hready.inTick.lower fun hmax => ?_
        have hmove := (hready.moves_up hi.running hz ht hc).2.2.2
        rw [hreached.1] at hmove
        rw [hmax, price_maxTick] at hprice
        exact hreached.2 (le_antisymm hmove (hprice ▸ hlimit.2))

theorem Iterates.keys_eq (h : ctx.Invariant a) (hi : ctx.Iterates a c b) :
    b.2.snapshot.keys = a.2.snapshot.keys := by
  rcases hi.cases h with ⟨_, _, hb⟩ | ⟨k, info, _, hget, hholds, _, _, _⟩
  · rw [hb]
  · rw [hholds.snapshot]
    unfold Access.crossed
    cases ctx.access with
    | shared => rfl
    | exclusive =>
        rw [SortedMap.keys_insert, Finset.insert_eq_of_mem (SortedMap.mem_keys_of_get? hget)]

/-- The stops left after such an iteration are left before it, and its target is not
among them. -/
theorem Iterates.stops_ssubset (h : ctx.Live a) (hi : ctx.Iterates a c b)
    (hgo : ¬ ctx.Exits b.1) : ctx.stops b ⊂ ctx.stops a := by
  have htarget := hi.target_mem_stops h hgo
  have hmoves := hi.tick_moves h hgo
  have htick := hi.tick_eq h hgo
  have hway : ctx.way b.1.tick ⊆ ctx.way a.1.tick ∧
      (ctx.stepTarget a.2 a.1.tick).tickIndex ∉ ctx.way b.1.tick := by
    unfold way
    cases hz : ctx.zeroForOne with
    | true =>
        rw [hz, if_pos rfl] at hmoves htick
        rw [if_pos rfl, if_pos rfl]
        refine ⟨Finset.Icc_subset_Icc (le_refl _) (le_of_lt hmoves), fun hmem => ?_⟩
        have := (Finset.mem_Icc.mp hmem).2
        omega
    | false =>
        rw [hz, if_neg Bool.false_ne_true] at hmoves htick
        rw [if_neg Bool.false_ne_true, if_neg Bool.false_ne_true]
        refine ⟨Finset.Ioc_subset_Ioc (le_of_lt hmoves) (le_refl _), fun hmem => ?_⟩
        have := (Finset.mem_Ioc.mp hmem).1
        omega
  have hsubset : ctx.stops b ⊆ ctx.stops a := by
    unfold stops initializedOnWay wordEndsOnWay
    rw [hi.keys_eq h.invariant]
    exact Finset.union_subset_union (Finset.filter_subset_filter _ hway.1)
      (Finset.filter_subset_filter _ hway.1)
  refine Finset.ssubset_iff_subset_ne.mpr ⟨hsubset, fun heq => ?_⟩
  rw [← heq] at htarget
  unfold stops initializedOnWay wordEndsOnWay at htarget
  rw [← Finset.filter_or] at htarget
  exact hway.2 (Finset.mem_filter.mp htarget).1

end Progress

/-!
# Runs
-/

section Runs

variable {ctx : SwapContext} {a b : SwapLoopState × TickSlab A} {cs : List StepComputations}

theorem run_live (h : Run ctx.Iterates a cs b) (ha : ctx.Live a) : ctx.Live b :=
  h.invariant (fun _ _ _ hs hi => hi.live hs) ha

def begun (ctx : SwapContext) (cs : List StepComputations) (s : SwapLoopState) : Nat :=
  cs.length + if ctx.Exits s then 0 else 1

theorem begun_le (h : Run ctx.Iterates a cs b) (ha : ctx.Live a) :
    ctx.begun cs b.1 ≤ 1 + (ctx.stops a).card := by
  have hstep (a : SwapLoopState × TickSlab A) (c : StepComputations)
      (b : SwapLoopState × TickSlab A) (hs : ctx.Live a) (hi : ctx.Iterates a c b) :
      ctx.Live b ∧ (¬ ctx.Exits b.1 -> (ctx.stops b).card < (ctx.stops a).card) :=
    ⟨hi.live hs, fun hgo => Finset.card_lt_card (hi.stops_ssubset hs hgo)⟩
  have hrunning (a : SwapLoopState × TickSlab A) (c : StepComputations)
      (b : SwapLoopState × TickSlab A) (hi : ctx.Iterates a c b) : ¬ ctx.Exits a.1 :=
    not_exits_of_running hi.running
  unfold begun
  by_cases hexit : ctx.Exits b.1
  · have := h.length_le_succ hstep hrunning ha
    rw [if_pos hexit]
    omega
  · have := h.length_add_le hstep hrunning ha hexit
    rw [if_neg hexit]
    omega

theorem loop_isSome (fuel : Nat) (s : SwapLoopState) (ticks : TickSlab A)
    (ha : ctx.Live (s, ticks)) (hfuel : (ctx.stops (s, ticks)).card + 1 < fuel) :
    (ctx.loop fuel s ticks).isSome = true := by
  induction fuel generalizing s ticks with
  | zero =>
      omega
  | succ fuel ih =>
      unfold loop
      by_cases hhalt : ctx.Halted s
      · rw [if_pos hhalt]
        rfl
      · rw [if_neg hhalt]
        cases hstep : ctx.step s ticks with
        | mk result ticks' =>
            cases result with
            | error e =>
                rfl
            | ok s' =>
                dsimp only
                cases hadvance : ctx.advance (ctx.stepTarget ticks s.tick) s with
                | error e =>
                    rw [step_error_of_advance hadvance] at hstep
                    cases hstep
                | ok c =>
                    have hi : ctx.Iterates (s, ticks) c (s', ticks') := ⟨hhalt, hadvance, hstep⟩
                    by_cases hexit : ctx.Exits s'
                    · have hdone : ctx.Halted s' := Or.inl hexit
                      cases fuel with
                      | zero => omega
                      | succ fuel =>
                          unfold loop
                          rw [if_pos hdone]
                          rfl
                    · have hlt := Finset.card_lt_card (hi.stops_ssubset ha hexit)
                      exact ih s' ticks' (hi.live ha) (by omega)

end Runs

end SwapContext

namespace Pool

variable {P : Type} {p : Pool P A} {params : SwapParamsInner} {access : Access} {swapFee : SwapFee}

theorem swapStart_live (access : Access) (hp : p.Usable) (hamount : params.amountSpecified ≠ 0)
    (hfee : p.resolveSwapFee params = .ok swapFee)
    (hlimit : checkLimit params.zeroForOne p.state.sqrtPriceX96 params.sqrtPriceLimit = .ok ()) :
    (p.swapContext access swapFee params).Live (p.swapStart params, p.ticks) :=
  { invariant := ⟨swapStart_ready access hp hfee hlimit, hp.keyed, hp.spacing⟩
    sign := ⟨le_of_lt, le_of_lt⟩
    amount := hamount }

theorem Usable.runSwap_ends (access : Access) (hp : p.Usable)
    (hamount : params.amountSpecified ≠ 0) (hfee : p.resolveSwapFee params = .ok swapFee)
    (hlimit : checkLimit params.zeroForOne p.state.sqrtPriceX96 params.sqrtPriceLimit = .ok ())
    {fuel : Nat} (hfuel : ((p.swapContext access swapFee params).stops
      (p.swapStart params, p.ticks)).card + 1 < fuel) :
    exists r, p.runSwap access params fuel = some r := by
  have hsome := SwapContext.loop_isSome fuel (p.swapStart params) p.ticks
    (swapStart_live access hp hamount hfee hlimit) hfuel
  rcases Option.isSome_iff_exists.mp hsome with ⟨r, hr⟩
  unfold runSwap
  rw [hfee]
  dsimp only
  unfold swapInner
  dsimp only
  rw [if_neg hamount, hlimit]
  dsimp only
  rw [hr]
  exact ⟨_, rfl⟩

/-- The iterations of a swap: each moves the tick unless the loop ends with it, their
number is bounded by the stops on the way to the limit, and fuel for that many is
enough. -/
theorem swap_terminates [PositionsAccess P] (access : Access) (hp : p.Accepted)
    (hamount : params.amountSpecified ≠ 0) (hfee : p.resolveSwapFee params = .ok swapFee)
    (hlimit : checkLimit params.zeroForOne p.state.sqrtPriceX96 params.sqrtPriceLimit = .ok ()) :
    let ctx := p.swapContext access swapFee params
    let start := (p.swapStart params, p.ticks)
    let bound := 1 + (ctx.initializedOnWay p.ticks.snapshot p.state.tick).card +
      (ctx.wordEndsOnWay p.state.tick).card
    (forall cs a c b, Run ctx.Iterates start cs a -> ctx.Iterates a c b -> ¬ ctx.Exits b.1 ->
      if params.zeroForOne then b.1.tick < a.1.tick else a.1.tick < b.1.tick) ∧
    (forall cs b, Run ctx.Iterates start cs b -> ctx.begun cs b.1 ≤ bound) ∧
    forall fuel, bound < fuel -> exists r, p.runSwap access params fuel = some r := by
  intro ctx start bound
  have hlive : ctx.Live start := swapStart_live access hp.sound.toUsable hamount hfee hlimit
  have hcard : 1 + (ctx.stops start).card ≤ bound := by
    have := Finset.card_union_le (ctx.initializedOnWay p.ticks.snapshot p.state.tick)
      (ctx.wordEndsOnWay p.state.tick)
    show 1 + (ctx.initializedOnWay p.ticks.snapshot p.state.tick ∪
      ctx.wordEndsOnWay p.state.tick).card ≤ _
    omega
  refine ⟨fun cs a c b hrun hi hgo => hi.tick_moves (SwapContext.run_live hrun hlive) hgo,
    fun cs b hrun => (SwapContext.begun_le hrun hlive).trans hcard, fun fuel hfuel => ?_⟩
  apply hp.sound.toUsable.runSwap_ends access hamount hfee hlimit
  show (ctx.stops start).card + 1 < fuel
  omega

theorem swap_terminates_sample :
    exists fuel r, Sample.restored.runSwap .exclusive Sample.sell fuel = some r := by
  have hfee : Sample.restored.resolveSwapFee Sample.sell = .ok Sample.restored.swapFee := by
    decide +kernel
  exact ⟨_, (swap_terminates .exclusive Sample.restored_accepted (by decide) hfee
    (by decide +kernel)).2.2 _ (Nat.lt_succ_self _)⟩

end Pool

end RmUniswap
