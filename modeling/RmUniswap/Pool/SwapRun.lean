import RmUniswap.Foundation.Transition
import RmUniswap.Pool.SwapStep

/-!
# Runs of the swap loop

The loop is a run of its iterations that ends at a halted state or in a failing
iteration. What an iteration keeps, the loop keeps.
-/

namespace RmUniswap

open Foundation

variable {A : Type} [LawfulAllocator TickSlabValue A]

namespace SwapContext

def directed (ctx : SwapContext) (liquidityNet : Int) : Int :=
  if ctx.zeroForOne then wrappingNeg 128 liquidityNet else liquidityNet

/-- One iteration that succeeds, with the numbers it computed. -/
structure Iterates (ctx : SwapContext) (a : SwapLoopState × TickSlab A) (c : StepComputations)
    (b : SwapLoopState × TickSlab A) : Prop where
  running : ¬ ctx.Halted a.1
  computes : ctx.advance (ctx.stepTarget a.2 a.1.tick) a.1 = .ok c
  result : ctx.step a.1 a.2 = (.ok b.1, b.2)

section Cross

variable {ctx : SwapContext} {ticks ticks' : TickSlab A} {map : SortedMap Int TickInfoInner}
  {k : Int} {info : TickInfoInner} {s s' : SwapLoopState} {c : StepComputations}

theorem cross_eq (h : ticks.Holds ctx.tickSpacing map) (hget : map.get? k = some info)
    (liquidity growth : Nat) :
    exists ticks', ticks'.Holds ctx.tickSpacing
        (ctx.access.crossed map k info (ctx.globals growth)) ∧
      ctx.cross ticks liquidity (ticks.indexer k) growth =
        (okOr .liquidityUnderflow
          (checkedAddSigned 128 liquidity (ctx.directed info.liquidityNet)), ticks') := by
  have hcross := h.crossTick hget ctx.access (ctx.globals growth)
  refine ⟨_, hcross.2, ?_⟩
  unfold cross
  dsimp only
  generalize hr : ctx.access.crossTick ticks (ticks.indexer k) (ctx.globals growth).1
    (ctx.globals growth).2 = r at hcross
  rcases r with ⟨_ | net, ticks'⟩
  · cases hcross.1
  · cases hcross.1
    rfl

inductive Crosses (ctx : SwapContext) (map : SortedMap Int TickInfoInner) (s : SwapLoopState)
    (ticks : TickSlab A) (c : StepComputations) : Except Error SwapLoopState × TickSlab A -> Prop
  | stay : c.crossed = none -> Crosses ctx map s ticks c (.ok c.next, ticks)
  | pass {k : Int} {info : TickInfoInner} {ticks' : TickSlab A} {liquidity : Nat} :
      c.crossed = some k -> map.get? k = some info ->
      ticks'.Holds ctx.tickSpacing
        (ctx.access.crossed map k info (ctx.globals c.next.feeGrowthGlobalX128)) ->
      (liquidity : Int) = s.liquidity + ctx.directed info.liquidityNet -> liquidity < 2 ^ 128 ->
      Crosses ctx map s ticks c (.ok { c.next with liquidity }, ticks')
  | underflow {k : Int} {info : TickInfoInner} {ticks' : TickSlab A} :
      c.crossed = some k -> map.get? k = some info ->
      ticks'.Holds ctx.tickSpacing
        (ctx.access.crossed map k info (ctx.globals c.next.feeGrowthGlobalX128)) ->
      checkedAddSigned 128 s.liquidity (ctx.directed info.liquidityNet) = none ->
      Crosses ctx map s ticks c (.error .liquidityUnderflow, ticks')

theorem step_cases (hready : ctx.Ready s) (hrun : ¬ ctx.Halted s)
    (hticks : ticks.Holds ctx.tickSpacing map) :
    (exists e, ctx.advance (ctx.stepTarget ticks s.tick) s = .error e ∧
      ctx.step s ticks = (.error e, ticks)) ∨
    exists c, ctx.advance (ctx.stepTarget ticks s.tick) s = .ok c ∧
      ctx.Advances (ctx.stepTarget ticks s.tick) s c ∧
        Crosses ctx map s ticks c (ctx.step s ticks) := by
  unfold step
  dsimp only
  cases hadvance : ctx.advance (ctx.stepTarget ticks s.tick) s with
  | error e =>
      exact Or.inl ⟨e, rfl, rfl⟩
  | ok c =>
      have hc := advance_eq_ok hadvance
      have ht := hready.target_spec hrun hticks.keyed
      refine Or.inr ⟨c, rfl, hc, ?_⟩
      dsimp only
      cases hcross : c.crossed with
      | none =>
          have hcrossing : c.crossing = none := Option.map_eq_none_iff.mp hcross
          rw [hcrossing]
          exact Crosses.stay hcross
      | some k =>
          have hspec := crossed_spec ht hc hcross
          rcases hspec.1 with ⟨info, hget⟩
          rw [hticks.snapshot] at hget
          rw [hspec.2.2.1]
          dsimp only
          rcases cross_eq hticks hget s.liquidity c.next.feeGrowthGlobalX128 with
            ⟨ticks', hticks', heq⟩
          rw [heq]
          cases hadd : checkedAddSigned 128 s.liquidity (ctx.directed info.liquidityNet) with
          | none =>
              exact Crosses.underflow hcross hget hticks' hadd
          | some liquidity =>
              have hsum := checkedAddSigned_eq_some.mp hadd
              exact Crosses.pass hcross hget hticks' hsum.1 hsum.2

end Cross

/-!
# What a successful iteration keeps
-/

structure Invariant (ctx : SwapContext) (a : SwapLoopState × TickSlab A) : Prop where
  ready : ctx.Ready a.1
  keyed : a.2.Keyed
  spacing : a.2.tickSpacing = ctx.tickSpacing

section Iterate

variable {ctx : SwapContext} {a b : SwapLoopState × TickSlab A} {c : StepComputations}

theorem Invariant.holds (h : ctx.Invariant a) : a.2.Holds ctx.tickSpacing a.2.snapshot :=
  ⟨h.keyed, h.spacing, rfl⟩

theorem Invariant.target_spec (h : ctx.Invariant a) (hrun : ¬ ctx.Halted a.1) :
    (ctx.stepTarget a.2 a.1.tick).Spec ctx.zeroForOne a.2 a.1.tick :=
  h.ready.target_spec hrun h.keyed

theorem Iterates.advances (hi : ctx.Iterates a c b) :
    ctx.Advances (ctx.stepTarget a.2 a.1.tick) a.1 c :=
  advance_eq_ok hi.computes

theorem Iterates.cases (h : ctx.Invariant a) (hi : ctx.Iterates a c b) :
    (c.crossed = none ∧ b.1 = c.next ∧ b.2 = a.2) ∨
    exists k info, c.crossed = some k ∧ a.2.snapshot.get? k = some info ∧
      b.2.Holds ctx.tickSpacing (ctx.access.crossed a.2.snapshot k info
        (ctx.globals c.next.feeGrowthGlobalX128)) ∧
      b.1 = { c.next with liquidity := b.1.liquidity } ∧
      (b.1.liquidity : Int) = a.1.liquidity + ctx.directed info.liquidityNet ∧
      b.1.liquidity < 2 ^ 128 := by
  rcases step_cases h.ready hi.running h.holds with ⟨e, he, _⟩ | ⟨c', hc', _, hcrosses⟩
  · rw [hi.computes] at he
    cases he
  · rw [hi.computes] at hc'
    cases hc'
    rw [hi.result] at hcrosses
    rcases b with ⟨s', ticks'⟩
    cases hcrosses with
    | stay hnone =>
        exact Or.inl ⟨hnone, rfl, rfl⟩
    | pass hsome hget hticks hsum hlt =>
        exact Or.inr ⟨_, _, hsome, hget, hticks, rfl, hsum, hlt⟩

theorem Iterates.next (h : ctx.Invariant a) (hi : ctx.Iterates a c b) :
    b.1 = { c.next with liquidity := b.1.liquidity } := by
  rcases hi.cases h with ⟨_, hb, _⟩ | ⟨_, _, _, _, _, hb, _⟩
  · rw [hb]
  · exact hb

theorem Iterates.invariant (h : ctx.Invariant a) (hi : ctx.Iterates a c b) :
    ctx.Invariant b := by
  have ht := h.target_spec hi.running
  have hc := hi.advances
  have hticks : b.2.Keyed ∧ b.2.tickSpacing = ctx.tickSpacing ∧ b.1.liquidity < 2 ^ 128 := by
    rcases hi.cases h with ⟨_, hb, hb2⟩ | ⟨_, _, _, _, hholds, _, _, hlt⟩
    · rw [hb, hb2, hc.liquidity]
      exact ⟨h.keyed, h.spacing, h.ready.liquidity⟩
    · exact ⟨hholds.keyed, hholds.spacing, hlt⟩
  refine ⟨?_, hticks.1, hticks.2.1⟩
  have hb := hi.next h
  have hvalid := h.ready.next_price hi.running ht hc
  have hinTick := h.ready.next_inTick hi.running ht hc
  rw [hb]
  exact
    { spacing := h.ready.spacing
      fee := h.ready.fee
      limit := h.ready.limit
      price := hvalid
      down := fun hz => (h.ready.moves_down hi.running hz ht hc).2.2.1
      up := fun hz => (h.ready.moves_up hi.running hz ht hc).2.2.2
      inTick := hinTick
      liquidity := hticks.2.2
      remaining := hc.settles.remainingFits }

theorem Iterates.passes (h : ctx.Invariant a) (hi : ctx.Iterates a c b) :
    Passes ctx.zeroForOne a.2.snapshot c.crossed a.1.tick b.1.tick := by
  rw [hi.next h]
  exact h.ready.passes hi.running h.keyed (h.target_spec hi.running) hi.advances

end Iterate

/-!
# The loop
-/

inductive Ends (ctx : SwapContext) (a : SwapLoopState × TickSlab A) :
    List StepComputations -> Except Error SwapLoopState × TickSlab A -> Prop
  | halted : ctx.Halted a.1 -> Ends ctx a [] (.ok a.1, a.2)
  | rejected {e : Error} {ticks : TickSlab A} : ¬ ctx.Halted a.1 ->
      ctx.advance (ctx.stepTarget a.2 a.1.tick) a.1 = .error e ->
      ctx.step a.1 a.2 = (.error e, ticks) -> Ends ctx a [] (.error e, ticks)
  | failed {e : Error} {ticks : TickSlab A} {c : StepComputations} : ¬ ctx.Halted a.1 ->
      ctx.advance (ctx.stepTarget a.2 a.1.tick) a.1 = .ok c ->
      ctx.step a.1 a.2 = (.error e, ticks) -> Ends ctx a [c] (.error e, ticks)

theorem step_error_of_advance {ctx : SwapContext} {s : SwapLoopState} {ticks : TickSlab A}
    {e : Error} (h : ctx.advance (ctx.stepTarget ticks s.tick) s = .error e) :
    ctx.step s ticks = (.error e, ticks) := by
  unfold step
  dsimp only
  rw [h]

theorem Ends.ticks {ctx : SwapContext} {a : SwapLoopState × TickSlab A}
    {last : List StepComputations} {r : Except Error SwapLoopState × TickSlab A}
    (h : ctx.Ends a last r) (ha : ctx.Invariant a) :
    r.2.Keyed ∧ r.2.tickSpacing = ctx.tickSpacing := by
  cases h with
  | halted _ =>
      exact ⟨ha.keyed, ha.spacing⟩
  | rejected _ hadvance hstep =>
      rw [step_error_of_advance hadvance] at hstep
      cases hstep
      exact ⟨ha.keyed, ha.spacing⟩
  | failed hrunning hadvance hstep =>
      rcases step_cases ha.ready hrunning ha.holds with ⟨e, he, _⟩ | ⟨c, hc, _, hcrosses⟩
      · rw [hadvance] at he
        cases he
      · rw [hstep] at hcrosses
        cases hcrosses with
        | underflow _ _ hholds _ =>
            exact ⟨hholds.keyed, hholds.spacing⟩

theorem loop_run {ctx : SwapContext} {fuel : Nat} {s : SwapLoopState} {ticks : TickSlab A}
    {r : Except Error SwapLoopState × TickSlab A} (h : ctx.loop fuel s ticks = some r) :
    exists cs b last, Run ctx.Iterates (s, ticks) cs b ∧ ctx.Ends b last r ∧
      ctx.computations fuel s ticks = cs ++ last := by
  induction fuel generalizing s ticks with
  | zero =>
      cases h
  | succ fuel ih =>
      unfold loop at h
      unfold computations
      by_cases hhalt : ctx.Halted s
      · rw [if_pos hhalt] at h
        cases h
        rw [if_pos hhalt]
        exact ⟨[], (s, ticks), [], Run.nil _, Ends.halted hhalt, rfl⟩
      · rw [if_neg hhalt] at h
        rw [if_neg hhalt]
        cases hadvance : ctx.advance (ctx.stepTarget ticks s.tick) s with
        | error e =>
            have hstep := step_error_of_advance hadvance
            rw [hstep] at h
            cases h
            exact ⟨[], (s, ticks), [], Run.nil _, Ends.rejected hhalt hadvance hstep, rfl⟩
        | ok c =>
            dsimp only
            cases hstep : ctx.step s ticks with
            | mk result ticks' =>
                rw [hstep] at h
                cases result with
                | error e =>
                    cases h
                    exact ⟨[], (s, ticks), [c], Run.nil _, Ends.failed hhalt hadvance hstep, rfl⟩
                | ok s' =>
                    rcases ih h with ⟨cs, b, last, hrun, hend, hlist⟩
                    have hone : ctx.Iterates (s, ticks) c (s', ticks') :=
                      ⟨hhalt, hadvance, hstep⟩
                    refine ⟨c :: cs, b, last, Run.cons hone hrun, hend, ?_⟩
                    dsimp only
                    rw [hlist]
                    rfl

theorem run_invariant {ctx : SwapContext} {a b : SwapLoopState × TickSlab A}
    {cs : List StepComputations} (h : Run ctx.Iterates a cs b) (ha : ctx.Invariant a) :
    ctx.Invariant b :=
  h.invariant (fun _ _ _ hs hi => hi.invariant hs) ha

end SwapContext

end RmUniswap
