import RmUniswap.Pool.Operation

/-!
# Price, tick and active liquidity

The tick of a pool is the floor of its price, except after a move down that
reached the price of the next tick exactly. A move up keeps the tick at the floor
or leaves price and tick where they were.
-/

namespace RmUniswap

open Foundation

variable {A : Type} [LawfulAllocator TickSlabValue A]

/-- The operation is a move down that left this price and tick. -/
def Operation.LeavesDown (state : PoolState) : Operation -> Prop
  | .modifyLiquidity _ _ => False
  | .swap params result => params.zeroForOne = true ∧
      result.sqrtPriceX96 = state.sqrtPriceX96 ∧ result.tick = state.tick
  | .setProtocolFee _ => False

theorem PriceInTick.of_eq_floor {t : Int} {p : Nat} (hp : IsValidSqrtPrice p)
    (h : getTickAtSqrtPrice p = t) (ht : t < maxTick) : p < getSqrtPriceAtTick (t + 1) := by
  have hspec := getTickAtSqrtPrice_spec hp
  have hiff := (getTickAtSqrtPrice_eq_iff hp hspec.1).mp rfl
  rw [h] at hiff
  exact hiff.2 ht

theorem PriceInTick.eq_floor_or_next {t : Int} {p : Nat} (h : PriceInTick t p)
    (hp : IsValidSqrtPrice p) :
    getTickAtSqrtPrice p = t ∨ p = getSqrtPriceAtTick (t + 1) := by
  have hlo := h.lower
  have hhi := h.upper
  by_cases hmin : minTick ≤ t
  · rw [getTickAtSqrtPrice_eq_iff hp ⟨hmin, hhi⟩]
    by_cases hmax : t < maxTick
    · rcases (h.ceil hmax).lt_or_eq with hlt | heq
      · exact Or.inl ⟨h.floor hmin, fun _ => hlt⟩
      · exact Or.inr heq
    · exact Or.inl ⟨h.floor hmin, fun hlt => (hmax hlt).elim⟩
  · have hnext : t + 1 = minTick := by omega
    rw [h.eq_min hp (not_le.mp hmin), hnext, price_minTick]
    exact Or.inr rfl

namespace SwapContext

variable {ctx : SwapContext} {a b : SwapLoopState × TickSlab A} {c : StepComputations}

theorem Iterates.floor (h : ctx.Invariant a) (hi : ctx.Iterates a c b)
    (hz : ctx.zeroForOne = false) :
    getTickAtSqrtPrice b.1.sqrtPriceX96 = b.1.tick ∨
      (b.1.sqrtPriceX96 = a.1.sqrtPriceX96 ∧ b.1.tick = a.1.tick) := by
  have ht := h.target_spec hi.running
  have hc := hi.advances
  have htick := hc.tick
  unfold tickAfter at htick
  simp only [hz, Bool.false_eq_true, if_false] at htick
  rw [hi.next h]
  show getTickAtSqrtPrice c.next.sqrtPriceX96 = c.next.tick ∨
    (c.next.sqrtPriceX96 = a.1.sqrtPriceX96 ∧ c.next.tick = a.1.tick)
  split at htick
  · rename_i hreached
    rw [htick, hreached, ht.price, getTickAtSqrtPrice_price ht.inRange]
    exact Or.inl rfl
  · split at htick
    · exact Or.inl htick.symm
    · rename_i hsame
      exact Or.inr ⟨not_not.mp hsame, htick⟩

end SwapContext

namespace Pool

section InStep

variable {p p' : Pool Positions A} {o : Operation} {ops : List Operation}

theorem swap_floor {P : Type} {p p' : Pool P A} {params : SwapParamsInner} {result : SwapResult}
    (hp : p.Usable) (h : p.Swaps params (.ok result) p') :
    getTickAtSqrtPrice p'.state.sqrtPriceX96 = p'.state.tick ∨
      (p'.state.sqrtPriceX96 = p.state.sqrtPriceX96 ∧ p'.state.tick = p.state.tick) ∨
        (Operation.swap params result).LeavesDown p'.state := by
  rcases h with ⟨fuel, h⟩
  generalize hlist : p.swapComputations params fuel = list
  have hcases := swap_cases h
  rw [hlist] at hcases
  cases hcases with
  | empty _ =>
      exact Or.inr (Or.inl ⟨rfl, rfl⟩)
  | @done ctx cs b delta hrun hhalt hdelta =>
      cases hz : params.zeroForOne with
      | true =>
          exact Or.inr (Or.inr ⟨hz, rfl, rfl⟩)
      | false =>
          rw [← hrun.zeroForOne] at hz
          have hkept := hrun.run.invariant
            (I := fun a => ctx.Invariant a ∧
              (getTickAtSqrtPrice a.1.sqrtPriceX96 = a.1.tick ∨
                (a.1.sqrtPriceX96 = p.state.sqrtPriceX96 ∧ a.1.tick = p.state.tick)))
            (fun a c b ha hi => by
              refine ⟨hi.invariant ha.1, ?_⟩
              rcases hi.floor ha.1 hz with hfloor | ⟨hprice, htick⟩
              · exact Or.inl hfloor
              · rw [hprice, htick]
                exact ha.2)
            ⟨hrun.start hp, Or.inr ⟨rfl, rfl⟩⟩
          exact hkept.2.imp_right Or.inl

theorem Performs.floor (hp : p.Backed) (h : Performs p o p') :
    getTickAtSqrtPrice p'.state.sqrtPriceX96 = p'.state.tick ∨
      (p'.state.sqrtPriceX96 = p.state.sqrtPriceX96 ∧ p'.state.tick = p.state.tick) ∨
        o.LeavesDown p'.state := by
  cases h with
  | modifyLiquidity h =>
      rw [modifyLiquidity_state hp h]
      exact Or.inr (Or.inl ⟨rfl, rfl⟩)
  | swap h =>
      exact swap_floor hp.sound.toUsable h
  | setProtocolFee h =>
      rcases setProtocolFee_ok h with ⟨swapFee, _, rfl⟩
      exact Or.inr (Or.inl ⟨rfl, rfl⟩)

/-- A run ends at the floor of its price, where it started, or where one of its
moves down left it. -/
theorem Backed.run_floor (hp : p.Backed) (h : Run Performs p ops p') :
    getTickAtSqrtPrice p'.state.sqrtPriceX96 = p'.state.tick ∨
      (p'.state.sqrtPriceX96 = p.state.sqrtPriceX96 ∧ p'.state.tick = p.state.tick) ∨
        exists o, o ∈ ops ∧ o.LeavesDown p'.state := by
  induction h with
  | nil s =>
      exact Or.inr (Or.inl ⟨rfl, rfl⟩)
  | @cons s s' s'' o ops ho hrest ih =>
      rcases ih (hp.performs ho) with hfloor | ⟨hprice, htick⟩ | ⟨o', hmem, hdown⟩
      · exact Or.inl hfloor
      · rcases Performs.floor hp ho with hfloor | ⟨hprice', htick'⟩ | hdown
        · rw [hprice, htick]
          exact Or.inl hfloor
        · exact Or.inr (Or.inl ⟨hprice.trans hprice', htick.trans htick'⟩)
        · refine Or.inr (Or.inr ⟨o, List.mem_cons_self, ?_⟩)
          cases o with
          | modifyLiquidity params result =>
              exact hdown.elim
          | swap params result =>
              exact ⟨hdown.1, hdown.2.1.trans hprice.symm, hdown.2.2.trans htick.symm⟩
          | setProtocolFee protocolFee =>
              exact hdown.elim
      · exact Or.inr (Or.inr ⟨o', List.mem_cons_of_mem _ hmem, hdown⟩)

theorem Accepted.floor {P : Type} [PositionsAccess P] {p : Pool P A} (h : p.Accepted) :
    getTickAtSqrtPrice p.state.sqrtPriceX96 = p.state.tick := by
  rcases h with ⟨s, _, hs⟩
  have hr := fromSnapshot_eq_ok hs
  rw [hr.state]
  exact hr.valid.tick

/-- The tick of a pool that a run reaches is the floor of its price, or a move down
left it below the tick whose price it reached. -/
theorem Accepted.run_floor (h0 : p.Accepted) (h : Run Performs p ops p') :
    getTickAtSqrtPrice p'.state.sqrtPriceX96 = p'.state.tick ∨
      p'.state.sqrtPriceX96 = getSqrtPriceAtTick (p'.state.tick + 1) ∧
        exists o, o ∈ ops ∧ o.LeavesDown p'.state := by
  have hsound := (h0.backed.run h).sound
  rcases hsound.inTick.eq_floor_or_next hsound.price with hfloor | hnext
  · exact Or.inl hfloor
  · rcases h0.backed.run_floor h with hfloor | ⟨hprice, htick⟩ | hdown
    · exact Or.inl hfloor
    · have hfloor := h0.floor
      rw [← hprice, ← htick] at hfloor
      exact Or.inl hfloor
    · exact Or.inr ⟨hnext, hdown⟩

/-- Along every run with strict limits the price lies in the current tick, and the
active liquidity is the net liquidity at or below it. -/
theorem run_in_step (hp : p.Accepted) (h : Run Performs p ops p')
    (hlimit : forall o, o ∈ ops -> o.LimitStrict) :
    getSqrtPriceAtTick p'.state.tick ≤ p'.state.sqrtPriceX96 ∧
      (p'.state.tick < maxTick ->
        p'.state.sqrtPriceX96 ≤ getSqrtPriceAtTick (p'.state.tick + 1) ∧
          (p'.state.sqrtPriceX96 = getSqrtPriceAtTick (p'.state.tick + 1) ->
            exists o, o ∈ ops ∧ o.LeavesDown p'.state)) ∧
        (p'.state.liquidity : Int) = netBelow p'.ticks.snapshot p'.state.tick := by
  have hbacked := hp.backed.run h
  have hrange := hp.backed.run_tickInRange hp.tickInRange h hlimit
  have hinTick := hbacked.sound.inTick
  refine ⟨hinTick.floor hrange.1, fun hlt => ⟨hinTick.ceil hlt, fun heq => ?_⟩,
    hbacked.sound.active⟩
  rcases hp.run_floor h with hfloor | ⟨_, hdown⟩
  · have := PriceInTick.of_eq_floor hbacked.sound.price hfloor hlt
    omega
  · exact hdown

theorem run_in_step_sample :
    getSqrtPriceAtTick Sample.sold.state.tick ≤ Sample.sold.state.sqrtPriceX96 ∧
      (Sample.sold.state.liquidity : Int) =
        netBelow Sample.sold.ticks.snapshot Sample.sold.state.tick := by
  have h := run_in_step Sample.empty_fresh.accepted Sample.run Sample.run_limitStrict
  exact ⟨h.1, h.2.2⟩

end InStep

end Pool

end RmUniswap
