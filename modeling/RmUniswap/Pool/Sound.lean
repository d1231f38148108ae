import RmUniswap.Pool.SwapRun

/-!
# Usable and sound pools

In a usable pool the slab stands for its ticks and the price lies in the current
tick. A sound pool also has the net liquidity at or below the current tick as its
active liquidity, and no net liquidity that wraps when it is negated. Swaps keep a
pool usable, and sound.
-/

namespace RmUniswap

open Foundation

variable {A : Type} [LawfulAllocator TickSlabValue A]

def Negatable (ticks : SortedMap Int TickInfoInner) : Prop :=
  forall k info, ticks.get? k = some info -> info.liquidityNet ≠ -2 ^ 127

namespace Pool

variable {P : Type}

structure Usable (p : Pool P A) : Prop where
  keyed : p.ticks.Keyed
  spacing : p.ticks.tickSpacing = p.tickSpacing
  fees : p.swapFee.Consistent
  price : IsValidSqrtPrice p.state.sqrtPriceX96
  inTick : PriceInTick p.state.tick p.state.sqrtPriceX96
  liquidity : p.state.liquidity < 2 ^ 128

structure Sound (p : Pool P A) : Prop extends Usable p where
  active : (p.state.liquidity : Int) = netBelow p.ticks.snapshot p.state.tick
  negatable : Negatable p.ticks.snapshot

theorem Usable.holds {p : Pool P A} (h : p.Usable) :
    p.ticks.Holds p.tickSpacing p.ticks.snapshot :=
  ⟨h.keyed, h.spacing, rfl⟩

theorem Usable.positive {p : Pool P A} (h : p.Usable) : p.tickSpacing.IsPositive :=
  h.holds.positive

/-!
# Inversion of a swap
-/

/-- The numbers of a swap whose loop ran: the context, the iterations and the state
and slab they ended in. -/
structure LoopRun (p : Pool P A) (params : SwapParamsInner) (ctx : SwapContext)
    (cs : List StepComputations) (b : SwapLoopState × TickSlab A) : Prop where
  amount : params.amountSpecified ≠ 0
  context : exists swapFee, p.resolveSwapFee params = .ok swapFee ∧
    ctx = p.swapContext .exclusive swapFee params
  limit : checkLimit params.zeroForOne p.state.sqrtPriceX96 params.sqrtPriceLimit = .ok ()
  run : Run ctx.Iterates (p.swapStart params, p.ticks) cs b

inductive SwapCases (p : Pool P A) (params : SwapParamsInner) :
    List StepComputations -> Except Error SwapResult × Pool P A -> Prop
  | rejected {e : Error} : p.resolveSwapFee params = .error e ∨
      checkLimit params.zeroForOne p.state.sqrtPriceX96 params.sqrtPriceLimit = .error e ->
      SwapCases p params [] (.error e, p)
  | empty {ctx : SwapContext} : params.amountSpecified = 0 ->
      SwapCases p params [] (.ok (swapResult ctx BalanceDelta.default (p.swapStart params)), p)
  | failed {ctx : SwapContext} {cs last : List StepComputations}
      {b : SwapLoopState × TickSlab A} {e : Error} {ticks : TickSlab A} :
      LoopRun p params ctx cs b -> ctx.Ends b last (.error e, ticks) ->
      SwapCases p params (cs ++ last) (.error e, { p with ticks })
  | unsettled {ctx : SwapContext} {cs : List StepComputations}
      {b : SwapLoopState × TickSlab A} {e : Error} :
      LoopRun p params ctx cs b -> ctx.Halted b.1 -> ctx.swapDelta b.1 = .error e ->
      SwapCases p params cs (.error e, { p with ticks := b.2 })
  | done {ctx : SwapContext} {cs : List StepComputations}
      {b : SwapLoopState × TickSlab A} {delta : BalanceDelta} :
      LoopRun p params ctx cs b -> ctx.Halted b.1 -> ctx.swapDelta b.1 = .ok delta ->
      SwapCases p params cs (.ok (swapResult ctx delta b.1),
        { p with
          ticks := b.2
          state := p.state.set b.1.tick b.1.sqrtPriceX96 b.1.liquidity params.zeroForOne
            b.1.feeGrowthGlobalX128 })

theorem swap_cases {p : Pool P A} {params : SwapParamsInner} {fuel : Nat}
    {r : Except Error SwapResult × Pool P A} (h : p.swap params fuel = some r) :
    SwapCases p params (p.swapComputations params fuel) r := by
  unfold swap runSwap at h
  unfold swapComputations
  cases hfee : p.resolveSwapFee params with
  | error e =>
      rw [hfee] at h
      cases h
      exact SwapCases.rejected (Or.inl hfee)
  | ok swapFee =>
      rw [hfee] at h
      dsimp only at h ⊢
      unfold swapInner at h
      dsimp only at h
      by_cases hzero : params.amountSpecified = 0
      · rw [if_pos hzero] at h
        cases h
        rw [if_pos (Or.inl hzero)]
        exact SwapCases.empty hzero
      · rw [if_neg hzero] at h
        cases hlimit : checkLimit params.zeroForOne p.state.sqrtPriceX96 params.sqrtPriceLimit with
        | error e =>
            rw [hlimit] at h
            cases h
            rw [if_pos (Or.inr fun hok => by cases hok)]
            exact SwapCases.rejected (Or.inr hlimit)
        | ok u =>
            rw [hlimit] at h
            dsimp only at h
            rw [if_neg (by rintro (h | h); exact hzero h; exact h rfl)]
            rcases Option.map_eq_some_iff.mp h with ⟨r', hloop, hr⟩
            rcases SwapContext.loop_run hloop with ⟨cs, b, last, hrun, hend, hlist⟩
            have hloopRun : LoopRun p params (p.swapContext .exclusive swapFee params) cs b :=
              ⟨hzero, ⟨swapFee, hfee, rfl⟩, hlimit, hrun⟩
            rw [hlist]
            cases hend with
            | halted hhalt =>
                rw [List.append_nil]
                dsimp only at hr
                unfold finishSwap at hr
                cases hdelta : (p.swapContext .exclusive swapFee params).swapDelta b.1 with
                | error e =>
                    rw [hdelta] at hr
                    rw [← hr]
                    exact SwapCases.unsettled hloopRun hhalt hdelta
                | ok delta =>
                    rw [hdelta] at hr
                    rw [← hr]
                    exact SwapCases.done hloopRun hhalt hdelta
            | rejected hrunning hadvance hstep =>
                rw [← hr]
                exact SwapCases.failed hloopRun
                  (SwapContext.Ends.rejected hrunning hadvance hstep)
            | failed hrunning hadvance hstep =>
                rw [← hr]
                exact SwapCases.failed hloopRun
                  (SwapContext.Ends.failed hrunning hadvance hstep)

/-!
# The loop of a usable pool
-/

section LoopRun

variable {p : Pool P A} {params : SwapParamsInner} {ctx : SwapContext}
  {cs : List StepComputations} {b : SwapLoopState × TickSlab A}

theorem resolveSwapFee_consistent {swapFee : SwapFee} (hp : p.swapFee.Consistent)
    (h : p.resolveSwapFee params = .ok swapFee) :
    swapFee.Consistent ∧ swapFee.protocolFee = p.swapFee.protocolFee := by
  unfold resolveSwapFee at h
  split at h
  · have hset := SwapFee.setLpFee_consistent hp h
    exact ⟨hset.1, hset.2.2⟩
  · cases h
    exact ⟨hp, rfl⟩

theorem checkLimit_eq_ok {zeroForOne : Bool} {price limit : Nat}
    (h : checkLimit zeroForOne price limit = .ok ()) :
    (zeroForOne = true -> limit < price) ∧ (zeroForOne = false -> price < limit) := by
  unfold checkLimit at h
  split at h
  · cases h
  · cases zeroForOne with
    | true =>
        rw [if_pos rfl] at h
        split at h
        · cases h
        · rename_i hlt
          exact ⟨fun _ => not_le.mp hlt, fun hf => by cases hf⟩
    | false =>
        rw [if_neg (by decide)] at h
        split at h
        · cases h
        · rename_i hlt
          exact ⟨(fun hf => by cases hf), fun _ => not_le.mp hlt⟩

theorem LoopRun.zeroForOne (h : LoopRun p params ctx cs b) :
    ctx.zeroForOne = params.zeroForOne := by
  rcases h.context with ⟨_, _, rfl⟩
  rfl

theorem LoopRun.access (h : LoopRun p params ctx cs b) : ctx.access = .exclusive := by
  rcases h.context with ⟨_, _, rfl⟩
  rfl

theorem LoopRun.tickSpacing (h : LoopRun p params ctx cs b) :
    ctx.tickSpacing = p.tickSpacing := by
  rcases h.context with ⟨_, _, rfl⟩
  rfl

theorem LoopRun.poolState (h : LoopRun p params ctx cs b) : ctx.poolState = p.state := by
  rcases h.context with ⟨_, _, rfl⟩
  rfl

theorem LoopRun.start (h : LoopRun p params ctx cs b) (hp : p.Usable) :
    ctx.Invariant (p.swapStart params, p.ticks) := by
  rcases h.context with ⟨swapFee, hfee, rfl⟩
  have hlimit := checkLimit_eq_ok h.limit
  refine ⟨?_, hp.keyed, hp.spacing⟩
  exact
    { spacing := hp.positive
      fee := (resolveSwapFee_consistent hp.fees hfee).1.isValid _
      limit := params.limitValid
      price := hp.price
      down := fun hz => le_of_lt (hlimit.1 hz)
      up := fun hz => le_of_lt (hlimit.2 hz)
      inTick := hp.inTick
      liquidity := hp.liquidity
      remaining := params.amountFits }

theorem LoopRun.final (h : LoopRun p params ctx cs b) (hp : p.Usable) : ctx.Invariant b :=
  SwapContext.run_invariant h.run (h.start hp)

end LoopRun

end Pool

/-!
# Active liquidity and tick over the loop
-/

namespace SwapContext

section Active

variable {ctx : SwapContext} {a b : SwapLoopState × TickSlab A} {c : StepComputations}

theorem netBelow_crossed {ticks : SortedMap Int TickInfoInner} {k : Int} {info : TickInfoInner}
    (access : Access) (h : ticks.get? k = some info) (globals : Nat × Nat) (t : Int) :
    netBelow (access.crossed ticks k info globals) t = netBelow ticks t := by
  cases access with
  | shared => rfl
  | exclusive => exact netBelow_insert_same h (info.flip_net globals) t

theorem negatable_crossed {ticks : SortedMap Int TickInfoInner} {k : Int} {info : TickInfoInner}
    (access : Access) (h : ticks.get? k = some info) (globals : Nat × Nat)
    (ht : Negatable ticks) : Negatable (access.crossed ticks k info globals) := by
  cases access with
  | shared => exact ht
  | exclusive =>
      intro j info' hget
      change (ticks.insert k (info.flip globals)).get? j = some info' at hget
      rw [SortedMap.get?_insert] at hget
      split at hget
      · cases hget
        rw [info.flip_net globals]
        exact ht k info h
      · exact ht j info' hget

/-- The loop follows the ticks: its liquidity is the net liquidity at or below its tick. -/
structure Follows (a : SwapLoopState × TickSlab A) : Prop where
  active : (a.1.liquidity : Int) = netBelow a.2.snapshot a.1.tick
  negatable : Negatable a.2.snapshot

/-- Beyond a crossed tick the liquidity is the net liquidity at or below the tick
the step moves to. -/
theorem crossed_active {k : Int} {info : TickInfoInner} (h : ctx.Invariant a)
    (hrun : ¬ ctx.Halted a.1) (hc : ctx.Advances (ctx.stepTarget a.2 a.1.tick) a.1 c)
    (hsome : c.crossed = some k) (hget : a.2.snapshot.get? k = some info) (ha : Follows a) :
    (a.1.liquidity : Int) + ctx.directed info.liquidityNet =
      netBelow a.2.snapshot c.next.tick := by
  have hpasses := h.ready.passes hrun h.keyed (h.target_spec hrun) hc
  have hmove := netBelow_pass a.2.snapshot k a.1.tick c.next.tick fun j info hj hne =>
    hpasses.stay j info hj (by rw [hsome]; exact fun h => hne (Option.some.inj h).symm)
  rw [ha.active, hmove, tickAt_some hget]
  have hside := (hpasses.pass k hsome).2
  unfold directed
  split at hside
  · rename_i hz
    rw [if_pos hz, if_neg (not_le.mpr hside.2), if_pos hside.1,
      wrappingNeg_of_ne (ha.negatable k info hget)]
    ring
  · rename_i hz
    rw [if_neg hz, if_pos hside.2, if_neg (not_le.mpr hside.1)]
    ring

theorem Iterates.follows (h : ctx.Invariant a) (hi : ctx.Iterates a c b) (ha : Follows a) :
    Follows b := by
  rcases hi.cases h with ⟨hnone, hb, hb2⟩ | ⟨k, info, hsome, hget, hholds, hb, hsum, _⟩
  · refine ⟨?_, hb2 ▸ ha.negatable⟩
    have hpasses := hi.passes h
    rw [hb2, hb, hi.advances.liquidity, ha.active]
    rw [hb] at hpasses
    symm
    apply netBelow_stay
    intro j info hj
    exact hpasses.stay j info hj (by rw [hnone]; simp)
  · constructor
    · rw [hholds.snapshot, netBelow_crossed ctx.access hget, hsum,
        crossed_active h hi.running hi.advances hsome hget ha, hb]
    · rw [hholds.snapshot]
      exact negatable_crossed ctx.access hget _ ha.negatable

theorem Iterates.netBelow_eq (h : ctx.Invariant a) (hi : ctx.Iterates a c b) (t : Int) :
    netBelow b.2.snapshot t = netBelow a.2.snapshot t := by
  rcases hi.cases h with ⟨_, _, hb⟩ | ⟨k, info, _, hget, hholds, _⟩
  · rw [hb]
  · rw [hholds.snapshot, netBelow_crossed ctx.access hget]

theorem Iterates.initialized_iff (h : ctx.Invariant a) (hi : ctx.Iterates a c b) {t : Int} :
    (exists info, b.2.snapshot.get? t = some info) ↔
      exists info, a.2.snapshot.get? t = some info := by
  rcases hi.cases h with ⟨_, _, hb⟩ | ⟨k, info, _, hget, hholds, _⟩
  · rw [hb]
  · rw [hholds.snapshot]
    cases ctx.access with
    | shared => rfl
    | exclusive =>
        show (exists info', (a.2.snapshot.insert k _).get? t = some info') ↔ _
        rw [SortedMap.get?_insert]
        split
        · rename_i htk
          exact iff_of_true ⟨_, rfl⟩ ⟨info, htk ▸ hget⟩
        · rfl

theorem Iterates.tick_up (h : ctx.Invariant a) (hi : ctx.Iterates a c b)
    (hz : ctx.zeroForOne = false) (ha : minTick ≤ a.1.tick) : minTick ≤ b.1.tick := by
  have ht := h.target_spec hi.running
  have hc := hi.advances
  rw [hi.next h]
  show minTick ≤ c.next.tick
  rw [hc.tick]
  unfold tickAfter
  simp only [hz, Bool.false_eq_true, if_false]
  split
  · exact ht.inRange.1
  · split
    · exact (getTickAtSqrtPrice_spec (h.ready.next_price hi.running ht hc)).1.1
    · exact ha

end Active

end SwapContext

namespace Pool

variable {P : Type} {p p' : Pool P A} {params : SwapParamsInner} {ctx : SwapContext}
  {cs : List StepComputations} {b : SwapLoopState × TickSlab A}

theorem Sound.follows (hp : p.Sound) (params : SwapParamsInner) :
    SwapContext.Follows (p.swapStart params, p.ticks) :=
  ⟨hp.active, hp.negatable⟩

theorem LoopRun.follows (h : LoopRun p params ctx cs b) (hp : p.Sound) :
    SwapContext.Follows b := by
  have hkept := h.run.invariant (I := fun a => ctx.Invariant a ∧ SwapContext.Follows a)
    (fun _ _ _ ha hi => ⟨hi.invariant ha.1, hi.follows ha.1 ha.2⟩)
    ⟨h.start hp.toUsable, hp.follows params⟩
  exact hkept.2

theorem Usable.withTicks (hp : p.Usable) {ticks : TickSlab A} (hk : ticks.Keyed)
    (hs : ticks.tickSpacing = p.tickSpacing) : ({ p with ticks } : Pool P A).Usable :=
  { keyed := hk
    spacing := hs
    fees := hp.fees
    price := hp.price
    inTick := hp.inTick
    liquidity := hp.liquidity }

theorem LoopRun.usable (h : LoopRun p params ctx cs b) (hp : p.Usable) :
    ({ p with
      ticks := b.2
      state := p.state.set b.1.tick b.1.sqrtPriceX96 b.1.liquidity params.zeroForOne
        b.1.feeGrowthGlobalX128 } : Pool P A).Usable := by
  have hfinal := h.final hp
  exact
    { keyed := hfinal.keyed
      spacing := hfinal.spacing.trans h.tickSpacing
      fees := hp.fees
      price := hfinal.ready.price
      inTick := hfinal.ready.inTick
      liquidity := hfinal.ready.liquidity }

theorem Usable.swap (hp : p.Usable) {result : Except Error SwapResult}
    (h : p.Swaps params result p') : p'.Usable := by
  rcases h with ⟨fuel, h⟩
  generalize hlist : p.swapComputations params fuel = list
  have hcases := swap_cases h
  rw [hlist] at hcases
  cases hcases with
  | rejected _ =>
      exact hp
  | empty _ =>
      exact hp
  | failed hrun hend =>
      have hticks := hend.ticks (hrun.final hp)
      exact hp.withTicks hticks.1 (hticks.2.trans hrun.tickSpacing)
  | unsettled hrun _ _ =>
      have hfinal := hrun.final hp
      exact hp.withTicks hfinal.keyed (hfinal.spacing.trans hrun.tickSpacing)
  | done hrun _ _ =>
      exact hrun.usable hp

theorem Sound.swap (hp : p.Sound) {result : SwapResult}
    (h : p.Swaps params (.ok result) p') : p'.Sound := by
  have husable := hp.toUsable.swap h
  rcases h with ⟨fuel, h⟩
  generalize hlist : p.swapComputations params fuel = list
  have hcases := swap_cases h
  rw [hlist] at hcases
  cases hcases with
  | empty _ =>
      exact hp
  | done hrun hhalt hdelta =>
      exact ⟨husable, (hrun.follows hp).active, (hrun.follows hp).negatable⟩

theorem Sound.swap_tick (hp : p.Sound) (ht : TickInRange p.state.tick) {result : SwapResult}
    (hlimit : params.LimitStrict) (h : p.Swaps params (.ok result) p') :
    TickInRange p'.state.tick := by
  have hp' := hp.swap h
  refine ⟨?_, hp'.inTick.upper⟩
  by_contra hlt
  have hmin := hp'.inTick.eq_min hp'.price (not_le.mp hlt)
  rcases h with ⟨fuel, h⟩
  generalize hlist : p.swapComputations params fuel = list at *
  have hcases := swap_cases h
  rw [hlist] at hcases
  cases hcases with
  | empty _ =>
      exact hlt ht.1
  | @done ctx cs b delta hrun hhalt hdelta =>
      have hfinal := (hrun.final hp.toUsable).ready
      have hctx : ctx.sqrtPriceLimitX96 = params.sqrtPriceLimit := by
        rcases hrun.context with ⟨_, _, rfl⟩
        rfl
      have hbprice : b.1.sqrtPriceX96 = minSqrtPrice := hmin
      cases hz : ctx.zeroForOne with
      | true =>
          have hdown := hfinal.down hz
          have hstrict := hlimit.1
          omega
      | false =>
          have hkept := hrun.run.invariant
            (I := fun a => ctx.Invariant a ∧ minTick ≤ a.1.tick)
            (fun _ _ _ ha hi => ⟨hi.invariant ha.1, hi.tick_up ha.1 hz ha.2⟩)
            ⟨hrun.start hp.toUsable, ht.1⟩
          exact hlt hkept.2

end Pool

end RmUniswap
