import RmUniswap.Pool.Operation

/-!
# Fee growth left of a tick

Each tick keeps the growth on the other side of it than the current tick, modulo
the width of a growth. Growth left of a tick counts exactly the fees of the steps
that started below it, so growth inside a range counts those of the steps that
started inside.
-/

namespace RmUniswap

open Foundation

variable {A : Type} [LawfulAllocator TickSlabValue A]

/-!
# One token of a pair
-/

def ofToken {A : Type} (token0 : Bool) (pair : A × A) : A :=
  if token0 then pair.1 else pair.2

def TickInfoInner.outside (info : TickInfoInner) (token0 : Bool) : Nat :=
  ofToken token0 (info.feeGrowthOutside0X128, info.feeGrowthOutside1X128)

def PoolState.growth (state : PoolState) (token0 : Bool) : Nat :=
  ofToken token0 (state.feeGrowthGlobal0X128, state.feeGrowthGlobal1X128)

theorem TickInfoInner.flip_outside (info : TickInfoInner) (globals : Nat × Nat) (token0 : Bool) :
    (info.flip globals).outside token0 =
      wrappingSub 256 (ofToken token0 globals) (info.outside token0) := by
  cases token0 <;> rfl

def growthLeft (tick : Int) (growth : Nat) (t : Int) (outside : Nat) : ZMod (2 ^ 256) :=
  leftOf tick (growth : ZMod (2 ^ 256)) t outside

/-- The growth a pool reports inside a range is the difference of the growth left of
its two ticks. -/
theorem cast_feeGrowthInside (state : PoolState) {lower upper : Int} (h : lower ≤ upper)
    (lowerInfo upperInfo : TickInfoInner) (token0 : Bool) :
    ((ofToken token0 (Pool.feeGrowthInside state lower upper (lowerInfo.boundary lower)
        (upperInfo.boundary upper)) : Nat) : ZMod (2 ^ 256)) =
      growthLeft state.tick (state.growth token0) upper (upperInfo.outside token0) -
        growthLeft state.tick (state.growth token0) lower (lowerInfo.outside token0) := by
  have hbetween : between state.tick (state.growth token0 : ZMod (2 ^ 256)) lower upper
      (lowerInfo.outside token0) (upperInfo.outside token0) = _ := between_eq h
  unfold growthLeft
  unfold between at hbetween
  rw [hbetween]
  unfold Pool.feeGrowthInside
  by_cases hlower : state.tick < lower
  · rw [if_pos hlower, if_pos hlower]
    cases token0 <;> exact cast_wrappingSub _ _ _
  · rw [if_neg hlower, if_neg hlower]
    by_cases hupper : upper ≤ state.tick
    · rw [if_pos hupper, if_pos hupper]
      cases token0 <;> exact cast_wrappingSub _ _ _
    · rw [if_neg hupper, if_neg hupper]
      have hinside (growth lower upper : Nat) :
          ((wrappingSub 256 (wrappingSub 256 growth lower) upper : Nat) : ZMod (2 ^ 256)) =
            (growth : ZMod (2 ^ 256)) - lower - upper := by
        rw [cast_wrappingSub, cast_wrappingSub]
      cases token0 <;> exact hinside _ _ _

theorem feeGrowthInside_lt (state : PoolState) (lower upper : Int)
    (lowerBoundary upperBoundary : TickBoundary) (token0 : Bool) :
    ofToken token0 (Pool.feeGrowthInside state lower upper lowerBoundary upperBoundary) <
      2 ^ 256 := by
  unfold Pool.feeGrowthInside
  cases token0 with
  | false =>
      split
      · exact wrappingSub_lt _ _ _
      · split <;> exact wrappingSub_lt _ _ _
  | true =>
      split
      · exact wrappingSub_lt _ _ _
      · split <;> exact wrappingSub_lt _ _ _

theorem feeGrowthInside_congr {state state' : PoolState} {lower upper : Int}
    {lowerInfo upperInfo lowerInfo' upperInfo' : TickInfoInner} {token0 : Bool}
    (htick : state'.tick = state.tick) (hgrowth : state'.growth token0 = state.growth token0)
    (hlower : lowerInfo'.outside token0 = lowerInfo.outside token0)
    (hupper : upperInfo'.outside token0 = upperInfo.outside token0) :
    ofToken token0 (Pool.feeGrowthInside state' lower upper (lowerInfo'.boundary lower)
        (upperInfo'.boundary upper)) =
      ofToken token0 (Pool.feeGrowthInside state lower upper (lowerInfo.boundary lower)
        (upperInfo.boundary upper)) := by
  unfold PoolState.growth ofToken at hgrowth
  unfold TickInfoInner.outside ofToken at hlower hupper
  unfold Pool.feeGrowthInside TickInfoInner.boundary ofToken
  rw [htick]
  cases token0 with
  | false =>
      simp only [Bool.false_eq_true, if_false] at hgrowth hlower hupper ⊢
      rw [hgrowth, hlower, hupper]
      split
      · rfl
      · split <;> rfl
  | true =>
      simp only [if_true] at hgrowth hlower hupper ⊢
      rw [hgrowth, hlower, hupper]
      split
      · rfl
      · split <;> rfl

/-!
# Liquidity changes
-/

theorem TickInfoInner.change_outside {info : TickInfoInner} (h : info.liquidityGross ≠ 0)
    (state : PoolState) (t liquidityDelta : Int) (upper token0 : Bool) :
    (info.change state t liquidityDelta upper).outside token0 = info.outside token0 := by
  unfold TickInfoInner.change TickInfoInner.outside
  dsimp only
  rw [if_neg (fun hc => h hc.1), if_neg (fun hc => h hc.1)]

theorem tickAt_storeTick_self {ticks : SortedMap Int TickInfoInner} {t : Int}
    {info : TickInfoInner} (h : info.liquidityGross ≠ 0) :
    tickAt (storeTick ticks t info) t = info := by
  unfold tickAt
  rw [get?_storeTick_self, if_neg h]
  rfl

theorem ModifyLiquidityParams.changeTicks_outside (params : ModifyLiquidityParams)
    {state : PoolState} {ticks : SortedMap Int TickInfoInner} {t : Int}
    (hbefore : (tickAt ticks t).liquidityGross ≠ 0)
    (hafter : (tickAt (params.changeTicks state ticks) t).liquidityGross ≠ 0) (token0 : Bool) :
    (tickAt (params.changeTicks state ticks) t).outside token0 =
      (tickAt ticks t).outside token0 := by
  unfold changeTicks at hafter ⊢
  by_cases hu : t = params.tickUpper
  · rw [hu] at hbefore hafter ⊢
    rw [tickAt_storeTick_gross] at hafter
    rw [tickAt_storeTick_self hafter]
    exact TickInfoInner.change_outside hbefore _ _ _ _ _
  · rw [tickAt_storeTick_ne hu] at hafter ⊢
    by_cases hl : t = params.tickLower
    · rw [hl] at hbefore hafter ⊢
      rw [tickAt_storeTick_gross] at hafter
      rw [tickAt_storeTick_self hafter]
      exact TickInfoInner.change_outside hbefore _ _ _ _ _
    · rw [tickAt_storeTick_ne hl]

/-!
# One iteration
-/

/-- The growth an iteration adds for its input token. -/
def StepComputations.growth (c : StepComputations) : Nat :=
  c.feeAmount * 2 ^ 128 / c.start.liquidity

namespace SwapContext

def growthLeft (ctx : SwapContext) (token0 : Bool) (a : SwapLoopState × TickSlab A) (t : Int) :
    ZMod (2 ^ 256) :=
  RmUniswap.growthLeft a.1.tick (ofToken token0 (ctx.globals a.1.feeGrowthGlobalX128)) t
    ((tickAt a.2.snapshot t).outside token0)

/-- What an iteration adds to the global growth of a token. -/
def added (ctx : SwapContext) (token0 : Bool) (c : StepComputations) : ZMod (2 ^ 256) :=
  if token0 = ctx.zeroForOne then (c.growth : ZMod (2 ^ 256)) else 0

section Growth

variable {ctx : SwapContext} {a b : SwapLoopState × TickSlab A} {c : StepComputations}
  {token0 : Bool} {t : Int}

theorem globals_add (ctx : SwapContext) (token0 : Bool) (growth amount : Nat) :
    ((ofToken token0 (ctx.globals (growth + amount)) : Nat) : ZMod (2 ^ 256)) =
      (ofToken token0 (ctx.globals growth) : Nat) +
        if token0 = ctx.zeroForOne then (amount : ZMod (2 ^ 256)) else 0 := by
  unfold globals ofToken
  cases token0 <;> cases ctx.zeroForOne <;> simp

theorem Iterates.growth (h : ctx.Invariant a) (hi : ctx.Iterates a c b) :
    b.1.feeGrowthGlobalX128 = a.1.feeGrowthGlobalX128 + c.growth := by
  have hl : 0 < a.1.liquidity := Nat.pos_of_ne_zero fun hz => hi.running (Or.inr hz)
  have hgrow := growFee_eq_ok hl h.ready.liquidity hi.advances.growth
  rw [hi.next h]
  unfold StepComputations.growth
  rw [hi.advances.fromStart]
  exact hgrow

theorem Iterates.growthLeft (h : ctx.Invariant a) (haccess : ctx.access = .exclusive)
    (hi : ctx.Iterates a c b) (ht : exists info, a.2.snapshot.get? t = some info)
    (token0 : Bool) :
    ctx.growthLeft token0 b t =
      ctx.growthLeft token0 a t + if a.1.tick < t then ctx.added token0 c else 0 := by
  have hpasses := hi.passes h
  have hglobals := globals_add ctx token0 a.1.feeGrowthGlobalX128 c.growth
  rw [← hi.growth h] at hglobals
  unfold SwapContext.growthLeft RmUniswap.growthLeft
  rw [hglobals]
  rcases ht with ⟨old, hget⟩
  by_cases hcross : c.crossed = some t
  · -- Passing the tick turns what it keeps to the other side.
    rcases hi.cases h with ⟨hnone, _⟩ | ⟨k, info, hsome, hgetk, hholds, hb, _⟩
    · rw [hnone] at hcross
      cases hcross
    · rw [hcross] at hsome
      cases hsome
      have hpass := (hpasses.pass t hcross).2
      have hside : t ≤ b.1.tick ↔ ¬ t ≤ a.1.tick := by
        split at hpass <;> omega
      have hafter : tickAt b.2.snapshot t =
          info.flip (ctx.globals c.next.feeGrowthGlobalX128) := by
        rw [hholds.snapshot, haccess]
        exact tickAt_some (SortedMap.get?_insert_self _ _ _)
      have hnext : c.next.feeGrowthGlobalX128 = b.1.feeGrowthGlobalX128 := by
        rw [hb]
      rw [hafter, TickInfoInner.flip_outside, cast_wrappingSub, hnext, hglobals, tickAt_some hgetk,
        leftOf_pass hside, leftOf_grow]
      rfl
  · have hstay := hpasses.stay t old hget hcross
    have hafter : tickAt b.2.snapshot t = tickAt a.2.snapshot t := by
      rcases hi.cases h with ⟨_, _, hb⟩ | ⟨k, info, hsome, _, hholds, _⟩
      · rw [hb]
      · have hne : t ≠ k := by
          rintro rfl
          exact hcross hsome
        rw [hholds.snapshot, haccess]
        exact congrArg (fun o => o.getD TickInfoInner.default)
          (SortedMap.get?_insert_ne _ hne _)
    rw [hafter, leftOf_stay hstay, leftOf_grow]
    rfl

end Growth

end SwapContext

/-!
# Whole swaps
-/

/-- The fees of the steps that started inside a range, per unit of liquidity. -/
def growthWithin (cs : List StepComputations) (lower upper : Int) : Nat :=
  ((cs.filter fun c => decide (lower ≤ c.start.tick ∧ c.start.tick < upper)).map
    StepComputations.growth).sum

theorem growthWithin_cons (c : StepComputations) (cs : List StepComputations)
    (lower upper : Int) :
    growthWithin (c :: cs) lower upper =
      (if lower ≤ c.start.tick ∧ c.start.tick < upper then c.growth else 0) +
        growthWithin cs lower upper := by
  unfold growthWithin
  rw [List.filter_cons]
  by_cases h : lower ≤ c.start.tick ∧ c.start.tick < upper
  · rw [if_pos (decide_eq_true h), if_pos h, List.map_cons, List.sum_cons]
  · rw [if_neg (by simpa using h), if_neg h, zero_add]

theorem sum_added (ctx : SwapContext) (token0 : Bool) (cs : List StepComputations)
    (lower upper : Int) :
    (cs.map fun c => if lower ≤ c.start.tick ∧ c.start.tick < upper then ctx.added token0 c
      else 0).sum =
      if token0 = ctx.zeroForOne then (growthWithin cs lower upper : ZMod (2 ^ 256)) else 0 := by
  induction cs with
  | nil =>
      rw [List.map_nil, List.sum_nil]
      unfold growthWithin
      rw [List.filter_nil, List.map_nil, List.sum_nil, Nat.cast_zero, ite_self]
  | cons c cs ih =>
      rw [List.map_cons, List.sum_cons, ih, growthWithin_cons]
      unfold SwapContext.added
      by_cases htoken : token0 = ctx.zeroForOne
      · rw [if_pos htoken, if_pos htoken, if_pos htoken]
        push_cast
        rfl
      · rw [if_neg htoken, if_neg htoken, if_neg htoken, ite_self, add_zero]

namespace Pool

/-- The growth of a token inside a range; a missing tick contributes zero. -/
def growthInside {P : Type} (p : Pool P A) (token0 : Bool) (lower upper : Int) : Nat :=
  ofToken token0 (feeGrowthInside p.state lower upper
    ((tickAt p.ticks.snapshot lower).boundary lower)
    ((tickAt p.ticks.snapshot upper).boundary upper))

def growthLeft {P : Type} (p : Pool P A) (token0 : Bool) (t : Int) : ZMod (2 ^ 256) :=
  RmUniswap.growthLeft p.state.tick (p.state.growth token0) t
    ((tickAt p.ticks.snapshot t).outside token0)

section Inside

variable {P : Type} {p p' : Pool P A} {params : SwapParamsInner} {ctx : SwapContext}
  {cs : List StepComputations} {b : SwapLoopState × TickSlab A} {lower upper : Int}

theorem cast_growthInside (p : Pool P A) (token0 : Bool) (h : lower ≤ upper) :
    (p.growthInside token0 lower upper : ZMod (2 ^ 256)) =
      p.growthLeft token0 upper - p.growthLeft token0 lower :=
  cast_feeGrowthInside p.state h _ _ token0

theorem growthInside_lt (p : Pool P A) (token0 : Bool) (lower upper : Int) :
    p.growthInside token0 lower upper < 2 ^ 256 :=
  feeGrowthInside_lt _ _ _ _ _ _

theorem LoopRun.growthLeft (h : LoopRun p params ctx cs b) (hp : p.Usable) {t : Int}
    (ht : exists info, p.ticks.snapshot.get? t = some info) (token0 : Bool) :
    ctx.growthLeft token0 b t = ctx.growthLeft token0 (p.swapStart params, p.ticks) t +
      (cs.map fun c => if c.start.tick < t then ctx.added token0 c else 0).sum := by
  have hstep (a : SwapLoopState × TickSlab A) (c : StepComputations)
      (b : SwapLoopState × TickSlab A)
      (ha : ctx.Invariant a ∧ exists info, a.2.snapshot.get? t = some info)
      (hi : ctx.Iterates a c b) :
      (ctx.Invariant b ∧ exists info, b.2.snapshot.get? t = some info) ∧
        ctx.growthLeft token0 b t = ctx.growthLeft token0 a t +
          if c.start.tick < t then ctx.added token0 c else 0 := by
    refine ⟨⟨hi.invariant ha.1, (hi.initialized_iff ha.1).mpr ha.2⟩, ?_⟩
    rw [hi.growthLeft ha.1 h.access ha.2 token0, hi.advances.fromStart]
  exact h.run.sum_eq (f := fun a => ctx.growthLeft token0 a t) hstep ⟨h.start hp, ht⟩

theorem swapStart_growthLeft (h : LoopRun p params ctx cs b) (token0 : Bool) (t : Int) :
    ctx.growthLeft token0 (p.swapStart params, p.ticks) t = p.growthLeft token0 t := by
  rcases h.context with ⟨_, _, rfl⟩
  unfold SwapContext.growthLeft growthLeft PoolState.growth SwapContext.globals swapContext
    swapStart
  dsimp only
  cases params.zeroForOne <;> cases token0 <;> rfl

def committed (p : Pool P A) (params : SwapParamsInner) (b : SwapLoopState × TickSlab A) :
    Pool P A :=
  { p with
    ticks := b.2
    state := p.state.set b.1.tick b.1.sqrtPriceX96 b.1.liquidity params.zeroForOne
      b.1.feeGrowthGlobalX128 }

theorem committed_growthLeft (h : LoopRun p params ctx cs b) (token0 : Bool) (t : Int) :
    (p.committed params b).growthLeft token0 t = ctx.growthLeft token0 b t := by
  rcases h.context with ⟨_, _, rfl⟩
  unfold SwapContext.growthLeft growthLeft PoolState.growth SwapContext.globals swapContext
    committed PoolState.set
  dsimp only
  cases params.zeroForOne <;> cases token0 <;> rfl

theorem LoopRun.growthInside (h : LoopRun p params ctx cs b) (hp : p.Usable) (hlt : lower < upper)
    (hlower : exists info, p.ticks.snapshot.get? lower = some info)
    (hupper : exists info, p.ticks.snapshot.get? upper = some info) (token0 : Bool) :
    ((p.committed params b).growthInside token0 lower upper : ZMod (2 ^ 256)) =
      p.growthInside token0 lower upper +
        if token0 = params.zeroForOne then (growthWithin cs lower upper : ZMod (2 ^ 256))
        else 0 := by
  have hwithin : (cs.map fun c => if c.start.tick < upper then ctx.added token0 c else 0).sum =
      (cs.map fun c => if c.start.tick < lower then ctx.added token0 c else 0).sum +
        (cs.map fun c => if lower ≤ c.start.tick ∧ c.start.tick < upper then ctx.added token0 c
          else 0).sum := by
    rw [← List.sum_map_add]
    apply congrArg List.sum
    apply List.map_congr_left
    intro c _
    by_cases hl : c.start.tick < lower
    · rw [if_pos hl, if_pos (hl.trans hlt), if_neg (fun hc => absurd hl (not_lt.mpr hc.1)),
        add_zero]
    · rw [if_neg hl, zero_add]
      exact if_congr ⟨fun hu => ⟨not_lt.mp hl, hu⟩, fun hc => hc.2⟩ rfl rfl
  rw [cast_growthInside _ _ (le_of_lt hlt), cast_growthInside _ _ (le_of_lt hlt),
    committed_growthLeft h, committed_growthLeft h, h.growthLeft hp hlower, h.growthLeft hp hupper,
    swapStart_growthLeft h, swapStart_growthLeft h, hwithin, sum_added, h.zeroForOne]
  ring

/-- A swap adds to the growth inside a range exactly the fees of the steps that
started in it, for the input token, and changes nothing else of the ticks. -/
theorem swap_growth_inside [PositionsAccess P] {fuel : Nat} {result : SwapResult}
    (hp : p.Accepted) (h : p.swap params fuel = some (.ok result, p')) (hlt : lower < upper)
    (hlower : exists info, p.ticks.snapshot.get? lower = some info)
    (hupper : exists info, p.ticks.snapshot.get? upper = some info) :
    p'.growthInside params.zeroForOne lower upper ≡
        p.growthInside params.zeroForOne lower upper +
          growthWithin (p.swapComputations params fuel) lower upper [MOD 2 ^ 256] ∧
      p'.growthInside (!params.zeroForOne) lower upper =
        p.growthInside (!params.zeroForOne) lower upper ∧
      Positions.accounting p'.ticks.snapshot = Positions.accounting p.ticks.snapshot := by
  have husable := hp.sound.toUsable
  generalize hlist : p.swapComputations params fuel = list
  have hcases := swap_cases h
  rw [hlist] at hcases
  cases hcases with
  | empty _ =>
      exact ⟨Nat.ModEq.refl _, rfl, rfl⟩
  | @done ctx cs b delta hrun hhalt hdelta =>
      have hinput := hrun.growthInside husable hlt hlower hupper params.zeroForOne
      have houtput := hrun.growthInside husable hlt hlower hupper (!params.zeroForOne)
      rw [if_pos rfl] at hinput
      rw [if_neg (by cases params.zeroForOne <;> decide), add_zero] at houtput
      refine ⟨?_, ?_, hrun.accounting husable⟩
      · rw [← ZMod.natCast_eq_natCast_iff]
        push_cast
        exact hinput
      · have hmod := (ZMod.natCast_eq_natCast_iff _ _ _).mp houtput
        exact Nat.ModEq.eq_of_lt_of_lt hmod (growthInside_lt _ _ _ _) (growthInside_lt _ _ _ _)

theorem swap_growth_inside_sample :
    (Sample.swapped Sample.restored Sample.sell 3).growthInside true (-60) 60 ≡
      Sample.restored.growthInside true (-60) 60 +
        growthWithin (Sample.restored.swapComputations Sample.sell 3) (-60) 60 [MOD 2 ^ 256] := by
  have hresult : (Sample.restored.swap Sample.sell 3).map Prod.fst =
      some (.ok Sample.result) := by
    decide +kernel
  have hlower : (Sample.restored.ticks.snapshot.get? (-60)).isSome = true := by
    decide +kernel
  have hupper : (Sample.restored.ticks.snapshot.get? 60).isSome = true := by
    decide +kernel
  exact (swap_growth_inside Sample.restored_accepted (Sample.swap_eq hresult) (by decide)
    (Option.isSome_iff_exists.mp hlower) (Option.isSome_iff_exists.mp hupper)).1

end Inside

end Pool

end RmUniswap
