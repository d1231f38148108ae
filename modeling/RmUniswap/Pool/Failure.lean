import RmUniswap.Pool.CourseTotal
import RmUniswap.Pool.Fork

/-!
# Failing operations

The state of a pool is written last, the ticks while an operation runs. A failing
operation leaves the pool as it was exactly when it had written nothing new by then.
-/

namespace RmUniswap

open Foundation

variable {A : Type} [LawfulAllocator TickSlabValue A]

/-!
# Ticks passed by a swap
-/

def Behind (zeroForOne : Bool) (t k : Int) : Prop :=
  if zeroForOne then t < k else k ≤ t

theorem Passes.not_behind {zeroForOne : Bool} {ticks : SortedMap Int TickInfoInner} {t t' k : Int}
    (h : SwapContext.Passes zeroForOne ticks (some k) t t') :
    ¬ Behind zeroForOne t k ∧ Behind zeroForOne t' k := by
  have hpass := (h.pass k rfl).2
  unfold Behind
  cases zeroForOne with
  | false =>
      rw [if_neg (by decide)] at hpass ⊢
      exact ⟨not_le.mpr hpass.1, hpass.2⟩
  | true =>
      rw [if_pos rfl] at hpass ⊢
      exact ⟨not_lt.mpr hpass.1, hpass.2⟩

theorem Passes.behind_iff {zeroForOne : Bool} {ticks : SortedMap Int TickInfoInner}
    {crossed : Option Int} {t t' k : Int} {info : TickInfoInner}
    (h : SwapContext.Passes zeroForOne ticks crossed t t') (hget : ticks.get? k = some info)
    (hne : crossed ≠ some k) : Behind zeroForOne t' k ↔ Behind zeroForOne t k := by
  have hstay := h.stay k info hget hne
  unfold Behind
  split
  · rw [← not_le, ← not_le, hstay]
  · exact hstay

namespace SwapContext

structure Writes (ctx : SwapContext) (a : Int × SortedMap Int TickInfoInner)
    (c : StepComputations) (b : Int × SortedMap Int TickInfoInner) : Prop where
  passes : Passes ctx.zeroForOne a.2 c.crossed a.1 b.1
  stay : forall k, c.crossed ≠ some k -> b.2.get? k = a.2.get? k
  flip : forall k info, c.crossed = some k -> a.2.get? k = some info ->
    b.2.get? k = some (info.flip (ctx.globals c.next.feeGrowthGlobalX128))

section Writes

variable {ctx : SwapContext} {k : Int} {info : TickInfoInner} {cs : List StepComputations}
  {c : StepComputations}

theorem writes_crossed {t t' : Int} {ticks : SortedMap Int TickInfoInner}
    (haccess : ctx.access = .exclusive) (hpasses : Passes ctx.zeroForOne ticks c.crossed t t')
    (hcross : c.crossed = some k) (hget : ticks.get? k = some info) :
    ctx.Writes (t, ticks) c (t', ctx.access.crossed ticks k info
      (ctx.globals c.next.feeGrowthGlobalX128)) := by
  rw [haccess]
  refine ⟨hpasses, fun j hj => ?_, fun j info' hj hgetj => ?_⟩
  · exact SortedMap.get?_insert_ne ticks (fun h => hj (by rw [hcross, h])) _
  · rw [hcross] at hj
    cases hj
    rw [hget] at hgetj
    cases hgetj
    exact SortedMap.get?_insert_self ticks k _

theorem Iterates.writes {a b : SwapLoopState × TickSlab A} (h : ctx.Invariant a)
    (haccess : ctx.access = .exclusive) (hi : ctx.Iterates a c b) :
    ctx.Writes (a.1.tick, a.2.snapshot) c (b.1.tick, b.2.snapshot) := by
  have hpasses := hi.passes h
  rcases hi.cases h with ⟨hnone, _, hb⟩ | ⟨k, info, hsome, hget, hholds, _⟩
  · rw [hb]
    refine ⟨hpasses, fun _ _ => rfl, fun k info hk => ?_⟩
    rw [hnone] at hk
    cases hk
  · rw [hholds.snapshot]
    exact writes_crossed haccess hpasses hsome hget

theorem behind_run {a b : Int × SortedMap Int TickInfoInner} (h : Run ctx.Writes a cs b)
    (hget : a.2.get? k = some info) (hbehind : Behind ctx.zeroForOne a.1 k) :
    (forall c, c ∈ cs -> c.crossed ≠ some k) ∧ b.2.get? k = some info := by
  induction h with
  | nil a =>
      exact ⟨fun _ hc => absurd hc List.not_mem_nil, hget⟩
  | @cons s s' s'' c cs hone _ ih =>
      have hne : c.crossed ≠ some k := by
        intro hcross
        have hpasses := hone.passes
        rw [hcross] at hpasses
        exact (Passes.not_behind hpasses).1 hbehind
      have hrest := ih ((hone.stay k hne).trans hget)
        ((Passes.behind_iff hone.passes hget hne).mpr hbehind)
      refine ⟨fun c' hc' => ?_, hrest.2⟩
      rcases List.mem_cons.mp hc' with rfl | hc'
      · exact hne
      · exact hrest.1 c' hc'

theorem flipped_run {a b : Int × SortedMap Int TickInfoInner} (h : Run ctx.Writes a cs b)
    (hget : a.2.get? k = some info) :
    ((forall c, c ∈ cs -> c.crossed ≠ some k) ∧ b.2.get? k = some info) ∨
    exists c, c ∈ cs ∧ c.crossed = some k ∧
      (forall c', c' ∈ cs -> c'.crossed = some k -> c' = c) ∧
      b.2.get? k = some (info.flip (ctx.globals c.next.feeGrowthGlobalX128)) := by
  induction h with
  | nil a =>
      exact Or.inl ⟨fun _ hc => absurd hc List.not_mem_nil, hget⟩
  | @cons s s' s'' c cs hone hrest ih =>
      by_cases hcross : c.crossed = some k
      · have hpasses := hone.passes
        rw [hcross] at hpasses
        have hafter := behind_run hrest (hone.flip k info hcross hget)
          (Passes.not_behind hpasses).2
        refine Or.inr ⟨c, List.mem_cons_self, hcross, fun c' hc' hcross' => ?_, hafter.2⟩
        rcases List.mem_cons.mp hc' with rfl | hc'
        · rfl
        · exact absurd hcross' (hafter.1 c' hc')
      · rcases ih ((hone.stay k hcross).trans hget) with ⟨hnone, hb⟩ | ⟨c1, hc1, hcross1, hone1, hb⟩
        · refine Or.inl ⟨fun c' hc' => ?_, hb⟩
          rcases List.mem_cons.mp hc' with rfl | hc'
          · exact hcross
          · exact hnone c' hc'
        · refine Or.inr ⟨c1, List.mem_cons_of_mem _ hc1, hcross1, fun c' hc' hcross' => ?_, hb⟩
          rcases List.mem_cons.mp hc' with rfl | hc'
          · exact absurd hcross' hcross
          · exact hone1 c' hc' hcross'

theorem keys_run {a b : Int × SortedMap Int TickInfoInner} (h : Run ctx.Writes a cs b)
    (hget : a.2.get? k = none) : b.2.get? k = none := by
  induction h with
  | nil a =>
      exact hget
  | @cons s s' s'' c cs hone _ ih =>
      apply ih
      rw [hone.stay k, hget]
      intro hcross
      rcases (hone.passes.pass k hcross).1 with ⟨info, hinfo⟩
      rw [hget] at hinfo
      cases hinfo

theorem run_unchanged_iff {a b : Int × SortedMap Int TickInfoInner}
    (h : Run ctx.Writes a cs b) :
    b.2 = a.2 ↔ forall c k info, c ∈ cs -> c.crossed = some k -> a.2.get? k = some info ->
      info.flip (ctx.globals c.next.feeGrowthGlobalX128) = info := by
  constructor
  · intro hsame c k info hc hcross hget
    rcases flipped_run h hget with ⟨hnone, _⟩ | ⟨c1, _, _, hone, hb⟩
    · exact absurd hcross (hnone c hc)
    · rw [hone c hc hcross]
      rw [hsame, hget] at hb
      exact (Option.some.inj hb).symm
  · intro hflip
    apply SortedMap.ext
    intro k
    cases hget : a.2.get? k with
    | none =>
        exact keys_run h hget
    | some info =>
        rcases flipped_run h hget with ⟨_, hb⟩ | ⟨c, hc, hcross, _, hb⟩
        · exact hb
        · rw [hb, hflip c k info hc hcross hget]

theorem Ends.writes {a : SwapLoopState × TickSlab A} {last : List StepComputations} {e : Error}
    {ticks : TickSlab A} (h : ctx.Invariant a) (haccess : ctx.access = .exclusive)
    (hend : ctx.Ends a last (.error e, ticks)) :
    exists t, Run ctx.Writes (a.1.tick, a.2.snapshot) last (t, ticks.snapshot) := by
  cases hend with
  | rejected _ hadvance hstep =>
      rw [step_error_of_advance hadvance] at hstep
      cases hstep
      exact ⟨_, Run.nil _⟩
  | failed hrunning hadvance hstep =>
      rcases step_cases h.ready hrunning h.holds with ⟨e, he, _⟩ | ⟨c, hc, hadvances, hcrosses⟩
      · rw [hadvance] at he
        cases he
      · rw [hadvance] at hc
        cases hc
        rw [hstep] at hcrosses
        cases hcrosses with
        | underflow hcross hget hholds _ =>
            have hpasses := h.ready.passes hrunning h.keyed (h.target_spec hrunning) hadvances
            have hwrites := writes_crossed haccess hpasses hcross hget
            rw [← hholds.snapshot] at hwrites
            exact ⟨_, Run.cons hwrites (Run.nil _)⟩

end Writes

end SwapContext

namespace Pool

/-!
# Failing swaps
-/

def globalsAt {P : Type} (p : Pool P A) (params : SwapParamsInner) (feeGrowthGlobalX128 : Nat) :
    Nat × Nat :=
  if params.zeroForOne then (feeGrowthGlobalX128, p.state.feeGrowthGlobal1X128)
  else (p.state.feeGrowthGlobal0X128, feeGrowthGlobalX128)

/-- The ticks on the course of a swap that its amount and its fees pay for, with the
growth at which it reaches them. -/
def crossingsAhead {P : Type} (p : Pool P A) (params : SwapParamsInner) : List (Int × Nat) :=
  match p.resolveSwapFee params with
  | .error _ => []
  | .ok swapFee =>
      crossings (swapFee.swapFee params.zeroForOne) (swapFee.protocolFee.pips params.zeroForOne)
        (p.state.growth params.zeroForOne) (p.payments swapFee params)

/-- Every tick ahead keeps its outside growth when it is turned to the other side; in
particular when there is none. -/
def Untouching {P : Type} (p : Pool P A) (params : SwapParamsInner) : Prop :=
  forall k growth info, (k, growth) ∈ p.crossingsAhead params ->
    p.ticks.snapshot.get? k = some info -> info.flip (p.globalsAt params growth) = info

section Swap

variable {P : Type} {p p' : Pool P A} {params : SwapParamsInner} {ctx : SwapContext}
  {cs : List StepComputations} {b : SwapLoopState × TickSlab A}

theorem LoopRun.writes (h : LoopRun p params ctx cs b) (hp : p.Usable) :
    Run ctx.Writes (p.state.tick, p.ticks.snapshot) cs (b.1.tick, b.2.snapshot) :=
  h.run.map (fun a => (a.1.tick, a.2.snapshot))
    (fun _ _ _ ha hi => ⟨hi.invariant ha, hi.writes ha h.access⟩) (h.start hp)

theorem LoopRun.globals (h : LoopRun p params ctx cs b) : ctx.globals = p.globalsAt params := by
  rcases h.context with ⟨_, _, rfl⟩
  rfl

theorem LoopRun.crossingsAhead (h : LoopRun p params ctx cs b) (hp : p.Usable)
    (hvalid : p.swapFee.protocolFee.isValid = true) {last : List StepComputations}
    {r : Except Error SwapLoopState × TickSlab A} (hend : ctx.Ends b last r) :
    p.crossingsAhead params = (cs ++ last).flatMap StepComputations.reached := by
  rcases h.context with ⟨swapFee, hfee, hctx⟩
  have hpips : ctx.protocolFeePips ≤ maxProtocolFee := by
    rw [hctx]
    show swapFee.protocolFee.pips params.zeroForOne ≤ _
    rw [(resolveSwapFee_consistent hp.fees hfee).2]
    exact ProtocolFee.pips_le hvalid _
  have hahead : p.crossingsAhead params = crossings ctx.fee ctx.protocolFeePips
      (p.swapStart params).feeGrowthGlobalX128 (p.payments swapFee params) := by
    unfold Pool.crossingsAhead
    rw [hfee, hctx]
    rfl
  have hlive := h.live_final hp
  rw [hahead]
  by_cases hmode : 0 < ctx.amountSpecified -> ctx.fee.isMax = false
  · rcases h.payments_left hp hctx hmode with ⟨fuel, hfuel, _⟩
    have hrun := SwapContext.run_crossings h.run (h.live hp) (fuel + 1)
    have hlength := Nat.le_of_add_right_le (le_of_eq hfuel)
    rw [h.payments hctx hmode, List.flatMap_append,
      ← hend.crossingsFrom (h.metered hp) hlength hlive hmode hpips, ← hrun, hfuel]
    rfl
  · -- A full fee refuses the first iteration of an exact output.
    push Not at hmode
    have hrefused {a : SwapLoopState × TickSlab A} {c : StepComputations} (ha : ctx.Live a)
        (hrunning : ¬ ctx.Halted a.1)
        (hc : ctx.advance (ctx.stepTarget a.2 a.1.tick) a.1 = .ok c) : False :=
      hmode.2 (SwapContext.advance_isMax ha hrunning hc hmode.1)
    have hnil : cs = [] := by
      have hrun := h.run
      cases hrun with
      | nil _ => rfl
      | cons hone _ => exact absurd hone.computes fun hc => hrefused (h.live hp) hone.running hc
    have hlast : last = [] := by
      cases hend with
      | halted _ => rfl
      | rejected _ _ _ => rfl
      | failed hrunning hadvance _ => exact absurd hadvance fun hc => hrefused hlive hrunning hc
    have hnone : p.payments swapFee params = [] := by
      subst hctx
      exact if_neg fun hgo => hmode.2 (hgo.2 hmode.1)
    rw [hnil, hlast, hnone]
    rfl

theorem mem_reached {k : Int} {growth : Nat} {cs : List StepComputations} :
    (k, growth) ∈ cs.flatMap StepComputations.reached ↔
      exists c, c ∈ cs ∧ c.crossed = some k ∧ c.next.feeGrowthGlobalX128 = growth := by
  rw [List.mem_flatMap]
  unfold StepComputations.reached
  simp only [Option.mem_toList, Option.map_eq_some_iff, Prod.mk.injEq]
  constructor
  · rintro ⟨c, hc, k', hcross, rfl, hgrowth⟩
    exact ⟨c, hc, hcross, hgrowth⟩
  · rintro ⟨c, hc, hcross, hgrowth⟩
    exact ⟨c, hc, k, hcross, rfl, hgrowth⟩

theorem LoopRun.untouching_iff (h : LoopRun p params ctx cs b) (hp : p.Usable)
    (hvalid : p.swapFee.protocolFee.isValid = true) {last : List StepComputations}
    {r : Except Error SwapLoopState × TickSlab A} (hend : ctx.Ends b last r) :
    p.Untouching params ↔ forall c k info, c ∈ cs ++ last -> c.crossed = some k ->
      p.ticks.snapshot.get? k = some info ->
        info.flip (ctx.globals c.next.feeGrowthGlobalX128) = info := by
  unfold Untouching
  rw [h.crossingsAhead hp hvalid hend, h.globals]
  constructor
  · intro hsame c k info hc hcross hget
    exact hsame k _ info (mem_reached.mpr ⟨c, hc, hcross, rfl⟩) hget
  · intro hsame k growth info hmem hget
    rcases mem_reached.mp hmem with ⟨c, hc, hcross, rfl⟩
    exact hsame c k info hc hcross hget

/-- A failing swap leaves the pool as it was exactly when the ticks it can cross stay
the same. -/
theorem Usable.swap_unchanged_iff (hp : p.Usable)
    (hvalid : p.swapFee.protocolFee.isValid = true) {fuel : Nat} {e : Error}
    (h : p.swap params fuel = some (.error e, p')) : Twin p p' ↔ p.Untouching params := by
  have htwin {ticks : TickSlab A} : Twin p { p with ticks } ↔ ticks.snapshot = p.ticks.snapshot :=
    ⟨fun h => h.ticks, fun h => ⟨rfl, rfl, rfl, h, rfl⟩⟩
  generalize hlist : p.swapComputations params fuel = list
  have hcases := swap_cases h
  rw [hlist] at hcases
  cases hcases with
  | rejected hrejected =>
      refine ⟨fun _ k growth info hmem _ => ?_, fun _ => ⟨rfl, rfl, rfl, rfl, rfl⟩⟩
      unfold Pool.crossingsAhead at hmem
      rcases hrejected with hfee | hlimit
      · rw [hfee] at hmem
        cases hmem
      · cases hfee : p.resolveSwapFee params with
        | error e' =>
            rw [hfee] at hmem
            cases hmem
        | ok swapFee =>
            have hnone : p.payments swapFee params = [] := if_neg fun hgo => by
              rw [hlimit] at hgo
              cases hgo.1
            rw [hfee] at hmem
            dsimp only at hmem
            rw [hnone] at hmem
            cases hmem
  | failed hrun hend =>
      rcases hend.writes (hrun.final hp) hrun.access with ⟨t, hlast⟩
      rw [htwin, hrun.untouching_iff hp hvalid hend]
      exact SwapContext.run_unchanged_iff ((hrun.writes hp).append hlast)
  | unsettled hrun hhalt _ =>
      rw [htwin, hrun.untouching_iff hp hvalid (SwapContext.Ends.halted hhalt), List.append_nil]
      exact SwapContext.run_unchanged_iff (hrun.writes hp)

/-- The same for the pools a snapshot was restored to. -/
theorem swap_failure_iff [PositionsAccess P] (hp : p.Accepted) {fuel : Nat} {e : Error}
    (h : p.swap params fuel = some (.error e, p')) : Twin p p' ↔ p.Untouching params :=
  hp.sound.toUsable.swap_unchanged_iff hp.protocolFee_isValid h

end Swap

/-!
# Failing liquidity changes
-/

/-- A change that is refused before anything is written. -/
def Refuses {P : Type} (p : Pool P A) (params : ModifyLiquidityParams) : Prop :=
  ¬ params.RangeValid p.tickSpacing ∨
    params.liquidityDelta ≠ 0 ∧ exists info, p.ticks.snapshot.get? params.tickLower = some info ∧
      ¬ info.Admits p.tickSpacing.maxLiquidityPerTick params.liquidityDelta false

/-- A change of zero liquidity for a position that is stored but empty. -/
def RefreshesEmpty (p : Pool Positions A) (params : ModifyLiquidityParams) : Prop :=
  params.liquidityDelta = 0 ∧
    exists position, p.positions.map.get? params.index = some position ∧ position.liquidity = 0

section Change

variable {P : Type} {p p' : Pool P A} {params : ModifyLiquidityParams} {lower upper : TickInfoInner}
  {slab : TickSlab A} {map : SortedMap Int TickInfoInner}

theorem touchTick_eq_iff {ticks : SortedMap Int TickInfoInner} {t : Int} :
    touchTick ticks t = ticks ↔ exists info, ticks.get? t = some info := by
  unfold touchTick
  cases hget : ticks.get? t with
  | some info =>
      exact ⟨fun _ => ⟨info, rfl⟩, fun _ => rfl⟩
  | none =>
      constructor
      · intro h
        have hself := SortedMap.get?_insert_self ticks t TickInfoInner.default
        rw [show ticks.insert t TickInfoInner.default = ticks from h, hget] at hself
        cases hself
      · rintro ⟨info, hinfo⟩
        cases hinfo

theorem storeTick_lower_gross (hdelta : params.liquidityDelta ≠ 0)
    (hadmits : (tickAt p.ticks.snapshot params.tickLower).Admits
      p.tickSpacing.maxLiquidityPerTick params.liquidityDelta false) :
    (tickAt (storeTick p.ticks.snapshot params.tickLower
      (params.lowerAfter p.state p.ticks.snapshot)) params.tickLower).liquidityGross ≠
        (tickAt p.ticks.snapshot params.tickLower).liquidityGross := by
  have hnonneg := hadmits.nonneg
  rw [tickAt_storeTick_gross]
  show ((((tickAt p.ticks.snapshot params.tickLower).liquidityGross : Int) +
    params.liquidityDelta).toNat) ≠ _
  omega

theorem touchTick_upper_ne (hrange : params.RangeValid p.tickSpacing)
    (hdelta : params.liquidityDelta ≠ 0)
    (hadmits : (tickAt p.ticks.snapshot params.tickLower).Admits
      p.tickSpacing.maxLiquidityPerTick params.liquidityDelta false) :
    touchTick (storeTick p.ticks.snapshot params.tickLower
      (params.lowerAfter p.state p.ticks.snapshot)) params.tickUpper ≠ p.ticks.snapshot := by
  intro hsame
  have hgross := storeTick_lower_gross hdelta hadmits
  have hkept (ticks : SortedMap Int TickInfoInner) :
      tickAt (touchTick ticks params.tickUpper) params.tickLower =
        tickAt ticks params.tickLower := by
    unfold touchTick
    split
    · rfl
    · unfold tickAt
      rw [SortedMap.get?_insert_ne ticks (ne_of_lt hrange.1)]
  rw [← hkept, hsame] at hgross
  exact hgross rfl

theorem changeTicks_ne (hrange : params.RangeValid p.tickSpacing)
    (hdelta : params.liquidityDelta ≠ 0)
    (hadmits : (tickAt p.ticks.snapshot params.tickLower).Admits
      p.tickSpacing.maxLiquidityPerTick params.liquidityDelta false) :
    params.changeTicks p.state p.ticks.snapshot ≠ p.ticks.snapshot := by
  intro hsame
  have hgross := storeTick_lower_gross hdelta hadmits
  rw [← @tickAt_storeTick_ne _ _ _ (params.upperAfter p.state p.ticks.snapshot)
    (ne_of_lt hrange.1)] at hgross
  unfold ModifyLiquidityParams.changeTicks at hsame
  rw [hsame] at hgross
  exact hgross rfl

theorem Refuses.iff_of_nonzero (hrange : params.RangeValid p.tickSpacing)
    (hdelta : params.liquidityDelta ≠ 0) :
    p.Refuses params ↔ exists info, p.ticks.snapshot.get? params.tickLower = some info ∧
      ¬ info.Admits p.tickSpacing.maxLiquidityPerTick params.liquidityDelta false := by
  unfold Refuses
  constructor
  · rintro (hbad | ⟨_, hinfo⟩)
    · exact absurd hrange hbad
    · exact hinfo
  · intro h
    exact Or.inr ⟨hdelta, h⟩

theorem Refuses.admits (hadmits : (tickAt p.ticks.snapshot params.tickLower).Admits
      p.tickSpacing.maxLiquidityPerTick params.liquidityDelta false)
    (hrange : params.RangeValid p.tickSpacing) : ¬ p.Refuses params := by
  rintro (hbad | ⟨_, info, hget, hinfo⟩)
  · exact hbad hrange
  · rw [tickAt_some hget] at hadmits
    exact hinfo hadmits

theorem Boundaries.ticks_ne (h : Boundaries p params lower upper slab map) (hp : p.Usable)
    (hrange : params.RangeValid p.tickSpacing) (hdelta : params.liquidityDelta ≠ 0) :
    slab.snapshot ≠ p.ticks.snapshot := by
  have hadmits := h.admits hdelta
  have hholds := Boundaries.holds hp h
  cases h with
  | changed _ _ _ _ =>
      rw [hholds.snapshot]
      exact changeTicks_ne hrange hdelta hadmits.1
  | read hzero =>
      exact absurd hzero hdelta

/-- A failing change of some liquidity leaves the pool as it was exactly when it is
refused at once. -/
theorem Usable.modify_unchanged_iff [PositionsAccess P] (hp : p.Usable) {e : Error}
    (hdelta : params.liquidityDelta ≠ 0) (h : p.modifyLiquidity params = (.error e, p')) :
    Twin p p' ↔ p.Refuses params := by
  have hcases := modify_cases hp.holds params
  rw [h] at hcases
  cases hcases with
  | rejected hbad =>
      exact ⟨fun _ => Or.inl hbad, fun _ => ⟨rfl, rfl, rfl, rfl, rfl⟩⟩
  | lower hrange _ hadmits hholds =>
      have htouch := @touchTick_eq_iff p.ticks.snapshot params.tickLower
      rw [← hholds.snapshot] at htouch
      rw [Refuses.iff_of_nonzero hrange hdelta]
      constructor
      · intro htwin
        rcases htouch.mp htwin.ticks with ⟨info, hget⟩
        rw [tickAt_some hget] at hadmits
        exact ⟨info, hget, hadmits⟩
      · rintro ⟨info, hget, _⟩
        exact ⟨rfl, rfl, rfl, htouch.mpr ⟨info, hget⟩, rfl⟩
  | upper hrange _ hadmits _ hholds =>
      have hne := touchTick_upper_ne hrange hdelta hadmits
      rw [← hholds.snapshot] at hne
      exact ⟨fun htwin => absurd htwin.ticks hne,
        fun hrefuses => absurd hrefuses (Refuses.admits hadmits hrange)⟩
  | position hrange hb _ =>
      exact ⟨fun htwin => absurd htwin.ticks (hb.ticks_ne hp hrange hdelta),
        fun hrefuses => absurd hrefuses (Refuses.admits (hb.admits hdelta).1 hrange)⟩
  | principal hrange hb _ _ =>
      exact ⟨fun htwin => absurd htwin.ticks (hb.ticks_ne hp hrange hdelta),
        fun hrefuses => absurd hrefuses (Refuses.admits (hb.admits hdelta).1 hrange)⟩

theorem settlePrincipal_zero {state : PoolState} (hdelta : params.liquidityDelta = 0)
    (lower upper : TickBoundary) :
    settlePrincipal state params lower upper = (.ok BalanceDelta.default, state) := by
  unfold settlePrincipal
  rw [if_neg (not_not.mpr hdelta)]

theorem Usable.modify_zero_failure [PositionsAccess P] (hp : p.Usable) {e : Error}
    (hdelta : params.liquidityDelta = 0) (h : p.modifyLiquidity params = (.error e, p')) :
    (p.Refuses params ∧ p' = p) ∨
      ¬ p.Refuses params ∧ exists lower upper positions, p' = { p with positions } ∧
        p.realizeFees params (TickInfoInner.boundary lower params.tickLower)
          (TickInfoInner.boundary upper params.tickUpper) = (.error e, positions) := by
  have hcases := modify_cases hp.holds params
  rw [h] at hcases
  cases hcases with
  | rejected hbad =>
      exact Or.inl ⟨Or.inl hbad, rfl⟩
  | lower _ hne _ _ =>
      exact absurd hdelta hne
  | upper _ hne _ _ _ =>
      exact absurd hdelta hne
  | @position e lower upper ticks map positions hrange hb hfees =>
      cases hb with
      | read _ =>
          refine Or.inr ⟨?_, _, _, positions, rfl, hfees⟩
          rintro (hbad | ⟨hne, _⟩)
          · exact hbad hrange
          · exact hne hdelta
      | changed hne _ _ _ =>
          exact absurd hdelta hne
  | principal _ _ _ hprincipal =>
      rw [settlePrincipal_zero hdelta] at hprincipal
      cases hprincipal

end Change

section Stores

variable {params : ModifyLiquidityParams} {e : Error}

theorem modify_failure_iff_unit {p p' : Pool Unit A} (hp : p.Usable)
    (h : p.modifyLiquidity params = (.error e, p')) : Twin p p' ↔ p.Refuses params := by
  by_cases hdelta : params.liquidityDelta = 0
  · rcases hp.modify_zero_failure hdelta h with ⟨hrefuses, hsame⟩ | ⟨_, _, _, _, _, hfees⟩
    · rw [hsame]
      exact ⟨fun _ => hrefuses, fun _ => ⟨rfl, rfl, rfl, rfl, rfl⟩⟩
    · cases hfees
  · exact hp.modify_unchanged_iff hdelta h

theorem updated_ne {position : PositionState} {inside : Nat × Nat}
    (hfees : BalanceDelta.fromU256 (position.earned inside).1 (position.earned inside).2 =
      .error e) : position.updated 0 inside ≠ position := by
  intro hsame
  have hzero (growth : Nat) : wrappingSub 256 growth growth = 0 := by
    unfold wrappingSub
    omega
  unfold PositionState.updated at hsame
  have h0 : inside.1 = position.feeGrowthInside0LastX128 :=
    congrArg PositionState.feeGrowthInside0LastX128 hsame
  have h1 : inside.2 = position.feeGrowthInside1LastX128 :=
    congrArg PositionState.feeGrowthInside1LastX128 hsame
  unfold PositionState.earned at hfees
  rw [h0, h1, hzero, hzero, Nat.zero_mul, Nat.zero_div] at hfees
  cases hfees

theorem put_eq_iff {positions : Positions} {i : PositionIndex} {position : PositionState} :
    positions.put i position = positions ↔ positions.map.get? i = some position := by
  constructor
  · intro h
    have hself := SortedMap.get?_insert_self positions.map i position
    rw [show positions.map.insert i position = positions.map from congrArg Positions.map h] at hself
    exact hself
  · intro h
    unfold Positions.put
    cases positions with
    | mk map =>
        apply congrArg Positions.mk
        apply SortedMap.ext
        intro j
        rw [SortedMap.get?_insert]
        split
        · rename_i heq
          rw [heq]
          exact h.symm
        · rfl

theorem modify_failure_iff_positions {p p' : Pool Positions A} (hp : p.Backed)
    (h : p.modifyLiquidity params = (.error e, p')) :
    Twin p p' ↔ p.Refuses params ∨ p.RefreshesEmpty params := by
  have hstored (position : PositionState)
      (hget : p.positions.map.get? params.index = some position) :
      p.positions.stateAt params.index = position := by
    unfold Positions.stateAt
    rw [hget]
    rfl
  by_cases hdelta : params.liquidityDelta = 0
  · rcases hp.sound.toUsable.modify_zero_failure hdelta h with ⟨hrefuses, hsame⟩ |
      ⟨hnot, lower, upper, positions, hsame, hfees⟩
    · rw [hsame]
      exact ⟨fun _ => Or.inl hrefuses, fun _ => ⟨rfl, rfl, rfl, rfl, rfl⟩⟩
    · have htwin : Twin p p' ↔ positions = p.positions := by
        rw [hsame]
        exact ⟨fun h => h.positions, fun h => ⟨rfl, rfl, rfl, rfl, h⟩⟩
      rw [htwin, or_iff_right hnot]
      have hlt := hp.position_lt params.index
      rcases realizeFees_cases hlt lower upper with ⟨hbad, e', heq⟩ | ⟨hupdate, heq⟩
      · rw [heq] at hfees
        injection hfees with _ hpositions
        unfold PositionState.Updatable at hbad
        rw [if_pos hdelta, not_not] at hbad
        rw [← hpositions, put_eq_iff]
        constructor
        · intro hget
          exact ⟨hdelta, _, hget, hbad⟩
        · rintro ⟨_, position, hget, _⟩
          rw [hstored position hget]
          exact hget
      · rw [heq] at hfees
        injection hfees with hpaid hpositions
        unfold PositionState.Updatable at hupdate
        rw [if_pos hdelta] at hupdate
        rw [← hpositions, put_eq_iff, hdelta]
        constructor
        · intro hget
          exact absurd (hstored _ hget).symm (updated_ne hpaid)
        · rintro ⟨_, position, hget, hempty⟩
          rw [hstored position hget] at hupdate
          exact absurd hempty hupdate
  · rw [hp.sound.toUsable.modify_unchanged_iff hdelta h]
    exact ⟨fun hrefuses => Or.inl hrefuses, fun h => h.resolve_right fun hempty =>
      hdelta hempty.1⟩

/-- A failing change leaves the pool as it was exactly when it is refused before any
write, or with positions also when it refreshes a stored position without liquidity. -/
theorem modify_failure_iff (params : ModifyLiquidityParams) (e : Error) :
    (forall p p' : Pool Unit A, p.Accepted -> p.modifyLiquidity params = (.error e, p') ->
      (Twin p p' ↔ p.Refuses params)) ∧
    forall p p' : Pool Positions A, p.Accepted -> p.modifyLiquidity params = (.error e, p') ->
      (Twin p p' ↔ p.Refuses params ∨ p.RefreshesEmpty params) :=
  ⟨fun _ _ hp h => modify_failure_iff_unit hp.sound.toUsable h,
    fun _ _ hp h => modify_failure_iff_positions hp.backed h⟩

end Stores

end Pool

/-!
# Operations that leave a trace
-/

namespace Sample

def remove : ModifyLiquidityParams :=
  { tickLower := -60
    tickUpper := 60
    liquidityDelta := -1
    owner := 1
    salt := 0
    lowerInRange := add.lowerInRange
    upperInRange := add.upperInRange
    deltaFits := by decide }

def farSnapshot : PoolSnapshot Positions :=
  { state :=
      { sqrtPriceX96 := getSqrtPriceAtTick 599970
        tick := 599970
        liquidity := 2 * 10 ^ 33
        feeGrowthGlobal0X128 := 0
        feeGrowthGlobal1X128 := 0 }
    fee := swapFee.lpFee
    protocolFee := swapFee.protocolFee
    tickSpacing
    ticks :=
      { tickSpacing
        inner := SortedMap.ofList
          [(599940, ⟨2 * 10 ^ 33, 2 * 10 ^ 33, 0, 0⟩), (600060, ⟨10 ^ 33, -10 ^ 33, 0, 0⟩),
            (600120, ⟨10 ^ 33, -10 ^ 33, 0, 0⟩)] }
    positions :=
      { map := SortedMap.ofList
          [(⟨1, 599940, 600060, 0⟩, ⟨10 ^ 33, 0, 0⟩), (⟨2, 599940, 600120, 0⟩, ⟨10 ^ 33, 0, 0⟩)] } }

def far : Pool Positions := (Pool.fromSnapshot farSnapshot).getD empty

theorem far_accepted : far.Accepted := by
  have hok : (Pool.fromSnapshot farSnapshot : Outcome Error (Pool Positions)).isOk = true := by
    decide +kernel
  exact ⟨farSnapshot, by decide +kernel, Outcome.eq_ok_getD hok empty⟩

/-- A purchase whose input does not fit the delta of the caller. -/
def buyAll : SwapParamsInner :=
  { zeroForOne := false
    amountSpecified := -10 ^ 60
    sqrtPriceLimit := getSqrtPriceAtTick 700000
    lpFeeOverride := none
    amountFits := by decide
    limitValid := by decide +kernel }

theorem far_buyAll : far.swap buyAll 20 = some (.error .i128Overflow, swapped far buyAll 20) := by
  have hresult : (far.swap buyAll 20).map Prod.fst = some (.error .i128Overflow) := by
    decide +kernel
  exact swap_eq hresult

end Sample

/-- A swap that fails after it crossed two ticks leaves their growth turned. -/
theorem swap_failure_flips :
    exists (p p' : Pool Positions) (params : SwapParamsInner) (fuel : Nat), p.Accepted ∧
      p.swap params fuel = some (.error .i128Overflow, p') ∧
      (p.ticks.snapshot.get? 600060).map (fun info => info.feeGrowthOutside1X128) = some 0 ∧
      (p'.ticks.snapshot.get? 600060).map (fun info => info.feeGrowthOutside1X128) ≠ some 0 :=
  ⟨Sample.far, _, Sample.buyAll, 20, Sample.far_accepted, Sample.far_buyAll, by decide +kernel,
    by decide +kernel⟩

theorem Pool.swap_failure_iff_sample :
    Pool.Twin Sample.far (Sample.swapped Sample.far Sample.buyAll 20) ↔
      Sample.far.Untouching Sample.buyAll :=
  Pool.swap_failure_iff Sample.far_accepted Sample.far_buyAll

/-- A removal from an empty pool leaves an initialized tick without liquidity. -/
theorem modify_failure_leaves_tick :
    exists (p p' : Pool Positions) (params : ModifyLiquidityParams), p.Accepted ∧
      p.modifyLiquidity params = (.error .i128Overflow, p') ∧
      p.ticks.snapshot.get? params.tickLower = none ∧
      p'.ticks.snapshot.get? params.tickLower = some TickInfoInner.default := by
  refine ⟨Sample.empty, (Sample.empty.modifyLiquidity Sample.remove).2, Sample.remove,
    Sample.empty_fresh.accepted, ?_, by decide +kernel, by decide +kernel⟩
  have hresult : (Sample.empty.modifyLiquidity Sample.remove).1 = .error .i128Overflow := by
    decide +kernel
  exact Prod.ext hresult rfl

theorem Pool.modify_failure_iff_sample :
    Pool.Twin Sample.empty (Sample.empty.modifyLiquidity Sample.remove).2 ↔
      Sample.empty.Refuses Sample.remove ∨ Sample.empty.RefreshesEmpty Sample.remove := by
  have hresult : (Sample.empty.modifyLiquidity Sample.remove).1 = .error .i128Overflow := by
    decide +kernel
  exact (Pool.modify_failure_iff Sample.remove .i128Overflow).2 _ _ Sample.empty_fresh.accepted
    (Prod.ext hresult rfl)

end RmUniswap
