import RmUniswap.Pool.Growth
import RmUniswap.Pool.OrderedTicks

/-!
# Quotes agree with swaps

The loop reads the keys and the accounting of the ticks only, which crossing keeps.
So the loop that writes the ticks it crosses computes what the read-only loop does.
-/

namespace RmUniswap

open Foundation

variable {A : Type} [LawfulAllocator TickSlabValue A]

/-!
# Nearest keys
-/

namespace Foundation
namespace SortedMap

universe u v w

variable {K : Type u} {V : Type v} {W : Type w} [LinearOrder K] {m : SortedMap K V}
  {n : SortedMap K W}

theorem findLE?_key (h : forall k, (exists v, m.get? k = some v) ↔ exists w, n.get? k = some w)
    (q : K) : (m.findLE? q).map Prod.fst = (n.findLE? q).map Prod.fst := by
  cases hm : m.findLE? q with
  | none =>
      cases hn : n.findLE? q with
      | none => rfl
      | some e =>
          rcases findLE?_eq_some (k := e.1) (v := e.2) hn with ⟨hget, hle, _⟩
          rcases (h e.1).mpr ⟨e.2, hget⟩ with ⟨v, hv⟩
          exact absurd (findLE?_eq_none hm hv) (not_lt.mpr hle)
  | some e =>
      rcases findLE?_eq_some (k := e.1) (v := e.2) hm with ⟨hget, hle, hmax⟩
      rcases (h e.1).mp ⟨e.2, hget⟩ with ⟨w, hw⟩
      cases hn : n.findLE? q with
      | none => exact absurd (findLE?_eq_none hn hw) (not_lt.mpr hle)
      | some e' =>
          rcases findLE?_eq_some (k := e'.1) (v := e'.2) hn with ⟨hget', hle', hmax'⟩
          rcases (h e'.1).mpr ⟨e'.2, hget'⟩ with ⟨v, hv⟩
          exact congrArg some (le_antisymm (hmax' e.1 w hw hle) (hmax e'.1 v hv hle'))

theorem findGT?_key (h : forall k, (exists v, m.get? k = some v) ↔ exists w, n.get? k = some w)
    (q : K) : (m.findGT? q).map Prod.fst = (n.findGT? q).map Prod.fst := by
  cases hm : m.findGT? q with
  | none =>
      cases hn : n.findGT? q with
      | none => rfl
      | some e =>
          rcases findGT?_eq_some (k := e.1) (v := e.2) hn with ⟨hget, hgt, _⟩
          rcases (h e.1).mpr ⟨e.2, hget⟩ with ⟨v, hv⟩
          exact absurd (findGT?_eq_none hm hv) (not_le.mpr hgt)
  | some e =>
      rcases findGT?_eq_some (k := e.1) (v := e.2) hm with ⟨hget, hgt, hmin⟩
      rcases (h e.1).mp ⟨e.2, hget⟩ with ⟨w, hw⟩
      cases hn : n.findGT? q with
      | none => exact absurd (findGT?_eq_none hn hw) (not_le.mpr hgt)
      | some e' =>
          rcases findGT?_eq_some (k := e'.1) (v := e'.2) hn with ⟨hget', hgt', hmin'⟩
          rcases (h e'.1).mpr ⟨e'.2, hget'⟩ with ⟨v, hv⟩
          exact congrArg some (le_antisymm (hmin e'.1 v hv hgt') (hmin' e.1 w hw hgt))

end SortedMap
end Foundation

/-!
# Equal accounting
-/

theorem map_congr_fst {A B C D : Type} {o o' : Option (A × B)} {f g : A × B -> C × D}
    (h : o'.map Prod.fst = o.map Prod.fst)
    (hfg : forall r r', r'.1 = r.1 -> (g r').1 = (f r).1) :
    o'.map (Prod.fst ∘ g) = o.map (Prod.fst ∘ f) := by
  cases o' with
  | none =>
      cases o with
      | none => rfl
      | some r => cases h
  | some r' =>
      cases o with
      | none => cases h
      | some r => exact congrArg some (hfg r r' (Option.some.inj h))

section Accounting

variable {ticks ticks' : SortedMap Int TickInfoInner}

theorem accounting_get? (h : Positions.accounting ticks' = Positions.accounting ticks) (t : Int) :
    (ticks'.get? t).map (fun i => (i.liquidityGross, i.liquidityNet)) =
      (ticks.get? t).map fun i => (i.liquidityGross, i.liquidityNet) := by
  have hget := congrArg (fun m => m.get? t) h
  unfold Positions.accounting at hget
  rw [SortedMap.get?_mapValues, SortedMap.get?_mapValues] at hget
  exact hget

theorem accounting_initialized (h : Positions.accounting ticks' = Positions.accounting ticks)
    (t : Int) :
    (exists info, ticks'.get? t = some info) ↔ exists info, ticks.get? t = some info := by
  have hget := accounting_get? h t
  cases h' : ticks'.get? t <;> cases h0 : ticks.get? t <;> rw [h', h0] at hget <;>
    simp at hget ⊢

theorem accounting_net (h : Positions.accounting ticks' = Positions.accounting ticks) (t : Int) :
    (tickAt ticks' t).liquidityNet = (tickAt ticks t).liquidityNet := by
  have hget := accounting_get? h t
  unfold tickAt
  cases h' : ticks'.get? t with
  | none =>
      cases h0 : ticks.get? t with
      | none => rfl
      | some info =>
          rw [h', h0] at hget
          cases hget
  | some info' =>
      cases h0 : ticks.get? t with
      | none =>
          rw [h', h0] at hget
          cases hget
      | some info =>
          rw [h', h0] at hget
          injection hget with hget
          injection hget

end Accounting

namespace SwapContext

def on (ctx : SwapContext) (access : Access) (poolState : PoolState) : SwapContext :=
  { ctx with access, poolState }

section Lockstep

variable {ctx : SwapContext} {ticks ticks' : SortedMap Int TickInfoInner}

theorem targetOn_congr (ctx : SwapContext) (access : Access) (poolState : PoolState)
    (h : Positions.accounting ticks' = Positions.accounting ticks) (t : Int) :
    (ctx.on access poolState).targetOn ticks' t = ctx.targetOn ticks t := by
  have hinit := accounting_initialized h
  have hfind : (if ctx.zeroForOne then ticks'.findLE? t else ticks'.findGT? t).map Prod.fst =
      (if ctx.zeroForOne then ticks.findLE? t else ticks.findGT? t).map Prod.fst := by
    split
    · exact SortedMap.findLE?_key hinit t
    · exact SortedMap.findGT?_key hinit t
  have hkey : (ctx.on access poolState).nearestKey ticks' t = ctx.nearestKey ticks t := by
    show ((if ctx.zeroForOne then ticks'.findLE? t else ticks'.findGT? t).map Prod.fst).filter _ = _
    rw [hfind]
    rfl
  unfold targetOn
  rw [hkey]
  rfl

theorem crossOn_accounting (ctx : SwapContext) (s : SwapLoopState) (c : StepComputations)
    (hc : forall k, c.crossed = some k -> exists info, ticks.get? k = some info) :
    Positions.accounting (ctx.crossOn s ticks c).2 = Positions.accounting ticks := by
  unfold crossOn
  cases hcross : c.crossed with
  | none => rfl
  | some k =>
      rcases hc k hcross with ⟨info, hget⟩
      dsimp only
      rw [tickAt_some hget]
      exact accounting_crossed ctx.access hget _

theorem targetOn_initialized {t k : Int} {s : SwapLoopState} {c : StepComputations}
    (hc : ctx.advance (ctx.targetOn ticks t) s = .ok c) (hcross : c.crossed = some k) :
    exists info, ticks.get? k = some info := by
  have hsome := crossed_eq_some.mp hcross
  rw [(advance_eq_ok hc).toTarget] at hsome
  rcases hsome with ⟨_, hindexer, hkey⟩
  unfold targetOn at hindexer hkey
  cases hnear : ctx.nearestKey ticks t with
  | none =>
      rw [hnear] at hindexer
      cases hindexer
  | some j =>
      rw [hnear] at hkey
      rw [← show j = k from hkey]
      unfold nearestKey at hnear
      have hfind := (Option.filter_eq_some_iff.mp hnear).1
      rcases Option.map_eq_some_iff.mp hfind with ⟨e, he, hej⟩
      rw [← hej]
      cases hz : ctx.zeroForOne with
      | false =>
          rw [hz, if_neg (by decide)] at he
          exact ⟨e.2, (SortedMap.findGT?_eq_some (k := e.1) (v := e.2) he).1⟩
      | true =>
          rw [hz, if_pos rfl] at he
          exact ⟨e.2, (SortedMap.findLE?_eq_some (k := e.1) (v := e.2) he).1⟩

theorem stepOn_congr (ctx : SwapContext) (access : Access) (poolState : PoolState)
    (h : Positions.accounting ticks' = Positions.accounting ticks) (s : SwapLoopState) :
    ((ctx.on access poolState).stepOn s ticks').1 = (ctx.stepOn s ticks).1 ∧
      Positions.accounting ((ctx.on access poolState).stepOn s ticks').2 =
        Positions.accounting (ctx.stepOn s ticks).2 := by
  have htarget := targetOn_congr ctx access poolState h s.tick
  have hadvance : (ctx.on access poolState).advance
      ((ctx.on access poolState).targetOn ticks' s.tick) s =
        ctx.advance (ctx.targetOn ticks s.tick) s := by
    rw [htarget]
    rfl
  unfold stepOn
  rw [hadvance]
  cases hc : ctx.advance (ctx.targetOn ticks s.tick) s with
  | error e =>
      exact ⟨rfl, h⟩
  | ok c =>
      dsimp only
      have hinit (k : Int) (hcross : c.crossed = some k) := targetOn_initialized hc hcross
      have hinit' (k : Int) (hcross : c.crossed = some k) :
          exists info, ticks'.get? k = some info :=
        (accounting_initialized h k).mpr (hinit k hcross)
      rw [crossOn_accounting _ s c hinit', crossOn_accounting ctx s c hinit]
      refine ⟨?_, h⟩
      unfold crossOn
      cases c.crossed with
      | none => rfl
      | some k =>
          dsimp only
          rw [accounting_net h k]
          rfl

theorem loopOn_congr (ctx : SwapContext) (access : Access) (poolState : PoolState) (fuel : Nat)
    (h : Positions.accounting ticks' = Positions.accounting ticks) (s : SwapLoopState) :
    ((ctx.on access poolState).loopOn fuel s ticks').map Prod.fst =
      (ctx.loopOn fuel s ticks).map Prod.fst := by
  induction fuel generalizing s ticks ticks' with
  | zero => rfl
  | succ fuel ih =>
      unfold loopOn
      by_cases hhalt : ctx.Halted s
      · rw [if_pos hhalt, if_pos (show (ctx.on access poolState).Halted s from hhalt)]
        rfl
      · rw [if_neg hhalt, if_neg (show ¬ (ctx.on access poolState).Halted s from hhalt)]
        have hstep := stepOn_congr ctx access poolState h s
        cases hr : ctx.stepOn s ticks with
        | mk result after =>
            cases hr' : (ctx.on access poolState).stepOn s ticks' with
            | mk result' after' =>
                rw [hr, hr'] at hstep
                have hsame : result' = result := hstep.1
                rw [hsame]
                cases result with
                | error e => rfl
                | ok s' => exact ih hstep.2 s'

end Lockstep

end SwapContext

/-!
# Quotes and swaps
-/

namespace Pool

section Quote

variable {P : Type} {p p' : Pool P A} {params : SwapParamsInner}

theorem finishOn_result (ctx : SwapContext) (access : Access) (poolState state : PoolState)
    {r r' : Except Error SwapLoopState × SortedMap Int TickInfoInner} (h : r'.1 = r.1) :
    (finishOn (ctx.on access poolState) state r').1 = (finishOn ctx state r).1 := by
  rcases r with ⟨result, ticks⟩
  rcases r' with ⟨result', ticks'⟩
  have hsame : result' = result := h
  rw [hsame]
  unfold finishOn
  cases result with
  | error e => rfl
  | ok s =>
      have hdelta : (ctx.on access poolState).swapDelta s = ctx.swapDelta s := rfl
      dsimp only
      rw [hdelta]
      cases ctx.swapDelta s with
      | error e => rfl
      | ok delta => rfl

theorem runSwapOn_result (p : Pool P A) (access access' : Access) (params : SwapParamsInner)
    (fuel : Nat) :
    (p.runSwapOn access' params fuel).map Prod.fst =
      (p.runSwapOn access params fuel).map Prod.fst := by
  unfold runSwapOn
  cases p.resolveSwapFee params with
  | error e => rfl
  | ok swapFee =>
      dsimp only
      by_cases hzero : params.amountSpecified = 0
      · rw [if_pos hzero, if_pos hzero]
        rfl
      · rw [if_neg hzero, if_neg hzero]
        cases checkLimit params.zeroForOne p.state.sqrtPriceX96 params.sqrtPriceLimit with
        | error e => rfl
        | ok u =>
            dsimp only
            have hloop := (p.swapContext access swapFee params).loopOn_congr access' p.state fuel
              (Eq.refl (Positions.accounting p.ticks.snapshot)) (p.swapStart params)
            show Option.map Prod.fst (Option.map _
              (((p.swapContext access swapFee params).on access' p.state).loopOn fuel
                (p.swapStart params) p.ticks.snapshot)) = _
            rw [Option.map_map, Option.map_map]
            exact map_congr_fst hloop fun r r' h =>
              finishOn_result (p.swapContext access swapFee params) access' p.state p.state h

theorem quoteSwap_eq (hp : p.Usable) (params : SwapParamsInner) (fuel : Nat) :
    p.quoteSwap params fuel = (p.swap params fuel).map Prod.fst := by
  have hresult (access : Access) : (p.runSwap access params fuel).map Prod.fst =
      (p.runSwapOn access params fuel).map Prod.fst := by
    have hrel := runSwap_refines hp access params fuel
    generalize p.runSwap access params fuel = run at hrel
    generalize p.runSwapOn access params fuel = runOn at hrel
    cases hrel with
    | none => rfl
    | some h => exact congrArg some h.result
  unfold quoteSwap swap
  rw [hresult, hresult, runSwapOn_result]

/-!
# What a swap changes
-/

theorem LoopRun.uncrossed {ctx : SwapContext} {cs : List StepComputations}
    {b : SwapLoopState × TickSlab A} (h : LoopRun p params ctx cs b) (hp : p.Usable) {t : Int}
    (ht : forall c, c ∈ cs -> c.crossed ≠ some t) :
    b.2.snapshot.get? t = p.ticks.snapshot.get? t := by
  have hstep (a : SwapLoopState × TickSlab A) (c : StepComputations)
      (b : SwapLoopState × TickSlab A) (ha : ctx.Invariant a) (hc : c.crossed ≠ some t)
      (hi : ctx.Iterates a c b) : b.2.snapshot.get? t = a.2.snapshot.get? t := by
    rcases hi.cases ha with ⟨_, _, hb⟩ | ⟨k, info, hsome, _, hholds, _⟩
    · rw [hb]
    · have hne : t ≠ k := by
        rintro rfl
        exact hc hsome
      rw [hholds.snapshot]
      unfold Access.crossed
      cases ctx.access with
      | shared => rfl
      | exclusive => exact SortedMap.get?_insert_ne _ hne _
  exact h.run.preserved_of_labels (fun a => a.2.snapshot.get? t) hstep
    (fun _ _ _ ha hi => hi.invariant ha) (h.start hp) ht

/-- A successful swap commits its result, grows the input token only and rewrites the
outside growth of the ticks it crossed only. -/
theorem swap_changes (hp : p.Usable) {fuel : Nat} {result : SwapResult}
    (h : p.swap params fuel = some (.ok result, p')) :
    p'.state.sqrtPriceX96 = result.sqrtPriceX96 ∧ p'.state.tick = result.tick ∧
      p'.state.liquidity = result.liquidity ∧
      p'.state.growth (!params.zeroForOne) = p.state.growth (!params.zeroForOne) ∧
      Positions.accounting p'.ticks.snapshot = Positions.accounting p.ticks.snapshot ∧
      forall t, (forall c, c ∈ p.swapComputations params fuel -> c.crossed ≠ some t) ->
        p'.ticks.snapshot.get? t = p.ticks.snapshot.get? t := by
  generalize hlist : p.swapComputations params fuel = list
  have hcases := swap_cases h
  rw [hlist] at hcases
  cases hcases with
  | empty _ =>
      exact ⟨rfl, rfl, rfl, rfl, rfl, fun _ _ => rfl⟩
  | done hrun _ _ =>
      refine ⟨rfl, rfl, rfl, ?_, hrun.accounting hp, fun t ht => hrun.uncrossed hp ht⟩
      unfold PoolState.growth PoolState.set ofToken
      cases params.zeroForOne <;> rfl

/-- In every pool reached from an accepted one by any requests, a quote succeeds
exactly when the swap does and with the same result, and the swap changes no more
than that. -/
theorem quote_agrees_with_swap [PositionsAccess P] {p0 : Pool P A} {requests : List Request}
    (h0 : p0.Accepted) (hrun : Run Attempts p0 requests p) (params : SwapParamsInner) :
    (forall result, (exists fuel, p.quoteSwap params fuel = some (.ok result)) ↔
      exists p', p.Swaps params (.ok result) p') ∧
    forall fuel result p', p.swap params fuel = some (.ok result, p') ->
      p'.state.sqrtPriceX96 = result.sqrtPriceX96 ∧ p'.state.tick = result.tick ∧
      p'.state.liquidity = result.liquidity ∧
      p'.state.growth (!params.zeroForOne) = p.state.growth (!params.zeroForOne) ∧
      Positions.accounting p'.ticks.snapshot = Positions.accounting p.ticks.snapshot ∧
      forall t, (forall c, c ∈ p.swapComputations params fuel -> c.crossed ≠ some t) ->
        p'.ticks.snapshot.get? t = p.ticks.snapshot.get? t := by
  have hp := h0.sound.toUsable.run hrun
  refine ⟨fun result => ?_, fun fuel result p' h => swap_changes hp h⟩
  constructor
  · rintro ⟨fuel, hquote⟩
    rw [quoteSwap_eq hp] at hquote
    rcases Option.map_eq_some_iff.mp hquote with ⟨r, hr, hfst⟩
    refine ⟨r.2, fuel, ?_⟩
    rw [hr, ← hfst]
  · rintro ⟨p', fuel, hswap⟩
    refine ⟨fuel, ?_⟩
    rw [quoteSwap_eq hp, hswap]
    rfl

theorem quote_agrees_with_swap_sample :
    exists result p', Sample.restored.Swaps Sample.sell (.ok result) p' ∧
      exists fuel, Sample.restored.quoteSwap Sample.sell fuel = some (.ok result) := by
  have hresult : (Sample.restored.swap Sample.sell 3).map Prod.fst = some (.ok Sample.result) := by
    decide +kernel
  have hswaps : Sample.restored.Swaps Sample.sell (.ok Sample.result) _ :=
    ⟨3, Sample.swap_eq hresult⟩
  have hagree := (quote_agrees_with_swap Sample.restored_accepted (Run.nil Sample.restored)
    Sample.sell).1 Sample.result
  exact ⟨_, _, hswaps, hagree.mpr ⟨_, hswaps⟩⟩

end Quote

end Pool

end RmUniswap
