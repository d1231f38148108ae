import RmUniswap.Pool.Success

/-!
# Swaps from a shifted accumulator

The growth of the input token is carried through the loop and never read. A swap
from a larger accumulator does the same steps, and fails where the checked addition
no longer fits.
-/

namespace RmUniswap

open Foundation

variable {A : Type} [LawfulAllocator TickSlabValue A]

/-!
# Shifted loop states
-/

def SwapLoopState.shift (s : SwapLoopState) (g : Nat) : SwapLoopState :=
  { s with feeGrowthGlobalX128 := s.feeGrowthGlobalX128 + g }

def StepComputations.shift (c : StepComputations) (g : Nat) : StepComputations :=
  { c with start := c.start.shift g, next := c.next.shift g }

theorem growFee_le {growth feeAmount liquidity growth' : Nat}
    (h : growFee growth feeAmount liquidity = .ok growth') : growth ≤ growth' := by
  unfold growFee at h
  split at h
  · split at h
    · have hadd := (checkedAdd_eq_some.mp (okOr_eq_ok.mp h)).1
      omega
    · cases h
  · cases h
    exact le_refl _

theorem growFee_shift {growth g : Nat} (hg : growth + g < 2 ^ 256) (feeAmount liquidity : Nat) :
    growFee (growth + g) feeAmount liquidity =
      (growFee growth feeAmount liquidity).bind fun growth' =>
        if growth' + g < 2 ^ 256 then .ok (growth' + g) else .error .feeTooLarge := by
  unfold growFee
  by_cases hl : liquidity > 0
  · rw [if_pos hl, if_pos hl]
    cases mulDiv feeAmount (2 ^ 128) liquidity with
    | error e =>
        rfl
    | ok added =>
        dsimp only
        by_cases hfits : growth + added < 2 ^ 256
        · rw [checkedAdd_eq_some.mpr ⟨rfl, hfits⟩, okOr_some]
          show _ = if growth + added + g < 2 ^ 256 then _ else _
          by_cases hboth : growth + added + g < 2 ^ 256
          · have hsum : growth + g + added = growth + added + g := Nat.add_right_comm _ _ _
            rw [if_pos hboth, checkedAdd_eq_some.mpr ⟨rfl, hsum ▸ hboth⟩, okOr_some, hsum]
          · rw [if_neg hboth]
            unfold checkedAdd
            rw [if_neg (by omega)]
            rfl
        · have hnone : checkedAdd 256 growth added = none := by
            unfold checkedAdd
            rw [if_neg hfits]
          have hnone' : checkedAdd 256 (growth + g) added = none := by
            unfold checkedAdd
            rw [if_neg (by omega)]
          rw [hnone, hnone']
          rfl
  · rw [if_neg hl, if_neg hl]
    show _ = if growth + g < 2 ^ 256 then _ else _
    rw [if_pos hg]

namespace SwapContext

section Shift

variable {ctx : SwapContext} {s : SwapLoopState} {g : Nat}
  {ticks : SortedMap Int TickInfoInner}

theorem advance_shift (hg : s.feeGrowthGlobalX128 + g < 2 ^ 256) (target : StepTarget) :
    ctx.advance target (s.shift g) =
      (ctx.advance target s).bind fun c =>
        if c.next.feeGrowthGlobalX128 + g < 2 ^ 256 then .ok (c.shift g)
        else .error .feeTooLarge := by
  unfold advance SwapLoopState.shift
  dsimp only
  cases computeSwapStep s.sqrtPriceX96
      (getSqrtPriceTarget ctx.zeroForOne target.sqrtPriceX96 ctx.sqrtPriceLimitX96) s.liquidity
      s.amountSpecifiedRemaining ctx.fee with
  | error e =>
      rfl
  | ok step =>
      rw [ok_bind, ok_bind]
      cases settleAmounts ctx.amountSpecified s.amountSpecifiedRemaining s.amountCalculated
        step with
      | error e =>
          rfl
      | ok amounts =>
          rw [ok_bind, ok_bind]
          cases splitFee ctx.fee ctx.protocolFeePips s.amountToProtocol step with
          | error e =>
              rfl
          | ok fees =>
              rw [ok_bind, ok_bind, growFee_shift hg]
              cases growFee s.feeGrowthGlobalX128 fees.1 s.liquidity with
              | error e =>
                  rfl
              | ok growth =>
                  rw [ok_bind]
                  show (if growth + g < 2 ^ 256 then _ else _ : Except Error Nat) >>= _ =
                    if growth + g < 2 ^ 256 then _ else _
                  split
                  · rfl
                  · rfl

/-- How what a shifted state leads to relates to what the state leads to. -/
inductive Shifts (g : Nat) : Except Error SwapLoopState -> Except Error SwapLoopState -> Prop
  | fits {s : SwapLoopState} : s.feeGrowthGlobalX128 + g < 2 ^ 256 ->
      Shifts g (.ok s) (.ok (s.shift g))
  | overflows {s : SwapLoopState} {e : Error} : 2 ^ 256 ≤ s.feeGrowthGlobalX128 + g ->
      Shifts g (.ok s) (.error e)
  | fails {e e' : Error} : Shifts g (.error e) (.error e')

/-- The same for the results of a loop, which may still be running. -/
inductive LoopShifts (g : Nat) :
    Option (Except Error SwapLoopState) -> Option (Except Error SwapLoopState) -> Prop
  | running : LoopShifts g none none
  | early {e : Error} : LoopShifts g none (some (.error e))
  | ends {r r' : Except Error SwapLoopState} : Shifts g r r' -> LoopShifts g (some r) (some r')

theorem stepOn_accounting (ctx : SwapContext) (s : SwapLoopState)
    (ticks : SortedMap Int TickInfoInner) :
    Positions.accounting (ctx.stepOn s ticks).2 = Positions.accounting ticks := by
  unfold stepOn
  cases hc : ctx.advance (ctx.targetOn ticks s.tick) s with
  | error e =>
      rfl
  | ok c =>
      exact crossOn_accounting ctx s c fun k hcross => targetOn_initialized hc hcross

theorem stepOn_growth_le {s' : SwapLoopState} (h : (ctx.stepOn s ticks).1 = .ok s') :
    s.feeGrowthGlobalX128 ≤ s'.feeGrowthGlobalX128 := by
  unfold stepOn at h
  cases hc : ctx.advance (ctx.targetOn ticks s.tick) s with
  | error e =>
      rw [hc] at h
      cases h
  | ok c =>
      have hle := growFee_le (advance_eq_ok hc).growth
      rw [hc] at h
      dsimp only at h
      unfold crossOn at h
      cases hcross : c.crossed with
      | none =>
          rw [hcross] at h
          cases h
          exact hle
      | some k =>
          rw [hcross] at h
          dsimp only at h
          cases hadd : checkedAddSigned 128 s.liquidity
              (ctx.directed (tickAt ticks k).liquidityNet) with
          | none =>
              rw [hadd] at h
              cases h
          | some liquidity =>
              rw [hadd] at h
              cases h
              exact hle

theorem stepOn_shift (hg : s.feeGrowthGlobalX128 + g < 2 ^ 256) :
    Shifts g (ctx.stepOn s ticks).1 (ctx.stepOn (s.shift g) ticks).1 := by
  have htick : (s.shift g).tick = s.tick := rfl
  unfold stepOn
  rw [advance_shift hg, htick]
  cases ctx.advance (ctx.targetOn ticks s.tick) s with
  | error e =>
      exact Shifts.fails
  | ok c =>
      simp only [Except.bind]
      have hcrossed : (c.shift g).crossed = c.crossed := rfl
      unfold crossOn
      by_cases hfits : c.next.feeGrowthGlobalX128 + g < 2 ^ 256
      · rw [if_pos hfits]
        dsimp only
        rw [hcrossed]
        cases c.crossed with
        | none =>
            exact Shifts.fits hfits
        | some k =>
            dsimp only
            show Shifts g _ (Except.map _ (okOr .liquidityUnderflow
              (checkedAddSigned 128 s.liquidity (ctx.directed (tickAt ticks k).liquidityNet))))
            cases checkedAddSigned 128 s.liquidity
                (ctx.directed (tickAt ticks k).liquidityNet) with
            | none => exact Shifts.fails
            | some liquidity => exact @Shifts.fits g { c.next with liquidity } hfits
      · rw [if_neg hfits]
        dsimp only
        cases c.crossed with
        | none =>
            exact Shifts.overflows (not_lt.mp hfits)
        | some k =>
            dsimp only
            cases checkedAddSigned 128 s.liquidity
                (ctx.directed (tickAt ticks k).liquidityNet) with
            | none => exact Shifts.fails
            | some liquidity =>
                exact @Shifts.overflows g { c.next with liquidity } _ (not_lt.mp hfits)

theorem loopOn_growth_le {fuel : Nat} {s' : SwapLoopState}
    (h : (ctx.loopOn fuel s ticks).map Prod.fst = some (.ok s')) :
    s.feeGrowthGlobalX128 ≤ s'.feeGrowthGlobalX128 := by
  induction fuel generalizing s ticks with
  | zero =>
      cases h
  | succ fuel ih =>
      unfold loopOn at h
      by_cases hhalt : ctx.Halted s
      · rw [if_pos hhalt] at h
        cases h
        exact le_refl _
      · rw [if_neg hhalt] at h
        cases hr : ctx.stepOn s ticks with
        | mk result after =>
            rw [hr] at h
            cases result with
            | error e =>
                cases h
            | ok s1 =>
                exact (stepOn_growth_le (by rw [hr])).trans (ih h)

theorem loopOn_shift (fuel : Nat) (hg : s.feeGrowthGlobalX128 + g < 2 ^ 256) :
    LoopShifts g ((ctx.loopOn fuel s ticks).map Prod.fst)
      ((ctx.loopOn fuel (s.shift g) ticks).map Prod.fst) := by
  induction fuel generalizing s ticks with
  | zero =>
      exact LoopShifts.running
  | succ fuel ih =>
      unfold loopOn
      by_cases hhalt : ctx.Halted s
      · rw [if_pos hhalt, if_pos (show ctx.Halted (s.shift g) from hhalt)]
        exact LoopShifts.ends (Shifts.fits hg)
      · rw [if_neg hhalt, if_neg (show ¬ ctx.Halted (s.shift g) from hhalt)]
        have hstep := @stepOn_shift ctx s g ticks hg
        have hsame := (stepOn_accounting ctx (s.shift g) ticks).trans
          (stepOn_accounting ctx s ticks).symm
        generalize hr : ctx.stepOn s ticks = r at hstep hsame
        generalize ctx.stepOn (s.shift g) ticks = r' at hstep hsame
        rcases r with ⟨result, after⟩
        rcases r' with ⟨result', after'⟩
        dsimp only at hstep hsame
        cases hstep with
        | @fits s1 hfits =>
            dsimp only
            have hcongr := loopOn_congr ctx ctx.access ctx.poolState fuel hsame (s1.shift g)
            have hself : ctx.on ctx.access ctx.poolState = ctx := rfl
            rw [hself] at hcongr
            rw [hcongr]
            exact ih hfits
        | @overflows s1 e hlarge =>
            dsimp only
            show LoopShifts g ((ctx.loopOn fuel s1 after).map Prod.fst) (some (.error e))
            cases hloop : (ctx.loopOn fuel s1 after).map Prod.fst with
            | none =>
                exact LoopShifts.early
            | some r =>
                cases r with
                | error e' =>
                    exact LoopShifts.ends Shifts.fails
                | ok t =>
                    have hle := loopOn_growth_le hloop
                    exact LoopShifts.ends (Shifts.overflows (by omega))
        | fails =>
            exact LoopShifts.ends Shifts.fails

end Shift

end SwapContext

/-!
# Shifted pools
-/

def PoolState.withGrowth (state : PoolState) (token0 : Bool) (growth : Nat) : PoolState :=
  if token0 then { state with feeGrowthGlobal0X128 := growth }
  else { state with feeGrowthGlobal1X128 := growth }

theorem PoolState.set_growth (state : PoolState) (tick : Int) (sqrtPriceX96 liquidity : Nat)
    (zeroForOne : Bool) (growth : Nat) :
    (state.set tick sqrtPriceX96 liquidity zeroForOne growth).growth zeroForOne = growth := by
  unfold set PoolState.growth ofToken
  cases zeroForOne <;> rfl

theorem PoolState.withGrowth_growth (state : PoolState) (token0 : Bool) (growth : Nat) :
    (state.withGrowth token0 growth).growth token0 = growth := by
  cases token0 <;> rfl

namespace Pool

def withGrowth {P : Type} (p : Pool P A) (token0 : Bool) (growth : Nat) : Pool P A :=
  { p with state := p.state.withGrowth token0 growth }

def Earns {P : Type} (p : Pool P A) (params : SwapParamsInner) (fuel : Nat) (result : SwapResult)
    (growth : Nat) : Prop :=
  exists p', p.swap params fuel = some (.ok result, p') ∧
    p'.state.growth params.zeroForOne = growth

section Shift

variable {P : Type} {p : Pool P A} {params : SwapParamsInner} {fuel g : Nat}

theorem withGrowth_self (p : Pool P A) (token0 : Bool) :
    p.withGrowth token0 (p.state.growth token0) = p := by
  cases token0 <;> rfl

theorem Usable.withGrowth (hp : p.Usable) (token0 : Bool) (growth : Nat) :
    (p.withGrowth token0 growth).Usable := by
  cases token0 with
  | false =>
      exact ⟨hp.keyed, hp.spacing, hp.fees, hp.price, hp.inTick, hp.liquidity⟩
  | true =>
      exact ⟨hp.keyed, hp.spacing, hp.fees, hp.price, hp.inTick, hp.liquidity⟩

theorem Usable.earns_iff (hp : p.Usable) (result : SwapResult) (growth : Nat) :
    p.Earns params fuel result growth ↔
      exists r, p.runSwapOn .exclusive params fuel = some r ∧ r.1 = .ok result ∧
        r.2.1.growth params.zeroForOne = growth := by
  have hrel := runSwap_refines hp .exclusive params fuel
  unfold Earns Pool.swap
  generalize p.runSwap .exclusive params fuel = run at hrel ⊢
  generalize p.runSwapOn .exclusive params fuel = on at hrel ⊢
  constructor
  · rintro ⟨p', hrun, hgrowth⟩
    rw [hrun] at hrel
    cases hrel with
    | @some _ r hr => exact ⟨r, rfl, hr.result.symm, by rw [← hr.state]; exact hgrowth⟩
  · rintro ⟨r, hon, hresult, hgrowth⟩
    rw [hon] at hrel
    cases hrel with
    | @some r' _ hr =>
        refine ⟨r'.2, ?_, by rw [hr.state]; exact hgrowth⟩
        rw [← hresult, ← hr.result]

theorem swapContext_withGrowth (p : Pool P A) (swapFee : SwapFee) (params : SwapParamsInner)
    (growth : Nat) :
    (p.withGrowth params.zeroForOne growth).swapContext .exclusive swapFee params =
      (p.swapContext .exclusive swapFee params).on .exclusive
        (p.state.withGrowth params.zeroForOne growth) := by
  unfold withGrowth PoolState.withGrowth swapContext SwapContext.on
  cases params.zeroForOne <;> rfl

theorem swapStart_withGrowth (p : Pool P A) (params : SwapParamsInner) (g : Nat) :
    (p.withGrowth params.zeroForOne g).swapStart params =
      ((p.withGrowth params.zeroForOne 0).swapStart params).shift g := by
  unfold withGrowth PoolState.withGrowth swapStart SwapLoopState.shift
  cases params.zeroForOne <;> simp

theorem finishOn_growth (ctx : SwapContext) (haccess : ctx.access = .exclusive) (state : PoolState)
    (s : SwapLoopState) (ticks : SortedMap Int TickInfoInner) (result : SwapResult)
    (growth : Nat) :
    ((finishOn ctx state (.ok s, ticks)).1 = .ok result ∧
        (finishOn ctx state (.ok s, ticks)).2.1.growth ctx.zeroForOne = growth) ↔
      (exists delta, ctx.swapDelta s = .ok delta ∧ swapResult ctx delta s = result) ∧
        s.feeGrowthGlobalX128 = growth := by
  unfold finishOn
  dsimp only
  cases ctx.swapDelta s with
  | error e =>
      constructor
      · rintro ⟨h, _⟩
        cases h
      · rintro ⟨⟨delta, h, _⟩, _⟩
        cases h
  | ok delta =>
      dsimp only
      rw [haccess]
      have hgrowth : ((Access.exclusive.setState state s.tick s.sqrtPriceX96 s.liquidity
          ctx.zeroForOne s.feeGrowthGlobalX128).growth ctx.zeroForOne) =
          s.feeGrowthGlobalX128 := PoolState.set_growth _ _ _ _ _ _
      rw [hgrowth]
      constructor
      · rintro ⟨h, hg⟩
        injection h with h
        exact ⟨⟨delta, rfl, h⟩, hg⟩
      · rintro ⟨⟨delta', h, hresult⟩, hg⟩
        injection h with h
        rw [h]
        exact ⟨congrArg Except.ok hresult, hg⟩

theorem runSwapOn_earns {swapFee : SwapFee} (hfee : p.resolveSwapFee params = .ok swapFee)
    (hzero : params.amountSpecified ≠ 0)
    (hlimit : checkLimit params.zeroForOne p.state.sqrtPriceX96 params.sqrtPriceLimit = .ok ())
    (result : SwapResult) (growth : Nat) :
    (exists r, p.runSwapOn .exclusive params fuel = some r ∧ r.1 = .ok result ∧
      r.2.1.growth params.zeroForOne = growth) ↔
    exists s delta, ((p.swapContext .exclusive swapFee params).loopOn fuel (p.swapStart params)
        p.ticks.snapshot).map Prod.fst = some (.ok s) ∧
      (p.swapContext .exclusive swapFee params).swapDelta s = .ok delta ∧
      swapResult (p.swapContext .exclusive swapFee params) delta s = result ∧
      s.feeGrowthGlobalX128 = growth := by
  have hrun : p.runSwapOn .exclusive params fuel =
      ((p.swapContext .exclusive swapFee params).loopOn fuel (p.swapStart params)
        p.ticks.snapshot).map (finishOn (p.swapContext .exclusive swapFee params) p.state) := by
    unfold runSwapOn
    rw [hfee]
    dsimp only
    rw [if_neg hzero, hlimit]
  have hfinish (s : SwapLoopState) (ticks : SortedMap Int TickInfoInner) :=
    finishOn_growth (p.swapContext .exclusive swapFee params) rfl p.state s ticks result growth
  rw [hrun]
  generalize (p.swapContext .exclusive swapFee params).loopOn fuel (p.swapStart params)
    p.ticks.snapshot = loop
  constructor
  · rintro ⟨r, hr, hresult, hgrowth⟩
    rcases Option.map_eq_some_iff.mp hr with ⟨⟨ended, ticks⟩, rfl, rfl⟩
    cases ended with
    | error e =>
        cases hresult
    | ok s =>
        rcases (hfinish s ticks).mp ⟨hresult, hgrowth⟩ with ⟨⟨delta, hdelta, heq⟩, hg⟩
        exact ⟨s, delta, rfl, hdelta, heq, hg⟩
  · rintro ⟨s, delta, hloop, hdelta, heq, hg⟩
    rcases Option.map_eq_some_iff.mp hloop with ⟨⟨ended, ticks⟩, rfl, rfl⟩
    have hboth := (hfinish s ticks).mpr ⟨⟨delta, hdelta, heq⟩, hg⟩
    exact ⟨_, rfl, hboth.1, hboth.2⟩

theorem sqrtPriceX96_withGrowth (p : Pool P A) (zeroForOne : Bool) (g : Nat) :
    (p.withGrowth zeroForOne g).state.sqrtPriceX96 = p.state.sqrtPriceX96 := by
  unfold Pool.withGrowth PoolState.withGrowth
  cases zeroForOne <;> rfl

theorem runSwapOn_withGrowth_zero {swapFee : SwapFee}
    (hfee : p.resolveSwapFee params = .ok swapFee) (hzero : params.amountSpecified = 0) (g : Nat) :
    (p.withGrowth params.zeroForOne g).runSwapOn .exclusive params fuel =
      some (.ok (swapResult (p.swapContext .exclusive swapFee params) BalanceDelta.default
          (p.swapStart params)), (p.withGrowth params.zeroForOne g).state,
        (p.withGrowth params.zeroForOne g).ticks.snapshot) := by
  have hresolve : (p.withGrowth params.zeroForOne g).resolveSwapFee params = .ok swapFee := hfee
  unfold runSwapOn
  rw [hresolve]
  dsimp only
  rw [if_pos hzero, swapContext_withGrowth, swapStart_withGrowth]
  unfold Pool.withGrowth PoolState.withGrowth
  cases params.zeroForOne <;> rfl

theorem runSwapOn_withGrowth_earns {swapFee : SwapFee}
    (hfee : p.resolveSwapFee params = .ok swapFee) (hzero : params.amountSpecified ≠ 0)
    (hlimit : checkLimit params.zeroForOne p.state.sqrtPriceX96 params.sqrtPriceLimit = .ok ())
    (result : SwapResult) (g growth : Nat) :
    (exists r, (p.withGrowth params.zeroForOne g).runSwapOn .exclusive params fuel = some r ∧
      r.1 = .ok result ∧ r.2.1.growth params.zeroForOne = growth) ↔
    exists s delta, ((p.swapContext .exclusive swapFee params).loopOn fuel
        (((p.withGrowth params.zeroForOne 0).swapStart params).shift g)
        p.ticks.snapshot).map Prod.fst = some (.ok s) ∧
      (p.swapContext .exclusive swapFee params).swapDelta s = .ok delta ∧
      swapResult (p.swapContext .exclusive swapFee params) delta s = result ∧
      s.feeGrowthGlobalX128 = growth := by
  have hlimit' : checkLimit params.zeroForOne
      (p.withGrowth params.zeroForOne g).state.sqrtPriceX96 params.sqrtPriceLimit = .ok () := by
    rw [sqrtPriceX96_withGrowth, hlimit]
  rw [@runSwapOn_earns A _ P (p.withGrowth params.zeroForOne g) params fuel swapFee hfee hzero
      hlimit' result growth,
    swapContext_withGrowth, ← swapStart_withGrowth,
    ← SwapContext.loopOn_congr (p.swapContext .exclusive swapFee params) .exclusive
      (p.state.withGrowth params.zeroForOne g) fuel
      (Eq.refl (Positions.accounting p.ticks.snapshot))]
  rfl

/-- The loop from an accumulator earns what it earns from an empty one. -/
theorem loop_earns_withGrowth {swapFee : SwapFee} (hg : g < 2 ^ 256)
    (hfee : p.resolveSwapFee params = .ok swapFee) (hzero : params.amountSpecified ≠ 0)
    (hlimit : checkLimit params.zeroForOne p.state.sqrtPriceX96 params.sqrtPriceLimit = .ok ())
    (result : SwapResult) (growth : Nat) :
    (exists r, (p.withGrowth params.zeroForOne g).runSwapOn .exclusive params fuel = some r ∧
      r.1 = .ok result ∧ r.2.1.growth params.zeroForOne = growth) ↔
    exists G, (exists r, (p.withGrowth params.zeroForOne 0).runSwapOn .exclusive params fuel =
        some r ∧ r.1 = .ok result ∧ r.2.1.growth params.zeroForOne = G) ∧
      G + g < 2 ^ 256 ∧ growth = G + g := by
  have hgrowth0 :
      ((p.withGrowth params.zeroForOne 0).swapStart params).feeGrowthGlobalX128 = 0 := by
    unfold Pool.withGrowth PoolState.withGrowth Pool.swapStart
    cases params.zeroForOne <;> rfl
  have hshift := @SwapContext.loopOn_shift (p.swapContext .exclusive swapFee params)
    ((p.withGrowth params.zeroForOne 0).swapStart params) g p.ticks.snapshot fuel
    (by rw [hgrowth0, Nat.zero_add]; exact hg)
  have hstart : ((p.withGrowth params.zeroForOne 0).swapStart params).shift 0 =
      (p.withGrowth params.zeroForOne 0).swapStart params := rfl
  simp only [runSwapOn_withGrowth_earns hfee hzero hlimit, hstart]
  generalize ((p.swapContext .exclusive swapFee params).loopOn fuel
    ((p.withGrowth params.zeroForOne 0).swapStart params) p.ticks.snapshot).map
      Prod.fst = loop at hshift ⊢
  generalize ((p.swapContext .exclusive swapFee params).loopOn fuel
    (((p.withGrowth params.zeroForOne 0).swapStart params).shift g)
      p.ticks.snapshot).map Prod.fst = loop' at hshift ⊢
  constructor
  · rintro ⟨s', delta, rfl, hdelta, hresult, rfl⟩
    cases hshift with
    | ends hends =>
        cases hends with
        | @fits s hfits => exact ⟨_, ⟨s, delta, rfl, hdelta, hresult, rfl⟩, hfits, rfl⟩
  · rintro ⟨G, ⟨s, delta, rfl, hdelta, hresult, rfl⟩, hsum, rfl⟩
    cases hshift with
    | ends hends =>
        cases hends with
        | fits _ => exact ⟨s.shift g, delta, rfl, hdelta, hresult, rfl⟩
        | overflows hlarge => exact absurd hsum (not_lt.mpr hlarge)

/-- A swap from an accumulator earns what it earns from an empty one, as long as
that fits on top. -/
theorem Usable.earns_withGrowth (hp : p.Usable) (hg : g < 2 ^ 256) (result : SwapResult)
    (growth : Nat) :
    (p.withGrowth params.zeroForOne g).Earns params fuel result growth ↔
      exists G, (p.withGrowth params.zeroForOne 0).Earns params fuel result G ∧
        G + g < 2 ^ 256 ∧ growth = G + g := by
  have hresolve (g : Nat) : (p.withGrowth params.zeroForOne g).resolveSwapFee params =
      p.resolveSwapFee params := rfl
  rw [(hp.withGrowth params.zeroForOne g).earns_iff]
  simp only [(hp.withGrowth params.zeroForOne 0).earns_iff]
  cases hfee : p.resolveSwapFee params with
  | error e =>
      have hrun (g : Nat) : (p.withGrowth params.zeroForOne g).runSwapOn .exclusive params fuel =
          some (.error e, (p.withGrowth params.zeroForOne g).state,
            (p.withGrowth params.zeroForOne g).ticks.snapshot) := by
        unfold runSwapOn
        rw [hresolve, hfee]
      simp [hrun]
  | ok swapFee =>
      by_cases hzero : params.amountSpecified = 0
      · have hstate (g : Nat) : (p.withGrowth params.zeroForOne g).state.growth
            params.zeroForOne = g := p.state.withGrowth_growth _ g
        simp only [runSwapOn_withGrowth_zero hfee hzero, Option.some.injEq, exists_eq_left',
          hstate]
        constructor
        · rintro ⟨hresult, rfl⟩
          exact ⟨0, ⟨hresult, rfl⟩, by omega, (Nat.zero_add _).symm⟩
        · rintro ⟨G, ⟨hresult, rfl⟩, _, hsum⟩
          exact ⟨hresult, by omega⟩
      · cases hlimit : checkLimit params.zeroForOne p.state.sqrtPriceX96 params.sqrtPriceLimit with
        | error e =>
            have hrun (g : Nat) :
                (p.withGrowth params.zeroForOne g).runSwapOn .exclusive params fuel =
                  some (.error e, (p.withGrowth params.zeroForOne g).state,
                    (p.withGrowth params.zeroForOne g).ticks.snapshot) := by
              unfold runSwapOn
              rw [hresolve, hfee]
              dsimp only
              rw [if_neg hzero, sqrtPriceX96_withGrowth, hlimit]
            simp [hrun]
        | ok u =>
            exact loop_earns_withGrowth hg hfee hzero hlimit result growth

/-- The pool with the accumulator of the input token moved up modulo its width. -/
def shifted (p : Pool P A) (params : SwapParamsInner) (c : Nat) : Pool P A :=
  p.withGrowth params.zeroForOne ((p.state.growth params.zeroForOne + c) % 2 ^ 256)

/-- A swap and the swap from the moved accumulator succeed alike, with accumulators
that stay moved by as much. -/
structure ShiftsAlike (p : Pool P A) (params : SwapParamsInner) (c : Nat) : Prop where
  result : forall fuel result, (exists q, p.swap params fuel = some (.ok result, q)) ↔
    exists q, (p.shifted params c).swap params fuel = some (.ok result, q)
  growth : forall fuel result q q', p.swap params fuel = some (.ok result, q) ->
    (p.shifted params c).swap params fuel = some (.ok result, q') ->
      q'.state.growth params.zeroForOne =
        (q.state.growth params.zeroForOne + c) % 2 ^ 256

theorem Earns.unique {result result' : SwapResult} {growth growth' : Nat}
    (h : p.Earns params fuel result growth) (h' : p.Earns params fuel result' growth') :
    growth = growth' := by
  rcases h with ⟨q, hq, rfl⟩
  rcases h' with ⟨q', hq', rfl⟩
  rw [hq] at hq'
  injection hq' with hq'
  injection hq' with _ hq'
  rw [hq']

/-- The two swaps succeed alike exactly when what a swap earns in an empty accumulator
fits on top of both accumulators, or of neither. -/
theorem Usable.shiftsAlike_earns (hp : p.Usable)
    (hfits : p.state.growth params.zeroForOne < 2 ^ 256) (c : Nat) :
    p.ShiftsAlike params c ↔ forall fuel result G,
      (p.withGrowth params.zeroForOne 0).Earns params fuel result G ->
        (G + p.state.growth params.zeroForOne < 2 ^ 256 ↔
          G + (p.state.growth params.zeroForOne + c) % 2 ^ 256 < 2 ^ 256) := by
  have hnew : (p.state.growth params.zeroForOne + c) % 2 ^ 256 < 2 ^ 256 :=
    Nat.mod_lt _ (Nat.two_pow_pos 256)
  have hold {fuel : Nat} (result : SwapResult) (growth : Nat) :=
    @Usable.earns_withGrowth A _ P p params fuel _ hp hfits result growth
  have hshifted {fuel : Nat} (result : SwapResult) (growth : Nat) :=
    @Usable.earns_withGrowth A _ P p params fuel _ hp hnew result growth
  rw [withGrowth_self] at hold
  constructor
  · rintro ⟨hresult, _⟩ fuel result G hearns
    constructor
    · intro hsum
      rcases (hold result _).mpr ⟨G, hearns, hsum, rfl⟩ with ⟨q, hq, _⟩
      rcases (hresult fuel result).mp ⟨q, hq⟩ with ⟨q', hq'⟩
      rcases (hshifted result _).mp ⟨q', hq', rfl⟩ with ⟨G', hearns', hsum', _⟩
      rw [hearns.unique hearns']
      exact hsum'
    · intro hsum
      rcases (hshifted result _).mpr ⟨G, hearns, hsum, rfl⟩ with ⟨q', hq', _⟩
      rcases (hresult fuel result).mpr ⟨q', hq'⟩ with ⟨q, hq⟩
      rcases (hold result _).mp ⟨q, hq, rfl⟩ with ⟨G', hearns', hsum', _⟩
      rw [hearns.unique hearns']
      exact hsum'
  · intro h
    constructor
    · intro fuel result
      constructor
      · rintro ⟨q, hq⟩
        rcases (hold result _).mp ⟨q, hq, rfl⟩ with ⟨G, hearns, hsum, _⟩
        have hfit := (h fuel result G hearns).mp hsum
        rcases (hshifted result _).mpr ⟨G, hearns, hfit, rfl⟩ with ⟨q', hq', _⟩
        exact ⟨q', hq'⟩
      · rintro ⟨q', hq'⟩
        rcases (hshifted result _).mp ⟨q', hq', rfl⟩ with ⟨G, hearns, hsum, _⟩
        have hfit := (h fuel result G hearns).mpr hsum
        rcases (hold result _).mpr ⟨G, hearns, hfit, rfl⟩ with ⟨q, hq, _⟩
        exact ⟨q, hq⟩
    · intro fuel result q q' hq hq'
      rcases (hold result _).mp ⟨q, hq, rfl⟩ with ⟨G, hearns, hsum, hgrowth⟩
      rcases (hshifted result _).mp ⟨q', hq', rfl⟩ with ⟨G', hearns', hsum', hgrowth'⟩
      rw [← hearns.unique hearns'] at hsum' hgrowth'
      have hmod := Nat.add_mod_mod G (p.state.growth params.zeroForOne + c) (2 ^ 256)
      rw [Nat.mod_eq_of_lt hsum'] at hmod
      rw [hgrowth', hgrowth, Nat.add_assoc]
      exact hmod

/-!
# What a swap earns
-/

theorem payments_withGrowth (p : Pool P A) (swapFee : SwapFee) (params : SwapParamsInner)
    (growth : Nat) :
    (p.withGrowth params.zeroForOne growth).payments swapFee params =
      p.payments swapFee params := by
  have hstate : (p.state.withGrowth params.zeroForOne growth).sqrtPriceX96 =
      p.state.sqrtPriceX96 ∧ (p.state.withGrowth params.zeroForOne growth).tick = p.state.tick ∧
      (p.state.withGrowth params.zeroForOne growth).liquidity = p.state.liquidity := by
    unfold PoolState.withGrowth
    split
    · exact ⟨rfl, rfl, rfl⟩
    · exact ⟨rfl, rfl, rfl⟩
  unfold payments
  dsimp only
  rw [swapContext_withGrowth, SwapContext.course_on]
  unfold Pool.withGrowth
  dsimp only
  rw [hstate.1, hstate.2.1, hstate.2.2]
  rfl

theorem earnings_withGrowth (p : Pool P A) (swapFee : SwapFee) (params : SwapParamsInner)
    (growth : Nat) :
    (p.withGrowth params.zeroForOne growth).earnings swapFee params =
      p.earnings swapFee params := by
  unfold earnings
  rw [payments_withGrowth]

theorem settles_withGrowth {swapFee : SwapFee} (growth : Nat) :
    (p.withGrowth params.zeroForOne growth).Settles swapFee params ↔
      p.Settles swapFee params := by
  have hbeyond (leg : Stretch) :
      ((p.withGrowth params.zeroForOne growth).swapContext .exclusive swapFee params).beyond
          (p.withGrowth params.zeroForOne growth).ticks.snapshot leg =
        (p.swapContext .exclusive swapFee params).beyond p.ticks.snapshot leg := by
    rw [swapContext_withGrowth]
    rfl
  constructor
  · rintro ⟨hshares, hcrossings, hinput, houtput⟩
    rw [payments_withGrowth] at hshares hcrossings hinput houtput
    simp only [hbeyond] at hcrossings
    exact ⟨hshares, hcrossings, hinput, houtput⟩
  · rintro ⟨hshares, hcrossings, hinput, houtput⟩
    refine ⟨?_, ?_, ?_, ?_⟩
    · rw [payments_withGrowth]
      exact hshares
    · rw [payments_withGrowth]
      simp only [hbeyond]
      exact hcrossings
    · rw [payments_withGrowth]
      exact hinput
    · rw [payments_withGrowth]
      exact houtput

theorem withGrowth_growth (p : Pool P A) (token0 : Bool) (growth : Nat) :
    (p.withGrowth token0 growth).state.growth token0 = growth :=
  p.state.withGrowth_growth token0 growth

theorem Usable.earns_earnings (hp : p.Usable) {result : SwapResult} {growth : Nat}
    (h : (p.withGrowth params.zeroForOne 0).Earns params fuel result growth) :
    exists swapFee, p.resolveSwapFee params = .ok swapFee ∧ p.Settles swapFee params ∧
      growth = p.earnings swapFee params := by
  have hp0 := hp.withGrowth params.zeroForOne 0
  rcases h with ⟨q, hq, rfl⟩
  have hcases := swap_cases hq
  generalize (p.withGrowth params.zeroForOne 0).swapComputations params fuel = cs at hcases
  cases hcases with
  | empty hzero =>
      have hswap := hq
      unfold Pool.swap runSwap at hswap
      have hresolve : (p.withGrowth params.zeroForOne 0).resolveSwapFee params =
          p.resolveSwapFee params := rfl
      rw [hresolve] at hswap
      cases hfee : p.resolveSwapFee params with
      | error e =>
          rw [hfee] at hswap
          cases hswap
      | ok swapFee =>
          rcases settles_of_nil (p.payments_of_zero swapFee hzero) with ⟨hsettles, hearnings⟩
          exact ⟨swapFee, rfl, hsettles, (withGrowth_growth p _ 0).trans hearnings.symm⟩
  | @done ctx cs b delta hrun hhalt hdelta =>
      rcases hrun.context with ⟨swapFee, hfee, hctx⟩
      rcases hrun.settles hp0 hctx hhalt hdelta with ⟨hsettles, hgrowth⟩
      rw [withGrowth_growth, earnings_withGrowth, Nat.zero_add] at hgrowth
      refine ⟨swapFee, hfee, (settles_withGrowth 0).mp hsettles, ?_⟩
      rw [← hgrowth]
      exact PoolState.set_growth _ _ _ _ _ _

theorem Settles.earns {swapFee : SwapFee} (h : p.Settles swapFee params) (hp : p.Usable)
    (hvalid : p.swapFee.protocolFee.isValid = true)
    (hfee : p.resolveSwapFee params = .ok swapFee) (hsome : p.payments swapFee params ≠ [])
    (hfits : p.earnings swapFee params < 2 ^ 256) :
    exists fuel result, (p.withGrowth params.zeroForOne 0).Earns params fuel result
      (p.earnings swapFee params) := by
  have hp0 := hp.withGrowth params.zeroForOne 0
  have hgo : checkLimit params.zeroForOne p.state.sqrtPriceX96 params.sqrtPriceLimit = .ok () ∧
      (0 < params.amountSpecified ->
        (p.swapContext .exclusive swapFee params).fee.isMax = false) := by
    by_contra hstop
    exact hsome (if_neg hstop)
  have hamount : params.amountSpecified ≠ 0 :=
    fun hzero => hsome (p.payments_of_zero swapFee hzero)
  have hprice : (p.withGrowth params.zeroForOne 0).state.sqrtPriceX96 = p.state.sqrtPriceX96 := by
    unfold Pool.withGrowth PoolState.withGrowth
    cases params.zeroForOne <;> rfl
  rcases ((settles_withGrowth 0).mpr h).succeeds hp0 hvalid hfee hamount (by
    rw [hprice]
    exact hgo.1) hgo.2 (by
      rw [withGrowth_growth, earnings_withGrowth, Nat.zero_add]
      exact hfits) with ⟨fuel, result, q, hq⟩
  rcases hp.earns_earnings ⟨q, hq, rfl⟩ with ⟨swapFee', hfee', _, hgrowth⟩
  rw [hfee] at hfee'
  cases hfee'
  exact ⟨fuel, result, q, hq, hgrowth⟩

theorem Usable.shiftsAlike_iff (hp : p.Usable) (hvalid : p.swapFee.protocolFee.isValid = true)
    (hfits : p.state.growth params.zeroForOne < 2 ^ 256) (c : Nat) :
    p.ShiftsAlike params c ↔ forall swapFee, p.resolveSwapFee params = .ok swapFee ->
      p.Settles swapFee params ->
        (p.earnings swapFee params + p.state.growth params.zeroForOne < 2 ^ 256 ↔
          p.earnings swapFee params + (p.state.growth params.zeroForOne + c) % 2 ^ 256 <
            2 ^ 256) := by
  have hnew : (p.state.growth params.zeroForOne + c) % 2 ^ 256 < 2 ^ 256 :=
    Nat.mod_lt _ (Nat.two_pow_pos 256)
  rw [hp.shiftsAlike_earns hfits]
  constructor
  · intro h swapFee hfee hsettles
    by_cases hnil : p.payments swapFee params = []
    · rw [(settles_of_nil hnil).2, Nat.zero_add, Nat.zero_add]
      exact iff_of_true hfits hnew
    · by_cases hlarge : p.earnings swapFee params < 2 ^ 256
      · rcases hsettles.earns hp hvalid hfee hnil hlarge with ⟨fuel, result, hearns⟩
        exact h fuel result _ hearns
      · exact iff_of_false (fun hsum => hlarge ((Nat.le_add_right _ _).trans_lt hsum))
          fun hsum => hlarge ((Nat.le_add_right _ _).trans_lt hsum)
  · intro h fuel result G hearns
    rcases hp.earns_earnings hearns with ⟨swapFee, hfee, hsettles, rfl⟩
    exact h swapFee hfee hsettles

/-- A swap only depends on its accumulator modulo its width exactly when its payments
cannot be settled, or what they earn fits on top of both values of the accumulator, or
of neither. -/
theorem swap_shift_iff [PositionsAccess P] (hp : p.Accepted)
    (hfits : p.state.growth params.zeroForOne < 2 ^ 256) (c : Nat) :
    p.ShiftsAlike params c ↔ forall swapFee, p.resolveSwapFee params = .ok swapFee ->
      p.Settles swapFee params ->
        (p.earnings swapFee params + p.state.growth params.zeroForOne < 2 ^ 256 ↔
          p.earnings swapFee params + (p.state.growth params.zeroForOne + c) % 2 ^ 256 <
            2 ^ 256) :=
  hp.sound.toUsable.shiftsAlike_iff hp.protocolFee_isValid hfits c

end Shift

end Pool

/-!
# An accumulator close to its width
-/

namespace Sample

/-- The restored pool with the largest growth of token0. -/
def full : Pool Positions :=
  (Pool.fromSnapshot
    { funded.snapshot with
      state := funded.state.withGrowth true (2 ^ 256 - 1) }).getD funded

theorem full_accepted : full.Accepted := by
  have hok : (Pool.fromSnapshot { funded.snapshot with
      state := funded.state.withGrowth true (2 ^ 256 - 1) } :
        Outcome Error (Pool Positions)).isOk = true := by
    decide +kernel
  exact ⟨_, by decide +kernel, Outcome.eq_ok_getD hok funded⟩

end Sample

/-- At the largest growth a swap fails that succeeds once the growth has wrapped. -/
theorem swap_fails_at_full_growth :
    exists (p : Pool Positions) (params : SwapParamsInner) (fuel : Nat), p.Accepted ∧
      p.state.growth params.zeroForOne < 2 ^ 256 ∧
      (exists q, p.swap params fuel = some (.error .feeTooLarge, q)) ∧
      exists result q, (p.shifted params 1).swap params fuel = some (.ok result, q) := by
  have hfull : (Sample.full.swap Sample.sell 3).map Prod.fst = some (.error .feeTooLarge) := by
    decide +kernel
  have hwrapped : ((Sample.full.shifted Sample.sell 1).swap Sample.sell 3).map Prod.fst =
      some (.ok Sample.result) := by
    decide +kernel
  exact ⟨Sample.full, Sample.sell, 3, Sample.full_accepted, by decide +kernel,
    ⟨_, Sample.swap_eq hfull⟩, _, _, Sample.swap_eq hwrapped⟩

theorem Pool.swap_shift_iff_sample :
    Sample.full.ShiftsAlike Sample.sell 1 ↔
      forall swapFee, Sample.full.resolveSwapFee Sample.sell = .ok swapFee ->
        Sample.full.Settles swapFee Sample.sell ->
          (Sample.full.earnings swapFee Sample.sell + Sample.full.state.growth true < 2 ^ 256 ↔
            Sample.full.earnings swapFee Sample.sell +
              (Sample.full.state.growth true + 1) % 2 ^ 256 < 2 ^ 256) :=
  Pool.swap_shift_iff Sample.full_accepted (by decide +kernel) 1

end RmUniswap
