import RmUniswap.Pool.Drain
import RmUniswap.Pool.QuoteMonotone

/-!
# The path of a swap

Where a swap goes is decided by the price, the tick, the liquidity and what is left
of the amount; the fee growth and the amounts so far only go along. Two loops at one
place aim at one target, and leave each other at the first step that only one of them
pays for. A swap that stops short of its target still aims at it when it goes on.
-/

namespace RmUniswap

open Foundation

variable {A : Type} [LawfulAllocator TickSlabValue A]

namespace SwapContext

/-!
# Targets on the way
-/

section Targets

variable {ctx : SwapContext} {ticks : SortedMap Int TickInfoInner} {t t' k : Int}

theorem wordBoundary_stays (hs : ctx.tickSpacing.IsPositive) (ht : minTick - 1 ≤ t ∧ t ≤ maxTick)
    (h : if ctx.zeroForOne then ctx.wordBoundary t ≤ t' ∧ t' ≤ t
      else t ≤ t' ∧ t' < ctx.wordBoundary t) :
    ctx.wordBoundary t' = ctx.wordBoundary t := by
  have hpos : 0 < ctx.tickSpacing.value := hs
  have hstart := wordStart_le hs t
  have hend := lt_wordEnd hs t
  unfold wordBoundary at h ⊢
  dsimp only at h ⊢
  cases hz : ctx.zeroForOne with
  | true =>
      rw [hz, if_pos rfl, if_pos rfl] at h
      have hlow : t / ctx.tickSpacing.value / 2 ^ 8 * 2 ^ 8 * ctx.tickSpacing.value ≤ t' := by
        omega
      have hle := (Int.le_ediv_iff_mul_le hpos).mpr hlow
      have hge := Int.ediv_le_ediv hpos h.2
      have hword : t' / ctx.tickSpacing.value / 2 ^ 8 = t / ctx.tickSpacing.value / 2 ^ 8 := by
        omega
      rw [if_pos rfl, if_pos rfl, hword]
  | false =>
      rw [hz, if_neg Bool.false_ne_true, if_neg Bool.false_ne_true] at h
      have hhigh : t' < ((t / ctx.tickSpacing.value + 1) / 2 ^ 8 * 2 ^ 8 + 255) *
          ctx.tickSpacing.value := by
        omega
      have hlt := Int.ediv_lt_of_lt_mul hpos hhigh
      have hge := Int.ediv_le_ediv hpos h.1
      have hword : (t' / ctx.tickSpacing.value + 1) / 2 ^ 8 =
          (t / ctx.tickSpacing.value + 1) / 2 ^ 8 := by
        omega
      rw [if_neg Bool.false_ne_true, if_neg Bool.false_ne_true, hword]

def IsNearest (ctx : SwapContext) (ticks : SortedMap Int TickInfoInner) (t k : Int) : Prop :=
  (exists info, ticks.get? k = some info) ∧
    if ctx.zeroForOne then
      ctx.wordBoundary t ≤ k ∧ k ≤ t ∧ forall j info, ticks.get? j = some info -> j ≤ t -> j ≤ k
    else
      k ≤ ctx.wordBoundary t ∧ t < k ∧ forall j info, ticks.get? j = some info -> t < j -> k ≤ j

theorem nearestKey_eq_some : ctx.nearestKey ticks t = some k ↔ ctx.IsNearest ticks t k := by
  unfold nearestKey IsNearest
  rw [Option.filter_eq_some_iff]
  cases hz : ctx.zeroForOne with
  | true =>
      rw [if_pos rfl, if_pos rfl, if_pos rfl, decide_eq_true_iff]
      constructor
      · rintro ⟨hkey, hword⟩
        rcases Option.map_eq_some_iff.mp hkey with ⟨⟨k', info⟩, hfind, rfl⟩
        have hfound := SortedMap.findLE?_eq_some hfind
        exact ⟨⟨info, hfound.1⟩, hword, hfound.2⟩
      · rintro ⟨⟨info, hget⟩, hword, hle, hmax⟩
        refine ⟨?_, hword⟩
        cases hfind : ticks.findLE? t with
        | none => exact absurd (SortedMap.findLE?_eq_none hfind hget) (not_lt.mpr hle)
        | some e =>
            have hfound := SortedMap.findLE?_eq_some (k := e.1) (v := e.2) hfind
            exact congrArg some (le_antisymm (hmax _ _ hfound.1 hfound.2.1)
              (hfound.2.2 _ _ hget hle))
  | false =>
      rw [if_neg Bool.false_ne_true, if_neg Bool.false_ne_true, if_neg Bool.false_ne_true,
        decide_eq_true_iff]
      constructor
      · rintro ⟨hkey, hword⟩
        rcases Option.map_eq_some_iff.mp hkey with ⟨⟨k', info⟩, hfind, rfl⟩
        have hfound := SortedMap.findGT?_eq_some hfind
        exact ⟨⟨info, hfound.1⟩, hword, hfound.2⟩
      · rintro ⟨⟨info, hget⟩, hword, hlt, hmin⟩
        refine ⟨?_, hword⟩
        cases hfind : ticks.findGT? t with
        | none => exact absurd (SortedMap.findGT?_eq_none hfind hget) (not_le.mpr hlt)
        | some e =>
            have hfound := SortedMap.findGT?_eq_some (k := e.1) (v := e.2) hfind
            exact congrArg some (le_antisymm (hfound.2.2 _ _ hget hlt)
              (hmin _ _ hfound.1 hfound.2.1))

theorem targetOn_inWord (ctx : SwapContext) (ticks : SortedMap Int TickInfoInner) (t : Int) :
    if ctx.zeroForOne then ctx.wordBoundary t ≤ (ctx.targetOn ticks t).tickIndex
    else (ctx.targetOn ticks t).tickIndex ≤ ctx.wordBoundary t := by
  unfold targetOn
  cases hnear : ctx.nearestKey ticks t with
  | none =>
      split
      · exact le_refl _
      · exact le_refl _
  | some k =>
      have hspec := (nearestKey_eq_some.mp hnear).2
      split
      · rename_i hz
        rw [if_pos hz] at hspec
        exact hspec.1
      · rename_i hz
        rw [if_neg hz] at hspec
        exact hspec.1

theorem targetOn_stays (hs : ctx.tickSpacing.IsPositive) (ht : minTick - 1 ≤ t ∧ t ≤ maxTick)
    (hnone : forall j info, ticks.get? j = some info ->
      if ctx.zeroForOne then j ≤ t -> j ≤ (ctx.targetOn ticks t).tickIndex
      else t < j -> (ctx.targetOn ticks t).tickIndex ≤ j)
    (h : if ctx.zeroForOne then (ctx.targetOn ticks t).tickIndex ≤ t' ∧ t' ≤ t
      else t ≤ t' ∧ t' < (ctx.targetOn ticks t).tickIndex) :
    ctx.targetOn ticks t' = ctx.targetOn ticks t := by
  have hword := ctx.targetOn_inWord ticks t
  have hboundary : ctx.wordBoundary t' = ctx.wordBoundary t := by
    refine wordBoundary_stays hs ht ?_
    split
    · rename_i hz
      rw [if_pos hz] at h hword
      exact ⟨hword.trans h.1, h.2⟩
    · rename_i hz
      rw [if_neg hz] at h hword
      exact ⟨h.1, h.2.trans_le hword⟩
  have hnearest : ctx.nearestKey ticks t' = ctx.nearestKey ticks t := by
    apply Option.ext
    intro k
    rw [nearestKey_eq_some, nearestKey_eq_some]
    unfold IsNearest
    rw [hboundary]
    refine and_congr_right ?_
    rintro ⟨info, hget⟩
    split
    · rename_i hz
      rw [if_pos hz] at h
      have hbelow (j : Int) (i : TickInfoInner) (hj : ticks.get? j = some i) (hle : j ≤ t) :
          j ≤ t' := by
        have := hnone j i hj
        rw [if_pos hz] at this
        exact (this hle).trans h.1
      constructor
      · rintro ⟨hedge, hle, hmax⟩
        exact ⟨hedge, hle.trans h.2, fun j i hj hjt => hmax j i hj (hbelow j i hj hjt)⟩
      · rintro ⟨hedge, hle, hmax⟩
        exact ⟨hedge, hbelow k info hget hle, fun j i hj hjt => hmax j i hj (hjt.trans h.2)⟩
    · rename_i hz
      rw [if_neg hz] at h
      have habove (j : Int) (i : TickInfoInner) (hj : ticks.get? j = some i) (hlt : t < j) :
          t' < j := by
        have := hnone j i hj
        rw [if_neg hz] at this
        exact h.2.trans_le (this hlt)
      constructor
      · rintro ⟨hedge, hlt, hmin⟩
        exact ⟨hedge, h.1.trans_lt hlt, fun j i hj hjt => hmin j i hj (habove j i hj hjt)⟩
      · rintro ⟨hedge, hlt, hmin⟩
        exact ⟨hedge, habove k info hget hlt, fun j i hj hjt => hmin j i hj (h.1.trans_lt hjt)⟩
  unfold targetOn
  rw [hnearest, hboundary]

end Targets

/-!
# Loops at one place
-/

def resumed (ctx : SwapContext) (amountSpecified : Int) (poolState : PoolState) : SwapContext :=
  { ctx with amountSpecified, poolState }

structure Beside (a a' : SwapLoopState × TickSlab A) : Prop where
  price : a'.1.sqrtPriceX96 = a.1.sqrtPriceX96
  tick : a'.1.tick = a.1.tick
  liquidity : a'.1.liquidity = a.1.liquidity
  ticks : Positions.accounting a'.2.snapshot = Positions.accounting a.2.snapshot

section Beside

variable {ctx : SwapContext} {a b a' b' : SwapLoopState × TickSlab A} {c c' : StepComputations}
  {m : Int} {st : PoolState}

theorem Beside.symm (h : Beside a a') : Beside a' a :=
  ⟨h.price.symm, h.tick.symm, h.liquidity.symm, h.ticks.symm⟩

theorem Beside.trans {a'' : SwapLoopState × TickSlab A} (h : Beside a a') (h' : Beside a' a'') :
    Beside a a'' :=
  ⟨h'.price.trans h.price, h'.tick.trans h.tick, h'.liquidity.trans h.liquidity,
    h'.ticks.trans h.ticks⟩

theorem Beside.running (h : Beside a a') (hrun : ¬ ctx.Halted a.1)
    (hrest : a'.1.amountSpecifiedRemaining ≠ 0) : ¬ (ctx.resumed m st).Halted a'.1 := by
  rintro ((hzero | hlimit) | hdry)
  · exact hrest hzero
  · exact hrun (Or.inl (Or.inr (h.price.symm.trans hlimit)))
  · exact hrun (Or.inr (h.liquidity.symm.trans hdry))

theorem Beside.halted (h : Beside a a') (hhalt : ctx.Halted a.1)
    (hrest : a.1.amountSpecifiedRemaining ≠ 0) : (ctx.resumed m st).Halted a'.1 := by
  rcases hhalt with (hzero | hlimit) | hdry
  · exact absurd hzero hrest
  · exact Or.inl (Or.inr (h.price.trans hlimit))
  · exact Or.inr (h.liquidity.trans hdry)

theorem stepTarget_resumed (h : ctx.Invariant a) (h' : (ctx.resumed m st).Invariant a')
    (hticks : Positions.accounting a'.2.snapshot = Positions.accounting a.2.snapshot)
    (htarget : ctx.targetOn a.2.snapshot a'.1.tick = ctx.targetOn a.2.snapshot a.1.tick) :
    (ctx.resumed m st).stepTarget a'.2 a'.1.tick = ctx.stepTarget a.2 a.1.tick := by
  rw [stepTarget_eq h'.holds h'.ready.inTick.bounds, stepTarget_eq h.holds h.ready.inTick.bounds,
    ← htarget]
  exact targetOn_congr ctx ctx.access st hticks a'.1.tick

theorem Beside.stepTarget (hb : Beside a a') (h : ctx.Invariant a)
    (h' : (ctx.resumed m st).Invariant a') :
    (ctx.resumed m st).stepTarget a'.2 a'.1.tick = ctx.stepTarget a.2 a.1.tick :=
  stepTarget_resumed h h' hb.ticks (by rw [hb.tick])

theorem Iterates.beside (h : ctx.Invariant a) (h' : (ctx.resumed m st).Invariant a')
    (hi : ctx.Iterates a c b) (hi' : (ctx.resumed m st).Iterates a' c' b')
    (htarget : (ctx.resumed m st).stepTarget a'.2 a'.1.tick = ctx.stepTarget a.2 a.1.tick)
    (hticks : Positions.accounting a'.2.snapshot = Positions.accounting a.2.snapshot)
    (hliquidity : a'.1.liquidity = a.1.liquidity)
    (hprice : c'.next.sqrtPriceX96 = c.next.sqrtPriceX96)
    (htick : c'.next.tick = c.next.tick) : Beside b b' := by
  have hcrossed : c'.crossed = c.crossed := by
    apply Option.ext
    intro k
    rw [crossed_eq_some, crossed_eq_some, hprice, hi.advances.toTarget, hi'.advances.toTarget,
      htarget]
  have hnext := hi.next h
  have hnext' := hi'.next h'
  refine ⟨?_, ?_, ?_, ?_⟩
  · rw [hnext, hnext']
    exact hprice
  · rw [hnext, hnext']
    exact htick
  · rcases hi.cases h with ⟨hnone, hb, _⟩ | ⟨k, info, hsome, hget, _, _, hsum, _⟩
    · rcases hi'.cases h' with ⟨_, hb', _⟩ | ⟨k', _, hsome', _⟩
      · rw [hb, hb', hi.advances.liquidity, hi'.advances.liquidity]
        exact hliquidity
      · rw [hcrossed, hnone] at hsome'
        cases hsome'
    · rcases hi'.cases h' with ⟨hnone', _⟩ | ⟨k', info', hsome', hget', _, _, hsum', _⟩
      · rw [hcrossed, hsome] at hnone'
        cases hnone'
      · rw [hcrossed, hsome] at hsome'
        cases hsome'
        have hnet := accounting_net hticks k
        rw [tickAt_some hget, tickAt_some hget'] at hnet
        rw [hnet, hliquidity] at hsum'
        exact Int.ofNat.inj (hsum'.trans hsum.symm)
  · rw [hi.accounting h, hi'.accounting h']
    exact hticks

theorem Iterates.tick_short (h : ctx.Invariant a) (hi : ctx.Iterates a c b)
    (hoff : c.next.sqrtPriceX96 ≠ (ctx.stepTarget a.2 a.1.tick).sqrtPriceX96) :
    if ctx.zeroForOne then
      (ctx.stepTarget a.2 a.1.tick).tickIndex ≤ b.1.tick ∧ b.1.tick ≤ a.1.tick
    else
      a.1.tick ≤ b.1.tick ∧ b.1.tick < (ctx.stepTarget a.2 a.1.tick).tickIndex := by
  have hready := h.ready
  have ht := h.target_spec hi.running
  have hvalid := hready.next_price hi.running ht hi.advances
  have hfloor := getTickAtSqrtPrice_spec hvalid
  have htick : b.1.tick = ctx.tickAfter (ctx.stepTarget a.2 a.1.tick) a.1 c.next.sqrtPriceX96 := by
    rw [hi.next h]
    exact hi.advances.tick
  have hlo := ht.inRange.1
  have hhi := ht.inRange.2
  unfold minTick at hlo
  unfold tickAfter at htick
  rw [if_neg hoff] at htick
  rw [htick]
  cases hz : ctx.zeroForOne with
  | true =>
      have hmove := hready.moves_down hi.running hz ht hi.advances
      have hprice := hmove.2.1
      rw [if_pos rfl]
      split
      · rename_i hmoved
        rw [ht.price] at hprice
        refine ⟨(le_getTickAtSqrtPrice_iff hvalid (by omega) hhi).mpr hprice, ?_⟩
        by_contra hgt
        have hup := hfloor.1.2
        have hceil := hready.inTick.ceil (by omega)
        have hlow := hready.inTick.lower
        unfold minTick at hlow
        have hnext := (le_getTickAtSqrtPrice_iff hvalid (by omega) (by omega)).mp
          (show a.1.tick + 1 ≤ getTickAtSqrtPrice c.next.sqrtPriceX96 by omega)
        exact hmoved (le_antisymm hmove.2.2.2 (hceil.trans hnext))
      · exact ⟨(ht.down hz).1, le_refl _⟩
  | false =>
      have hmove := hready.moves_up hi.running hz ht hi.advances
      have hprice := hmove.2.2.1
      rw [if_neg Bool.false_ne_true]
      split
      · rename_i hmoved
        refine ⟨?_, ?_⟩
        · by_cases hmin : minTick ≤ a.1.tick
          · refine (le_getTickAtSqrtPrice_iff hvalid ?_ hready.inTick.upper).mpr
              ((hready.inTick.floor hmin).trans hmove.2.1)
            unfold minTick at hmin
            omega
          · have hrange := hfloor.1.1
            omega
        · by_contra hge
          have hreached := (le_getTickAtSqrtPrice_iff hvalid (by omega) hhi).mp (not_lt.mp hge)
          rw [← ht.price] at hreached
          exact hoff (le_antisymm hprice hreached)
      · exact ⟨le_refl _, (ht.up hz).1⟩

theorem Iterates.target_again {s : SwapLoopState × TickSlab A} (h : ctx.Invariant a)
    (hi : ctx.Iterates a c b) (hs : (ctx.resumed m st).Invariant s) (hb : Beside b s)
    (hoff : c.next.sqrtPriceX96 ≠ (ctx.stepTarget a.2 a.1.tick).sqrtPriceX96) :
    (ctx.resumed m st).stepTarget s.2 s.1.tick = ctx.stepTarget a.2 a.1.tick := by
  have hready := h.ready
  have ht := h.target_spec hi.running
  have htick := hi.tick_short h hoff
  rw [stepTarget_eq h.holds hready.inTick.bounds] at ht htick
  refine stepTarget_resumed h hs (hb.ticks.trans (hi.accounting h)) ?_
  rw [hb.tick]
  refine targetOn_stays hready.spacing ⟨hready.inTick.lower, hready.inTick.upper⟩ ?_ htick
  intro j info hj
  split
  · rename_i hz
    exact fun hle => (ht.down hz).2 j info hj hle
  · rename_i hz
    exact fun hlt => (ht.up (Bool.eq_false_iff.mpr hz)).2 j info hj hlt

end Beside

end SwapContext

end RmUniswap
