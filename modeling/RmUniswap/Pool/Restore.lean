import RmUniswap.Pool.Sound
import RmUniswap.Types.LiquidityCap

/-!
# Restoring a snapshot

Validation and restoring read the ticks in order. What they accept is stated
tick by tick, and a restored pool has the snapshot it was restored from.
-/

namespace RmUniswap

open Foundation

variable {A : Type} [LawfulAllocator TickSlabValue A]

structure TickAccounted (maxLiquidityPerTick : Nat) (info : TickInfoInner) : Prop where
  positive : 0 < info.liquidityGross
  net : info.liquidityNet.natAbs ≤ info.liquidityGross
  gross : info.liquidityGross ≤ maxLiquidityPerTick

theorem TickAccounted.net_ne {tickSpacing : TickSpacing} {info : TickInfoInner}
    (h : TickAccounted tickSpacing.maxLiquidityPerTick info) (hs : tickSpacing.IsPositive) :
    info.liquidityNet ≠ -2 ^ 127 := by
  have hnet := h.net
  have hgross := h.gross
  have hcap := TickSpacing.maxLiquidityPerTick_lt hs
  norm_num at hcap ⊢
  omega

/-!
# Validating the ticks
-/

section ValidateTicks

def netUpTo (l : List (Int × TickInfoInner)) (t : Int) : Int :=
  (l.map fun e => if e.1 ≤ t then e.2.liquidityNet else 0).sum

theorem netUpTo_cons (e : Int × TickInfoInner) (l : List (Int × TickInfoInner)) (t : Int) :
    netUpTo (e :: l) t = (if e.1 ≤ t then e.2.liquidityNet else 0) + netUpTo l t := by
  unfold netUpTo
  rw [List.map_cons, List.sum_cons]

theorem netUpTo_eq_zero {l : List (Int × TickInfoInner)} {t : Int}
    (h : forall e, e ∈ l -> t < e.1) : netUpTo l t = 0 := by
  unfold netUpTo
  apply List.sum_eq_zero
  intro x hx
  rcases List.mem_map.mp hx with ⟨e, he, rfl⟩
  exact if_neg (not_le.mpr (h e he))

theorem netUpTo_entries (ticks : SortedMap Int TickInfoInner) (t : Int) :
    netUpTo ticks.entries t = netBelow ticks t := rfl

/-- What the validation of a list of ticks accepts. -/
structure TicksValid (tickSpacing : TickSpacing) (max : Nat) (current : Int)
    (l : List (Int × TickInfoInner)) (acc : Int) : Prop where
  aligned : forall e, e ∈ l -> tickSpacing.value ∣ e.1
  accounted : forall e, e ∈ l -> TickAccounted max e.2
  sums : forall e, e ∈ l -> e.1 ≤ current -> FitsSigned 128 (acc + netUpTo l e.1)

variable {tickSpacing : TickSpacing} {max : Nat} {current : Int}
  {l : List (Int × TickInfoInner)} {acc r : Int}

theorem forSpacingOrPanic_eq_ok {t : Int} {aligned : Bool}
    (h : forSpacingOrPanic t tickSpacing = .ok aligned) :
    tickSpacing.value ≠ 0 ∧ aligned = forSpacing t tickSpacing := by
  unfold forSpacingOrPanic at h
  rcases Outcome.bind_eq_ok.mp h with ⟨u, hpanic, hok⟩
  have hno := Outcome.panicIf_eq_ok.mp hpanic
  cases hok
  exact ⟨fun hz => hno (Or.inl hz), rfl⟩

theorem forSpacingOrPanic_of_not {t : Int} (h : ¬ SpacingTraps t tickSpacing) :
    forSpacingOrPanic t tickSpacing = .ok (forSpacing t tickSpacing) := by
  unfold forSpacingOrPanic
  rw [Outcome.panicIf_of_not h, Outcome.ok_bind]

theorem TickSpacing.IsPositive.not_traps (h : tickSpacing.IsPositive) (t : Int) :
    ¬ SpacingTraps t tickSpacing := by
  unfold TickSpacing.IsPositive at h
  unfold SpacingTraps
  omega

theorem validateTicks_sound (hsorted : l.Pairwise fun a b => a.1 < b.1)
    (h : validateTicks tickSpacing max current l acc = .ok r) :
    TicksValid tickSpacing max current l acc ∧ r = acc + netUpTo l current := by
  induction l generalizing acc with
  | nil =>
      cases h
      refine ⟨⟨?_, ?_, ?_⟩, (add_zero _).symm⟩
      all_goals
        intro e he
        cases he
  | cons e rest ih =>
      obtain ⟨t, info⟩ := e
      have hrest := (List.pairwise_cons.mp hsorted).2
      have hlt := (List.pairwise_cons.mp hsorted).1
      unfold validateTicks at h
      rcases Outcome.bind_eq_ok.mp h with ⟨aligned, haligned, h⟩
      have hspacing := forSpacingOrPanic_eq_ok haligned
      split at h
      · cases h
      · rename_i hal
        have hal : forSpacing t tickSpacing = true := by
          rw [hspacing.2] at hal
          simpa using hal
        split at h
        · cases h
        · rename_i hgross
          split at h
          · cases h
          · rename_i hmax
            have hinfo : TickAccounted max info :=
              ⟨by omega, by omega, not_lt.mp hmax⟩
            have hself : netUpTo ((t, info) :: rest) t = info.liquidityNet := by
              rw [netUpTo_cons, if_pos (le_refl _), netUpTo_eq_zero hlt, add_zero]
            -- The head is priced by itself, the rest on top of it.
            have hcons (acc' : Int)
                (hacc : acc' = acc + if t ≤ current then info.liquidityNet else 0)
                (hhead : t ≤ current -> FitsSigned 128 (acc + info.liquidityNet))
                (htail : TicksValid tickSpacing max current rest acc' ∧
                  r = acc' + netUpTo rest current) :
                TicksValid tickSpacing max current ((t, info) :: rest) acc ∧
                  r = acc + netUpTo ((t, info) :: rest) current := by
              refine ⟨⟨?_, ?_, ?_⟩, ?_⟩
              · intro e he
                rcases List.mem_cons.mp he with rfl | he
                · exact forSpacing_iff.mp hal
                · exact htail.1.aligned e he
              · intro e he
                rcases List.mem_cons.mp he with rfl | he
                · exact hinfo
                · exact htail.1.accounted e he
              · intro e he hle
                rcases List.mem_cons.mp he with rfl | he
                · rw [hself]
                  exact hhead hle
                · have hte := hlt e he
                  have hsum := htail.1.sums e he hle
                  rw [hacc, if_pos (le_of_lt (lt_of_lt_of_le hte hle)), add_assoc] at hsum
                  rw [netUpTo_cons, if_pos (le_of_lt hte)]
                  exact hsum
              · rw [htail.2, hacc, netUpTo_cons, add_assoc]
            split at h
            · rename_i hle
              rcases Outcome.bind_eq_ok.mp h with ⟨acc', hacc', h⟩
              have hsum := checkedSigned_eq_some.mp
                (okOr_eq_ok.mp (Outcome.ofExcept_eq_ok.mp hacc'))
              exact hcons acc' (by rw [if_pos hle, hsum.1]) (fun _ => hsum.2) (ih hrest h)
            · rename_i hgt
              exact hcons acc (by rw [if_neg hgt, add_zero]) (fun hle => absurd hle hgt)
                (ih hrest h)

theorem validateTicks_complete (htraps : forall e, e ∈ l -> ¬ SpacingTraps e.1 tickSpacing)
    (hsorted : l.Pairwise fun a b => a.1 < b.1)
    (h : TicksValid tickSpacing max current l acc) :
    validateTicks tickSpacing max current l acc = .ok (acc + netUpTo l current) := by
  induction l generalizing acc with
  | nil =>
      show Outcome.ok acc = _
      rw [netUpTo, List.map_nil, List.sum_nil, add_zero]
  | cons e rest ih =>
      obtain ⟨t, info⟩ := e
      have hrest := (List.pairwise_cons.mp hsorted).2
      have hlt := (List.pairwise_cons.mp hsorted).1
      have hal := forSpacing_iff.mpr (h.aligned _ List.mem_cons_self)
      have hinfo := h.accounted _ List.mem_cons_self
      have hpos := hinfo.positive
      have hnet := hinfo.net
      dsimp only at hpos hnet
      unfold validateTicks
      rw [forSpacingOrPanic_of_not (htraps _ List.mem_cons_self), Outcome.ok_bind, hal,
        Bool.not_true, if_neg (by decide), if_neg (by omega), if_neg (not_lt.mpr hinfo.gross),
        netUpTo_cons]
      have hself : netUpTo ((t, info) :: rest) t = info.liquidityNet := by
        rw [netUpTo_cons, if_pos (le_refl _), netUpTo_eq_zero hlt, add_zero]
      have htail (acc' : Int) (hacc : acc' = acc + if t ≤ current then info.liquidityNet else 0) :
          TicksValid tickSpacing max current rest acc' := by
        refine ⟨fun e he => h.aligned e (List.mem_cons_of_mem _ he),
          fun e he => h.accounted e (List.mem_cons_of_mem _ he), fun e he hle => ?_⟩
        have hte := hlt e he
        have hsum := h.sums e (List.mem_cons_of_mem _ he) hle
        rw [netUpTo_cons, if_pos (le_of_lt hte), ← add_assoc] at hsum
        rw [hacc, if_pos (le_of_lt (lt_of_lt_of_le hte hle))]
        exact hsum
      split
      · rename_i hle
        have hfits := h.sums _ List.mem_cons_self hle
        rw [hself] at hfits
        rw [checkedSigned_eq_some.mpr ⟨rfl, hfits⟩, okOr_some]
        show validateTicks tickSpacing max current rest (acc + info.liquidityNet) = _
        rw [ih (fun e he => htraps e (List.mem_cons_of_mem _ he)) hrest
          (htail _ (by rw [if_pos hle])), add_assoc]
      · rename_i hgt
        rw [ih (fun e he => htraps e (List.mem_cons_of_mem _ he)) hrest
          (htail _ (by rw [if_neg hgt, add_zero])), zero_add]

end ValidateTicks

/-!
# Restoring the ticks
-/

section RestoreTicks

variable {tickSpacing : TickSpacing} {l : List (Int × TickInfoInner)} {slab : TickSlab A}
  {ticks : SortedMap Int TickInfoInner}

theorem price_overflow : 2 ^ 160 ≤ getSqrtPriceAtTick (maxTick + 1) := by
  decide +kernel

theorem sqrtPriceOrPanic_ok {t : Int} (hlo : -2 ^ 20 < t) (hhi : t ≤ maxTick) :
    sqrtPriceOrPanic t = .ok (getSqrtPriceAtTick t) := by
  have hprice : getSqrtPriceAtTick t < 2 ^ 160 := by
    calc
      getSqrtPriceAtTick t ≤ getSqrtPriceAtTick maxTick := price_le hlo hhi (by decide)
      _ < 2 ^ 160 := (price_valid (t := maxTick) (by decide)).lt_two_pow
  unfold maxTick at hhi
  unfold sqrtPriceOrPanic
  rw [Outcome.panicIf, if_neg (by omega), Outcome.ok_bind]

theorem sqrtPriceOrPanic_panic {t : Int} (h : ¬ (-2 ^ 20 < t ∧ t ≤ maxTick)) :
    sqrtPriceOrPanic t = .panic := by
  have hbad : 2 ^ 20 ≤ t.natAbs ∨ 2 ^ 160 ≤ getSqrtPriceAtTick t := by
    by_cases hwide : 2 ^ 20 ≤ t.natAbs
    · exact Or.inl hwide
    · have hgt : maxTick + 1 ≤ t := by omega
      exact Or.inr (price_overflow.trans (price_le (by decide) hgt (by omega)))
  unfold sqrtPriceOrPanic
  rw [Outcome.panicIf, if_pos hbad, Outcome.panic_bind]

theorem restoreTicks_cons {t : Int} {info : TickInfoInner} (hslab : slab.Holds tickSpacing ticks)
    (hinfo : TickAccounted tickSpacing.maxLiquidityPerTick info)
    (hst : Storable tickSpacing t) :
    exists slab', slab'.Holds tickSpacing (ticks.insert t info) ∧
      forall rest, TickSlab.restoreTicks tickSpacing ((t, info) :: rest) slab =
        TickSlab.restoreTicks tickSpacing rest slab' := by
  have hpos := hinfo.positive
  have hnet := hinfo.net
  have hgross := hinfo.gross
  rw [← hslab.spacing, ← slab.maxLiquidityPerTick_eq] at hgross
  rcases hslab.insert hst info with ⟨slab', hinsert, hslab'⟩
  refine ⟨slab', hslab', fun rest => ?_⟩
  rw [TickSlab.restoreTicks, sqrtPriceOrPanic_ok hst.lower hst.upper, Outcome.ok_bind]
  dsimp only
  rw [forSpacing_iff.mpr hst.aligned, Bool.not_true, if_neg (by decide), if_neg (by omega),
    if_neg (not_lt.mpr hgross), hinsert]
  rfl

theorem restoreTicks_ok (hslab : slab.Holds tickSpacing ticks)
    (haccounted : forall e, e ∈ l -> TickAccounted tickSpacing.maxLiquidityPerTick e.2)
    (hstorable : forall e, e ∈ l -> Storable tickSpacing e.1) :
    exists slab', TickSlab.restoreTicks tickSpacing l slab = .ok slab' ∧
      slab'.Holds tickSpacing (l.foldl (fun m e => m.insert e.1 e.2) ticks) := by
  induction l generalizing slab ticks with
  | nil =>
      exact ⟨slab, rfl, hslab⟩
  | cons e rest ih =>
      rcases restoreTicks_cons hslab (haccounted e List.mem_cons_self)
        (hstorable e List.mem_cons_self) with ⟨slab', hslab', hcons⟩
      rw [hcons rest]
      exact ih hslab' (fun e he => haccounted e (List.mem_cons_of_mem _ he))
        (fun e he => hstorable e (List.mem_cons_of_mem _ he))

theorem restoreTicks_panic (hslab : slab.Holds tickSpacing ticks)
    (haccounted : forall e, e ∈ l -> TickAccounted tickSpacing.maxLiquidityPerTick e.2)
    (haligned : forall e, e ∈ l -> tickSpacing.value ∣ e.1)
    (hbad : exists e, e ∈ l ∧ ¬ (-2 ^ 20 < e.1 ∧ e.1 ≤ maxTick)) :
    TickSlab.restoreTicks tickSpacing l slab = .panic := by
  induction l generalizing slab ticks with
  | nil =>
      rcases hbad with ⟨e, he, _⟩
      cases he
  | cons e rest ih =>
      by_cases hrange : -2 ^ 20 < e.1 ∧ e.1 ≤ maxTick
      · have hst : Storable tickSpacing e.1 :=
          ⟨haligned e List.mem_cons_self, hrange.1, hrange.2⟩
        rcases restoreTicks_cons hslab (haccounted e List.mem_cons_self) hst with
          ⟨slab', hslab', hcons⟩
        rw [hcons rest]
        apply ih hslab' (fun e he => haccounted e (List.mem_cons_of_mem _ he))
          (fun e he => haligned e (List.mem_cons_of_mem _ he))
        rcases hbad with ⟨e', he', hbad⟩
        rcases List.mem_cons.mp he' with rfl | he'
        · exact absurd hrange hbad
        · exact ⟨e', he', hbad⟩
      · rw [TickSlab.restoreTicks, sqrtPriceOrPanic_panic hrange, Outcome.panic_bind]

theorem TickSlab.holds_new (h : tickSpacing.IsPositive) :
    (TickSlab.new tickSpacing h : TickSlab A).Holds tickSpacing SortedMap.empty :=
  ⟨TickSlab.keyed_new h, rfl, TickSlab.snapshot_new h⟩

/-- Restoring accounted ticks inserts all of them, or panics at a key outside the
width of the slab. -/
theorem fromSnapshot_ticks (hs : tickSpacing.IsPositive)
    (haccounted : forall t info, ticks.get? t = some info ->
      TickAccounted tickSpacing.maxLiquidityPerTick info)
    (hstorable : forall t info, ticks.get? t = some info -> Storable tickSpacing t) :
    exists slab : TickSlab A, TickSlab.fromSnapshot tickSpacing ticks = .ok slab ∧
      slab.Holds tickSpacing ticks := by
  rcases restoreTicks_ok (TickSlab.holds_new (A := A) hs)
    (fun e he => haccounted e.1 e.2 (SortedMap.mem_entries_iff.mp he))
    (fun e he => hstorable e.1 e.2 (SortedMap.mem_entries_iff.mp he)) with ⟨slab, hok, hholds⟩
  refine ⟨slab, ?_, ?_⟩
  · unfold TickSlab.fromSnapshot
    rw [dif_pos hs]
    exact hok
  · have hlist : ticks.entries.foldl (fun m e => m.insert e.1 e.2) SortedMap.empty = ticks :=
      ticks.ofList_entries
    rw [hlist] at hholds
    exact hholds

theorem fromSnapshot_ticks_panic
    (haccounted : forall t info, ticks.get? t = some info ->
      TickAccounted tickSpacing.maxLiquidityPerTick info)
    (haligned : forall t info, ticks.get? t = some info -> tickSpacing.value ∣ t)
    (hbad : ¬ (tickSpacing.IsPositive ∧
      forall t info, ticks.get? t = some info -> -2 ^ 20 < t ∧ t ≤ maxTick)) :
    (TickSlab.fromSnapshot tickSpacing ticks : Outcome Error (TickSlab A)) = .panic := by
  unfold TickSlab.fromSnapshot
  by_cases hs : tickSpacing.IsPositive
  · rw [dif_pos hs]
    apply restoreTicks_panic (TickSlab.holds_new hs)
      (fun e he => haccounted e.1 e.2 (SortedMap.mem_entries_iff.mp he))
      (fun e he => haligned e.1 e.2 (SortedMap.mem_entries_iff.mp he))
    by_contra hall
    apply hbad
    refine ⟨hs, fun t info hget => ?_⟩
    by_contra hrange
    exact hall ⟨(t, info), SortedMap.mem_entries_iff.mpr hget, hrange⟩
  · rw [dif_neg hs]

end RestoreTicks

/-!
# Restoring a pool
-/

/-- What validation accepts. -/
structure PoolSnapshot.Valid {P : Type} [PositionsAccess P] (s : PoolSnapshot P) : Prop where
  spacing : s.ticks.tickSpacing = s.tickSpacing
  protocolFee : s.protocolFee.isValid = true
  tick : getTickAtSqrtPrice s.state.sqrtPriceX96 = s.state.tick
  aligned : forall t info, s.ticks.inner.get? t = some info -> s.tickSpacing.value ∣ t
  accounted : forall t info, s.ticks.inner.get? t = some info ->
    TickAccounted s.tickSpacing.maxLiquidityPerTick info
  sums : forall t info, s.ticks.inner.get? t = some info -> t ≤ s.state.tick ->
    FitsSigned 128 (netBelow s.ticks.inner t)
  active : (s.state.liquidity : Int) = netBelow s.ticks.inner s.state.tick
  positions : PositionsAccess.validateAgainstTicks s.positions s.ticks = .ok ()

section Restore

variable {P : Type} [PositionsAccess P] {s : PoolSnapshot P} {p : Pool P A}

theorem PoolSnapshot.Valid.sum_fits (h : s.Valid) :
    FitsSigned 128 (netBelow s.ticks.inner s.state.tick) := by
  cases hfind : s.ticks.inner.findLE? s.state.tick with
  | none =>
      have hzero : netBelow s.ticks.inner s.state.tick = 0 := by
        rw [← netUpTo_entries]
        apply netUpTo_eq_zero
        intro e he
        exact SortedMap.findLE?_eq_none hfind (SortedMap.mem_entries_iff.mp he)
      rw [hzero]
      decide
  | some e =>
      rcases SortedMap.findLE?_eq_some (k := e.1) (v := e.2) hfind with ⟨hget, hle, hmax⟩
      have hsame : netBelow s.ticks.inner s.state.tick = netBelow s.ticks.inner e.1 := by
        apply netBelow_stay
        intro j info hj
        exact ⟨hmax j info hj, fun hje => hje.trans hle⟩
      rw [hsame]
      exact h.sums e.1 e.2 hget hle

theorem ticksValid_iff {tickSpacing : TickSpacing} {max : Nat} {current : Int}
    {ticks : SortedMap Int TickInfoInner} :
    TicksValid tickSpacing max current ticks.entries 0 ↔
      (forall t info, ticks.get? t = some info -> tickSpacing.value ∣ t) ∧
      (forall t info, ticks.get? t = some info -> TickAccounted max info) ∧
      forall t info, ticks.get? t = some info -> t ≤ current ->
        FitsSigned 128 (netBelow ticks t) := by
  constructor
  · intro h
    refine ⟨fun t info hget => ?_, fun t info hget => ?_, fun t info hget hle => ?_⟩
    · exact h.aligned (t, info) (SortedMap.mem_entries_iff.mpr hget)
    · exact h.accounted (t, info) (SortedMap.mem_entries_iff.mpr hget)
    · have hsum := h.sums (t, info) (SortedMap.mem_entries_iff.mpr hget) hle
      rw [zero_add] at hsum
      exact hsum
  · rintro ⟨haligned, haccounted, hsums⟩
    refine ⟨fun e he => ?_, fun e he => ?_, fun e he hle => ?_⟩
    · exact haligned e.1 e.2 (SortedMap.mem_entries_iff.mp he)
    · exact haccounted e.1 e.2 (SortedMap.mem_entries_iff.mp he)
    · rw [zero_add]
      exact hsums e.1 e.2 (SortedMap.mem_entries_iff.mp he) hle

theorem validate_eq_ok (h : s.validate = .ok ()) : s.Valid := by
  unfold PoolSnapshot.validate PoolSnapshot.validateWith at h
  split at h
  · cases h
  · rename_i hspacing
    split at h
    · cases h
    · rename_i hfee
      split at h
      · cases h
      · rename_i htick
        rcases Outcome.bind_eq_ok.mp h with ⟨u, _, h⟩
        rcases Outcome.bind_eq_ok.mp h with ⟨active, hactive, h⟩
        have hticks := validateTicks_sound s.ticks.inner.sorted hactive
        have hvalid := ticksValid_iff.mp hticks.1
        split at h
        · cases h
        · rename_i hliquidity
          have hsum := hticks.2
          rw [zero_add, netUpTo_entries] at hsum
          exact
            { spacing := not_not.mp hspacing
              protocolFee := by simpa using hfee
              tick := not_not.mp htick
              aligned := hvalid.1
              accounted := hvalid.2.1
              sums := hvalid.2.2
              active := by omega
              positions := h }

theorem PoolSnapshot.Valid.validate (h : s.Valid) (hs : s.tickSpacing.IsPositive) :
    s.validate = .ok () := by
  have hticks := validateTicks_complete (fun _ _ => hs.not_traps _) s.ticks.inner.sorted
    (ticksValid_iff.mpr ⟨h.aligned, h.accounted, h.sums⟩)
  have hactive := h.active
  rw [zero_add, netUpTo_entries] at hticks
  unfold TickSpacing.IsPositive at hs
  unfold PoolSnapshot.validate PoolSnapshot.validateWith
  rw [if_neg (not_not.mpr h.spacing), h.protocolFee, Bool.not_true, if_neg (by decide),
    if_neg (not_not.mpr h.tick), Outcome.panicIf, if_neg (by omega), Outcome.ok_bind]
  dsimp only
  rw [hticks, Outcome.ok_bind, if_neg (by omega), h.positions]

/-- A restored pool is its snapshot over a slab that holds the ticks. -/
structure Restored (s : PoolSnapshot P) (p : Pool P A) : Prop where
  valid : s.Valid
  state : p.state = s.state
  tickSpacing : p.tickSpacing = s.tickSpacing
  positions : p.positions = s.positions
  ticks : p.ticks.Holds s.tickSpacing s.ticks.inner
  lpFee : p.swapFee.lpFee = s.fee
  protocolFee : p.swapFee.protocolFee = s.protocolFee
  fees : p.swapFee.Consistent

theorem fromSnapshot_eq_ok (h : Pool.fromSnapshot s = .ok p) : Restored s p := by
  unfold Pool.fromSnapshot at h
  rcases Outcome.bind_eq_ok.mp h with ⟨u, hvalidate, h⟩
  rcases Outcome.bind_eq_ok.mp h with ⟨ticks, hticks, h⟩
  rcases Outcome.bind_eq_ok.mp h with ⟨swapFee, hfee, h⟩
  have hvalid := validate_eq_ok hvalidate
  have hfees := SwapFee.fromLpFee_eq_ok.mp (Outcome.ofExcept_eq_ok.mp hfee)
  rw [hvalid.spacing] at hticks
  cases h
  have hgood : s.tickSpacing.IsPositive ∧
      forall t info, s.ticks.inner.get? t = some info -> -2 ^ 20 < t ∧ t ≤ maxTick := by
    by_contra hbad
    rw [fromSnapshot_ticks_panic hvalid.accounted hvalid.aligned hbad] at hticks
    cases hticks
  rcases fromSnapshot_ticks (A := A) hgood.1 hvalid.accounted (fun t info hget =>
    ⟨hvalid.aligned t info hget, (hgood.2 t info hget).1, (hgood.2 t info hget).2⟩) with
    ⟨slab, hslab, hholds⟩
  rw [hslab] at hticks
  cases hticks
  exact
    { valid := hvalid
      state := rfl
      tickSpacing := rfl
      positions := rfl
      ticks := hholds
      lpFee := hfees.1
      protocolFee := hfees.2.1
      fees := hfees.2.2 }

theorem Restored.snapshot (h : Restored s p) : p.snapshot = s := by
  unfold Pool.snapshot TickSlab.ownedSnapshot
  rw [h.state, h.lpFee, h.protocolFee, h.tickSpacing, h.ticks.spacing, h.ticks.snapshot,
    h.positions]
  cases s with
  | mk state fee protocolFee tickSpacing ticks positions =>
      have hspacing := h.valid.spacing
      cases ticks
      dsimp only at hspacing ⊢
      rw [hspacing]

/-- Restoring loses nothing of an accepted snapshot. -/
theorem snapshot_fromSnapshot (h : Pool.fromSnapshot s = .ok p) : p.snapshot = s :=
  (fromSnapshot_eq_ok h).snapshot

/-- One position around price one, without its owner. -/
def sampleSnapshot : PoolSnapshot Unit :=
  { state :=
      { sqrtPriceX96 := 2 ^ 96
        tick := 0
        liquidity := 7
        feeGrowthGlobal0X128 := 5
        feeGrowthGlobal1X128 := 0 }
    fee := none
    protocolFee := { zeroForOneFee := 0, oneForZeroFee := 0 }
    tickSpacing := ⟨60, by decide⟩
    ticks :=
      { tickSpacing := ⟨60, by decide⟩
        inner :=
          (SortedMap.empty.insert (-60)
            { liquidityGross := 7
              liquidityNet := 7
              feeGrowthOutside0X128 := 3
              feeGrowthOutside1X128 := 0 }).insert 60
            { liquidityGross := 7
              liquidityNet := -7
              feeGrowthOutside0X128 := 2
              feeGrowthOutside1X128 := 0 } }
    positions := () }

theorem snapshot_fromSnapshot_sample :
    exists p : Pool Unit,
      Pool.fromSnapshot sampleSnapshot = .ok p ∧ p.snapshot = sampleSnapshot := by
  have hok : (Pool.fromSnapshot sampleSnapshot : Outcome Error (Pool Unit)).isOk = true := by
    decide +kernel
  cases h : (Pool.fromSnapshot sampleSnapshot : Outcome Error (Pool Unit)) with
  | ok p =>
      exact ⟨p, rfl, snapshot_fromSnapshot h⟩
  | err e =>
      rw [h] at hok
      cases hok
  | panic =>
      rw [h] at hok
      cases hok

theorem fromSnapshot_complete (h : s.Valid) (hs : s.tickSpacing.IsPositive)
    (hstorable : forall t info, s.ticks.inner.get? t = some info -> Storable s.tickSpacing t)
    {swapFee : SwapFee} (hfee : SwapFee.fromLpFee s.fee s.protocolFee = .ok swapFee) :
    exists p : Pool P A, Pool.fromSnapshot s = .ok p := by
  rcases fromSnapshot_ticks (A := A) hs h.accounted hstorable with ⟨slab, hslab, _⟩
  refine ⟨⟨s.state, swapFee, s.tickSpacing, slab, s.positions⟩, ?_⟩
  unfold Pool.fromSnapshot
  rw [h.validate hs, Outcome.ok_bind, h.spacing, hslab, Outcome.ok_bind, hfee]
  rfl

theorem Restored.sound (h : Restored s p) (hp : IsValidSqrtPrice s.state.sqrtPriceX96) :
    p.Sound := by
  have hactive := h.valid.active
  have hfits : p.state.liquidity < 2 ^ 128 := by
    have hsum := h.valid.sum_fits.2
    rw [h.state]
    norm_num at hsum
    omega
  exact
    { keyed := h.ticks.keyed
      spacing := h.ticks.spacing.trans h.tickSpacing.symm
      fees := h.fees
      price := h.state ▸ hp
      inTick := by
        rw [h.state, ← h.valid.tick]
        exact PriceInTick.of_floor hp
      active := by rw [h.state, h.ticks.snapshot]; exact hactive
      negatable := by
        rw [h.ticks.snapshot]
        exact fun t info hget => (h.valid.accounted t info hget).net_ne h.ticks.positive
      liquidity := hfits }

end Restore

end RmUniswap
