import RmUniswap.Pool.Reconcile
import RmUniswap.Types.LiquidityCap

/-!
# The reconciliation check

The check sums the positions tick by tick into an expected accounting and
compares it with the ticks. What it accepts is exactly a reconciled snapshot.
-/

namespace RmUniswap

open Foundation

namespace Positions

def expectedAt (expected : SortedMap Int (Nat × Int)) (t : Int) : Nat × Int :=
  (expected.get? t).getD (0, 0)

theorem expectedAt_insert_self (expected : SortedMap Int (Nat × Int)) (t : Int)
    (entry : Nat × Int) : expectedAt (expected.insert t entry) t = entry := by
  rw [expectedAt, SortedMap.get?_insert_self]
  rfl

theorem expectedAt_insert_ne (expected : SortedMap Int (Nat × Int)) {t j : Int} (h : j ≠ t)
    (entry : Nat × Int) : expectedAt (expected.insert t entry) j = expectedAt expected j := by
  rw [expectedAt, SortedMap.get?_insert_ne _ h]
  rfl

def listSum (l : List (PositionIndex × PositionState)) (weight : PositionIndex -> Int) : Int :=
  (l.map fun e => size e.2 * weight e.1).sum

theorem listSum_cons (e : PositionIndex × PositionState)
    (l : List (PositionIndex × PositionState)) (weight : PositionIndex -> Int) :
    listSum (e :: l) weight = size e.2 * weight e.1 + listSum l weight := by
  unfold listSum
  rw [List.map_cons, List.sum_cons]

/-- One accounting is another with a list of positions added; it keeps only ticks
with liquidity. -/
structure Adds (l : List (PositionIndex × PositionState))
    (expected expected' : SortedMap Int (Nat × Int)) : Prop where
  gross : forall t, ((expectedAt expected' t).1 : Int) =
    (expectedAt expected t).1 + listSum l (touching t)
  net : forall t, (expectedAt expected' t).2 =
    (expectedAt expected t).2 + listSum l (entering t)
  positive : (forall t e, expected.get? t = some e -> 0 < e.1) ->
    forall t e, expected'.get? t = some e -> 0 < e.1

structure Ranged (tickSpacing : TickSpacing) (i : PositionIndex) : Prop where
  ordered : i.tickLower < i.tickUpper
  lower : tickSpacing.value ∣ i.tickLower
  upper : tickSpacing.value ∣ i.tickUpper

end Positions

def PositionIndex.Traps (i : PositionIndex) (tickSpacing : TickSpacing) : Prop :=
  SpacingTraps i.tickLower tickSpacing ∨ SpacingTraps i.tickUpper tickSpacing

theorem PositionIndex.not_traps {tickSpacing : TickSpacing} (h : tickSpacing.IsPositive)
    (i : PositionIndex) : ¬ i.Traps tickSpacing :=
  not_or.mpr ⟨h.not_traps _, h.not_traps _⟩

namespace Positions

section Sound

variable {tickSpacing : TickSpacing} {expected expected' : SortedMap Int (Nat × Int)}

theorem expectTick_eq_ok {tick : Int} {liquidity : Nat} {delta : Int}
    (h : expectTick expected tick liquidity delta = .ok expected') :
    expected' = expected.insert tick ((expectedAt expected tick).1 + liquidity,
      (expectedAt expected tick).2 + delta) := by
  unfold expectTick at h
  rcases bind_eq_ok.mp h with ⟨gross, hgross, h⟩
  rcases bind_eq_ok.mp h with ⟨net, hnet, h⟩
  have hg := (checkedAdd_eq_some.mp (okOr_eq_ok.mp hgross)).1
  have hn := (checkedSigned_eq_some.mp (okOr_eq_ok.mp hnet)).1
  cases h
  rw [hg, hn]
  rfl

theorem adds_position {i : PositionIndex} {p : PositionState} (hlt : i.tickLower < i.tickUpper)
    (hp : p.liquidity ≠ 0) :
    Adds [(i, p)] expected
      ((expected.insert i.tickLower ((expectedAt expected i.tickLower).1 + p.liquidity,
          (expectedAt expected i.tickLower).2 + p.liquidity)).insert i.tickUpper
        ((expectedAt expected i.tickUpper).1 + p.liquidity,
          (expectedAt expected i.tickUpper).2 + -p.liquidity)) := by
  have hne : i.tickLower ≠ i.tickUpper := ne_of_lt hlt
  have hsum (weight : PositionIndex -> Int) : listSum [(i, p)] weight = p.liquidity * weight i := by
    rw [listSum_cons]
    exact add_zero _
  refine ⟨fun t => ?_, fun t => ?_, fun hpos t e he => ?_⟩
  · rw [hsum]
    unfold touching
    by_cases hu : t = i.tickUpper
    · rw [hu, expectedAt_insert_self, if_neg hne, if_pos rfl]
      push_cast
      ring
    · have hu' : ¬ i.tickUpper = t := fun h => hu h.symm
      rw [expectedAt_insert_ne _ hu, if_neg hu']
      by_cases hl : t = i.tickLower
      · rw [hl, expectedAt_insert_self, if_pos rfl]
        push_cast
        ring
      · rw [expectedAt_insert_ne _ hl, if_neg (fun h => hl h.symm)]
        ring
  · rw [hsum]
    unfold entering
    by_cases hu : t = i.tickUpper
    · rw [hu, expectedAt_insert_self, if_neg hne, if_pos rfl]
      push_cast
      ring
    · have hu' : ¬ i.tickUpper = t := fun h => hu h.symm
      rw [expectedAt_insert_ne _ hu, if_neg hu']
      by_cases hl : t = i.tickLower
      · rw [hl, expectedAt_insert_self, if_pos rfl]
        push_cast
        ring
      · rw [expectedAt_insert_ne _ hl, if_neg (fun h => hl h.symm)]
        ring
  · rw [SortedMap.get?_insert, SortedMap.get?_insert] at he
    split at he
    · cases he
      dsimp only
      omega
    · split at he
      · cases he
        dsimp only
        omega
      · exact hpos t e he

theorem adds_nothing {i : PositionIndex} {p : PositionState} (hp : p.liquidity = 0) :
    Adds [(i, p)] expected expected := by
  have hsum (weight : PositionIndex -> Int) : listSum [(i, p)] weight = 0 := by
    rw [listSum_cons, size, hp]
    show (0 : Int) * weight i + 0 = 0
    ring
  exact
    { gross := fun t => by rw [hsum, add_zero]
      net := fun t => by rw [hsum, add_zero]
      positive := fun hpos => hpos }

theorem Adds.cons {e : PositionIndex × PositionState}
    {l : List (PositionIndex × PositionState)} {middle : SortedMap Int (Nat × Int)}
    (h : Adds [e] expected middle) (h' : Adds l middle expected') :
    Adds (e :: l) expected expected' := by
  have hone (weight : PositionIndex -> Int) : listSum [e] weight = size e.2 * weight e.1 := by
    rw [listSum_cons]
    exact add_zero _
  refine ⟨fun t => ?_, fun t => ?_, fun hpos => h'.positive (h.positive hpos)⟩
  · rw [h'.gross, h.gross, hone, listSum_cons, add_assoc]
  · rw [h'.net, h.net, hone, listSum_cons, add_assoc]

theorem expectPosition_sound {i : PositionIndex} {p : PositionState}
    (h : expectPosition tickSpacing expected i p = .ok expected') :
    Ranged tickSpacing i ∧ Adds [(i, p)] expected expected' := by
  unfold expectPosition at h
  split at h
  · cases h
  · rename_i hlt
    rcases Outcome.bind_eq_ok.mp h with ⟨lowerAligned, hlower, h⟩
    have hl := (forSpacingOrPanic_eq_ok hlower).2
    split at h
    · cases h
    · rename_i hlal
      rcases Outcome.bind_eq_ok.mp h with ⟨upperAligned, hupper, h⟩
      have hu := (forSpacingOrPanic_eq_ok hupper).2
      split at h
      · cases h
      · rename_i hual
        have hranged : Ranged tickSpacing i :=
          { ordered := not_le.mp hlt
            lower := forSpacing_iff.mp (by rw [← hl]; simpa using hlal)
            upper := forSpacing_iff.mp (by rw [← hu]; simpa using hual) }
        refine ⟨hranged, ?_⟩
        split at h
        · rename_i hzero
          cases h
          exact adds_nothing hzero
        · rename_i hne
          have h := Outcome.ofExcept_eq_ok.mp h
          rcases bind_eq_ok.mp h with ⟨delta, hdelta, h⟩
          rcases bind_eq_ok.mp h with ⟨middle, hmiddle, h⟩
          have hd := (checkedSigned_eq_some.mp (okOr_eq_ok.mp hdelta)).1
          rw [hd] at hmiddle h
          have hm := expectTick_eq_ok hmiddle
          have hlast := expectTick_eq_ok h
          have hother := expectedAt_insert_ne expected
            (ne_of_gt hranged.ordered) ((expectedAt expected i.tickLower).1 + p.liquidity,
              (expectedAt expected i.tickLower).2 + (p.liquidity : Int))
          rw [hlast, hm, hother]
          exact adds_position hranged.ordered hne

theorem expectAll_sound {l : List (PositionIndex × PositionState)}
    (h : expectAll tickSpacing l expected = .ok expected') :
    (forall e, e ∈ l -> Ranged tickSpacing e.1) ∧ Adds l expected expected' := by
  induction l generalizing expected with
  | nil =>
      cases h
      refine ⟨?_, ?_⟩
      · intro e he
        cases he
      · exact
          { gross := fun t => (add_zero _).symm
            net := fun t => (add_zero _).symm
            positive := fun hpos => hpos }
  | cons e rest ih =>
      obtain ⟨i, p⟩ := e
      unfold expectAll at h
      rcases Outcome.bind_eq_ok.mp h with ⟨middle, hmiddle, h⟩
      have hone := expectPosition_sound hmiddle
      have hrest := ih h
      refine ⟨?_, hone.2.cons hrest.2⟩
      intro e he
      rcases List.mem_cons.mp he with rfl | he
      · exact hone.1
      · exact hrest.1 e he

end Sound

/-- The accounting of the ticks as the check compares it. -/
def accounting (ticks : SortedMap Int TickInfoInner) : SortedMap Int (Nat × Int) :=
  ticks.mapValues fun info => (info.liquidityGross, info.liquidityNet)

theorem expectedAt_accounting (ticks : SortedMap Int TickInfoInner) (t : Int) :
    expectedAt (accounting ticks) t =
      ((tickAt ticks t).liquidityGross, (tickAt ticks t).liquidityNet) := by
  unfold expectedAt accounting tickAt
  rw [SortedMap.get?_mapValues]
  cases ticks.get? t <;> rfl

/-!
# The check in any order

The positions come out of a hash map, in an order that is not fixed.
-/

theorem listSum_perm {l l' : List (PositionIndex × PositionState)} (h : l.Perm l')
    (weight : PositionIndex -> Int) : listSum l weight = listSum l' weight :=
  (h.map _).sum_eq

theorem reconciled_of_validateInOrder {positions : Positions} {ticks : PoolTicksSnapshot}
    {l : List (PositionIndex × PositionState)} (hl : l.Perm positions.map.entries)
    (hpos : forall t info, ticks.inner.get? t = some info -> 0 < info.liquidityGross)
    (hcap : forall t info, ticks.inner.get? t = some info ->
      info.liquidityGross ≤ ticks.tickSpacing.maxLiquidityPerTick)
    (h : validateInOrder l ticks = .ok ()) :
    Reconciled ticks.tickSpacing positions ticks.inner := by
  unfold validateInOrder at h
  rcases Outcome.bind_eq_ok.mp h with ⟨expected, hexpected, h⟩
  have hall := expectAll_sound hexpected
  have hranged {i : PositionIndex} {p : PositionState} (hi : positions.map.get? i = some p) :=
    hall.1 (i, p) (hl.mem_iff.mpr (SortedMap.mem_entries_iff.mpr hi))
  dsimp only at h
  split at h
  · rename_i hentries
    have heq : expected = accounting ticks.inner := by
      cases expected
      unfold accounting SortedMap.mapValues
      simp only at hentries
      simp only [hentries]
    have hempty (t : Int) : expectedAt SortedMap.empty t = (0, 0) := rfl
    refine ⟨?_, ?_, fun t => ?_, fun t => ?_, hpos, fun t => ?_⟩
    · intro i p hi
      exact (hranged hi).ordered
    · intro i p hi
      exact ⟨(hranged hi).lower, (hranged hi).upper⟩
    · have hgross := hall.2.gross t
      rw [heq, expectedAt_accounting, hempty, listSum_perm hl] at hgross
      dsimp only at hgross
      rw [hgross, Nat.cast_zero, zero_add]
      rfl
    · have hnet := hall.2.net t
      rw [heq, expectedAt_accounting, hempty, listSum_perm hl] at hnet
      dsimp only at hnet
      rw [hnet, zero_add]
      rfl
    · cases hget : ticks.inner.get? t with
      | none =>
          rw [tickAt_none hget]
          exact Nat.zero_le _
      | some info =>
          rw [tickAt_some hget]
          exact hcap t info hget
  · cases h

theorem reconciled_of_validate {tickSpacing : TickSpacing} {positions : Positions}
    {ticks : PoolTicksSnapshot}
    (hspacing : ticks.tickSpacing = tickSpacing)
    (haccounted : forall t info, ticks.inner.get? t = some info ->
      TickAccounted tickSpacing.maxLiquidityPerTick info)
    (h : positions.validateAgainstTicks ticks = .ok ()) :
    Reconciled tickSpacing positions ticks.inner := by
  rw [← hspacing] at haccounted ⊢
  exact reconciled_of_validateInOrder (List.Perm.refl _)
    (fun t info hget => (haccounted t info hget).positive)
    (fun t info hget => (haccounted t info hget).gross) h

/-!
# Completeness of the check
-/

section Complete

variable {tickSpacing : TickSpacing} {expected expected' : SortedMap Int (Nat × Int)}

theorem listSum_nonneg (l : List (PositionIndex × PositionState)) (t : Int) :
    0 ≤ listSum l (touching t) := by
  unfold listSum
  apply List.sum_nonneg
  intro x hx
  rcases List.mem_map.mp hx with ⟨e, _, rfl⟩
  exact mul_nonneg (size_nonneg _) (touching_nonneg t _)

theorem expectTick_complete (expected : SortedMap Int (Nat × Int)) (tick : Int)
    (liquidity : Nat) (delta : Int)
    (hgross : (expectedAt expected tick).1 + liquidity < 2 ^ 127)
    (hnet : ((expectedAt expected tick).2 + delta).natAbs ≤
      (expectedAt expected tick).1 + liquidity) :
    expectTick expected tick liquidity delta =
      .ok (expected.insert tick ((expectedAt expected tick).1 + liquidity,
        (expectedAt expected tick).2 + delta)) := by
  have hadd : checkedAdd 128 (expectedAt expected tick).1 liquidity =
      some ((expectedAt expected tick).1 + liquidity) :=
    checkedAdd_eq_some.mpr ⟨rfl, hgross.trans (by norm_num)⟩
  have hsigned : checkedSigned 128 ((expectedAt expected tick).2 + delta) =
      some ((expectedAt expected tick).2 + delta) := by
    refine checkedSigned_eq_some.mpr ⟨rfl, ?_⟩
    unfold FitsSigned
    norm_num at hgross ⊢
    omega
  unfold expectTick
  show (do
    let gross <- okOr Error.liquidityOverflow
      (checkedAdd 128 (expectedAt expected tick).1 liquidity)
    let net <- okOr Error.liquidityOverflow
      (checkedSigned 128 ((expectedAt expected tick).2 + delta))
    Except.ok (expected.insert tick (gross, net))) = _
  rw [hadd, okOr_some, ok_bind, hsigned, okOr_some, ok_bind]

theorem expectPosition_complete {i : PositionIndex} {p : PositionState}
    (htraps : ¬ i.Traps tickSpacing) (hi : Ranged tickSpacing i)
    (hnet : forall t, (expectedAt expected t).2.natAbs ≤ (expectedAt expected t).1)
    (hbound : forall t, ((expectedAt expected t).1 : Int) + p.liquidity * touching t i < 2 ^ 127) :
    exists expected', expectPosition tickSpacing expected i p = .ok expected' := by
  have hsafe := not_or.mp htraps
  unfold expectPosition
  rw [if_neg (not_le.mpr hi.ordered), forSpacingOrPanic_of_not hsafe.1, Outcome.ok_bind,
    forSpacing_iff.mpr hi.lower, Bool.not_true, if_neg (by decide),
    forSpacingOrPanic_of_not hsafe.2, Outcome.ok_bind, forSpacing_iff.mpr hi.upper, Bool.not_true,
    if_neg (by decide)]
  by_cases hzero : p.liquidity = 0
  · rw [if_pos hzero]
    exact ⟨expected, rfl⟩
  · rw [if_neg hzero]
    have hne : i.tickLower ≠ i.tickUpper := ne_of_lt hi.ordered
    have hlower := hbound i.tickLower
    have hupper := hbound i.tickUpper
    unfold touching at hlower hupper
    rw [if_pos rfl, if_neg (fun h => hne h.symm), add_zero, mul_one] at hlower
    rw [if_neg hne, if_pos rfl, zero_add, mul_one] at hupper
    have hnetLower := hnet i.tickLower
    have hnetUpper := hnet i.tickUpper
    have hfits : checkedSigned 128 (p.liquidity : Int) = some (p.liquidity : Int) := by
      refine checkedSigned_eq_some.mpr ⟨rfl, ?_⟩
      unfold FitsSigned
      norm_num at hlower ⊢
      omega
    have hfirst := expectTick_complete expected i.tickLower p.liquidity p.liquidity
      (by omega) (by omega)
    have hother := expectedAt_insert_ne expected hne.symm
      ((expectedAt expected i.tickLower).1 + p.liquidity,
        (expectedAt expected i.tickLower).2 + (p.liquidity : Int))
    rw [hfits, okOr_some, ok_bind, hfirst, ok_bind,
      expectTick_complete _ _ _ _ (by rw [hother]; omega) (by rw [hother]; omega)]
    exact ⟨_, rfl⟩

theorem expectAll_complete (expected : SortedMap Int (Nat × Int))
    {l : List (PositionIndex × PositionState)}
    (htraps : forall e, e ∈ l -> ¬ e.1.Traps tickSpacing)
    (hl : forall e, e ∈ l -> Ranged tickSpacing e.1)
    (hnet : forall t, (expectedAt expected t).2.natAbs ≤ (expectedAt expected t).1)
    (hbound : forall t, ((expectedAt expected t).1 : Int) + listSum l (touching t) < 2 ^ 127) :
    exists expected', expectAll tickSpacing l expected = .ok expected' := by
  induction l generalizing expected with
  | nil =>
      exact ⟨expected, rfl⟩
  | cons e rest ih =>
      obtain ⟨i, p⟩ := e
      have hstep (t : Int) : ((expectedAt expected t).1 : Int) + p.liquidity * touching t i <
          2 ^ 127 := by
        have h := hbound t
        have hrest := listSum_nonneg rest t
        rw [listSum_cons] at h
        unfold size at h
        dsimp only at h
        omega
      rcases expectPosition_complete (htraps _ List.mem_cons_self) (hl _ List.mem_cons_self) hnet
        hstep with ⟨middle, hmiddle⟩
      have hadds := (expectPosition_sound hmiddle).2
      have hone (weight : PositionIndex -> Int) :
          listSum [(i, p)] weight = p.liquidity * weight i := by
        rw [listSum_cons]
        exact add_zero _
      unfold expectAll
      rw [hmiddle, Outcome.ok_bind]
      apply ih middle (fun e he => htraps e (List.mem_cons_of_mem _ he))
        (fun e he => hl e (List.mem_cons_of_mem _ he))
      · intro t
        have hg := hadds.gross t
        have hn := hadds.net t
        have hold := hnet t
        rw [hone] at hg hn
        have hp : 0 ≤ (p.liquidity : Int) := Int.natCast_nonneg _
        have hle := mul_le_mul_of_nonneg_left (entering_le t i).1 hp
        have hge := mul_le_mul_of_nonneg_left (entering_le t i).2 hp
        rw [mul_neg] at hge
        omega
      · intro t
        have hg := hadds.gross t
        have h := hbound t
        rw [hone] at hg
        rw [listSum_cons] at h
        unfold size at h
        dsimp only at h
        omega

theorem eq_of_expectedAt (hpos : forall t e, expected.get? t = some e -> 0 < e.1)
    (hpos' : forall t e, expected'.get? t = some e -> 0 < e.1)
    (h : forall t, expectedAt expected t = expectedAt expected' t) : expected = expected' := by
  apply SortedMap.ext
  intro t
  have ht := h t
  unfold expectedAt at ht
  cases he : expected.get? t with
  | none =>
      cases he' : expected'.get? t with
      | none => rfl
      | some e' =>
          rw [he, he'] at ht
          have := hpos' t e' he'
          rw [show e' = (0, 0) from ht.symm] at this
          exact absurd this (lt_irrefl 0)
  | some e =>
      cases he' : expected'.get? t with
      | none =>
          rw [he, he'] at ht
          have := hpos t e he
          rw [show e = (0, 0) from ht] at this
          exact absurd this (lt_irrefl 0)
      | some e' =>
          rw [he, he'] at ht
          exact congrArg some ht

theorem validateInOrder_of_reconciled {positions : Positions} {ticks : PoolTicksSnapshot}
    {l : List (PositionIndex × PositionState)} (hl : l.Perm positions.map.entries)
    (hmax : ticks.tickSpacing.maxLiquidityPerTick < 2 ^ 127)
    (htraps : forall e, e ∈ l -> ¬ e.1.Traps ticks.tickSpacing)
    (h : Reconciled ticks.tickSpacing positions ticks.inner) :
    validateInOrder l ticks = .ok () := by
  have hranged (e : PositionIndex × PositionState) (he : e ∈ l) :
      Ranged ticks.tickSpacing e.1 := by
    have hget := SortedMap.mem_entries_iff.mp (hl.mem_iff.mp he)
    have hal := h.aligned e.1 e.2 hget
    exact ⟨h.ordered e.1 e.2 hget, hal.1, hal.2⟩
  have hempty (t : Int) : expectedAt SortedMap.empty t = (0, 0) := rfl
  have hsum (t : Int) : listSum l (touching t) = (tickAt ticks.inner t).liquidityGross :=
    (listSum_perm hl _).trans (h.gross t).symm
  have hdiff (t : Int) : listSum l (entering t) = (tickAt ticks.inner t).liquidityNet :=
    (listSum_perm hl _).trans (h.net t).symm
  rcases expectAll_complete SortedMap.empty htraps hranged
    (fun t => by rw [hempty]; exact le_refl 0)
    (fun t => by
      have hcap := h.cap t
      rw [hempty, hsum]
      dsimp only
      omega) with ⟨expected, hexpected⟩
  have hadds := (expectAll_sound hexpected).2
  have heq : expected = accounting ticks.inner := by
    apply eq_of_expectedAt
    · apply hadds.positive
      intro t e he
      cases he
    · intro t e he
      unfold accounting at he
      rw [SortedMap.get?_mapValues] at he
      rcases Option.map_eq_some_iff.mp he with ⟨info, hget, rfl⟩
      exact h.positive t info hget
    · intro t
      have hg := hadds.gross t
      have hn := hadds.net t
      rw [hempty, hsum] at hg
      rw [hempty, hdiff] at hn
      dsimp only at hg hn
      rw [expectedAt_accounting]
      apply Prod.ext
      · dsimp only
        omega
      · dsimp only
        omega
  unfold validateInOrder
  rw [hexpected, Outcome.ok_bind]
  dsimp only
  rw [heq]
  exact if_pos rfl

theorem validate_of_reconciled {positions : Positions} {ticks : PoolTicksSnapshot}
    (hs : tickSpacing.IsPositive) (hspacing : ticks.tickSpacing = tickSpacing)
    (h : Reconciled tickSpacing positions ticks.inner) :
    positions.validateAgainstTicks ticks = .ok () := by
  rw [← hspacing] at hs h
  exact validateInOrder_of_reconciled (List.Perm.refl _) (TickSpacing.maxLiquidityPerTick_lt hs)
    (fun _ _ => PositionIndex.not_traps hs _) h

end Complete

end Positions

end RmUniswap
