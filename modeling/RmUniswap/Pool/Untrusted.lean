import RmUniswap.Pool.AnyOrder
import RmUniswap.Pool.Operation
import RmUniswap.Pool.RestorePages

/-!
# Untrusted snapshots

A snapshot that validation accepts may still have a spacing or tick keys that no
constructor would build. Restoring it may panic, or keep keys below the tick range, or
keep a negative spacing. When it does neither is read off the snapshot, for builds with
and without checks for overflow and for every order of the positions.
-/

namespace RmUniswap

open Foundation

variable {A : Type} [LawfulAllocator TickSlabValue A]

/-!
# Panics of the checks
-/

section Panic

variable {tickSpacing : TickSpacing}

theorem forSpacingOrPanic_trap {t : Int} (h : SpacingTraps t tickSpacing) :
    forSpacingOrPanic t tickSpacing = .panic := by
  unfold forSpacingOrPanic
  rw [Outcome.panicIf_of h, Outcome.panic_bind]

theorem validateTicks_ne_panic {max : Nat} {current : Int} {l : List (Int × TickInfoInner)}
    {acc : Int} (htraps : forall e, e ∈ l -> ¬ SpacingTraps e.1 tickSpacing) :
    validateTicks tickSpacing max current l acc ≠ .panic := by
  induction l generalizing acc with
  | nil =>
      intro h
      cases h
  | cons e rest ih =>
      obtain ⟨t, info⟩ := e
      have hrest := fun acc => @ih acc fun e he => htraps e (List.mem_cons_of_mem _ he)
      intro h
      unfold validateTicks at h
      rw [forSpacingOrPanic_of_not (htraps _ List.mem_cons_self), Outcome.ok_bind] at h
      split at h
      · cases h
      · split at h
        · cases h
        · split at h
          · cases h
          · split at h
            · rcases Outcome.bind_eq_panic.mp h with h | ⟨_, _, h⟩
              · exact Outcome.ofExcept_ne_panic _ h
              · exact hrest _ h
            · exact hrest _ h

theorem Positions.expectPosition_panic_iff {expected : SortedMap Int (Nat × Int)}
    {i : PositionIndex} {position : PositionState} :
    Positions.expectPosition tickSpacing expected i position = .panic ↔
      i.tickLower < i.tickUpper ∧ (SpacingTraps i.tickLower tickSpacing ∨
        (tickSpacing.value ∣ i.tickLower ∧ SpacingTraps i.tickUpper tickSpacing)) := by
  unfold Positions.expectPosition
  by_cases hordered : i.tickLower < i.tickUpper
  · rw [if_neg (not_le.mpr hordered), and_iff_right hordered]
    by_cases hlower : SpacingTraps i.tickLower tickSpacing
    · rw [forSpacingOrPanic_trap hlower, Outcome.panic_bind]
      exact iff_of_true rfl (Or.inl hlower)
    · rw [forSpacingOrPanic_of_not hlower, Outcome.ok_bind, or_iff_right hlower]
      by_cases haligned : tickSpacing.value ∣ i.tickLower
      · rw [forSpacing_iff.mpr haligned, Bool.not_true, if_neg (by decide),
          and_iff_right haligned]
        by_cases hupper : SpacingTraps i.tickUpper tickSpacing
        · rw [forSpacingOrPanic_trap hupper, Outcome.panic_bind]
          exact iff_of_true rfl hupper
        · rw [forSpacingOrPanic_of_not hupper, Outcome.ok_bind]
          refine iff_of_false ?_ hupper
          intro h
          split at h
          · cases h
          · split at h
            · cases h
            · exact Outcome.ofExcept_ne_panic _ h
      · have hfalse : forSpacing i.tickLower tickSpacing = false :=
          Bool.eq_false_iff.mpr fun htrue => haligned (forSpacing_iff.mp htrue)
        rw [hfalse, Bool.not_false, if_pos rfl]
        exact iff_of_false (fun h => by cases h) (fun h => haligned h.1)
  · rw [if_pos (not_lt.mp hordered)]
    exact iff_of_false (fun h => by cases h) (fun h => hordered h.1)

theorem Positions.expectAll_ne_panic {l : List (PositionIndex × PositionState)}
    {expected : SortedMap Int (Nat × Int)}
    (h : forall e, e ∈ l -> forall expected,
      Positions.expectPosition tickSpacing expected e.1 e.2 ≠ .panic) :
    Positions.expectAll tickSpacing l expected ≠ .panic := by
  induction l generalizing expected with
  | nil =>
      intro hpanic
      cases hpanic
  | cons e rest ih =>
      obtain ⟨i, position⟩ := e
      intro hpanic
      unfold Positions.expectAll at hpanic
      rcases Outcome.bind_eq_panic.mp hpanic with hpanic | ⟨_, _, hpanic⟩
      · exact h _ List.mem_cons_self _ hpanic
      · exact ih (fun e he => h e (List.mem_cons_of_mem _ he)) hpanic

theorem Positions.validateInOrder_panic_iff {l : List (PositionIndex × PositionState)}
    {ticks : PoolTicksSnapshot} :
    Positions.validateInOrder l ticks = .panic ↔
      Positions.expectAll ticks.tickSpacing l SortedMap.empty = .panic := by
  unfold Positions.validateInOrder
  rw [Outcome.bind_eq_panic]
  constructor
  · rintro (h | ⟨_, _, h⟩)
    · exact h
    · dsimp only at h
      split at h <;> cases h
  · exact Or.inl

end Panic

/-!
# Restoring pages
-/

/-- The spacing and every stored key and price are what constructors build. -/
structure SlabPages.Constructible {A : Type} [Allocator TickSlabValue A]
    (pages : SlabPages A) : Prop where
  spacing : 1 ≤ pages.tickSpacing.value
  stored : forall i info, i < 2 ^ 21 -> pages.get i = some info ->
    TickInRange info.tickIndex ∧ pages.tickSpacing.value ∣ info.tickIndex ∧
      IsValidSqrtPrice info.sqrtPriceX96

/-- The ticks of every position are words. -/
def Positions.Decoded (positions : Positions) : Prop :=
  forall i position, positions.map.get? i = some position ->
    FitsSigned 32 i.tickLower ∧ FitsSigned 32 i.tickUpper

namespace PoolSnapshot

variable {P : Type}

/-- Restoring in either build, around a check of the positions: the pages of the ticks and
the fees; a restored pool takes the rest from the snapshot. -/
def restore (A : Type) [Allocator TickSlabValue A] (overflowChecks : Bool)
    (validatePositions : Outcome Error Unit) (s : PoolSnapshot P) :
    Outcome Error (SlabPages A × SwapFee) := do
  s.validateWith validatePositions
  let pages <- SlabPages.fromSnapshot overflowChecks s.ticks.tickSpacing s.ticks.inner
  let swapFee <- Outcome.ofExcept (SwapFee.fromLpFee s.fee s.protocolFee)
  .ok (pages, swapFee)

theorem restore_eq_fromSnapshot [PositionsAccess P] (s : PoolSnapshot P) :
    s.restore A true (PositionsAccess.validateAgainstTicks s.positions s.ticks) =
      Pool.fromSnapshot s >>= fun p : Pool P A => .ok (p.ticks.pages, p.swapFee) := by
  unfold restore Pool.fromSnapshot PoolSnapshot.validate
  cases s.validateWith (PositionsAccess.validateAgainstTicks s.positions s.ticks) with
  | err e => rfl
  | panic => rfl
  | ok u =>
      rw [Outcome.ok_bind, Outcome.ok_bind, SlabPages.fromSnapshot_checked]
      cases (TickSlab.fromSnapshot s.ticks.tickSpacing s.ticks.inner :
          Outcome Error (TickSlab A)) with
      | err e => rfl
      | panic => rfl
      | ok slab =>
          rw [Outcome.ok_bind, Outcome.ok_bind, Outcome.ok_bind]
          cases SwapFee.fromLpFee s.fee s.protocolFee <;> rfl

/-- Restoring does not panic, and what it restores is what constructors build. -/
def Safe (A : Type) [Allocator TickSlabValue A] (overflowChecks : Bool)
    (validatePositions : Outcome Error Unit) (s : PoolSnapshot P) : Prop :=
  s.restore A overflowChecks validatePositions ≠ .panic ∧
    forall pages swapFee, s.restore A overflowChecks validatePositions = .ok (pages, swapFee) ->
      pages.tickSpacing = s.tickSpacing ∧ pages.Constructible

/-!
# What a snapshot says
-/

/-- What the deserializers check: a fee is no placeholder, and keys are words. -/
structure Decoded (s : PoolSnapshot P) : Prop where
  fee : forall fee, s.fee = some fee -> fee.isValid = true
  keys : forall t info, s.ticks.inner.get? t = some info -> FitsSigned 32 t

structure HeaderValid (s : PoolSnapshot P) : Prop where
  spacing : s.ticks.tickSpacing = s.tickSpacing
  protocolFee : s.protocolFee.isValid = true
  tick : getTickAtSqrtPrice s.state.sqrtPriceX96 = s.state.tick

/-- The ticks are aligned and within their cap, and they sum to the active liquidity. -/
structure TicksValid (s : PoolSnapshot P) : Prop where
  aligned : forall t info, s.ticks.inner.get? t = some info -> s.tickSpacing.value ∣ t
  accounted : forall t info, s.ticks.inner.get? t = some info ->
    TickAccounted s.tickSpacing.maxLiquidityPerTick info
  sums : forall t info, s.ticks.inner.get? t = some info -> t ≤ s.state.tick ->
    FitsSigned 128 (netBelow s.ticks.inner t)
  active : (s.state.liquidity : Int) = netBelow s.ticks.inner s.state.tick

/-- The smallest word has no remainder by minus one. -/
def TicksTrap (s : PoolSnapshot P) : Prop :=
  s.tickSpacing.value = -1 ∧ exists info, s.ticks.inner.get? (-2 ^ 31) = some info

def PositionsTrap (s : PoolSnapshot Positions) : Prop :=
  s.tickSpacing.value = -1 ∧ exists i position, s.positions.map.get? i = some position ∧
    i.tickLower = -2 ^ 31 ∧ i.tickLower < i.tickUpper

/-- A positive spacing and keys of the tick range. -/
def KeysInRange (s : PoolSnapshot P) : Prop :=
  1 ≤ s.tickSpacing.value ∧ forall t info, s.ticks.inner.get? t = some info -> TickInRange t

/-- Without checks for overflow, a tick is out of the pages of a negative spacing, and every
tick up to it has a price. -/
def OffPages (overflowChecks : Bool) (s : PoolSnapshot P) : Prop :=
  overflowChecks = false ∧ s.tickSpacing.value < 0 ∧
    exists t info, s.ticks.inner.get? t = some info ∧ OutOfPages s.tickSpacing t ∧
      forall u info, s.ticks.inner.get? u = some info -> u ≤ t -> -2 ^ 20 < u ∧ u ≤ maxTick

section Validate

variable {s : PoolSnapshot P} {validatePositions : Outcome Error Unit}

theorem validateWith_of_header (h : ¬ s.HeaderValid) (validatePositions : Outcome Error Unit) :
    exists e, s.validateWith validatePositions = .err e := by
  unfold validateWith
  split
  · exact ⟨_, rfl⟩
  · rename_i hspacing
    split
    · exact ⟨_, rfl⟩
    · rename_i hfee
      split
      · exact ⟨_, rfl⟩
      · rename_i htick
        exact absurd ⟨not_not.mp hspacing, by simpa using hfee, not_not.mp htick⟩ h

theorem validateWith_header (h : s.HeaderValid) (validatePositions : Outcome Error Unit) :
    s.validateWith validatePositions = (do
      Outcome.panicIf (s.tickSpacing.value = 0)
      let activeLiquidity <- validateTicks s.tickSpacing s.tickSpacing.maxLiquidityPerTick
        s.state.tick s.ticks.inner.entries 0
      if activeLiquidity < 0 ∨ activeLiquidity.natAbs ≠ s.state.liquidity then
        .err .invalidTick
      else
        validatePositions) := by
  unfold validateWith
  rw [if_neg (not_not.mpr h.spacing), h.protocolFee, Bool.not_true, if_neg (by decide),
    if_neg (not_not.mpr h.tick)]

theorem validateWith_trap (hdecoded : s.Decoded) (h : s.HeaderValid) (htrap : s.TicksTrap) :
    s.validateWith validatePositions = .panic := by
  rcases htrap with ⟨hvalue, info, hget⟩
  have hmem := SortedMap.mem_entries_iff.mpr hget
  have hkeys (e : Int × TickInfoInner) (he : e ∈ s.ticks.inner.entries) : -2 ^ 31 ≤ e.1 :=
    (hdecoded.keys e.1 e.2 (SortedMap.mem_entries_iff.mp he)).1
  have hsorted := s.ticks.inner.sorted
  rw [validateWith_header h, Outcome.panicIf_of_not (by omega), Outcome.ok_bind]
  generalize s.ticks.inner.entries = l at hmem hkeys hsorted
  cases l with
  | nil =>
      cases hmem
  | cons e rest =>
      obtain ⟨t, first⟩ := e
      have hfirst : t = -2 ^ 31 := by
        rcases List.mem_cons.mp hmem with heq | hmem
        · exact (congrArg Prod.fst heq).symm
        · have hlt := (List.pairwise_cons.mp hsorted).1 _ hmem
          exact absurd (hkeys _ List.mem_cons_self) (not_le.mpr hlt)
      unfold validateTicks
      rw [forSpacingOrPanic_trap (Or.inr ⟨hfirst, hvalue⟩)]
      rfl

/-- Past its header a snapshot is rejected for its ticks, or left to the check of the
positions. -/
theorem validateWith_cases (h : s.HeaderValid) (hzero : s.tickSpacing.value ≠ 0)
    (htrap : ¬ s.TicksTrap) (validatePositions : Outcome Error Unit) :
    (s.TicksValid ∧ s.validateWith validatePositions = validatePositions) ∨
      (¬ s.TicksValid ∧ exists e, s.validateWith validatePositions = .err e) := by
  have htraps (e : Int × TickInfoInner) (he : e ∈ s.ticks.inner.entries) :
      ¬ SpacingTraps e.1 s.tickSpacing := by
    rintro (hvalue | ⟨hkey, hvalue⟩)
    · exact hzero hvalue
    · refine htrap ⟨hvalue, e.2, ?_⟩
      rw [← hkey]
      exact SortedMap.mem_entries_iff.mp he
  rw [validateWith_header h, Outcome.panicIf_of_not hzero, Outcome.ok_bind]
  have hcomplete (hvalid : s.TicksValid) :
      validateTicks s.tickSpacing s.tickSpacing.maxLiquidityPerTick s.state.tick
        s.ticks.inner.entries 0 = .ok (netBelow s.ticks.inner s.state.tick) := by
    rw [validateTicks_complete htraps s.ticks.inner.sorted
      (ticksValid_iff.mpr ⟨hvalid.aligned, hvalid.accounted, hvalid.sums⟩), zero_add,
      netUpTo_entries]
  cases hresult : validateTicks s.tickSpacing s.tickSpacing.maxLiquidityPerTick s.state.tick
      s.ticks.inner.entries 0 with
  | panic =>
      exact absurd hresult (validateTicks_ne_panic htraps)
  | err e =>
      refine Or.inr ⟨fun hvalid => ?_, e, rfl⟩
      rw [hcomplete hvalid] at hresult
      cases hresult
  | ok active =>
      have hsound := validateTicks_sound s.ticks.inner.sorted hresult
      have hvalid := ticksValid_iff.mp hsound.1
      have hactive := hsound.2
      rw [zero_add, netUpTo_entries] at hactive
      rw [Outcome.ok_bind]
      split
      · rename_i hbad
        refine Or.inr ⟨fun hall => ?_, _, rfl⟩
        have := hall.active
        omega
      · rename_i hgood
        exact Or.inl ⟨⟨hvalid.1, hvalid.2.1, hvalid.2.2, by omega⟩, rfl⟩

end Validate

end PoolSnapshot

theorem TickSlab.Holds.constructible_iff {slab : TickSlab A} {tickSpacing : TickSpacing}
    {ticks : SortedMap Int TickInfoInner} (h : slab.Holds tickSpacing ticks) :
    slab.pages.Constructible ↔ forall t info, ticks.get? t = some info -> TickInRange t := by
  constructor
  · intro hpages t info hget
    have hentry := h.keyed.get_entry (h.snapshot.symm ▸ hget)
    have hst := h.keyed.storable (h.snapshot.symm ▸ hget)
    exact (hpages.stored _ _ hst.indexer_lt hentry).1
  · intro hkeys
    refine ⟨slab.positive, fun i info hi hget => ?_⟩
    have hkeyed := h.keyed i info hi hget
    have hread := h.keyed.get_indexer hkeyed.1
    rw [← hkeyed.2.1, h.snapshot] at hread
    rcases Option.map_eq_some_iff.mp (hread.symm.trans hget) with ⟨inner, hinner, _⟩
    have hrange := hkeys _ _ hinner
    rw [hkeyed.2.2]
    exact ⟨hrange, hkeyed.1.aligned, price_valid hrange⟩

namespace PoolSnapshot

/-!
# Snapshots that validation accepts
-/

section Accepted

variable {P : Type} {s : PoolSnapshot P} {overflowChecks : Bool}

theorem restore_of_valid (overflowChecks : Bool) (hdecoded : s.Decoded) (h : s.HeaderValid)
    (hok : s.validateWith (.ok ()) = .ok ()) :
    exists swapFee, s.restore A overflowChecks (.ok ()) =
      SlabPages.fromSnapshot overflowChecks s.tickSpacing s.ticks.inner >>= fun pages =>
        .ok (pages, swapFee) := by
  rcases SwapFee.fromLpFee_total h.protocolFee hdecoded.fee with ⟨swapFee, hfee⟩
  refine ⟨swapFee, ?_⟩
  unfold restore
  rw [hok, Outcome.ok_bind, h.spacing, hfee]
  rfl

theorem safe_of_positive (hdecoded : s.Decoded) (h : s.HeaderValid) (hvalid : s.TicksValid)
    (hok : s.validateWith (.ok ()) = .ok ()) (hs : s.tickSpacing.IsPositive) :
    s.Safe A overflowChecks (.ok ()) ↔
      forall t info, s.ticks.inner.get? t = some info -> TickInRange t := by
  rcases restore_of_valid (A := A) overflowChecks hdecoded h hok with ⟨swapFee, hrestore⟩
  rw [SlabPages.fromSnapshot_of_positive overflowChecks hs] at hrestore
  unfold Safe
  by_cases hwidth : forall t info, s.ticks.inner.get? t = some info ->
      -2 ^ 20 < t ∧ t ≤ maxTick
  · rcases fromSnapshot_ticks (A := A) hs hvalid.accounted (fun t info hget =>
      ⟨hvalid.aligned t info hget, (hwidth t info hget).1, (hwidth t info hget).2⟩) with
      ⟨slab, hslab, hholds⟩
    rw [hslab, Outcome.ok_bind, Outcome.ok_bind] at hrestore
    rw [hrestore, ← hholds.constructible_iff]
    constructor
    · intro hsafe
      exact (hsafe.2 _ _ rfl).2
    · intro hpages
      refine ⟨by simp, fun pages swapFee heq => ?_⟩
      cases heq
      exact ⟨hholds.spacing, hpages⟩
  · have hpanic := fromSnapshot_ticks_panic (A := A) hvalid.accounted hvalid.aligned
      (fun hall => hwidth hall.2)
    rw [hpanic, Outcome.panic_bind, Outcome.panic_bind] at hrestore
    refine iff_of_false (fun hsafe => hsafe.1 hrestore) fun hkeys => hwidth fun t info hget => ?_
    have hrange := hkeys t info hget
    exact ⟨lt_of_lt_of_le (by decide) hrange.1, hrange.2⟩

theorem safe_of_negative (hdecoded : s.Decoded) (h : s.HeaderValid) (hvalid : s.TicksValid)
    (hok : s.validateWith (.ok ()) = .ok ()) (hs : s.tickSpacing.value < 0) :
    s.Safe A overflowChecks (.ok ()) ↔ s.OffPages overflowChecks := by
  rcases restore_of_valid (A := A) overflowChecks hdecoded h hok with ⟨swapFee, hrestore⟩
  unfold SlabPages.fromSnapshot at hrestore
  unfold Safe OffPages
  cases overflowChecks with
  | true =>
      rw [Outcome.panicIf_of (Or.inr ⟨rfl, hs⟩), Outcome.panic_bind, Outcome.panic_bind] at hrestore
      exact iff_of_false (fun hsafe => hsafe.1 hrestore) (fun hoff => by cases hoff.1)
  | false =>
      have hchecked : ¬ (s.tickSpacing.value = 0 ∨ (false = true ∧ s.tickSpacing.value < 0)) := by
        simp only [Bool.false_eq_true, false_and, or_false]
        exact ne_of_lt hs
      rw [Outcome.panicIf_of_not hchecked, Outcome.ok_bind] at hrestore
      have hrefused := @restoreTicks_err_iff A _ s.tickSpacing
        (SlabPages.newWrapping s.tickSpacing) hs s.ticks.inner.entries s.ticks.inner.sorted
        (fun e he => hvalid.aligned e.1 e.2 (SortedMap.mem_entries_iff.mp he))
        (fun e he => hvalid.accounted e.1 e.2 (SortedMap.mem_entries_iff.mp he)) rfl
      have hentries : (exists e, e ∈ s.ticks.inner.entries ∧ OutOfPages s.tickSpacing e.1 ∧
          forall e', e' ∈ s.ticks.inner.entries -> e'.1 ≤ e.1 ->
            -2 ^ 20 < e'.1 ∧ e'.1 ≤ maxTick) ↔
          exists t info, s.ticks.inner.get? t = some info ∧ OutOfPages s.tickSpacing t ∧
            forall u info, s.ticks.inner.get? u = some info -> u ≤ t ->
              -2 ^ 20 < u ∧ u ≤ maxTick := by
        simp only [Prod.exists, Prod.forall, SortedMap.mem_entries_iff]
      rw [hentries] at hrefused
      rw [and_iff_right rfl, and_iff_right hs, ← hrefused]
      cases hpages : SlabPages.restoreTicks s.tickSpacing s.ticks.inner.entries
          (SlabPages.newWrapping (A := A) s.tickSpacing) with
      | err e =>
          rw [hpages, Outcome.err_bind] at hrestore
          rw [hrestore]
          exact iff_of_true ⟨by simp, fun _ _ heq => by cases heq⟩ ⟨e, rfl⟩
      | panic =>
          rw [hpages, Outcome.panic_bind] at hrestore
          exact iff_of_false (fun hsafe => hsafe.1 hrestore) (fun ⟨_, heq⟩ => by cases heq)
      | ok pages =>
          rw [hpages, Outcome.ok_bind] at hrestore
          refine iff_of_false (fun hsafe => ?_) (fun ⟨_, heq⟩ => by cases heq)
          have hkept := hsafe.2 pages swapFee hrestore
          have hone := hkept.2.spacing
          rw [hkept.1] at hone
          omega

end Accepted

section Safe

variable {P : Type} {s : PoolSnapshot P} {overflowChecks : Bool}
  {validatePositions : Outcome Error Unit}

theorem safe_of_err {e : Error} (h : s.validateWith validatePositions = .err e) :
    s.Safe A overflowChecks validatePositions := by
  have hrestore : s.restore A overflowChecks validatePositions = .err e := by
    unfold restore
    rw [h, Outcome.err_bind]
  unfold Safe
  rw [hrestore]
  exact ⟨by simp, fun _ _ heq => by cases heq⟩

theorem not_safe_of_panic (h : s.validateWith validatePositions = .panic) :
    ¬ s.Safe A overflowChecks validatePositions := by
  intro hsafe
  apply hsafe.1
  unfold restore
  rw [h, Outcome.panic_bind]

theorem safe_iff (hdecoded : s.Decoded) :
    s.Safe A overflowChecks validatePositions ↔
      (s.HeaderValid -> s.tickSpacing.value ≠ 0 ∧ ¬ s.TicksTrap ∧
        (s.TicksValid -> validatePositions ≠ .panic ∧
          (validatePositions = .ok () -> s.KeysInRange ∨ s.OffPages overflowChecks))) := by
  by_cases hheader : s.HeaderValid
  · rw [forall_prop_of_true hheader]
    by_cases hzero : s.tickSpacing.value = 0
    · refine iff_of_false (not_safe_of_panic ?_) (fun h => h.1 hzero)
      rw [validateWith_header hheader, Outcome.panicIf_of hzero, Outcome.panic_bind]
    · rw [and_iff_right hzero]
      by_cases htrap : s.TicksTrap
      · exact iff_of_false (not_safe_of_panic (validateWith_trap hdecoded hheader htrap))
          (fun h => h.1 htrap)
      · rw [and_iff_right htrap]
        rcases validateWith_cases hheader hzero htrap validatePositions with
          ⟨hvalid, heq⟩ | ⟨hinvalid, e, he⟩
        · rw [forall_prop_of_true hvalid]
          cases hpositions : validatePositions with
          | panic =>
              rw [hpositions] at heq
              exact iff_of_false (not_safe_of_panic heq) (fun h => h.1 rfl)
          | err e =>
              rw [hpositions] at heq
              exact iff_of_true (safe_of_err heq) ⟨by simp, fun h => by cases h⟩
          | ok u =>
              rw [hpositions] at heq
              rw [and_iff_right (by simp), forall_prop_of_true rfl]
              unfold KeysInRange
              rcases lt_or_gt_of_ne hzero with hneg | hpos
              · rw [safe_of_negative hdecoded hheader hvalid heq hneg,
                  or_iff_right (fun h => absurd h.1 (by omega))]
              · have hone : 1 ≤ s.tickSpacing.value := hpos
                rw [safe_of_positive hdecoded hheader hvalid heq hone,
                  or_iff_left (fun h => absurd h.2.1 (by omega)), and_iff_right hone]
        · exact iff_of_true (safe_of_err he) (fun h => absurd h hinvalid)
  · rcases validateWith_of_header hheader validatePositions with ⟨e, he⟩
    exact iff_of_true (safe_of_err he) (fun h => absurd h hheader)

end Safe

/-!
# Every order of the positions
-/

section Orders

variable {s : PoolSnapshot Positions}

theorem spacingTraps_iff {tickSpacing : TickSpacing} (hzero : tickSpacing.value ≠ 0) (t : Int) :
    SpacingTraps t tickSpacing ↔ t = -2 ^ 31 ∧ tickSpacing.value = -1 :=
  or_iff_right hzero

theorem orders_panic_iff (hdecoded : s.positions.Decoded) (h : s.HeaderValid)
    (hzero : s.tickSpacing.value ≠ 0) :
    (exists l, l.Perm s.positions.map.entries ∧
      Positions.validateInOrder l s.ticks = .panic) ↔ s.PositionsTrap := by
  have hpanics (i : PositionIndex) (position : PositionState)
      (hget : s.positions.map.get? i = some position) (expected : SortedMap Int (Nat × Int)) :
      Positions.expectPosition s.tickSpacing expected i position = .panic ↔
        s.tickSpacing.value = -1 ∧ i.tickLower = -2 ^ 31 ∧ i.tickLower < i.tickUpper := by
    have hword := (hdecoded i position hget).1
    rw [Positions.expectPosition_panic_iff, spacingTraps_iff hzero, spacingTraps_iff hzero]
    constructor
    · rintro ⟨hlt, ⟨hlower, hvalue⟩ | ⟨_, hupper, _⟩⟩
      · exact ⟨hvalue, hlower, hlt⟩
      · rw [hupper] at hlt
        exact absurd hword.1 (not_le.mpr hlt)
    · rintro ⟨hvalue, hlower, hlt⟩
      exact ⟨hlt, Or.inl ⟨hlower, hvalue⟩⟩
  constructor
  · rintro ⟨l, hl, hpanic⟩
    rw [Positions.validateInOrder_panic_iff, h.spacing] at hpanic
    by_contra hsafe
    refine Positions.expectAll_ne_panic (fun e he expected hposition => hsafe ?_) hpanic
    have hget := SortedMap.mem_entries_iff.mp (hl.mem_iff.mp he)
    have htrap := (hpanics e.1 e.2 hget expected).mp hposition
    exact ⟨htrap.1, e.1, e.2, hget, htrap.2⟩
  · rintro ⟨hvalue, i, position, hget, htrap⟩
    -- The order that starts with this position.
    have hmem := SortedMap.mem_entries_iff.mpr hget
    refine ⟨_, (List.perm_cons_erase hmem).symm, ?_⟩
    rw [Positions.validateInOrder_panic_iff, h.spacing]
    unfold Positions.expectAll
    rw [(hpanics i position hget _).mpr ⟨hvalue, htrap⟩]
    rfl

theorem orders_ok_iff (hdecoded : s.positions.Decoded) (h : s.HeaderValid)
    (hzero : s.tickSpacing.value ≠ 0) (hvalid : s.TicksValid) (htrap : ¬ s.PositionsTrap)
    {l : List (PositionIndex × PositionState)} (hl : l.Perm s.positions.map.entries) :
    Positions.validateInOrder l s.ticks = .ok () ↔ s.positions.Consistent s.ticks := by
  have haccounted := hvalid.accounted
  rw [← h.spacing] at haccounted
  have hpos (t : Int) (info : TickInfoInner) (hget : s.ticks.inner.get? t = some info) :=
    (haccounted t info hget).positive
  have hcap (t : Int) (info : TickInfoInner) (hget : s.ticks.inner.get? t = some info) :=
    (haccounted t info hget).gross
  have hmax : s.tickSpacing.maxLiquidityPerTick < 2 ^ 127 := by
    rcases lt_or_gt_of_ne hzero with hneg | hpositive
    · rw [TickSpacing.maxLiquidityPerTick_of_neg hneg]
      norm_num
    · exact TickSpacing.maxLiquidityPerTick_lt hpositive
  constructor
  · intro hok
    exact Positions.Consistent.of_reconciled
      (Positions.reconciled_of_validateInOrder hl hpos hcap hok)
  · intro hconsistent
    refine Positions.validateInOrder_of_reconciled hl (h.spacing ▸ hmax) ?_
      (hconsistent.reconciled hpos hcap)
    intro e he htraps
    have hget := SortedMap.mem_entries_iff.mp (hl.mem_iff.mp he)
    have hlt := (hconsistent.ranged e.1 e.2 hget).1
    rw [h.spacing] at htraps
    rcases htraps with hlower | hupper
    · rw [spacingTraps_iff hzero] at hlower
      exact htrap ⟨hlower.2, e.1, e.2, hget, hlower.1, hlt⟩
    · rw [spacingTraps_iff hzero] at hupper
      rw [hupper.1] at hlt
      exact absurd (hdecoded e.1 e.2 hget).1.1 (not_le.mpr hlt)

end Orders

end PoolSnapshot

/-- Restoring is safe, in either build and for every order of the positions, exactly for
the snapshots that a check refuses before it panics, for those with a positive spacing and
keys in range, and without checks for overflow for those with a tick off the pages. -/
theorem snapshot_safe_iff (overflowChecks : Bool) {s : PoolSnapshot Unit}
    {t : PoolSnapshot Positions} (hs : s.Decoded) (ht : t.Decoded)
    (hpositions : t.positions.Decoded) :
    (s.Safe A overflowChecks (.ok ()) ↔
      (s.HeaderValid -> s.tickSpacing.value ≠ 0 ∧ ¬ s.TicksTrap ∧
        (s.TicksValid -> s.KeysInRange ∨ s.OffPages overflowChecks))) ∧
    ((forall l, l.Perm t.positions.map.entries ->
        t.Safe A overflowChecks (Positions.validateInOrder l t.ticks)) ↔
      (t.HeaderValid -> t.tickSpacing.value ≠ 0 ∧ ¬ t.TicksTrap ∧
        (t.TicksValid -> ¬ t.PositionsTrap ∧
          (t.positions.Consistent t.ticks -> t.KeysInRange ∨ t.OffPages overflowChecks)))) := by
  constructor
  · rw [PoolSnapshot.safe_iff hs]
    simp only [ne_eq, reduceCtorEq, not_false_eq_true, true_and, true_imp_iff]
  · constructor
    · intro hall hheader
      have horder (l : List (PositionIndex × PositionState))
          (hl : l.Perm t.positions.map.entries) :=
        (PoolSnapshot.safe_iff ht).mp (hall l hl) hheader
      have hfirst := horder _ (List.Perm.refl _)
      refine ⟨hfirst.1, hfirst.2.1, fun hvalid => ?_⟩
      have htrap : ¬ t.PositionsTrap := by
        rw [← PoolSnapshot.orders_panic_iff hpositions hheader hfirst.1]
        rintro ⟨l, hl, hpanic⟩
        exact ((horder l hl).2.2 hvalid).1 hpanic
      refine ⟨htrap, fun hconsistent => ((hfirst.2.2 hvalid).2 ?_)⟩
      exact (PoolSnapshot.orders_ok_iff hpositions hheader hfirst.1 hvalid htrap
        (List.Perm.refl _)).mpr hconsistent
    · intro hcondition l hl
      rw [PoolSnapshot.safe_iff ht]
      intro hheader
      have hrest := hcondition hheader
      refine ⟨hrest.1, hrest.2.1, fun hvalid => ?_⟩
      have hlast := hrest.2.2 hvalid
      constructor
      · intro hpanic
        exact hlast.1 ((PoolSnapshot.orders_panic_iff hpositions hheader hrest.1).mp
          ⟨l, hl, hpanic⟩)
      · intro hok
        exact hlast.2 ((PoolSnapshot.orders_ok_iff hpositions hheader hrest.1 hvalid hlast.1
          hl).mp hok)

namespace Sample

/-- A spacing of zero in both places. -/
def zeroSpacing : PoolSnapshot Unit :=
  { state := empty.state
    fee := some Fee.zero
    protocolFee := { zeroForOneFee := 0, oneForZeroFee := 0 }
    tickSpacing := ⟨0, by decide⟩
    ticks := { tickSpacing := ⟨0, by decide⟩, inner := SortedMap.empty }
    positions := () }

theorem zeroSpacing_decoded : zeroSpacing.Decoded where
  fee := by
    rintro fee ⟨⟩
    rfl
  keys := by
    rintro t info ⟨⟩

theorem zeroSpacing_header : zeroSpacing.HeaderValid :=
  ⟨rfl, rfl, by decide +kernel⟩

theorem funded_keys : forall t info, funded.snapshot.ticks.inner.get? t = some info ->
    TickInRange t ∧ FitsSigned 32 t := by
  have hall : forall e, e ∈ funded.snapshot.ticks.inner.entries ->
      TickInRange e.1 ∧ FitsSigned 32 e.1 := by
    decide +kernel
  intro t info hget
  exact hall (t, info) (SortedMap.mem_entries_iff.mpr hget)

theorem funded_decoded : funded.snapshot.Decoded where
  fee := by
    have hfee : funded.snapshot.fee.all Fee.isValid = true := by
      decide +kernel
    intro fee heq
    rw [heq] at hfee
    exact hfee
  keys := fun t info hget => (funded_keys t info hget).2

theorem funded_positions : funded.snapshot.positions.Decoded := by
  have hall : forall e, e ∈ funded.snapshot.positions.map.entries ->
      FitsSigned 32 e.1.tickLower ∧ FitsSigned 32 e.1.tickUpper := by
    decide +kernel
  intro i position hget
  exact hall (i, position) (SortedMap.mem_entries_iff.mpr hget)

end Sample

/-- A spacing of zero is never safe, the snapshot of a pool always is. -/
theorem snapshot_safe_iff_sample :
    (forall overflowChecks,
        ¬ Sample.zeroSpacing.Safe (Arena TickSlabValue) overflowChecks (.ok ())) ∧
      forall l, l.Perm Sample.funded.snapshot.positions.map.entries ->
        Sample.funded.snapshot.Safe (Arena TickSlabValue) false
          (Positions.validateInOrder l Sample.funded.snapshot.ticks) := by
  constructor
  · intro overflowChecks hsafe
    have hiff := snapshot_safe_iff (A := Arena TickSlabValue) overflowChecks
      Sample.zeroSpacing_decoded Sample.funded_decoded Sample.funded_positions
    exact (hiff.1.mp hsafe Sample.zeroSpacing_header).1 rfl
  · have hiff := snapshot_safe_iff (A := Arena TickSlabValue) false Sample.zeroSpacing_decoded
      Sample.funded_decoded Sample.funded_positions
    have hspacing : Sample.funded.snapshot.tickSpacing.value = 60 := by
      decide +kernel
    refine hiff.2.mpr fun _ => ⟨by omega, fun htrap => ?_, fun _ => ⟨fun htrap => ?_, fun _ => ?_⟩⟩
    · have := htrap.1
      omega
    · have := htrap.1
      omega
    · exact Or.inl ⟨by omega, fun t info hget => (Sample.funded_keys t info hget).1⟩

/-- A spacing of zero in both places divides by zero, in either build. -/
theorem snapshot_unsafe_at_zero_spacing :
    exists s : PoolSnapshot Unit, s.Decoded ∧ s.tickSpacing.value = 0 ∧
      IsValidSqrtPrice s.state.sqrtPriceX96 ∧
      (forall overflowChecks, s.restore (Arena TickSlabValue) overflowChecks (.ok ()) = .panic) ∧
      (Pool.fromSnapshot s : Outcome Error (Pool Unit)) = .panic := by
  have hvalidate : Sample.zeroSpacing.validateWith (.ok ()) = .panic := by
    decide +kernel
  refine ⟨Sample.zeroSpacing, Sample.zeroSpacing_decoded, rfl, by decide, fun overflowChecks => ?_,
    ?_⟩
  · unfold PoolSnapshot.restore
    rw [hvalidate, Outcome.panic_bind]
  · have hsame : Sample.zeroSpacing.validate = Sample.zeroSpacing.validateWith (.ok ()) := rfl
    unfold Pool.fromSnapshot
    rw [hsame, hvalidate, Outcome.panic_bind]

end RmUniswap
