import RmUniswap.Pool.Restore

/-!
# Restoring ticks at any spacing

The deserializer lets spacings through that no constructor returns. A build that checks
for overflow panics on them in the indexer. In another build the widths of the indexer
wrap, and a tick may land on a page that the slab does not have.
-/

namespace RmUniswap

open Foundation

/-!
# The indexer with wrapping widths
-/

/-- The coordinate of a tick in {lit}`u32` arithmetic that wraps; a shift takes its count
modulo the width. -/
def fromTickWrapping (tickIdx : Int) (tickSpacing : TickSpacing) : Nat :=
  let compressed : Int := tickIdx / tickSpacing.value
  let x := (compressed % 2 ^ 32).toNat
  let bits := wrappingSub 32 maxBits (spacingBits tickSpacing.asU32)
  let mask := (2 ^ 32 - 1) >>> (wrappingSub 32 32 bits % 32)
  let sign := 1 <<< (wrappingSub 32 bits 1 % 32)
  (x &&& mask) ^^^ sign

def calculateCacheCapWrapping (s : TickSpacing) : Nat :=
  wrap 16 (cacheIndex (fromTickWrapping maxTick s) + 1)

/-- The page of a tick is not one of a slab with a negative spacing: such a slab orders
its ticks downwards, and its pages end at the one of the last tick. -/
def OutOfPages (s : TickSpacing) (t : Int) : Prop :=
  maxTick / -s.value ≤ 32 ∨
    (0 < t ∧ (t / -s.value + 31) / 32 < (maxTick / -s.value + 31) / 32)

section Wrapping

variable {s : TickSpacing} {t : Int}

theorem fromTickWrapping_of_positive (h : s.IsPositive) (t : Int) :
    fromTickWrapping t s = fromTick t s.asU32 := by
  have hcast := TickSpacing.asU32_eq h
  have hs := TickSpacing.asU32_bounds h
  have hbits := indexBits_bounds hs.1 hs.2
  have hwidth := spacingBits_lt hs.1 hs.2
  have hindex : wrappingSub 32 maxBits (spacingBits s.asU32) = indexBits s.asU32 :=
    wrappingSub_of_le (by rw [maxBits_eq]; omega) (by rw [maxBits_eq]; norm_num)
  have hmask : wrappingSub 32 32 (indexBits s.asU32) % 32 = 32 - indexBits s.asU32 := by
    rw [wrappingSub_of_le (by omega) (by norm_num)]
    omega
  have hsign : wrappingSub 32 (indexBits s.asU32) 1 % 32 = indexBits s.asU32 - 1 := by
    rw [wrappingSub_of_le (by omega) (by norm_num; omega)]
    omega
  unfold fromTickWrapping fromTick
  dsimp only
  rw [hindex, hmask, hsign, hcast]

theorem calculateCacheCapWrapping_of_positive (h : s.IsPositive) :
    calculateCacheCapWrapping s = calculateCacheCap s := by
  have hlt : calculateCacheCap s < 2 ^ 16 := calculateCacheCap_lt h
  unfold calculateCacheCapWrapping
  rw [fromTickWrapping_of_positive h]
  exact wrap_of_lt hlt

theorem fromTickWrapping_of_neg (h : s.value < 0) (hlo : -2 ^ 20 ≤ t) (hhi : t ≤ 2 ^ 20) :
    ((fromTickWrapping t s : Nat) : Int) = t / s.value + 2 ^ 21 := by
  have hwidth : spacingBits s.asU32 = 31 := by
    have hval : 2 ^ 31 ≤ s.asU32 ∧ s.asU32 < 2 ^ 32 := by
      have hmin := s.inRange.1
      unfold TickSpacing.asU32
      norm_num at hmin ⊢
      omega
    have hlog : Nat.log2 s.asU32 = 31 :=
      (Nat.log2_eq_iff (by omega)).mpr hval
    unfold spacingBits bitLen
    rw [if_neg (by omega), hlog]
  have hquotient : -2 ^ 21 ≤ t / s.value ∧ t / s.value < 2 ^ 21 := by
    have hdiv := Int.mul_ediv_add_emod t s.value
    have hmod := Int.emod_nonneg t (ne_of_lt h)
    have hlt := Int.emod_lt_abs t (ne_of_lt h)
    have hmin := s.inRange.1
    rw [abs_of_neg h] at hlt
    norm_num at hlo hhi hmin ⊢
    constructor <;> nlinarith
  have hindex := land_mask_xor_sign (b := 22) (c := t / s.value) (by norm_num) (by norm_num)
    hquotient.1 hquotient.2
  unfold fromTickWrapping
  dsimp only
  rw [hwidth]
  exact hindex

theorem cacheIndex_eq_mod (i : Nat) : cacheIndex i = i / 32 % 2 ^ 16 := by
  unfold cacheIndex
  rw [Nat.shiftRight_eq_div_pow, show (0xFFFF : Nat) = 2 ^ 16 - 1 by norm_num,
    Nat.and_two_pow_sub_one_eq_mod]

/-- A tick that has a price is out of the pages of a slab with a negative spacing exactly
when it is above zero and below the last page, or when the last page is the last of all. -/
theorem outOfPages_iff (h : s.value < 0) (hal : s.value ∣ t) (hlo : -2 ^ 20 < t)
    (hhi : t ≤ maxTick) :
    calculateCacheCapWrapping s ≤ cacheIndex (fromTickWrapping t s) ↔ OutOfPages s t := by
  have hmin := s.inRange.1
  norm_num at hmin
  have hpos : 0 < -s.value := by omega
  have htick := fromTickWrapping_of_neg (t := t) h (le_of_lt hlo) (hhi.trans (by decide))
  have hlast := fromTickWrapping_of_neg (t := maxTick) h (by decide) (by decide)
  have hquotient (u : Int) : u / s.value = -(u / -s.value) := by
    rw [Int.ediv_neg, neg_neg]
  rw [hquotient] at htick hlast
  have hle : t / -s.value ≤ maxTick / -s.value := Int.ediv_le_ediv hpos hhi
  have hsign : 0 < t ↔ 0 < t / -s.value := by
    rcases (neg_dvd.mpr hal : -s.value ∣ t) with ⟨q, hq⟩
    rw [hq, Int.mul_ediv_cancel_left q (ne_of_gt hpos)]
    exact mul_pos_iff_of_pos_left hpos
  have hcount : 27 ≤ maxTick / -s.value ∧ maxTick / -s.value ≤ maxTick := by
    refine ⟨?_, Int.ediv_le_self _ (by decide)⟩
    rw [Int.le_ediv_iff_mul_le hpos]
    unfold maxTick
    omega
  have hbelow : -2 ^ 20 ≤ t / -s.value := by
    rw [Int.le_ediv_iff_mul_le hpos]
    nlinarith
  unfold OutOfPages calculateCacheCapWrapping
  rw [cacheIndex_eq_mod, cacheIndex_eq_mod, hsign]
  unfold wrap
  generalize t / -s.value = m at *
  generalize maxTick / -s.value = last at *
  generalize fromTickWrapping t s = i at *
  generalize fromTickWrapping maxTick s = j at *
  unfold maxTick at hcount
  norm_num at *
  omega

end Wrapping

/-!
# Pages without the invariant of a slab
-/

namespace SlabPages

variable {A : Type} [Allocator TickSlabValue A]

def newWrapping (tickSpacing : TickSpacing) : SlabPages A :=
  let cacheCap := calculateCacheCapWrapping tickSpacing
  { bitmap := HierBitmap.new cacheCap
    cache := SparseVec.replicate cacheCap initialCacheValue
    values := Allocator.empty
    tickSpacing
    maxLiquidityPerTick := tickSpacing.maxLiquidityPerTick }

def restoreTicks (tickSpacing : TickSpacing) :
    List (Int × TickInfoInner) -> SlabPages A -> Outcome Error (SlabPages A)
  | [], pages => .ok pages
  | (tickIdx, info) :: rest, pages => do
      let sqrtPrice <- sqrtPriceOrPanic tickIdx
      let tickInfo := TickInfo.withInner tickIdx sqrtPrice info
      if !forSpacing tickIdx tickSpacing then
        .err .invalidTick
      else if info.liquidityGross = 0 ∨ info.liquidityNet.natAbs > info.liquidityGross then
        .err .invalidTick
      else if info.liquidityGross > pages.maxLiquidityPerTick then
        .err .liquidityOverflow
      else do
        let pages <- Outcome.ofExcept
          (pages.insert (fromTickWrapping tickIdx tickSpacing) tickInfo)
        restoreTicks tickSpacing rest pages

/-- Restoring the ticks of any spacing, in a build that checks for overflow or in one
that does not. -/
def fromSnapshot (overflowChecks : Bool) (tickSpacing : TickSpacing)
    (ticks : SortedMap Int TickInfoInner) : Outcome Error (SlabPages A) := do
  Outcome.panicIf
    (tickSpacing.value = 0 ∨ (overflowChecks = true ∧ tickSpacing.value < 0))
  restoreTicks tickSpacing ticks.entries (newWrapping tickSpacing)

end SlabPages

section Positive

variable {A : Type} [LawfulAllocator TickSlabValue A] {tickSpacing : TickSpacing}

theorem TickSlab.insert_error {slab : TickSlab A} {i : Nat} {info : TickInfo} {e : Error}
    (h : slab.insert i info = .error e) : slab.pages.insert i info = .error e := by
  unfold TickSlab.insert at h
  split at h
  · cases h
  · rename_i heq
    cases h
    exact heq

theorem restoreTicks_pages (l : List (Int × TickInfoInner)) (slab : TickSlab A) :
    SlabPages.restoreTicks slab.tickSpacing l slab.pages =
      TickSlab.restoreTicks slab.tickSpacing l slab >>= fun slab => .ok slab.pages := by
  induction l generalizing slab with
  | nil =>
      rfl
  | cons e rest ih =>
      obtain ⟨t, info⟩ := e
      have hindex : fromTickWrapping t slab.tickSpacing = slab.indexer t :=
        fromTickWrapping_of_positive slab.positive t
      have hcap : slab.pages.maxLiquidityPerTick = slab.maxLiquidityPerTick := rfl
      unfold SlabPages.restoreTicks TickSlab.restoreTicks
      rw [hindex, hcap]
      cases sqrtPriceOrPanic t with
      | err e => rfl
      | panic => rfl
      | ok sqrtPrice =>
          rw [Outcome.ok_bind, Outcome.ok_bind]
          dsimp only
          split
          · rfl
          · split
            · rfl
            · split
              · rfl
              · generalize TickInfo.withInner t sqrtPrice info = tickInfo
                cases hinsert : slab.insert (slab.indexer t) tickInfo with
                | error e =>
                    rw [TickSlab.insert_error hinsert]
                    rfl
                | ok slab' =>
                    have hsame : slab'.tickSpacing = slab.tickSpacing :=
                      (SlabPages.insert_shape (TickSlab.insert_pages hinsert)).tickSpacing
                    rw [TickSlab.insert_pages hinsert, ← hsame]
                    exact ih slab'

theorem SlabPages.newWrapping_of_positive (h : tickSpacing.IsPositive) :
    SlabPages.newWrapping tickSpacing = (TickSlab.new tickSpacing h : TickSlab A).pages := by
  unfold SlabPages.newWrapping
  rw [calculateCacheCapWrapping_of_positive h]
  rfl

theorem SlabPages.fromSnapshot_of_positive (overflowChecks : Bool) (h : tickSpacing.IsPositive)
    (ticks : SortedMap Int TickInfoInner) :
    SlabPages.fromSnapshot overflowChecks tickSpacing ticks =
      TickSlab.fromSnapshot tickSpacing ticks >>= fun slab : TickSlab A => .ok slab.pages := by
  have hpages := restoreTicks_pages ticks.entries (TickSlab.new tickSpacing h : TickSlab A)
  have hone : 1 ≤ tickSpacing.value := h
  unfold SlabPages.fromSnapshot TickSlab.fromSnapshot
  rw [Outcome.panicIf_of_not (by omega), Outcome.ok_bind, dif_pos h,
    SlabPages.newWrapping_of_positive h]
  exact hpages

theorem SlabPages.fromSnapshot_checked (ticks : SortedMap Int TickInfoInner) :
    SlabPages.fromSnapshot true tickSpacing ticks =
      TickSlab.fromSnapshot tickSpacing ticks >>= fun slab : TickSlab A => .ok slab.pages := by
  by_cases h : tickSpacing.IsPositive
  · exact SlabPages.fromSnapshot_of_positive true h ticks
  · unfold SlabPages.fromSnapshot TickSlab.fromSnapshot
    rw [dif_neg h]
    unfold TickSpacing.IsPositive at h
    rw [Outcome.panicIf_of (by simp only [true_and]; omega), Outcome.panic_bind]
    rfl

end Positive

/-!
# A negative spacing without checks
-/

section Negative

variable {A : Type} [Allocator TickSlabValue A] {s : TickSpacing} {pages pages' : SlabPages A}

theorem SlabPages.insert_length {i : Nat} {info : TickInfo} (h : pages.insert i info = .ok pages') :
    pages'.cache.length = pages.cache.length ∧
      pages'.maxLiquidityPerTick = pages.maxLiquidityPerTick := by
  have hmodify (pages : SlabPages A) (c : Nat) (f : TickSlabValue -> TickSlabValue) :
      (pages.modifySlab c f).cache = pages.cache ∧
        (pages.modifySlab c f).maxLiquidityPerTick = pages.maxLiquidityPerTick := by
    unfold SlabPages.modifySlab
    split <;> exact ⟨rfl, rfl⟩
  have hlink (pages : SlabPages A) (c : Option Nat) (f : TickSlabValue -> TickSlabValue) :
      (pages.modifyLink c f).cache = pages.cache ∧
        (pages.modifyLink c f).maxLiquidityPerTick = pages.maxLiquidityPerTick := by
    unfold SlabPages.modifyLink
    split
    · exact hmodify _ _ _
    · exact ⟨rfl, rfl⟩
  unfold SlabPages.insert at h
  dsimp only at h
  split at h
  · cases h
  · cases h
    rw [(hmodify _ _ _).1, (hmodify _ _ _).2]
    split
    · exact ⟨rfl, rfl⟩
    · unfold SlabPages.insertEmptySlab SlabPages.insertSlab
      split
      · exact ⟨congrArg SparseVec.length (hmodify _ _ _).1, (hmodify _ _ _).2⟩
      · dsimp only
        rw [SparseVec.length_set, (hlink _ _ _).1, (hlink _ _ _).1, (hlink _ _ _).2,
          (hlink _ _ _).2]
        exact ⟨rfl, rfl⟩

theorem SlabPages.insert_outside {i : Nat} (info : TickInfo)
    (h : pages.cache.length ≤ cacheIndex i) : pages.insert i info = .error .invalidTick :=
  if_pos h

theorem SlabPages.insert_inside {i : Nat} (info : TickInfo)
    (h : ¬ pages.cache.length ≤ cacheIndex i) : exists pages', pages.insert i info = .ok pages' :=
  ⟨_, if_neg h⟩

/-- Ticks that pass their checks are refused exactly when one of them is out of the pages
and no tick up to it is without a price. -/
theorem restoreTicks_err_iff (h : s.value < 0) {l : List (Int × TickInfoInner)}
    (hsorted : l.Pairwise fun a b => a.1 < b.1)
    (haligned : forall e, e ∈ l -> s.value ∣ e.1)
    (haccounted : forall e, e ∈ l -> TickAccounted pages.maxLiquidityPerTick e.2)
    (hlength : pages.cache.length = calculateCacheCapWrapping s) :
    (exists error, SlabPages.restoreTicks s l pages = .err error) ↔
      exists e, e ∈ l ∧ OutOfPages s e.1 ∧
        forall e', e' ∈ l -> e'.1 ≤ e.1 -> -2 ^ 20 < e'.1 ∧ e'.1 ≤ maxTick := by
  induction l generalizing pages with
  | nil =>
      constructor
      · rintro ⟨_, h⟩
        cases h
      · rintro ⟨_, he, _⟩
        cases he
  | cons e rest ih =>
      obtain ⟨t, info⟩ := e
      have hlt := (List.pairwise_cons.mp hsorted).1
      have hal := haligned _ List.mem_cons_self
      have hinfo := haccounted _ List.mem_cons_self
      have hpos := hinfo.positive
      have hnet := hinfo.net
      dsimp only at hal hpos hnet
      unfold SlabPages.restoreTicks
      by_cases hprice : -2 ^ 20 < t ∧ t ≤ maxTick
      · rw [sqrtPriceOrPanic_ok hprice.1 hprice.2, Outcome.ok_bind]
        dsimp only
        rw [forSpacing_iff.mpr hal, Bool.not_true, if_neg (by decide), if_neg (by omega),
          if_neg (not_lt.mpr hinfo.gross)]
        have hout := outOfPages_iff h hal hprice.1 hprice.2
        rw [← hlength] at hout
        by_cases hpage : OutOfPages s t
        · rw [SlabPages.insert_outside _ (hout.mpr hpage)]
          refine iff_of_true ⟨_, rfl⟩ ⟨_, List.mem_cons_self, hpage, fun e' he' hle => ?_⟩
          rcases List.mem_cons.mp he' with rfl | he'
          · exact hprice
          · exact absurd (hlt e' he') (not_lt.mpr hle)
        · rcases SlabPages.insert_inside (TickInfo.withInner t (getSqrtPriceAtTick t) info)
            (fun hle => hpage (hout.mp hle)) with ⟨pages', hinsert⟩
          have hkept := SlabPages.insert_length hinsert
          rw [hinsert]
          show (exists error, SlabPages.restoreTicks s rest pages' = .err error) ↔ _
          rw [ih (List.pairwise_cons.mp hsorted).2
            (fun e he => haligned e (List.mem_cons_of_mem _ he))
            (fun e he => hkept.2 ▸ haccounted e (List.mem_cons_of_mem _ he))
            (hkept.1.trans hlength)]
          constructor
          · rintro ⟨e, he, houte, hall⟩
            refine ⟨e, List.mem_cons_of_mem _ he, houte, fun e' he' hle => ?_⟩
            rcases List.mem_cons.mp he' with rfl | he'
            · exact hprice
            · exact hall e' he' hle
          · rintro ⟨e, he, houte, hall⟩
            rcases List.mem_cons.mp he with rfl | he
            · exact absurd houte hpage
            · exact ⟨e, he, houte, fun e' he' => hall e' (List.mem_cons_of_mem _ he')⟩
      · -- The first tick has no price, and every other one lies above it.
        rw [sqrtPriceOrPanic_panic hprice, Outcome.panic_bind]
        constructor
        · rintro ⟨_, h⟩
          cases h
        · rintro ⟨e, he, _, hall⟩
          refine absurd (hall _ List.mem_cons_self ?_) hprice
          rcases List.mem_cons.mp he with rfl | he
          · exact le_refl _
          · exact le_of_lt (hlt e he)

end Negative

end RmUniswap
