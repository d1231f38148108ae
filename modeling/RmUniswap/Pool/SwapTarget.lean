import RmUniswap.Math.TickFloor
import RmUniswap.Pool.Accounting

/-!
# Step targets

A step aims at the nearest initialized tick in its direction, or at the end of
the word when that comes first. No initialized tick lies before the target.
-/

namespace RmUniswap

open Foundation

variable {A : Type} [LawfulAllocator TickSlabValue A]

/-- The price of a tick: from its own price up to the next one, which a move down
may have reached exactly. One below the minimum tick stands for the minimum price. -/
structure PriceInTick (t : Int) (p : Nat) : Prop where
  lower : minTick - 1 ≤ t
  upper : t ≤ maxTick
  floor : minTick ≤ t -> getSqrtPriceAtTick t ≤ p
  ceil : t < maxTick -> p ≤ getSqrtPriceAtTick (t + 1)

namespace PriceInTick

variable {t : Int} {p : Nat}

theorem bounds (h : PriceInTick t p) : -2 ^ 20 ≤ t ∧ t < 2 ^ 20 := by
  have hlo := h.lower
  have hhi := h.upper
  unfold minTick at hlo
  unfold maxTick at hhi
  omega

theorem of_floor (hp : IsValidSqrtPrice p) : PriceInTick (getTickAtSqrtPrice p) p := by
  have hspec := getTickAtSqrtPrice_spec hp
  have hiff := (getTickAtSqrtPrice_eq_iff hp hspec.1).mp rfl
  exact
    { lower := by have := hspec.1.1; omega
      upper := hspec.1.2
      floor := fun _ => hiff.1
      ceil := fun hlt => le_of_lt (hiff.2 hlt) }

theorem of_price (ht : TickInRange t) : PriceInTick t (getSqrtPriceAtTick t) := by
  have hlo := ht.1
  have hhi := ht.2
  unfold minTick at hlo
  unfold maxTick at hhi
  exact
    { lower := by unfold minTick; omega
      upper := ht.2
      floor := fun _ => le_refl _
      ceil := fun hlt => by
        unfold maxTick at hlt
        exact price_le (by omega) (by omega) (by omega) }

theorem of_price_pred (ht : TickInRange t) : PriceInTick (t - 1) (getSqrtPriceAtTick t) := by
  have hlo := ht.1
  have hhi := ht.2
  unfold minTick at hlo
  unfold maxTick at hhi
  exact
    { lower := by unfold minTick; omega
      upper := by unfold maxTick; omega
      floor := fun hmin => by
        unfold minTick at hmin
        exact price_le (by omega) (by omega) (by omega)
      ceil := fun _ => by rw [sub_add_cancel] }

theorem eq_min (h : PriceInTick t p) (hp : IsValidSqrtPrice p) (ht : t < minTick) :
    p = minSqrtPrice := by
  have hlo := h.lower
  have hceil := h.ceil (by unfold minTick at ht; unfold maxTick; omega)
  rw [show t + 1 = minTick by omega, price_minTick] at hceil
  exact le_antisymm hceil hp.1

theorem eq_max (h : PriceInTick t p) (hp : IsValidSqrtPrice p) (ht : maxTick ≤ t) :
    p = maxSqrtPrice := by
  have heq : t = maxTick := le_antisymm h.upper ht
  have hfloor := h.floor (by rw [heq]; decide)
  rw [heq, price_maxTick] at hfloor
  exact le_antisymm hp.2 hfloor

theorem price_le (h : PriceInTick t p) (hp : IsValidSqrtPrice p) {k : Int} (hlo : -2 ^ 20 < k)
    (hle : k ≤ t) : getSqrtPriceAtTick k ≤ p := by
  have hup := h.upper
  unfold maxTick at hup
  by_cases ht : minTick ≤ t
  · exact (RmUniswap.price_le hlo hle (by omega)).trans (h.floor ht)
  · have hmin := price_minTick
    rw [h.eq_min hp (not_le.mp ht), ← hmin]
    unfold minTick at ht
    unfold minTick
    exact RmUniswap.price_le hlo (by omega) (by norm_num)

theorem le_price (h : PriceInTick t p) {k : Int} (hhi : k < 2 ^ 20) (hlt : t < k)
    (hmax : t < maxTick) : p ≤ getSqrtPriceAtTick k := by
  have hlo := h.lower
  unfold minTick at hlo
  exact (h.ceil hmax).trans (RmUniswap.price_le (by omega) (by omega) hhi)

end PriceInTick

/-!
# The target
-/

/-- What the target of a step is: the nearest initialized tick in the direction of
the swap, or a tick before it. -/
structure StepTarget.Spec (target : StepTarget) (zeroForOne : Bool) (ticks : TickSlab A)
    (t : Int) : Prop where
  inRange : TickInRange target.tickIndex
  price : target.sqrtPriceX96 = getSqrtPriceAtTick target.tickIndex
  down : zeroForOne = true -> target.tickIndex ≤ t ∧
    forall k info, ticks.snapshot.get? k = some info -> k ≤ t -> k ≤ target.tickIndex
  up : zeroForOne = false -> t < target.tickIndex ∧
    forall k info, ticks.snapshot.get? k = some info -> t < k -> target.tickIndex ≤ k
  indexer : (exists info, ticks.snapshot.get? target.tickIndex = some info ∧
      target.tickIndexer = some (ticks.indexer target.tickIndex)) ∨
    (ticks.snapshot.get? target.tickIndex = none ∧ target.tickIndexer = none)

namespace SwapContext

variable {ctx : SwapContext} {ticks : TickSlab A} {t : Int}

theorem wordBoundary_inRange (ctx : SwapContext) (t : Int) :
    TickInRange (ctx.wordBoundary t) := by
  unfold wordBoundary TickInRange minTick maxTick
  dsimp only
  omega

theorem wordStart_le {spacing : Int} (hs : 0 < spacing) (t : Int) :
    t / spacing / 2 ^ 8 * 2 ^ 8 * spacing ≤ t := by
  have hword : t / spacing / 2 ^ 8 * 2 ^ 8 ≤ t / spacing := by omega
  calc
    t / spacing / 2 ^ 8 * 2 ^ 8 * spacing ≤ t / spacing * spacing :=
      Int.mul_le_mul_of_nonneg_right hword (le_of_lt hs)
    _ ≤ t := Int.ediv_mul_le t (by omega)

theorem lt_wordEnd {spacing : Int} (hs : 0 < spacing) (t : Int) :
    t < ((t / spacing + 1) / 2 ^ 8 * 2 ^ 8 + 255) * spacing := by
  have hword : t / spacing + 1 ≤ (t / spacing + 1) / 2 ^ 8 * 2 ^ 8 + 255 := by omega
  calc
    t < (t / spacing + 1) * spacing := Int.lt_ediv_add_one_mul_self t hs
    _ ≤ ((t / spacing + 1) / 2 ^ 8 * 2 ^ 8 + 255) * spacing :=
      Int.mul_le_mul_of_nonneg_right hword (le_of_lt hs)

theorem wordBoundary_down (hz : ctx.zeroForOne = true) (hs : ctx.tickSpacing.IsPositive)
    (ht : minTick ≤ t) : ctx.wordBoundary t ≤ t := by
  have hle := wordStart_le hs t
  unfold wordBoundary
  dsimp only
  rw [hz, if_pos rfl]
  omega

theorem wordBoundary_up (hz : ctx.zeroForOne = false) (hs : ctx.tickSpacing.IsPositive)
    (ht : t < maxTick) : t < ctx.wordBoundary t := by
  have hlt := lt_wordEnd hs t
  unfold wordBoundary
  dsimp only
  rw [hz, if_neg (by decide)]
  unfold maxTick at ht ⊢
  omega

theorem nextTick_eq (ctx : SwapContext) (hk : ticks.Keyed) (ht : -2 ^ 20 ≤ t ∧ t < 2 ^ 20) :
    ctx.nextTick ticks t =
      ((if ctx.zeroForOne then ticks.snapshot.findLE? t else ticks.snapshot.findGT? t).filter
        fun e => if ctx.zeroForOne then decide (ctx.wordBoundary t ≤ e.1)
          else decide (e.1 ≤ ctx.wordBoundary t)).map ticks.entryAt := by
  unfold nextTick
  have hsearch : ticks.nextInitializedTick (ticks.indexer t) ctx.zeroForOne =
      (if ctx.zeroForOne then ticks.snapshot.findLE? t
        else ticks.snapshot.findGT? t).map ticks.entryAt := by
    cases ctx.zeroForOne with
    | false =>
        exact hk.next_eq ht
    | true =>
        exact hk.prev_or_eq ht
  rw [hsearch, Option.filter_map]
  rfl

theorem stepTarget_tickIndex (hnone : (ctx.stepTarget ticks t).tickIndexer = none) :
    (ctx.stepTarget ticks t).tickIndex = ctx.wordBoundary t := by
  unfold stepTarget at hnone ⊢
  cases hnext : ctx.nextTick ticks t with
  | none => rfl
  | some next =>
      rw [hnext] at hnone
      cases hnone

theorem stepTarget_inWord (h : (ctx.stepTarget ticks t).tickIndexer ≠ none) :
    if ctx.zeroForOne then ctx.wordBoundary t ≤ (ctx.stepTarget ticks t).tickIndex
    else (ctx.stepTarget ticks t).tickIndex ≤ ctx.wordBoundary t := by
  unfold stepTarget at h ⊢
  cases hnext : ctx.nextTick ticks t with
  | none =>
      rw [hnext] at h
      exact absurd rfl h
  | some next =>
      unfold nextTick at hnext
      have hword := (Option.filter_eq_some_iff.mp hnext).2
      dsimp only
      split at hword
      · rename_i hz
        rw [if_pos hz]
        exact of_decide_eq_true hword
      · rename_i hz
        rw [if_neg hz]
        exact of_decide_eq_true hword

theorem stepTarget_down (hk : ticks.Keyed) (hs : ctx.tickSpacing.IsPositive)
    (hz : ctx.zeroForOne = true) (ht : minTick ≤ t ∧ t ≤ maxTick) :
    (ctx.stepTarget ticks t).Spec ctx.zeroForOne ticks t := by
  have hbounds : -2 ^ 20 ≤ t ∧ t < 2 ^ 20 := by
    unfold minTick maxTick at ht
    omega
  have hwb := wordBoundary_down hz hs ht.1
  have hrange := ctx.wordBoundary_inRange t
  -- Without an initialized tick in the word, the step ends at its boundary.
  have hboundary (hnone : forall k info, ticks.snapshot.get? k = some info -> k ≤ t ->
      k < ctx.wordBoundary t) :
      StepTarget.Spec
        { tickIndex := ctx.wordBoundary t
          sqrtPriceX96 := getSqrtPriceAtTick (ctx.wordBoundary t)
          tickIndexer := none } ctx.zeroForOne ticks t := by
    refine
      { inRange := hrange
        price := rfl
        down := fun _ => ⟨hwb, fun k info hget hle => le_of_lt (hnone k info hget hle)⟩
        up := fun hup => by rw [hz] at hup; cases hup
        indexer := Or.inr ⟨?_, rfl⟩ }
    cases hget : ticks.snapshot.get? (ctx.wordBoundary t) with
    | none => rfl
    | some info => exact absurd (hnone _ info hget hwb) (lt_irrefl _)
  have heq := nextTick_eq ctx hk hbounds
  simp only [hz, if_true] at heq
  unfold stepTarget
  rw [heq]
  cases hfind : ticks.snapshot.findLE? t with
  | none =>
      exact hboundary fun k info hget hle =>
        absurd (SortedMap.findLE?_eq_none hfind hget) (not_lt.mpr hle)
  | some e =>
      rcases SortedMap.findLE?_eq_some (k := e.1) (v := e.2) hfind with ⟨hget, hle, hmax⟩
      rw [Option.filter_some]
      by_cases hword : ctx.wordBoundary t ≤ e.1
      · rw [if_pos (decide_eq_true hword), Option.map_some]
        exact
          { inRange := ⟨hrange.1.trans hword, hle.trans ht.2⟩
            price := rfl
            down := fun _ => ⟨hle, hmax⟩
            up := fun hup => by rw [hz] at hup; cases hup
            indexer := Or.inl ⟨e.2, hget, rfl⟩ }
      · rw [if_neg (by rw [decide_eq_true_iff]; exact hword), Option.map_none]
        exact hboundary fun k info hgetk hlek =>
          (hmax k info hgetk hlek).trans_lt (not_le.mp hword)

theorem stepTarget_up (hk : ticks.Keyed) (hs : ctx.tickSpacing.IsPositive)
    (hz : ctx.zeroForOne = false) (ht : minTick - 1 ≤ t ∧ t < maxTick) :
    (ctx.stepTarget ticks t).Spec ctx.zeroForOne ticks t := by
  have hbounds : -2 ^ 20 ≤ t ∧ t < 2 ^ 20 := by
    unfold minTick maxTick at ht
    omega
  have hwb := wordBoundary_up hz hs ht.2
  have hrange := ctx.wordBoundary_inRange t
  have hboundary (hnone : forall k info, ticks.snapshot.get? k = some info -> t < k ->
      ctx.wordBoundary t < k) :
      StepTarget.Spec
        { tickIndex := ctx.wordBoundary t
          sqrtPriceX96 := getSqrtPriceAtTick (ctx.wordBoundary t)
          tickIndexer := none } ctx.zeroForOne ticks t := by
    refine
      { inRange := hrange
        price := rfl
        down := fun hdown => by rw [hz] at hdown; cases hdown
        up := fun _ => ⟨hwb, fun k info hget hlt => le_of_lt (hnone k info hget hlt)⟩
        indexer := Or.inr ⟨?_, rfl⟩ }
    cases hget : ticks.snapshot.get? (ctx.wordBoundary t) with
    | none => rfl
    | some info => exact absurd (hnone _ info hget hwb) (lt_irrefl _)
  have heq := nextTick_eq ctx hk hbounds
  simp only [hz, Bool.false_eq_true, if_false] at heq
  unfold stepTarget
  rw [heq]
  cases hfind : ticks.snapshot.findGT? t with
  | none =>
      exact hboundary fun k info hget hlt =>
        absurd (SortedMap.findGT?_eq_none hfind hget) (not_le.mpr hlt)
  | some e =>
      rcases SortedMap.findGT?_eq_some (k := e.1) (v := e.2) hfind with ⟨hget, hlt, hmin⟩
      rw [Option.filter_some]
      by_cases hword : e.1 ≤ ctx.wordBoundary t
      · rw [if_pos (decide_eq_true hword), Option.map_some]
        exact
          { inRange := ⟨by have := ht.1; show minTick ≤ e.1; omega, hword.trans hrange.2⟩
            price := rfl
            down := fun hdown => by rw [hz] at hdown; cases hdown
            up := fun _ => ⟨hlt, hmin⟩
            indexer := Or.inl ⟨e.2, hget, rfl⟩ }
      · rw [if_neg (by rw [decide_eq_true_iff]; exact hword), Option.map_none]
        exact hboundary fun k info hgetk hltk =>
          (not_le.mp hword).trans_le (hmin k info hgetk hltk)

end SwapContext

end RmUniswap
