import RmUniswap.Foundation.WordSearch
import RmUniswap.Pool.OrderedTicks

/-!
# Step targets and the compressed bitmap

The reference looks for the next tick in a bitmap of compressed ticks, one word of
256 at a time. The search of the slab, cut off at the boundary of the word, finds
the same target.
-/

namespace RmUniswap

open Foundation

variable {A : Type} [LawfulAllocator TickSlabValue A]

/-- Whether a compressed tick is initialized. -/
def initializedCompressed (tickSpacing : TickSpacing) (ticks : SortedMap Int TickInfoInner)
    (compressed : Int) : Bool :=
  (ticks.get? (compressed * tickSpacing.value)).isSome

/-- The initialized compressed tick that the search of one word finds. -/
def foundInWord (initialized : Int -> Bool) (compressed : Int) (zeroForOne : Bool) : Option Int :=
  if zeroForOne then lastInWord 256 initialized compressed
  else firstInWord 256 initialized (compressed + 1)

def edgeOfWord (compressed : Int) (zeroForOne : Bool) : Int :=
  if zeroForOne then 256 * (compressed / 256) else 256 * ((compressed + 1) / 256) + 255

def clampTick (t : Int) : Int := max minTick (min maxTick t)

/-- The search of one word of the bitmap: the tick, and whether it is initialized. -/
def nextInitializedTickWithinOneWord (tickSpacing : TickSpacing)
    (ticks : SortedMap Int TickInfoInner) (t : Int) (zeroForOne : Bool) : Int × Bool :=
  let compressed := t / tickSpacing.value
  let found := foundInWord (initializedCompressed tickSpacing ticks) compressed zeroForOne
  (clampTick (found.getD (edgeOfWord compressed zeroForOne) * tickSpacing.value), found.isSome)

/-- The compressed ticks that the search of one word looks at. -/
def InWord (compressed : Int) (zeroForOne : Bool) (k : Int) : Prop :=
  if zeroForOne then edgeOfWord compressed zeroForOne ≤ k ∧ k ≤ compressed
  else compressed + 1 ≤ k ∧ k ≤ edgeOfWord compressed zeroForOne

/-- A search in the direction of a swap: the greatest member going down, the least
going up. -/
def NearestIn (zeroForOne : Bool) (S : Set Int) (found : Option Int) : Prop :=
  if zeroForOne then GreatestIn S found else LeastIn S found

theorem NearestIn.unique {zeroForOne : Bool} {S : Set Int} {a b : Option Int}
    (ha : NearestIn zeroForOne S a) (hb : NearestIn zeroForOne S b) : a = b := by
  cases zeroForOne with
  | true => exact GreatestIn.unique ha hb
  | false => exact LeastIn.unique ha hb

theorem foundInWord_spec (initialized : Int -> Bool) (compressed : Int) (zeroForOne : Bool) :
    NearestIn zeroForOne {k | initialized k = true ∧ InWord compressed zeroForOne k}
      (foundInWord initialized compressed zeroForOne) := by
  cases zeroForOne with
  | true => exact lastInWord_spec (by decide) initialized compressed
  | false => exact firstInWord_spec (by decide) initialized (compressed + 1)

namespace SwapContext

section Target

theorem wordBoundary_eq (ctx : SwapContext) (t : Int) :
    ctx.wordBoundary t =
      clampTick
        (edgeOfWord (t / ctx.tickSpacing.value) ctx.zeroForOne * ctx.tickSpacing.value) := by
  unfold wordBoundary edgeOfWord clampTick
  dsimp only
  cases ctx.zeroForOne with
  | true =>
      rw [if_pos rfl, if_pos rfl, Int.mul_comm 256]
      rfl
  | false =>
      rw [if_neg Bool.false_ne_true, if_neg Bool.false_ne_true, Int.mul_comm 256]
      rfl

end Target

end SwapContext

/-!
# Ticks and compressed ticks
-/

section Compressed

variable {s t j edge : Int}

theorem clampTick_of_inRange (h : TickInRange t) : clampTick t = t := by
  unfold clampTick
  rw [min_eq_right h.2, max_eq_right h.1]

theorem clampTick_le_iff (hs : 0 < s) (hj : TickInRange (j * s)) (hedge : edge * s ≤ maxTick) :
    clampTick (edge * s) ≤ j * s ↔ edge ≤ j := by
  unfold clampTick
  rw [min_eq_right hedge, max_le_iff, and_iff_right hj.1]
  exact mul_le_mul_iff_left₀ hs

theorem le_clampTick_iff (hs : 0 < s) (hj : TickInRange (j * s)) (hedge : minTick ≤ edge * s) :
    j * s ≤ clampTick (edge * s) ↔ j ≤ edge := by
  have horder : minTick ≤ maxTick := by decide
  unfold clampTick
  rw [max_eq_right (le_min horder hedge), le_min_iff, and_iff_right hj.2]
  exact mul_le_mul_iff_left₀ hs

theorem edgeOfWord_le (hs : 0 < s) (t : Int) : edgeOfWord (t / s) true * s ≤ t := by
  have hle := SwapContext.wordStart_le hs t
  unfold edgeOfWord
  rw [if_pos rfl, Int.mul_comm 256]
  exact hle

theorem lt_edgeOfWord (hs : 0 < s) (t : Int) : t < edgeOfWord (t / s) false * s := by
  have hlt := SwapContext.lt_wordEnd hs t
  unfold edgeOfWord
  rw [if_neg Bool.false_ne_true, Int.mul_comm 256]
  exact hlt

end Compressed

namespace SwapContext

section Search

variable {ctx : SwapContext} {slab : TickSlab A} {ticks : SortedMap Int TickInfoInner} {t : Int}

theorem inWord_iff (hs : ctx.tickSpacing.IsPositive) (ht : minTick ≤ t ∧ t < maxTick) {j : Int}
    (hj : TickInRange (j * ctx.tickSpacing.value)) :
    InWord (t / ctx.tickSpacing.value) ctx.zeroForOne j ↔
      if ctx.zeroForOne then
        ctx.wordBoundary t ≤ j * ctx.tickSpacing.value ∧ j * ctx.tickSpacing.value ≤ t
      else
        t < j * ctx.tickSpacing.value ∧ j * ctx.tickSpacing.value ≤ ctx.wordBoundary t := by
  have hs : 0 < ctx.tickSpacing.value := hs
  rw [wordBoundary_eq]
  unfold InWord
  cases ctx.zeroForOne with
  | true =>
      have hedge := (edgeOfWord_le hs t).trans (le_of_lt ht.2)
      rw [if_pos rfl, if_pos rfl, clampTick_le_iff hs hj hedge, Int.le_ediv_iff_mul_le hs]
  | false =>
      have hedge := ht.1.trans (le_of_lt (lt_edgeOfWord hs t))
      rw [if_neg Bool.false_ne_true, if_neg Bool.false_ne_true, le_clampTick_iff hs hj hedge,
        Int.add_one_le_iff, Int.ediv_lt_iff_lt_mul hs]

theorem stepTarget_spec (hs : ctx.tickSpacing.IsPositive) (hk : slab.Keyed)
    (ht : minTick ≤ t ∧ t < maxTick) :
    (ctx.stepTarget slab t).Spec ctx.zeroForOne slab t := by
  cases hz : ctx.zeroForOne with
  | true =>
      rw [← hz]
      exact stepTarget_down hk hs hz ⟨ht.1, le_of_lt ht.2⟩
  | false =>
      rw [← hz]
      exact stepTarget_up hk hs hz ⟨by omega, ht.2⟩

theorem nearestIn_initialized (hs : ctx.tickSpacing.IsPositive)
    (h : slab.Holds ctx.tickSpacing ticks)
    (hticks : forall k info, ticks.get? k = some info -> TickInRange k)
    (ht : minTick ≤ t ∧ t < maxTick) {j : Int}
    (hj : (ctx.stepTarget slab t).tickIndex = j * ctx.tickSpacing.value)
    (hsome : (ctx.stepTarget slab t).tickIndexer ≠ none) :
    NearestIn ctx.zeroForOne
      {k | initializedCompressed ctx.tickSpacing ticks k = true ∧
        InWord (t / ctx.tickSpacing.value) ctx.zeroForOne k} (some j) := by
  have hspec := stepTarget_spec hs h.keyed ht
  have hrange := hspec.inRange
  have hword := stepTarget_inWord hsome
  have hdown := hspec.down
  have hup := hspec.up
  have hget : exists info, ticks.get? (j * ctx.tickSpacing.value) = some info := by
    rcases hspec.indexer with ⟨info, hget, _⟩ | ⟨_, hnone⟩
    · rw [h.snapshot, hj] at hget
      exact ⟨info, hget⟩
    · exact absurd hnone hsome
  rw [hj] at hrange hword hdown hup
  rw [h.snapshot] at hdown hup
  rcases hget with ⟨info, hget⟩
  have hmem : initializedCompressed ctx.tickSpacing ticks j = true := by
    unfold initializedCompressed
    rw [hget]
    rfl
  have hpos : 0 < ctx.tickSpacing.value := hs
  have hin {k : Int} (hk : TickInRange (k * ctx.tickSpacing.value)) := inWord_iff hs ht hk
  unfold NearestIn
  cases hz : ctx.zeroForOne with
  | true =>
      rw [hz] at hword hin
      rw [if_pos rfl]
      refine ⟨⟨hmem, (hin hrange).mpr ⟨hword, (hdown hz).1⟩⟩, ?_⟩
      rintro k ⟨hk, hk'⟩
      rcases Option.isSome_iff_exists.mp hk with ⟨infok, hgetk⟩
      have hbetween := (hin (hticks _ _ hgetk)).mp hk'
      exact le_of_mul_le_mul_right ((hdown hz).2 _ _ hgetk hbetween.2) hpos
  | false =>
      rw [hz] at hword hin
      rw [if_neg Bool.false_ne_true]
      refine ⟨⟨hmem, (hin hrange).mpr ⟨(hup hz).1, hword⟩⟩, ?_⟩
      rintro k ⟨hk, hk'⟩
      rcases Option.isSome_iff_exists.mp hk with ⟨infok, hgetk⟩
      have hbetween := (hin (hticks _ _ hgetk)).mp hk'
      exact le_of_mul_le_mul_right ((hup hz).2 _ _ hgetk hbetween.1) hpos

theorem nearestIn_uninitialized (hs : ctx.tickSpacing.IsPositive)
    (h : slab.Holds ctx.tickSpacing ticks)
    (hticks : forall k info, ticks.get? k = some info -> TickInRange k)
    (ht : minTick ≤ t ∧ t < maxTick)
    (hnone : (ctx.stepTarget slab t).tickIndexer = none) :
    NearestIn ctx.zeroForOne
      {k | initializedCompressed ctx.tickSpacing ticks k = true ∧
        InWord (t / ctx.tickSpacing.value) ctx.zeroForOne k} none := by
  have hspec := stepTarget_spec hs h.keyed ht
  have hdown := hspec.down
  have hup := hspec.up
  have hempty : ticks.get? (ctx.wordBoundary t) = none := by
    rw [← stepTarget_tickIndex hnone, ← h.snapshot]
    rcases hspec.indexer with ⟨_, _, hsome⟩ | ⟨hget, _⟩
    · rw [hnone] at hsome
      cases hsome
    · exact hget
  rw [stepTarget_tickIndex hnone, h.snapshot] at hdown hup
  have hne {k : Int} {info : TickInfoInner} (hget : ticks.get? k = some info) :
      k ≠ ctx.wordBoundary t := by
    intro heq
    rw [heq, hempty] at hget
    cases hget
  have hin {k : Int} (hk : TickInRange (k * ctx.tickSpacing.value)) := inWord_iff hs ht hk
  unfold NearestIn
  cases hz : ctx.zeroForOne with
  | true =>
      rw [hz] at hin
      rw [if_pos rfl]
      rintro k ⟨hk, hk'⟩
      rcases Option.isSome_iff_exists.mp hk with ⟨infok, hgetk⟩
      have hbetween := (hin (hticks _ _ hgetk)).mp hk'
      exact hne hgetk (le_antisymm ((hdown hz).2 _ _ hgetk hbetween.2) hbetween.1)
  | false =>
      rw [hz] at hin
      rw [if_neg Bool.false_ne_true]
      rintro k ⟨hk, hk'⟩
      rcases Option.isSome_iff_exists.mp hk with ⟨infok, hgetk⟩
      have hbetween := (hin (hticks _ _ hgetk)).mp hk'
      exact hne hgetk (le_antisymm hbetween.2 ((hup hz).2 _ _ hgetk hbetween.1))

/-- The target that the slab gives is the one of the search of one word, which is the
nearest initialized compressed tick of the word or its end. -/
theorem stepTarget_matches_word (hs : ctx.tickSpacing.IsPositive)
    (h : slab.Holds ctx.tickSpacing ticks)
    (hticks : forall k info, ticks.get? k = some info -> TickInRange k)
    (ht : minTick ≤ t ∧ t < maxTick) :
    ((ctx.stepTarget slab t).tickIndex, (ctx.stepTarget slab t).tickIndexer.isSome) =
        nextInitializedTickWithinOneWord ctx.tickSpacing ticks t ctx.zeroForOne ∧
      NearestIn ctx.zeroForOne
        {k | initializedCompressed ctx.tickSpacing ticks k = true ∧
          InWord (t / ctx.tickSpacing.value) ctx.zeroForOne k}
        (foundInWord (initializedCompressed ctx.tickSpacing ticks) (t / ctx.tickSpacing.value)
          ctx.zeroForOne) := by
  have hsearch := foundInWord_spec (initializedCompressed ctx.tickSpacing ticks)
    (t / ctx.tickSpacing.value) ctx.zeroForOne
  refine ⟨?_, hsearch⟩
  have hspec := stepTarget_spec hs h.keyed ht
  unfold nextInitializedTickWithinOneWord
  dsimp only
  rcases hspec.indexer with ⟨info, hget, hindexer⟩ | ⟨_, hnone⟩
  · rw [h.snapshot] at hget
    rcases (h.storable hget).aligned with ⟨j, hj⟩
    rw [Int.mul_comm] at hj
    have hfound := nearestIn_initialized hs h hticks ht hj (by rw [hindexer]; nofun)
    rw [hsearch.unique hfound, hindexer, Option.getD_some, ← hj,
      clampTick_of_inRange hspec.inRange]
    rfl
  · have hfound := nearestIn_uninitialized hs h hticks ht hnone
    rw [hsearch.unique hfound, hnone, stepTarget_tickIndex hnone, Option.getD_none,
      wordBoundary_eq]
    rfl

end Search

end SwapContext

namespace Sample

theorem restored_ticks_inRange {k : Int} {info : TickInfoInner}
    (hget : restored.ticks.snapshot.get? k = some info) : TickInRange k := by
  have hall : forall e, e ∈ restored.ticks.snapshot.entries -> TickInRange e.1 := by
    decide +kernel
  exact hall (k, info) (SortedMap.mem_entries_iff.mpr hget)

end Sample

namespace SwapContext

theorem stepTarget_matches_word_sample :
    let ctx := Sample.restored.swapContext .exclusive Sample.restored.swapFee Sample.sell
    let target := ctx.stepTarget Sample.restored.ticks (-1)
    (target.tickIndex, target.tickIndexer.isSome) = (-60, true) ∧
      nextInitializedTickWithinOneWord ctx.tickSpacing Sample.restored.ticks.snapshot (-1)
        ctx.zeroForOne = (-60, true) := by
  intro ctx target
  have ht : minTick ≤ (-1 : Int) ∧ (-1 : Int) < maxTick := by decide
  have hs : ctx.tickSpacing.IsPositive := by decide +kernel
  have hmatch := (stepTarget_matches_word hs Sample.restored_accepted.sound.holds
    (fun _ _ hget => Sample.restored_ticks_inRange hget) ht).1
  have hword : nextInitializedTickWithinOneWord ctx.tickSpacing Sample.restored.ticks.snapshot (-1)
      ctx.zeroForOne = (-60, true) := by
    decide +kernel
  exact ⟨hmatch.trans hword, hword⟩

end SwapContext

end RmUniswap
