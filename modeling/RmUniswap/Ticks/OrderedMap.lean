import RmUniswap.Foundation.Transition
import RmUniswap.Ticks.TickMap

/-!
# The slab refines an ordered map

Over any allocator, the calls on a slab act as they do on an ordered map from
compressed ticks to payloads, and every read of the slab answers as the map does.
The ticks need not be aligned, and a payload need not belong to its tick.
-/

namespace RmUniswap

open Foundation

/-!
# Calls
-/

inductive SlabCall
  | insert (tick : Int) (tickInfo : TickInfo)
  | remove (tick : Int)
  | updateInitializedTick {α : Type} (tick : Int)
      (update : Int -> Nat -> TickInfoInner -> Except Error α × TickInfoInner)
  | crossTick (tick : Int) (feeGrowthGlobal0X128 feeGrowthGlobal1X128 : Nat)

namespace SlabCall

def tick : SlabCall -> Int
  | .insert tick _ => tick
  | .remove tick => tick
  | .updateInitializedTick tick _ => tick
  | .crossTick tick _ _ => tick

/-- A call at the coordinate of its tick. -/
def onSlab {A : Type} [LawfulAllocator TickSlabValue A] (s : TickSlab A) :
    SlabCall -> TickSlab A
  | .insert tick tickInfo =>
      match s.insert (s.indexer tick) tickInfo with
      | .ok s => s
      | .error _ => s
  | .remove tick => s.remove (s.indexer tick)
  | .updateInitializedTick tick update =>
      (s.updateInitializedTick (s.indexer tick) update).2
  | .crossTick tick growth0 growth1 => (s.crossTick (s.indexer tick) growth0 growth1).2

def rewrite (m : SortedMap Int TickInfo) (k : Int) (f : TickInfo -> TickInfoInner) :
    SortedMap Int TickInfo :=
  match m.get? k with
  | some tickInfo => m.insert k { tickInfo with inner := f tickInfo }
  | none => m

/-- The same call on a map from compressed ticks. -/
def onMap (spacing : Int) (m : SortedMap Int TickInfo) : SlabCall -> SortedMap Int TickInfo
  | .insert tick tickInfo => m.insert (tick / spacing) tickInfo
  | .remove tick => m.erase (tick / spacing)
  | .updateInitializedTick tick update =>
      rewrite m (tick / spacing) fun tickInfo =>
        (update tickInfo.tickIndex tickInfo.sqrtPriceX96 tickInfo.inner).2
  | .crossTick tick growth0 growth1 =>
      rewrite m (tick / spacing) fun tickInfo =>
        { tickInfo.inner with
          feeGrowthOutside0X128 :=
            wrappingSub 256 growth0 tickInfo.inner.feeGrowthOutside0X128
          feeGrowthOutside1X128 :=
            wrappingSub 256 growth1 tickInfo.inner.feeGrowthOutside1X128 }

end SlabCall

namespace TickSlab

variable {A : Type} [LawfulAllocator TickSlabValue A]

/-!
# Compressed ticks
-/

def compress (s : TickSlab A) (t : Int) : Int := t / s.tickSpacing.value

def compressedEntry (s : TickSlab A) (e : Int × TickInfo) : Nat × TickInfo :=
  (s.indexer (e.1 * s.tickSpacing.value), e.2)

section Compress

variable {s s' : TickSlab A} {t u : Int}

theorem wide_of_inRange (ht : TickInRange t) : -2 ^ 20 ≤ t ∧ t < 2 ^ 20 := by
  have hlo := ht.1
  have hhi := ht.2
  unfold minTick at hlo
  unfold maxTick at hhi
  omega

theorem spacing_pos (s : TickSlab A) : 0 < s.tickSpacing.value := s.positive

theorem indexer_compress (s : TickSlab A) (t : Int) :
    s.indexer (s.compress t * s.tickSpacing.value) = s.indexer t := by
  have hpos := s.spacing_pos
  apply fromTick_congr
  show _ / ((s.tickSpacing.asU32 : Nat) : Int) = _ / ((s.tickSpacing.asU32 : Nat) : Int)
  rw [TickSpacing.asU32_eq s.positive]
  exact Int.mul_ediv_cancel _ (by omega)

theorem compress_lt_iff (ht : TickInRange t) (hu : TickInRange u) :
    s.indexer t < s.indexer u ↔ s.compress t < s.compress u :=
  indexer_lt_iff (wide_of_inRange ht) (wide_of_inRange hu)

theorem compress_inj (ht : TickInRange t) (hu : TickInRange u) :
    s.indexer t = s.indexer u ↔ s.compress t = s.compress u := by
  have hlt : s.indexer t < s.indexer u ↔ s.compress t < s.compress u := compress_lt_iff ht hu
  have hgt : s.indexer u < s.indexer t ↔ s.compress u < s.compress t := compress_lt_iff hu ht
  omega

theorem coordinate_lt (ht : TickInRange t) : s.indexer t < 2 ^ 21 :=
  indexer_lt (wide_of_inRange ht).1 (wide_of_inRange ht).2

theorem coordinate_page (ht : TickInRange t) :
    cacheIndex (s.indexer t) < calculateCacheCap s.tickSpacing := by
  have hlt : s.indexer t < 2 ^ 21 := coordinate_lt ht
  have hmax : s.indexer maxTick < 2 ^ 21 := coordinate_lt ⟨by decide, le_refl _⟩
  have hle : s.indexer t ≤ s.indexer maxTick := by
    rw [← not_lt, compress_lt_iff ⟨by decide, le_refl _⟩ ht, not_lt]
    exact Int.ediv_le_ediv s.spacing_pos ht.2
  unfold calculateCacheCap
  show cacheIndex (s.indexer t) < cacheIndex (s.indexer maxTick) + 1
  rw [cacheIndex_eq hlt, cacheIndex_eq hmax]
  omega

theorem toTick_coordinate (ht : TickInRange t) :
    toTick (s.indexer t) s.tickSpacing.asU32 = s.compress t * s.tickSpacing.value := by
  have hwide := wide_of_inRange ht
  have h := toTick_fromTick s.spacing_bounds.1 s.spacing_bounds.2 hwide.1 hwide.2
  rw [TickSpacing.asU32_eq s.positive] at h
  exact h

theorem indexer_congr (h : s'.tickSpacing = s.tickSpacing) (t : Int) :
    s'.indexer t = s.indexer t := by
  show fromTick t s'.tickSpacing.asU32 = fromTick t s.tickSpacing.asU32
  rw [h]

theorem compress_congr (h : s'.tickSpacing = s.tickSpacing) (t : Int) :
    s'.compress t = s.compress t := by
  unfold compress
  rw [h]

end Compress

/-!
# Representation
-/

/-- The slab stores exactly the entries of a map from compressed ticks. -/
structure Represents (s : TickSlab A) (m : SortedMap Int TickInfo) : Prop where
  keys : forall k info, m.get? k = some info -> exists t, TickInRange t ∧ s.compress t = k
  entries : forall i info, i < 2 ^ 21 -> (s.get i = some info ↔
    exists t, TickInRange t ∧ s.indexer t = i ∧ m.get? (s.compress t) = some info)

section Represents

variable {s s' : TickSlab A} {m m' : SortedMap Int TickInfo} {t : Int} {info : TickInfo}

theorem Represents.get (h : s.Represents m) (ht : TickInRange t) :
    s.get (s.indexer t) = m.get? (s.compress t) := by
  apply Option.ext
  intro info
  rw [h.entries _ info (coordinate_lt ht)]
  constructor
  · rintro ⟨u, hu, heq, hget⟩
    rw [← (compress_inj hu ht).mp heq]
    exact hget
  · intro hget
    exact ⟨t, ht, rfl, hget⟩

theorem represents_new {tickSpacing : TickSpacing} (h : tickSpacing.IsPositive) :
    (new tickSpacing h : TickSlab A).Represents SortedMap.empty where
  keys := by intro k info hget; cases hget
  entries := by
    intro i info _
    rw [get_new]
    constructor
    · intro hget
      cases hget
    · rintro ⟨_, _, _, hget⟩
      cases hget

theorem Represents.change (h : s.Represents m) (ht : TickInRange t)
    (hspacing : s'.tickSpacing = s.tickSpacing) {value : Option TickInfo}
    (hget : forall j, j < 2 ^ 21 -> s'.get j = if j = s.indexer t then value else s.get j)
    (hmap : forall k, m'.get? k = if k = s.compress t then value else m.get? k) :
    s'.Represents m' where
  keys := by
    intro k info hk
    rw [hmap] at hk
    split at hk
    · rename_i heq
      exact ⟨t, ht, (compress_congr hspacing t).trans heq.symm⟩
    · rcases h.keys k info hk with ⟨u, hu, heq⟩
      exact ⟨u, hu, (compress_congr hspacing u).trans heq⟩
  entries := by
    intro i info hi
    simp only [indexer_congr hspacing, compress_congr hspacing, hmap]
    rw [hget i hi]
    by_cases heq : i = s.indexer t
    · rw [if_pos heq]
      constructor
      · intro hvalue
        exact ⟨t, ht, heq.symm, by rw [if_pos rfl, hvalue]⟩
      · rintro ⟨u, hu, hiu, hvalue⟩
        rw [if_pos ((compress_inj hu ht).mp (hiu.trans heq))] at hvalue
        exact hvalue
    · rw [if_neg heq, h.entries i info hi]
      constructor
      · rintro ⟨u, hu, hiu, hvalue⟩
        refine ⟨u, hu, hiu, ?_⟩
        rw [if_neg fun hc => heq (hiu.symm.trans ((compress_inj hu ht).mpr hc))]
        exact hvalue
      · rintro ⟨u, hu, hiu, hvalue⟩
        rw [if_neg fun hc => heq (hiu.symm.trans ((compress_inj hu ht).mpr hc))] at hvalue
        exact ⟨u, hu, hiu, hvalue⟩

theorem insert_inRange (s : TickSlab A) (ht : TickInRange t) (info : TickInfo) :
    exists s', s.insert (s.indexer t) info = .ok s' :=
  s.insert_eq_ok (coordinate_page ht) info

theorem Represents.insert (h : s.Represents m) (ht : TickInRange t)
    (hs' : s.insert (s.indexer t) info = .ok s') :
    s'.Represents (m.insert (s.compress t) info) :=
  h.change ht (tickSpacing_insert hs') (fun _ hj => get_insert hs' (coordinate_lt ht) hj)
    (fun k => SortedMap.get?_insert m _ k info)

theorem Represents.remove (h : s.Represents m) (ht : TickInRange t) :
    (s.remove (s.indexer t)).Represents (m.erase (s.compress t)) :=
  h.change ht (tickSpacing_remove _ _) (fun _ hj => get_remove s (coordinate_lt ht) hj)
    (fun k => SortedMap.get?_erase m _ k)

theorem Represents.update (h : s.Represents m) (ht : TickInRange t) {α : Type}
    (update : Int -> Nat -> TickInfoInner -> Except Error α × TickInfoInner) :
    (s.updateInitializedTick (s.indexer t) update).1 =
        (match m.get? (s.compress t) with
        | some tickInfo => (update tickInfo.tickIndex tickInfo.sqrtPriceX96 tickInfo.inner).1
        | none => .error .missingInitializedTick) ∧
      (s.updateInitializedTick (s.indexer t) update).2.Represents
        (SlabCall.rewrite m (s.compress t) fun tickInfo =>
          (update tickInfo.tickIndex tickInfo.sqrtPriceX96 tickInfo.inner).2) ∧
      (s.updateInitializedTick (s.indexer t) update).2.tickSpacing = s.tickSpacing := by
  have hread := h.get ht
  unfold updateInitializedTick SlabCall.rewrite
  cases hget : m.get? (s.compress t) with
  | none =>
      rw [hget] at hread
      rw [hread]
      exact ⟨rfl, h, rfl⟩
  | some tickInfo =>
      rw [hget] at hread
      rw [hread]
      refine ⟨rfl, ?_, tickSpacing_write _ _ _⟩
      refine h.change ht (tickSpacing_write _ _ _) (fun j hj => ?_)
        (fun k => SortedMap.get?_insert m _ k _)
      rw [get_write s _ (coordinate_lt ht) hj]
      split
      · rename_i heq
        rw [heq, hread]
        rfl
      · rfl

theorem Represents.call (h : s.Represents m) (c : SlabCall) (ht : TickInRange c.tick) :
    (c.onSlab s).Represents (c.onMap s.tickSpacing.value m) ∧
      (c.onSlab s).tickSpacing = s.tickSpacing := by
  cases c with
  | insert tick tickInfo =>
      rcases s.insert_inRange ht tickInfo with ⟨s', hs'⟩
      have hs' : s.insert (s.indexer tick) tickInfo = .ok s' := hs'
      unfold SlabCall.onSlab
      dsimp only
      rw [hs']
      exact ⟨h.insert ht hs', tickSpacing_insert hs'⟩
  | remove tick =>
      exact ⟨h.remove ht, tickSpacing_remove _ _⟩
  | updateInitializedTick tick update =>
      exact (h.update ht update).2
  | crossTick tick growth0 growth1 =>
      exact (h.update ht _).2

theorem Represents.calls {calls : List SlabCall} (h : s.Represents m)
    (hcalls : forall c, c ∈ calls -> TickInRange c.tick) :
    (calls.foldl SlabCall.onSlab s).Represents
        (calls.foldl (SlabCall.onMap s.tickSpacing.value) m) ∧
      (calls.foldl SlabCall.onSlab s).tickSpacing = s.tickSpacing := by
  induction calls generalizing s m with
  | nil =>
      exact ⟨h, rfl⟩
  | cons c calls ih =>
      have hone := h.call c (hcalls c List.mem_cons_self)
      have hrest := ih hone.1 fun c hc => hcalls c (List.mem_cons_of_mem _ hc)
      rw [hone.2] at hrest
      exact hrest

/-!
# Reads
-/

theorem Represents.key (h : s.Represents m) {i : Nat} (hi : s.pages.Key i) :
    exists t info, TickInRange t ∧ s.indexer t = i ∧ m.get? (s.compress t) = some info := by
  have hlt := SlabPages.key_lt s.wellFormed hi
  rcases Option.isSome_iff_exists.mp ((SlabPages.key_iff hlt).mp hi) with ⟨info, hinfo⟩
  rcases (h.entries i info hlt).mp hinfo with ⟨t, ht, heq, hget⟩
  exact ⟨t, info, ht, heq, hget⟩

theorem Represents.stored (h : s.Represents m) {k : Int} (hk : m.get? k = some info) :
    exists t, TickInRange t ∧ s.compress t = k ∧
      s.indexer (k * s.tickSpacing.value) = s.indexer t ∧ s.pages.Key (s.indexer t) ∧
      s.pages.get (s.indexer t) = some info := by
  rcases h.keys k info hk with ⟨t, ht, rfl⟩
  have hread : s.pages.get (s.indexer t) = some info := (h.get ht).trans hk
  exact ⟨t, ht, rfl, s.indexer_compress t,
    (SlabPages.key_iff (coordinate_lt ht)).mpr (by rw [hread]; rfl), hread⟩

theorem Represents.next (h : s.Represents m) (ht : TickInRange t) :
    s.next (s.indexer t) = (m.findGT? (s.compress t)).map s.compressedEntry := by
  have hspec := SlabPages.next_spec s.wellFormed (coordinate_lt (s := s) ht)
  refine LeastEntry.unique hspec ?_
  cases hfind : m.findGT? (s.compress t) with
  | none =>
      intro i hi
      rcases h.key hi.1 with ⟨u, info, hu, rfl, hget⟩
      have hle := SortedMap.findGT?_eq_none hfind hget
      exact absurd ((compress_lt_iff ht hu).mp hi.2) (not_lt.mpr hle)
  | some e =>
      rcases SortedMap.findGT?_eq_some (k := e.1) (v := e.2) hfind with ⟨hget, hgt, hmin⟩
      rcases h.stored hget with ⟨u, hu, hk, hcoordinate, hkey, hread⟩
      rw [Option.map_some, compressedEntry, hcoordinate]
      rw [← hk] at hgt hmin
      refine ⟨⟨⟨hkey, (compress_lt_iff ht hu).mpr hgt⟩, ?_⟩, hread⟩
      intro i hi
      rcases h.key hi.1 with ⟨v, info, hv, rfl, hgetv⟩
      have hle := hmin _ _ hgetv ((compress_lt_iff ht hv).mp hi.2)
      exact not_lt.mp fun hlt => absurd ((compress_lt_iff hv hu).mp hlt) (not_lt.mpr hle)

theorem Represents.prev (h : s.Represents m) (ht : TickInRange t) :
    s.prev (s.indexer t) = (m.findLT? (s.compress t)).map s.compressedEntry := by
  have hspec := SlabPages.prev_spec s.wellFormed (coordinate_lt (s := s) ht)
  refine GreatestEntry.unique hspec ?_
  cases hfind : m.findLT? (s.compress t) with
  | none =>
      intro i hi
      rcases h.key hi.1 with ⟨u, info, hu, rfl, hget⟩
      have hle := SortedMap.findLT?_eq_none hfind hget
      exact absurd ((compress_lt_iff hu ht).mp hi.2) (not_lt.mpr hle)
  | some e =>
      rcases SortedMap.findLT?_eq_some (k := e.1) (v := e.2) hfind with ⟨hget, hlt, hmax⟩
      rcases h.stored hget with ⟨u, hu, hk, hcoordinate, hkey, hread⟩
      rw [Option.map_some, compressedEntry, hcoordinate]
      rw [← hk] at hlt hmax
      refine ⟨⟨⟨hkey, (compress_lt_iff hu ht).mpr hlt⟩, ?_⟩, hread⟩
      intro i hi
      rcases h.key hi.1 with ⟨v, info, hv, rfl, hgetv⟩
      have hle := hmax _ _ hgetv ((compress_lt_iff hv ht).mp hi.2)
      exact not_lt.mp fun hlt => absurd ((compress_lt_iff hu hv).mp hlt) (not_lt.mpr hle)

theorem Represents.prevOrEq (h : s.Represents m) (ht : TickInRange t) :
    s.nextInitializedTick (s.indexer t) true =
      (m.findLE? (s.compress t)).map s.compressedEntry := by
  unfold nextInitializedTick
  rw [if_pos rfl, h.get ht, SortedMap.findLE?_eq]
  cases m.get? (s.compress t) with
  | some info =>
      rw [Option.map_some, compressedEntry, s.indexer_compress]
  | none =>
      exact h.prev ht

theorem isEmpty_iff (s : TickSlab A) :
    s.isEmpty = true ↔ forall i, i < 2 ^ 21 -> s.get i = none := by
  have hs := s.wellFormed
  have hvalues := LawfulAllocator.isEmpty_iff hs.values
  unfold isEmpty SlabPages.isEmpty
  rw [hvalues]
  constructor
  · intro hnone i hi
    cases hget : s.get i with
    | none => rfl
    | some info =>
        rcases SlabPages.page_of_get hs hi hget with ⟨v, hv, _⟩
        unfold SlabPages.getSlab at hv
        rcases Option.bind_eq_some_iff.mp hv with ⟨key, _, hkey⟩
        rw [hnone key] at hkey
        cases hkey
  · intro hnone key
    cases hget : Allocator.get? s.pages.values key with
    | none => rfl
    | some v =>
        rcases hs.owned key v hget with ⟨c, hc⟩
        have hv : s.pages.getSlab c = some v := by
          unfold SlabPages.getSlab
          rw [hc]
          exact hget
        rcases hs.nonEmpty c v hv with ⟨slot, hslot⟩
        rcases Option.isSome_iff_exists.mp hslot with ⟨info, hinfo⟩
        have hread := SlabPages.get_fromParts hs hv hinfo
        have hnone' := hnone (fromParts c slot) (by omega)
        have hsome : s.get (fromParts c slot) = some info := hread.2.2.2
        rw [hsome] at hnone'
        cases hnone'

theorem Represents.isEmpty (h : s.Represents m) : s.isEmpty = true ↔ m = SortedMap.empty := by
  rw [isEmpty_iff]
  constructor
  · intro hnone
    apply SortedMap.ext
    intro k
    rw [SortedMap.get?_empty]
    cases hget : m.get? k with
    | none => rfl
    | some info =>
        rcases h.keys k info hget with ⟨t, ht, rfl⟩
        have hread := h.get ht
        rw [hnone _ (coordinate_lt ht), hget] at hread
        cases hread
  · rintro rfl i hi
    cases hget : s.get i with
    | none => rfl
    | some info =>
        rcases (h.entries i info hi).mp hget with ⟨t, _, _, hempty⟩
        cases hempty

theorem Represents.decodable (h : s.Represents m) : s.pages.Decodable := by
  intro i j hi hj heq
  rcases h.key hi with ⟨t, _, ht, rfl, _⟩
  rcases h.key hj with ⟨u, _, hu, rfl, _⟩
  have hticks : toTick (s.indexer t) s.tickSpacing.asU32 =
      toTick (s.indexer u) s.tickSpacing.asU32 := heq
  rw [toTick_coordinate ht, toTick_coordinate hu] at hticks
  have hpos := s.spacing_pos
  exact (compress_inj ht hu).mpr (Int.eq_of_mul_eq_mul_right (by omega) hticks)

theorem Represents.snapshot (h : s.Represents m) (u : Int) :
    s.snapshot.get? u =
      if s.tickSpacing.value ∣ u then (m.get? (s.compress u)).map TickInfo.inner else none := by
  have hpos := s.spacing_pos
  have hsnapshot (inner : TickInfoInner) : s.snapshot.get? u = some inner ↔ _ :=
    SlabPages.snapshot_get? s.wellFormed h.decodable
  apply Option.ext
  intro inner
  rw [hsnapshot]
  constructor
  · rintro ⟨i, info, hi, hget, hdecode, rfl⟩
    rcases (h.entries i info hi).mp hget with ⟨t, ht, rfl, hmap⟩
    have hu : s.compress t * s.tickSpacing.value = u := (toTick_coordinate ht).symm.trans hdecode
    have hk : s.compress u = s.compress t := by
      rw [← hu]
      exact Int.mul_ediv_cancel _ (by omega)
    rw [if_pos ⟨s.compress t, by rw [← hu, Int.mul_comm]⟩, hk, hmap]
    rfl
  · intro hmap
    split at hmap
    · rename_i hdvd
      rcases Option.map_eq_some_iff.mp hmap with ⟨info, hget, hinner⟩
      rcases h.keys _ _ hget with ⟨t, ht, hk⟩
      refine ⟨s.indexer t, info, coordinate_lt ht, (h.get ht).trans (hk ▸ hget), ?_, hinner⟩
      show toTick (s.indexer t) s.tickSpacing.asU32 = u
      rw [toTick_coordinate ht, hk]
      exact Int.ediv_mul_cancel hdvd
    · cases hmap

end Represents

end TickSlab

/-!
# The stores agree
-/

namespace SlabPages

variable {A : Type} [LawfulAllocator TickSlabValue A]

def InUse (s : SlabPages A) (c : Nat) : Prop := (s.getSlab c).isSome = true

/-- What bitmap, cache, allocator and links know of the pages. -/
structure PagesAgree (s : SlabPages A) : Prop where
  bit_iff : forall c, s.bitmap.contains c = true ↔ s.cache.get c ≠ initialCacheValue
  page_iff : forall c, s.cache.get c ≠ initialCacheValue ↔
    exists v, Allocator.get? s.values (s.cache.get c) = some v ∧ 0 < v.initialized
  keys_distinct : forall c d, s.cache.get c ≠ initialCacheValue ->
    s.cache.get c = s.cache.get d -> c = d
  keys_whole : forall key v, Allocator.get? s.values key = some v ->
    key ≠ initialCacheValue ∧ exists c, s.cache.get c = key
  prev_nearest : forall c v, s.getSlab c = some v -> GreatestIn (before s.InUse c) v.prevIdx
  next_nearest : forall c v, s.getSlab c = some v -> LeastIn (after s.InUse c) v.nextIdx

section PagesAgree

variable {s : SlabPages A} {c : Nat} {v : TickSlabValue}

theorem inUse_eq_mem (hs : s.WellFormed) : s.InUse = s.bitmap.Mem := by
  funext c
  unfold InUse
  rw [Option.isSome_iff_exists]
  exact propext (mem_iff_getSlab hs.toStored).symm

theorem initialized_pos (hs : s.WellFormed) (hv : s.getSlab c = some v) : 0 < v.initialized := by
  rcases hs.nonEmpty c v hv with ⟨slot, hslot⟩
  apply Nat.pos_of_ne_zero
  intro hzero
  have hnone := (TickSlabValue.initialized_eq_zero (hs.page c v hv)).mp hzero slot
  unfold TickSlabValue.Holds at hslot
  rw [hnone] at hslot
  cases hslot

theorem WellFormed.pagesAgree (hs : s.WellFormed) : s.PagesAgree where
  bit_iff := fun c => by
    rw [HierBitmap.contains_iff hs.bitmap, hs.mem_iff, getKey_isSome]
  page_iff := fun c => by
    constructor
    · intro hne
      have hkey : s.getKey c = some (s.cache.get c) := getKey_eq_some.mpr ⟨rfl, hne⟩
      rcases Option.isSome_iff_exists.mp (hs.live c _ hkey) with ⟨v, hv⟩
      have hslab : s.getSlab c = some v := by
        unfold getSlab
        rw [hkey]
        exact hv
      exact ⟨v, hv, initialized_pos hs hslab⟩
    · rintro ⟨v, hv, _⟩
      rcases hs.owned _ v hv with ⟨d, hd⟩
      exact (getKey_eq_some.mp hd).2
  keys_distinct := fun c d hne heq =>
    hs.injective c d (s.cache.get c) (getKey_eq_some.mpr ⟨rfl, hne⟩)
      (getKey_eq_some.mpr ⟨heq.symm, hne⟩)
  keys_whole := fun key v hv => by
    rcases hs.owned key v hv with ⟨c, hc⟩
    exact ⟨(getKey_eq_some.mp hc).2, c, (getKey_eq_some.mp hc).1⟩
  prev_nearest := fun c v hv => by
    rw [hs.prevLink c v hv, inUse_eq_mem hs]
    exact s.bitmap.prev_spec hs.bitmap c
  next_nearest := fun c v hv => by
    rw [hs.nextLink c v hv, inUse_eq_mem hs]
    exact s.bitmap.next_spec hs.bitmap c

end PagesAgree

end SlabPages

namespace TickSlab

variable {A : Type} [LawfulAllocator TickSlabValue A]

/-!
# The slab answers as the map
-/

/-- Every read and every call of the slab answers as the map does. -/
structure AnswersAs (s : TickSlab A) (m : SortedMap Int TickInfo) : Prop where
  get : forall t, TickInRange t -> s.get (s.indexer t) = m.get? (s.compress t)
  next : forall t, TickInRange t ->
    s.next (s.indexer t) = (m.findGT? (s.compress t)).map s.compressedEntry
  prev : forall t, TickInRange t ->
    s.prev (s.indexer t) = (m.findLT? (s.compress t)).map s.compressedEntry
  nextInitializedTick_down : forall t, TickInRange t ->
    s.nextInitializedTick (s.indexer t) true =
      (m.findLE? (s.compress t)).map s.compressedEntry
  nextInitializedTick_up : forall t, TickInRange t ->
    s.nextInitializedTick (s.indexer t) false =
      (m.findGT? (s.compress t)).map s.compressedEntry
  isEmpty : s.isEmpty = true ↔ m = SortedMap.empty
  snapshot : forall u, s.snapshot.get? u =
    if s.tickSpacing.value ∣ u then (m.get? (s.compress u)).map TickInfo.inner else none
  insert : forall t info, TickInRange t -> exists s', s.insert (s.indexer t) info = .ok s'
  updateInitializedTick : forall (α : Type) t
    (update : Int -> Nat -> TickInfoInner -> Except Error α × TickInfoInner), TickInRange t ->
    (s.updateInitializedTick (s.indexer t) update).1 =
      match m.get? (s.compress t) with
      | some tickInfo => (update tickInfo.tickIndex tickInfo.sqrtPriceX96 tickInfo.inner).1
      | none => .error .missingInitializedTick

theorem Represents.answersAs {s : TickSlab A} {m : SortedMap Int TickInfo}
    (h : s.Represents m) : s.AnswersAs m where
  get := fun _ ht => h.get ht
  next := fun _ ht => h.next ht
  prev := fun _ ht => h.prev ht
  nextInitializedTick_down := fun _ ht => h.prevOrEq ht
  nextInitializedTick_up := fun _ ht => h.next ht
  isEmpty := h.isEmpty
  snapshot := h.snapshot
  insert := fun _ info ht => s.insert_inRange ht info
  updateInitializedTick := fun _ _ update ht => (h.update ht update).1

/-- Over any allocator a slab answers after any calls as the ordered map of compressed
ticks does, and its stores agree. -/
theorem calls_refine_map {tickSpacing : TickSpacing} (hspacing : tickSpacing.IsPositive)
    {calls : List SlabCall} (hcalls : forall c, c ∈ calls -> TickInRange c.tick) :
    (calls.foldl SlabCall.onSlab (new tickSpacing hspacing : TickSlab A)).AnswersAs
        (calls.foldl (SlabCall.onMap tickSpacing.value) SortedMap.empty) ∧
      (calls.foldl SlabCall.onSlab (new tickSpacing hspacing : TickSlab A)).pages.PagesAgree :=
  ⟨((represents_new hspacing).calls hcalls).1.answersAs, (wellFormed _).pagesAgree⟩

/-- Two ticks of one page, of which the lower is removed again, and the lowest tick of all. -/
theorem calls_refine_map_sample :
    let tickSpacing : TickSpacing := ⟨60, by decide⟩
    let info : TickInfo := { tickIndex := 0, sqrtPriceX96 := 0, inner := TickInfoInner.default }
    let calls : List SlabCall :=
      [.insert 121 info, .insert 61 info, .insert minTick info, .remove 119,
        .crossTick minTick 5 6]
    let s : TickSlab := calls.foldl SlabCall.onSlab (new tickSpacing (by decide))
    s.AnswersAs (calls.foldl (SlabCall.onMap 60) SortedMap.empty) ∧ s.pages.PagesAgree := by
  intro tickSpacing info calls s
  have hcalls : forall c, c ∈ calls -> TickInRange c.tick := by
    intro c hc
    simp only [calls, List.mem_cons, List.not_mem_nil, or_false] at hc
    rcases hc with rfl | rfl | rfl | rfl | rfl <;> decide
  exact calls_refine_map (by decide) hcalls

end TickSlab

end RmUniswap
