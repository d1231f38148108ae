import RmUniswap.Foundation.Arena
import RmUniswap.Ticks.SlabInvariant

/-!
# The slab as an ordered map

Keys are slab coordinates of twenty-one bits. The operations read and update
one key, and the searches find its nearest neighbours.
-/

namespace RmUniswap

open Foundation

namespace SlabPages

variable {A : Type} [LawfulAllocator TickSlabValue A]

/-- The coordinates that hold a tick. -/
def Key (s : SlabPages A) (i : Nat) : Prop :=
  Paged 32 (fun c slot => (s.pageInfo c slot).isSome = true) i

theorem parts_eq_iff {i j : Nat} (hi : i < 2 ^ 21) (hj : j < 2 ^ 21) :
    cacheIndex j = cacheIndex i ∧ slotIndex j = slotIndex i ↔ j = i := by
  rw [cacheIndex_eq hi, cacheIndex_eq hj, slotIndex_eq,
    slotIndex_eq]
  omega

section Search

variable {s : SlabPages A} {c i a : Nat}

theorem pageInfo_isSome (hs : s.WellFormed) {slot : Nat}
    (h : (s.pageInfo c slot).isSome = true) :
    slot < 32 ∧ exists v, s.getSlab c = some v ∧ v.Holds slot := by
  unfold pageInfo at h
  cases hv : s.getSlab c with
  | none =>
      rw [hv] at h
      cases h
  | some v =>
      rw [hv, Option.bind_some] at h
      exact ⟨TickSlabValue.slotInfo_lt (hs.page c v hv) h, v, rfl, h⟩

theorem key_lt (hs : s.WellFormed) (h : s.Key i) : i < 2 ^ 21 := by
  rcases pageInfo_isSome hs h with ⟨_, v, hv, _⟩
  have hmem := (mem_iff_getSlab hs.toStored).mpr ⟨v, hv⟩
  have := hs.bitmap.below _ hmem
  have := hs.cap_lt
  omega

theorem key_iff (hi : i < 2 ^ 21) : s.Key i ↔ (s.get i).isSome = true := by
  rw [get_eq, cacheIndex_eq hi, slotIndex_eq]
  rfl

theorem nonEmptyPage_iff (hs : s.WellFormed) :
    NonEmptyPage 32 (fun c slot => (s.pageInfo c slot).isSome = true) c ↔ s.bitmap.Mem c := by
  rw [mem_iff_getSlab hs.toStored]
  constructor
  · rintro ⟨slot, _, hslot⟩
    rcases pageInfo_isSome hs hslot with ⟨_, v, hv, _⟩
    exact ⟨v, hv⟩
  · rintro ⟨v, hv⟩
    rcases hs.nonEmpty c v hv with ⟨slot, hslot⟩
    refine ⟨slot, TickSlabValue.slotInfo_lt (hs.page c v hv) hslot, ?_⟩
    show ((s.getSlab c).bind fun v => v.slotInfo slot).isSome = true
    rw [hv]
    exact hslot

theorem nonEmptyPage_eq (hs : s.WellFormed) :
    NonEmptyPage 32 (fun c slot => (s.pageInfo c slot).isSome = true) = s.bitmap.Mem :=
  funext fun _ => propext (nonEmptyPage_iff hs)

theorem get_mul_add {slot : Nat} (hc : c < 2 ^ 16) (h : slot < 32) :
    s.get (c * 32 + slot) = s.pageInfo c slot := by
  rw [get_eq, cacheIndex_eq (by omega), slotIndex_eq]
  congr 1 <;> omega

theorem pageInfo_of_slab {v : TickSlabValue} (hv : s.getSlab c = some v) (slot : Nat) :
    s.pageInfo c slot = v.slotInfo slot := by
  unfold pageInfo
  rw [hv]
  rfl

theorem slab_index_lt (hs : s.WellFormed) {v : TickSlabValue} (hv : s.getSlab c = some v) :
    c < 2 ^ 16 := by
  have := hs.bitmap.below _ ((mem_iff_getSlab hs.toStored).mpr ⟨v, hv⟩)
  have := hs.cap_lt
  omega

theorem firstSlot_next (hs : s.WellFormed)
    (hempty : forall slot, slot < 32 -> (s.pageInfo c slot).isSome = true -> slot < a)
    (ha : a ≤ 32) {o : Option Nat} (ho : LeastIn (after s.bitmap.Mem c) o) :
    LeastEntry s.get (atOrAfter s.Key (c * 32 + a))
      (o.bind fun n => (s.getSlab n).bind fun page => page.firstSlot.map (slotAt n)) := by
  have hset := nonEmptyPage_eq hs
  cases o with
  | none =>
      apply least_none (by norm_num) hempty ha
      rw [hset]
      exact ho
  | some n =>
      rcases (mem_iff_getSlab hs.toStored).mp ho.1.1 with ⟨v, hv⟩
      have hn := slab_index_lt hs hv
      have hfirst := TickSlabValue.firstSlot_spec (hs.page n v hv)
      rw [Option.bind_some, hv, Option.bind_some]
      cases hf : v.firstSlot with
      | none =>
          rw [hf] at hfirst
          rcases hs.nonEmpty n v hv with ⟨slot, hslot⟩
          exact absurd hslot (hfirst slot)
      | some found =>
          rw [hf] at hfirst
          have hlt := TickSlabValue.slotInfo_lt (hs.page n v hv) hfirst.1.1
          rw [Option.map_some, slotAt, fromParts_eq hlt]
          constructor
          · apply least_later hempty ha
            · rw [hset]
              exact ho
            · simp only [pageInfo_of_slab hv]
              exact ⟨⟨hlt, hfirst.1.1⟩, fun j hj => hfirst.1.2 hj.2⟩
          · rw [get_mul_add hn hlt, pageInfo_of_slab hv]
            exact hfirst.2

theorem lastSlot_prev (hs : s.WellFormed)
    (hempty : forall slot, slot < 32 -> (s.pageInfo c slot).isSome = true -> a ≤ slot)
    (ha : a ≤ 32) {o : Option Nat} (ho : GreatestIn (before s.bitmap.Mem c) o) :
    GreatestEntry s.get (before s.Key (c * 32 + a))
      (o.bind fun n => (s.getSlab n).bind fun page => page.lastSlot.map (slotAt n)) := by
  have hset := nonEmptyPage_eq hs
  cases o with
  | none =>
      apply greatest_none (by norm_num) hempty ha
      rw [hset]
      exact ho
  | some n =>
      rcases (mem_iff_getSlab hs.toStored).mp ho.1.1 with ⟨v, hv⟩
      have hn := slab_index_lt hs hv
      have hlast := TickSlabValue.lastSlot_spec (hs.page n v hv)
      rw [Option.bind_some, hv, Option.bind_some]
      cases hf : v.lastSlot with
      | none =>
          rw [hf] at hlast
          rcases hs.nonEmpty n v hv with ⟨slot, hslot⟩
          exact absurd hslot (hlast slot)
      | some found =>
          rw [hf] at hlast
          have hlt := TickSlabValue.slotInfo_lt (hs.page n v hv) hlast.1.1
          rw [Option.map_some, slotAt, fromParts_eq hlt]
          constructor
          · apply greatest_earlier hempty ha
            · rw [hset]
              exact ho
            · simp only [pageInfo_of_slab hv]
              exact ⟨⟨hlt, hlast.1.1⟩, fun j hj => hlast.1.2 hj.2⟩
          · rw [get_mul_add hn hlt, pageInfo_of_slab hv]
            exact hlast.2

theorem next_spec (hs : s.WellFormed) (hi : i < 2 ^ 21) :
    LeastEntry s.get (after s.Key i) (s.next i) := by
  have hslot := slotIndex_eq i
  have hlt := slotIndex_lt i
  have hstart : after s.Key i = atOrAfter s.Key (cacheIndex i * 32 + (slotIndex i + 1)) := by
    have hstart : cacheIndex i * 32 + (slotIndex i + 1) = i + 1 := by
      rw [cacheIndex_eq hi, hslot]
      omega
    rw [hstart]
    rfl
  unfold next
  simp only
  cases hv : s.getSlab (cacheIndex i) with
  | none =>
      dsimp only
      have hmem : ¬ s.bitmap.Mem (cacheIndex i) := by
        intro hc
        rcases (mem_iff_getSlab hs.toStored).mp hc with ⟨v, hv'⟩
        rw [hv] at hv'
        cases hv'
      have ho := s.bitmap.nextOrEq_spec hs.bitmap (cacheIndex i)
      rw [atOrAfter_eq_after hmem] at ho
      rw [hstart]
      apply firstSlot_next hs _ (by omega) ho
      intro slot _ hsome
      unfold pageInfo at hsome
      rw [hv] at hsome
      cases hsome
  | some v =>
      dsimp only
      have hc := slab_index_lt hs hv
      have hnext := TickSlabValue.nextSlot_spec (hs.page _ v hv) i
      rw [hstart]
      cases hn : v.nextSlot i with
      | none =>
          rw [hn] at hnext
          dsimp only
          have ho := s.bitmap.next_spec hs.bitmap (cacheIndex i)
          rw [hs.nextLink _ v hv]
          apply firstSlot_next hs _ (by omega) ho
          intro slot _ hsome
          rw [pageInfo_of_slab hv] at hsome
          by_contra hge
          exact hnext slot ⟨hsome, by omega⟩
      | some found =>
          rw [hn] at hnext
          have hfound := TickSlabValue.slotInfo_lt (hs.page _ v hv) hnext.1.1.1
          dsimp only
          rw [slotAt, fromParts_eq hfound]
          constructor
          · apply least_same
            simp only [pageInfo_of_slab hv]
            exact ⟨⟨hfound, hnext.1.1.1, hnext.1.1.2⟩,
              fun j hj => hnext.1.2 ⟨hj.2.1, hj.2.2⟩⟩
          · rw [get_mul_add hc hfound, pageInfo_of_slab hv]
            exact hnext.2

theorem prev_spec (hs : s.WellFormed) (hi : i < 2 ^ 21) :
    GreatestEntry s.get (before s.Key i) (s.prev i) := by
  have hslot := slotIndex_eq i
  have hlt := slotIndex_lt i
  have hstart : i = cacheIndex i * 32 + slotIndex i := by
    rw [cacheIndex_eq hi, hslot]
    omega
  unfold prev
  simp only
  cases hv : s.getSlab (cacheIndex i) with
  | none =>
      dsimp only
      have hmem : ¬ s.bitmap.Mem (cacheIndex i) := by
        intro hc
        rcases (mem_iff_getSlab hs.toStored).mp hc with ⟨v, hv'⟩
        rw [hv] at hv'
        cases hv'
      have ho := s.bitmap.prevOrEq_spec hs.bitmap (cacheIndex i)
      rw [atOrBefore_eq_before hmem] at ho
      have hprev := lastSlot_prev hs (a := slotIndex i) (by
        intro slot _ hsome
        unfold pageInfo at hsome
        rw [hv] at hsome
        cases hsome) (le_of_lt hlt) ho
      rw [← hstart] at hprev
      exact hprev
  | some v =>
      dsimp only
      have hc := slab_index_lt hs hv
      have hprev := TickSlabValue.prevSlot_spec (hs.page _ v hv) i
      cases hn : v.prevSlot i with
      | none =>
          rw [hn] at hprev
          dsimp only
          have ho := s.bitmap.prev_spec hs.bitmap (cacheIndex i)
          rw [hs.prevLink _ v hv]
          have hlast := lastSlot_prev hs (a := slotIndex i) (by
            intro slot _ hsome
            rw [pageInfo_of_slab hv] at hsome
            by_contra hge
            exact hprev slot ⟨hsome, not_le.mp hge⟩) (le_of_lt hlt) ho
          rw [← hstart] at hlast
          exact hlast
      | some found =>
          rw [hn] at hprev
          have hfound := TickSlabValue.slotInfo_lt (hs.page _ v hv) hprev.1.1.1
          dsimp only
          rw [slotAt, fromParts_eq hfound]
          constructor
          · have hsame := greatest_same (u := cacheIndex i) (le_of_lt hlt)
              (P := fun c slot => (s.pageInfo c slot).isSome = true) (i := found.1) (by
                simp only [pageInfo_of_slab hv]
                exact ⟨⟨hfound, hprev.1.1.1, hprev.1.1.2⟩,
                  fun j hj => hprev.1.2 ⟨hj.2.1, hj.2.2⟩⟩)
            rw [← hstart] at hsame
            exact hsame
          · rw [get_mul_add hc hfound, pageInfo_of_slab hv]
            exact hprev.2

end Search

/-!
# The snapshot

Visiting the pages in order decodes every stored coordinate.
-/

section Snapshot

variable {s : SlabPages A} {u : Int} {inner : TickInfoInner}

def Decodable (s : SlabPages A) : Prop :=
  forall i j, s.Key i -> s.Key j ->
    toTick i s.tickSpacing.asU32 = toTick j s.tickSpacing.asU32 -> i = j

def DecodesBelow (s : SlabPages A) (bound : Nat) (u : Int) (inner : TickInfoInner) : Prop :=
  exists i info, i < bound * 32 ∧ s.get i = some info ∧ toTick i s.tickSpacing.asU32 = u ∧
    info.inner = inner

def Visited (s : SlabPages A) (bound : Nat) (acc : SortedMap Int TickInfoInner) : Prop :=
  forall u inner, acc.get? u = some inner ↔ s.DecodesBelow bound u inner

theorem page_of_get (hs : s.WellFormed) {i : Nat} (hi : i < 2 ^ 21) {info : TickInfo}
    (h : s.get i = some info) :
    exists v, s.getSlab (i / 32) = some v ∧ v.slotInfo (i % 32) = some info := by
  have hinfo : s.pageInfo (i / 32) (i % 32) = some info := by
    rw [← get_mul_add (by omega) (Nat.mod_lt _ (by norm_num)), Nat.div_add_mod']
    exact h
  rcases pageInfo_isSome hs (by rw [hinfo]; rfl) with ⟨_, v, hv, _⟩
  exact ⟨v, hv, (pageInfo_of_slab hv _).symm.trans hinfo⟩

theorem get_fromParts (hs : s.WellFormed) {c slot : Nat} {v : TickSlabValue} {info : TickInfo}
    (hv : s.getSlab c = some v) (hslot : v.slotInfo slot = some info) :
    fromParts c slot = c * 32 + slot ∧ slot < 32 ∧ c < 2 ^ 16 ∧
      s.get (fromParts c slot) = some info := by
  have hc := slab_index_lt hs hv
  have hlt := TickSlabValue.slotInfo_lt (hs.page c v hv) (by rw [hslot]; rfl)
  refine ⟨fromParts_eq hlt, hlt, hc, ?_⟩
  rw [fromParts_eq hlt, get_mul_add hc hlt, pageInfo_of_slab hv, hslot]

theorem visited_page (hs : s.WellFormed) (hd : s.Decodable) {bound c : Nat}
    {acc : SortedMap Int TickInfoInner} (hacc : s.Visited bound acc)
    (hc : IsLeast (atOrAfter s.bitmap.Mem bound) c) :
    s.Visited (c + 1) (s.snapshotPage c acc) := by
  rcases (mem_iff_getSlab hs.toStored).mp hc.1.1 with ⟨v, hv⟩
  have hpage := hs.page c v hv
  have hc16 := slab_index_lt hs hv
  have hslots (b : Nat × TickInfo) (hb : b ∈ v.initializedSlots) :=
    get_fromParts hs hv ((TickSlabValue.mem_initializedSlots hpage).mp hb)
  intro u inner
  unfold snapshotPage
  rw [hv]
  dsimp only
  rw [SortedMap.get?_foldl_insert]
  · constructor
    · rintro (⟨b, hb, hkey, hval⟩ | ⟨_, hget⟩)
      · have h := hslots b hb
        exact ⟨_, b.2, by omega, h.2.2.2, hkey, hval⟩
      · rcases (hacc u inner).mp hget with ⟨i, info, hi, hrest⟩
        have := hc.1.2
        exact ⟨i, info, by omega, hrest⟩
    · rintro ⟨i, info, hi, hinfo, hdecode, hinner⟩
      have hi21 : i < 2 ^ 21 := by omega
      rcases page_of_get hs hi21 hinfo with ⟨w, hw, hslot⟩
      by_cases hpagec : i / 32 = c
      · -- A coordinate of this page.
        rw [hpagec, hv] at hw
        cases hw
        have hmem := (TickSlabValue.mem_initializedSlots hpage).mpr hslot
        have hparts : fromParts c (i % 32) = i := by
          rw [(hslots _ hmem).1]
          omega
        exact Or.inl ⟨(i % 32, info), hmem, by rw [hparts, hdecode], hinner⟩
      · -- A coordinate of an earlier page; no page lies between.
        have hmem := (mem_iff_getSlab hs.toStored).mpr ⟨w, hw⟩
        have hearlier : i < bound * 32 := by
          by_contra hge
          have := hc.2 ⟨hmem, by omega⟩
          omega
        refine Or.inr ⟨?_, (hacc u inner).mpr ⟨i, info, hearlier, hinfo, hdecode, hinner⟩⟩
        intro b hb hkey
        have h := hslots b hb
        have hi' : s.Key i := (key_iff hi21).mpr (by rw [hinfo]; rfl)
        have hb' : s.Key (fromParts c b.1) := (key_iff (by omega)).mpr (by rw [h.2.2.2]; rfl)
        have heq := hd _ _ hb' hi' (hkey.trans hdecode.symm)
        omega
  · intro b b' hb hb' heq
    have h := hslots b hb
    have h' := hslots b' hb'
    have hk : s.Key (fromParts c b.1) := (key_iff (by omega)).mpr (by rw [h.2.2.2]; rfl)
    have hk' : s.Key (fromParts c b'.1) := (key_iff (by omega)).mpr (by rw [h'.2.2.2]; rfl)
    have hparts := hd _ _ hk hk' heq
    have hinfo := h.2.2.2
    rw [hparts, h'.2.2.2] at hinfo
    rw [Option.some.inj hinfo]

theorem visited_loop (hs : s.WellFormed) (hd : s.Decodable) (bound : Nat) {fuel : Nat}
    {o : Option Nat} {acc : SortedMap Int TickInfoInner} (hacc : s.Visited bound acc)
    (hbound : bound ≤ 2 ^ 16) (ho : LeastIn (atOrAfter s.bitmap.Mem bound) o)
    (hfuel : s.bitmap.cap < fuel + bound) : s.Visited (2 ^ 16) (s.snapshotLoop fuel o acc) := by
  -- With no page left, the pages below the bound are all pages.
  have hdone (acc : SortedMap Int TickInfoInner) (b : Nat) (hb : b ≤ 2 ^ 16)
      (hacc : s.Visited b acc) (hnone : forall c, c ∉ atOrAfter s.bitmap.Mem b) :
      s.Visited (2 ^ 16) acc := by
    intro u inner
    rw [hacc u inner]
    constructor
    · rintro ⟨i, info, hi, hrest⟩
      exact ⟨i, info, by omega, hrest⟩
    · rintro ⟨i, info, hi, hinfo, hrest⟩
      refine ⟨i, info, ?_, hinfo, hrest⟩
      by_contra hge
      rcases page_of_get hs (by omega) hinfo with ⟨v, hv, _⟩
      exact hnone (i / 32) ⟨(mem_iff_getSlab hs.toStored).mpr ⟨v, hv⟩, by omega⟩
  induction fuel generalizing bound o acc with
  | zero =>
      refine hdone _ bound hbound hacc fun c hc => ?_
      have := hs.bitmap.below c hc.1
      have := hc.2
      omega
  | succ fuel ih =>
      cases o with
      | none =>
          exact hdone acc bound hbound hacc ho
      | some c =>
          have hle := ho.1.2
          have hlt := hs.bitmap.below c ho.1.1
          have hcap := hs.cap_lt
          exact ih _ (visited_page hs hd hacc ho) (by omega)
            (s.bitmap.next_spec hs.bitmap c) (by omega)

theorem snapshot_get? (hs : s.WellFormed) (hd : s.Decodable) :
    s.snapshot.get? u = some inner ↔ exists i info, i < 2 ^ 21 ∧ s.get i = some info ∧
      toTick i s.tickSpacing.asU32 = u ∧ info.inner = inner := by
  have hvisited : s.Visited (2 ^ 16) s.snapshot := by
    apply visited_loop hs hd 0
    · intro u inner
      rw [SortedMap.get?_empty]
      constructor
      · intro h
        cases h
      · rintro ⟨i, info, hi, _⟩
        omega
    · omega
    · exact s.bitmap.nextOrEq_spec hs.bitmap 0
    · omega
  exact hvisited u inner

end Snapshot

end SlabPages

/-!
# The bundled slab
-/

/-- A slab whose bitmap, cache, allocator and links agree. -/
structure TickSlab (A : Type := Arena TickSlabValue) [LawfulAllocator TickSlabValue A] where
  pages : SlabPages A
  wellFormed : pages.WellFormed
  shaped : pages.Shaped

namespace TickSlab

variable {A : Type} [LawfulAllocator TickSlabValue A]

def new (tickSpacing : TickSpacing) (h : tickSpacing.IsPositive) : TickSlab A :=
  { pages := SlabPages.new tickSpacing
    wellFormed := SlabPages.new_wf h
    shaped := ⟨h, rfl, rfl⟩ }

def tickSpacing (s : TickSlab A) : TickSpacing := s.pages.tickSpacing

def maxLiquidityPerTick (s : TickSlab A) : Nat := s.pages.maxLiquidityPerTick

def indexer (s : TickSlab A) (tickIdx : Int) : Nat := s.pages.indexer tickIdx

def insert (s : TickSlab A) (tickIndexer : Nat) (tickInfo : TickInfo) : Except Error (TickSlab A) :=
  match h : s.pages.insert tickIndexer tickInfo with
  | .ok pages =>
      .ok
        { pages
          wellFormed := (SlabPages.insert_spec s.wellFormed h).1
          shaped := s.shaped.of_same (SlabPages.insert_shape h) }
  | .error e => .error e

def isEmpty (s : TickSlab A) : Bool := s.pages.isEmpty

def get (s : TickSlab A) (tickIndexer : Nat) : Option TickInfo := s.pages.get tickIndexer

def next (s : TickSlab A) (tickIndexer : Nat) : Option (Nat × TickInfo) :=
  s.pages.next tickIndexer

def prev (s : TickSlab A) (tickIndexer : Nat) : Option (Nat × TickInfo) :=
  s.pages.prev tickIndexer

def nextInitializedTick (s : TickSlab A) (tickIndexer : Nat) (zeroForOne : Bool) :
    Option (Nat × TickInfo) :=
  if zeroForOne then
    match s.get tickIndexer with
    | some tickInfo => some (tickIndexer, tickInfo)
    | none => s.prev tickIndexer
  else
    s.next tickIndexer

def write (s : TickSlab A) (tickIndexer : Nat) (tickInfo : TickInfo) : TickSlab A :=
  { pages := s.pages.write tickIndexer tickInfo
    wellFormed := (SlabPages.write_spec s.wellFormed tickIndexer tickInfo).1
    shaped := s.shaped.of_same (SlabPages.write_shape s.pages tickIndexer tickInfo) }

/-- Run an update on an initialized tick; a missing tick leaves the slab alone.
The closure sees the tick index and the price and rewrites the accounting. -/
def updateInitializedTick {α : Type} (s : TickSlab A) (tickIndexer : Nat)
    (update : Int -> Nat -> TickInfoInner -> Except Error α × TickInfoInner) :
    Except Error α × TickSlab A :=
  match s.get tickIndexer with
  | none => (.error .missingInitializedTick, s)
  | some tickInfo =>
      let (result, inner) := update tickInfo.tickIndex tickInfo.sqrtPriceX96 tickInfo.inner
      (result, s.write tickIndexer { tickInfo with inner })

/-- Flip the outside growth of both tokens and return the net liquidity. -/
def crossTick (s : TickSlab A) (tickIndexer feeGrowthGlobal0X128 feeGrowthGlobal1X128 : Nat) :
    Except Error Int × TickSlab A :=
  s.updateInitializedTick tickIndexer fun _ _ tickInfo =>
    (.ok tickInfo.liquidityNet,
      { tickInfo with
        feeGrowthOutside0X128 :=
          wrappingSub 256 feeGrowthGlobal0X128 tickInfo.feeGrowthOutside0X128
        feeGrowthOutside1X128 :=
          wrappingSub 256 feeGrowthGlobal1X128 tickInfo.feeGrowthOutside1X128 })

def remove (s : TickSlab A) (tickIndexer : Nat) : TickSlab A :=
  { pages := s.pages.remove tickIndexer
    wellFormed := (SlabPages.remove_spec s.wellFormed tickIndexer).1
    shaped := s.shaped.of_same (SlabPages.remove_shape s.pages tickIndexer) }

def snapshot (s : TickSlab A) : SortedMap Int TickInfoInner := s.pages.snapshot

/-!
# Reads after updates
-/

section Reads

variable {s s' : TickSlab A} {i j : Nat} {info : TickInfo}

theorem get_new {tickSpacing : TickSpacing} (h : tickSpacing.IsPositive) (i : Nat) :
    (new tickSpacing h : TickSlab A).get i = none := by
  simp [get, new, SlabPages.get, SlabPages.getSlab, SlabPages.getKey, SlabPages.new]

theorem insert_pages (h : s.insert i info = .ok s') : s.pages.insert i info = .ok s'.pages := by
  unfold insert at h
  split at h
  · rename_i pages hpages
    cases h
    exact hpages
  · cases h

theorem get_insert (h : s.insert i info = .ok s') (hi : i < 2 ^ 21) (hj : j < 2 ^ 21) :
    s'.get j = if j = i then some info else s.get j := by
  have hspec := (SlabPages.insert_spec s.wellFormed (insert_pages h)).2
  unfold get
  rw [SlabPages.get_eq, hspec, SlabPages.get_eq]
  simp only [SlabPages.parts_eq_iff hi hj]

theorem get_write (s : TickSlab A) (info : TickInfo) (hi : i < 2 ^ 21) (hj : j < 2 ^ 21) :
    (s.write i info).get j = if j = i then (s.get j).map (fun _ => info) else s.get j := by
  have hspec := (SlabPages.write_spec s.wellFormed i info).2
  unfold get write
  rw [SlabPages.get_eq, hspec, SlabPages.get_eq]
  simp only [SlabPages.parts_eq_iff hi hj]

theorem get_remove (s : TickSlab A) (hi : i < 2 ^ 21) (hj : j < 2 ^ 21) :
    (s.remove i).get j = if j = i then none else s.get j := by
  have hspec := (SlabPages.remove_spec s.wellFormed i).2
  unfold get remove
  rw [SlabPages.get_eq, hspec, SlabPages.get_eq]
  simp only [SlabPages.parts_eq_iff hi hj]

theorem tickSpacing_insert (h : s.insert i info = .ok s') : s'.tickSpacing = s.tickSpacing :=
  (SlabPages.insert_shape (insert_pages h)).tickSpacing

@[simp] theorem tickSpacing_write (s : TickSlab A) (i : Nat) (info : TickInfo) :
    (s.write i info).tickSpacing = s.tickSpacing :=
  (SlabPages.write_shape s.pages i info).tickSpacing

@[simp] theorem tickSpacing_remove (s : TickSlab A) (i : Nat) :
    (s.remove i).tickSpacing = s.tickSpacing :=
  (SlabPages.remove_shape s.pages i).tickSpacing

theorem maxLiquidityPerTick_eq (s : TickSlab A) :
    s.maxLiquidityPerTick = s.tickSpacing.maxLiquidityPerTick :=
  s.shaped.maxLiquidityPerTick

theorem positive (s : TickSlab A) : s.tickSpacing.IsPositive := s.shaped.positive

theorem insert_eq_ok (s : TickSlab A) (hi : cacheIndex i < calculateCacheCap s.tickSpacing)
    (info : TickInfo) : exists s', s.insert i info = .ok s' := by
  rcases SlabPages.insert_eq_ok s.shaped s.wellFormed hi info with ⟨pages, h⟩
  unfold insert
  split
  · exact ⟨_, rfl⟩
  · rename_i e he
    rw [h] at he
    cases he

end Reads

end TickSlab

end RmUniswap
