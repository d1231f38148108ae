import RmUniswap.Ticks.SlabMap

/-!
# The slab as a map of ticks

When every entry sits at the coordinate of its own tick, the snapshot of the
slab is the map the slab stands for. Reads, writes and searches at the
coordinate of a tick are reads, writes and searches of that map.
-/

namespace RmUniswap

open Foundation

variable {A : Type} [LawfulAllocator TickSlabValue A]

/-- A tick the slab can hold: aligned, and inside the width of its coordinates. -/
structure Storable (tickSpacing : TickSpacing) (t : Int) : Prop where
  aligned : tickSpacing.value ∣ t
  lower : -2 ^ 20 < t
  upper : t ≤ maxTick

theorem Storable.bounds {tickSpacing : TickSpacing} {t : Int} (h : Storable tickSpacing t) :
    -2 ^ 20 ≤ t ∧ t < 2 ^ 20 := by
  have hlo := h.lower
  have hhi := h.upper
  unfold maxTick at hhi
  omega

theorem Storable.indexer_lt {s : TickSlab A} {t : Int}
    (h : Storable s.tickSpacing t) : s.indexer t < 2 ^ 21 := by
  have hb := TickSpacing.asU32_bounds s.positive
  exact fromTick_lt hb.1 hb.2 h.bounds.1 h.bounds.2

namespace TickSlab

/-- Every entry sits at the coordinate of its tick and carries its price. -/
def Keyed (s : TickSlab A) : Prop :=
  forall i info, i < 2 ^ 21 -> s.get i = some info ->
    Storable s.tickSpacing info.tickIndex ∧ i = s.indexer info.tickIndex ∧
      info.sqrtPriceX96 = getSqrtPriceAtTick info.tickIndex

/-!
# Coordinates of ticks
-/

section Indexer

variable {s : TickSlab A} {t u q : Int}

theorem spacing_bounds (s : TickSlab A) :
    0 < s.tickSpacing.asU32 ∧ s.tickSpacing.asU32 < 2 ^ 15 :=
  TickSpacing.asU32_bounds s.positive

theorem indexer_lt (hlo : -2 ^ 20 ≤ t) (hhi : t < 2 ^ 20) : s.indexer t < 2 ^ 21 :=
  fromTick_lt s.spacing_bounds.1 s.spacing_bounds.2 hlo hhi

theorem indexer_lt_iff (ha : -2 ^ 20 ≤ t ∧ t < 2 ^ 20) (hb : -2 ^ 20 ≤ q ∧ q < 2 ^ 20) :
    s.indexer t < s.indexer q ↔ t / s.tickSpacing.value < q / s.tickSpacing.value := by
  have h := fromTick_lt_iff s.spacing_bounds.1 s.spacing_bounds.2 ha hb
  rw [TickSpacing.asU32_eq s.positive] at h
  exact h

theorem indexer_lt_left (ht : Storable s.tickSpacing t) (hq : -2 ^ 20 ≤ q ∧ q < 2 ^ 20) :
    s.indexer q < s.indexer t ↔ q < t := by
  have hpos : 0 < s.tickSpacing.value := s.positive
  obtain ⟨k, hk⟩ := ht.aligned
  rw [indexer_lt_iff hq ht.bounds, hk, Int.mul_ediv_cancel_left _ (by omega),
    Int.ediv_lt_iff_lt_mul hpos, Int.mul_comm]

theorem indexer_le_left (ht : Storable s.tickSpacing t) (hq : -2 ^ 20 ≤ q ∧ q < 2 ^ 20) :
    s.indexer t ≤ s.indexer q ↔ t ≤ q := by
  rw [← not_lt, indexer_lt_left ht hq, not_lt]

theorem indexer_inj (ht : Storable s.tickSpacing t) (hu : Storable s.tickSpacing u) :
    s.indexer t = s.indexer u ↔ t = u := by
  constructor
  · intro h
    apply le_antisymm
    · exact (indexer_le_left ht hu.bounds).mp (le_of_eq h)
    · exact (indexer_le_left hu ht.bounds).mp (le_of_eq h.symm)
  · intro h
    rw [h]

theorem toTick_indexer (ht : Storable s.tickSpacing t) :
    toTick (s.indexer t) s.tickSpacing.asU32 = t := by
  have h := toTick_fromTick s.spacing_bounds.1 s.spacing_bounds.2 ht.bounds.1 ht.bounds.2
  rw [TickSpacing.asU32_eq s.positive, Int.ediv_mul_cancel ht.aligned] at h
  exact h

theorem cacheIndex_indexer_lt (ht : Storable s.tickSpacing t) :
    cacheIndex (s.indexer t) < calculateCacheCap s.tickSpacing := by
  have hb := s.spacing_bounds
  have hmax := fromTick_le hb.1 hb.2 (t := maxTick) (by decide) (le_refl _)
  have hle : s.indexer t ≤ s.indexer maxTick :=
    (indexer_le_left ht (by decide)).mpr ht.upper
  unfold calculateCacheCap
  rw [cacheIndex_eq ht.indexer_lt, cacheIndex_eq (by omega)]
  have : s.indexer maxTick = fromTick maxTick s.tickSpacing.asU32 := rfl
  omega

end Indexer

/-!
# The snapshot
-/

section Snapshot

variable {s : TickSlab A} {t : Int}

def inner? (s : TickSlab A) (t : Int) : Option TickInfoInner :=
  (s.get (s.indexer t)).map fun info => info.inner

theorem Keyed.key_indexer_eq (hk : s.Keyed) {i : Nat} (hi : s.pages.Key i) :
    exists info, i < 2 ^ 21 ∧ s.get i = some info ∧ Storable s.tickSpacing info.tickIndex ∧
      i = s.indexer info.tickIndex := by
  have hlt := SlabPages.key_lt s.wellFormed hi
  rcases Option.isSome_iff_exists.mp ((SlabPages.key_iff hlt).mp hi) with ⟨info, hinfo⟩
  have hkeyed := hk i info hlt hinfo
  exact ⟨info, hlt, hinfo, hkeyed.1, hkeyed.2.1⟩

theorem Keyed.decodable (hk : s.Keyed) : s.pages.Decodable := by
  intro i j hi hj heq
  rcases hk.key_indexer_eq hi with ⟨a, _, _, ha, rfl⟩
  rcases hk.key_indexer_eq hj with ⟨b, _, _, hb, rfl⟩
  have hticks : toTick (s.indexer a.tickIndex) s.tickSpacing.asU32 =
      toTick (s.indexer b.tickIndex) s.tickSpacing.asU32 := heq
  rw [toTick_indexer ha, toTick_indexer hb] at hticks
  rw [hticks]

theorem snapshot_get? (hk : s.Keyed) {inner : TickInfoInner} :
    s.snapshot.get? t = some inner ↔
      Storable s.tickSpacing t ∧ s.inner? t = some inner := by
  unfold inner?
  constructor
  · intro h
    rcases (SlabPages.snapshot_get? s.wellFormed hk.decodable).mp h with
      ⟨i, info, hi, hget, hdecode, hinner⟩
    have hkeyed := hk i info hi hget
    have htick : info.tickIndex = t := by
      have hticks : toTick i s.tickSpacing.asU32 = t := hdecode
      rw [hkeyed.2.1, toTick_indexer hkeyed.1] at hticks
      exact hticks
    have hread : s.get (s.indexer t) = some info := by
      rw [← htick, ← hkeyed.2.1]
      exact hget
    rw [hread, Option.map_some, hinner]
    exact ⟨htick ▸ hkeyed.1, rfl⟩
  · rintro ⟨hst, hinner⟩
    rcases Option.map_eq_some_iff.mp hinner with ⟨info, hinfo, hval⟩
    exact (SlabPages.snapshot_get? s.wellFormed hk.decodable).mpr
      ⟨s.indexer t, info, hst.indexer_lt, hinfo, toTick_indexer hst, hval⟩

theorem Keyed.storable (hk : s.Keyed) {inner : TickInfoInner}
    (h : s.snapshot.get? t = some inner) : Storable s.tickSpacing t :=
  ((snapshot_get? hk).mp h).1

theorem Keyed.get_indexer (hk : s.Keyed) (ht : Storable s.tickSpacing t) :
    s.get (s.indexer t) =
      (s.snapshot.get? t).map (TickInfo.withInner t (getSqrtPriceAtTick t)) := by
  have hsnap (inner : TickInfoInner) : s.snapshot.get? t = some inner ↔
      Storable s.tickSpacing t ∧ s.inner? t = some inner := snapshot_get? hk
  unfold inner? at hsnap
  cases hget : s.get (s.indexer t) with
  | none =>
      cases hs : s.snapshot.get? t with
      | none => rfl
      | some inner =>
          have := (hsnap inner).mp hs
          rw [hget] at this
          cases this.2
  | some info =>
      have hkeyed := hk _ info ht.indexer_lt hget
      have htick : info.tickIndex = t := ((indexer_inj ht hkeyed.1).mp hkeyed.2.1).symm
      have hs := (hsnap info.inner).mpr ⟨ht, by rw [hget]; rfl⟩
      rw [hs, Option.map_some]
      cases info
      simp only at htick hkeyed
      unfold TickInfo.withInner
      rw [hkeyed.2.2, htick]

theorem Keyed.snapshot_eq (hk : s.Keyed) {m : SortedMap Int TickInfoInner}
    (hm : forall t inner, m.get? t = some inner -> Storable s.tickSpacing t)
    (h : forall t, Storable s.tickSpacing t -> s.inner? t = m.get? t) : s.snapshot = m := by
  apply SortedMap.ext
  intro t
  apply Option.ext
  intro inner
  rw [snapshot_get? hk]
  constructor
  · rintro ⟨hst, hinner⟩
    rw [← h t hst]
    exact hinner
  · intro hget
    have hst := hm t inner hget
    exact ⟨hst, (h t hst).trans hget⟩

end Snapshot

/-!
# Updates
-/

section Updates

variable {s : TickSlab A} {t : Int} {inner : TickInfoInner}

theorem Keyed.inner?_eq (hk : s.Keyed) (ht : Storable s.tickSpacing t) :
    s.inner? t = s.snapshot.get? t := by
  unfold inner?
  rw [hk.get_indexer ht]
  cases s.snapshot.get? t <;> rfl

theorem keyed_new {tickSpacing : TickSpacing} (h : tickSpacing.IsPositive) :
    (new tickSpacing h : TickSlab A).Keyed := by
  intro i info _ hget
  rw [get_new] at hget
  cases hget

theorem snapshot_new {tickSpacing : TickSpacing} (h : tickSpacing.IsPositive) :
    (new tickSpacing h : TickSlab A).snapshot = SortedMap.empty := by
  apply (keyed_new h).snapshot_eq
  · intro t inner ht
    cases ht
  · intro t _
    unfold inner?
    rw [get_new]
    rfl

theorem Keyed.insert_tick (hk : s.Keyed) (ht : Storable s.tickSpacing t)
    (inner : TickInfoInner) :
    exists s', s.insert (s.indexer t) (TickInfo.withInner t (getSqrtPriceAtTick t) inner) =
        .ok s' ∧ s'.Keyed ∧ s'.snapshot = s.snapshot.insert t inner ∧
          s'.tickSpacing = s.tickSpacing := by
  rcases s.insert_eq_ok (cacheIndex_indexer_lt ht)
    (TickInfo.withInner t (getSqrtPriceAtTick t) inner) with ⟨s', hs'⟩
  have hspacing := tickSpacing_insert hs'
  have hindexer (u : Int) : s'.indexer u = s.indexer u := by
    show fromTick u s'.tickSpacing.asU32 = fromTick u s.tickSpacing.asU32
    rw [hspacing]
  have hget {j : Nat} (hj : j < 2 ^ 21) := get_insert hs' ht.indexer_lt hj
  have hkeyed : s'.Keyed := by
    intro i info hi hinfo
    rw [hget hi] at hinfo
    rw [hspacing, hindexer]
    split at hinfo
    · rename_i heq
      cases hinfo
      exact ⟨ht, heq, rfl⟩
    · exact hk i info hi hinfo
  refine ⟨s', hs', hkeyed, ?_, hspacing⟩
  apply hkeyed.snapshot_eq
  · intro u x hu
    rw [hspacing]
    rw [SortedMap.get?_insert] at hu
    split at hu
    · rename_i h
      rw [h]
      exact ht
    · exact hk.storable hu
  · intro u hu
    rw [hspacing] at hu
    unfold inner?
    rw [hindexer, hget hu.indexer_lt, SortedMap.get?_insert]
    by_cases hut : u = t
    · rw [if_pos (by rw [hut]), if_pos hut]
      rfl
    · rw [if_neg (fun h => hut ((indexer_inj hu ht).mp h)), if_neg hut]
      exact hk.inner?_eq hu

theorem Keyed.write_tick (hk : s.Keyed) {old : TickInfoInner} (h : s.snapshot.get? t = some old)
    (inner : TickInfoInner) :
    let s' := s.write (s.indexer t) (TickInfo.withInner t (getSqrtPriceAtTick t) inner)
    s'.Keyed ∧ s'.snapshot = s.snapshot.insert t inner ∧ s'.tickSpacing = s.tickSpacing := by
  intro s'
  have ht := hk.storable h
  have hspacing : s'.tickSpacing = s.tickSpacing := tickSpacing_write _ _ _
  have hindexer (u : Int) : s'.indexer u = s.indexer u := by
    show fromTick u s'.tickSpacing.asU32 = fromTick u s.tickSpacing.asU32
    rw [hspacing]
  have hget {j : Nat} (hj : j < 2 ^ 21) :=
    get_write s (TickInfo.withInner t (getSqrtPriceAtTick t) inner) ht.indexer_lt hj
  have hkeyed : s'.Keyed := by
    intro i info hi hinfo
    rw [hget hi] at hinfo
    rw [hspacing, hindexer]
    split at hinfo
    · rename_i heq
      rcases Option.map_eq_some_iff.mp hinfo with ⟨_, _, hnew⟩
      rw [← hnew]
      exact ⟨ht, heq, rfl⟩
    · exact hk i info hi hinfo
  refine ⟨hkeyed, ?_, hspacing⟩
  apply hkeyed.snapshot_eq
  · intro u x hu
    rw [hspacing]
    rw [SortedMap.get?_insert] at hu
    split at hu
    · rename_i hut
      rw [hut]
      exact ht
    · exact hk.storable hu
  · intro u hu
    rw [hspacing] at hu
    unfold inner?
    rw [hindexer, hget hu.indexer_lt, SortedMap.get?_insert]
    by_cases hut : u = t
    · rw [if_pos (by rw [hut]), if_pos hut, hut, hk.get_indexer ht, h]
      rfl
    · rw [if_neg (fun h => hut ((indexer_inj hu ht).mp h)), if_neg hut]
      exact hk.inner?_eq hu

theorem Keyed.remove_tick (hk : s.Keyed) (ht : Storable s.tickSpacing t) :
    (s.remove (s.indexer t)).Keyed ∧
      (s.remove (s.indexer t)).snapshot = s.snapshot.erase t ∧
        (s.remove (s.indexer t)).tickSpacing = s.tickSpacing := by
  have hspacing : (s.remove (s.indexer t)).tickSpacing = s.tickSpacing :=
    tickSpacing_remove _ _
  have hindexer (u : Int) : (s.remove (s.indexer t)).indexer u = s.indexer u := by
    show fromTick u (s.remove (s.indexer t)).tickSpacing.asU32 =
      fromTick u s.tickSpacing.asU32
    rw [hspacing]
  have hget {j : Nat} (hj : j < 2 ^ 21) := get_remove s ht.indexer_lt hj
  have hkeyed : (s.remove (s.indexer t)).Keyed := by
    intro i info hi hinfo
    rw [hget hi] at hinfo
    rw [hspacing, hindexer]
    split at hinfo
    · cases hinfo
    · exact hk i info hi hinfo
  refine ⟨hkeyed, ?_, hspacing⟩
  apply hkeyed.snapshot_eq
  · intro u x hu
    rw [hspacing]
    rw [SortedMap.get?_erase] at hu
    split at hu
    · cases hu
    · exact hk.storable hu
  · intro u hu
    rw [hspacing] at hu
    unfold inner?
    rw [hindexer, hget hu.indexer_lt, SortedMap.get?_erase]
    by_cases hut : u = t
    · rw [if_pos (by rw [hut]), if_pos hut]
      rfl
    · rw [if_neg (fun h => hut ((indexer_inj hu ht).mp h)), if_neg hut]
      exact hk.inner?_eq hu

end Updates

/-!
# Searches
-/

section Search

variable {s : TickSlab A} {t q : Int}

def entryAt (s : TickSlab A) (e : Int × TickInfoInner) : Nat × TickInfo :=
  (s.indexer e.1, TickInfo.withInner e.1 (getSqrtPriceAtTick e.1) e.2)

theorem Keyed.key_tick (hk : s.Keyed) {i : Nat} (hi : s.pages.Key i) :
    exists t inner, s.snapshot.get? t = some inner ∧ i = s.indexer t := by
  rcases hk.key_indexer_eq hi with ⟨info, _, hinfo, hst, heq⟩
  refine ⟨info.tickIndex, info.inner, ?_, heq⟩
  rw [snapshot_get? hk]
  refine ⟨hst, ?_⟩
  unfold inner?
  rw [← heq, hinfo]
  rfl

theorem Keyed.get_entry (hk : s.Keyed) {inner : TickInfoInner}
    (h : s.snapshot.get? t = some inner) :
    s.get (s.indexer t) = some (TickInfo.withInner t (getSqrtPriceAtTick t) inner) := by
  rw [hk.get_indexer (hk.storable h), h]
  rfl

theorem Keyed.key_indexer (hk : s.Keyed) {inner : TickInfoInner}
    (h : s.snapshot.get? t = some inner) : s.pages.Key (s.indexer t) := by
  rw [SlabPages.key_iff (hk.storable h).indexer_lt]
  show (s.get (s.indexer t)).isSome = true
  rw [hk.get_entry h]
  rfl

theorem Keyed.next_eq (hk : s.Keyed) (hq : -2 ^ 20 ≤ q ∧ q < 2 ^ 20) :
    s.next (s.indexer q) = (s.snapshot.findGT? q).map s.entryAt := by
  have hspec := SlabPages.next_spec s.wellFormed (indexer_lt (s := s) hq.1 hq.2)
  refine LeastEntry.unique hspec ?_
  cases hfind : s.snapshot.findGT? q with
  | none =>
      intro i hi
      rcases hk.key_tick hi.1 with ⟨t, inner, ht, rfl⟩
      have hle := SortedMap.findGT?_eq_none hfind ht
      exact absurd ((indexer_lt_left (hk.storable ht) hq).mp hi.2) (not_lt.mpr hle)
  | some e =>
      rcases SortedMap.findGT?_eq_some (k := e.1) (v := e.2) hfind with ⟨hget, hgt, hmin⟩
      refine ⟨⟨⟨hk.key_indexer hget, ?_⟩, ?_⟩, hk.get_entry hget⟩
      · exact (indexer_lt_left (hk.storable hget) hq).mpr hgt
      · intro i hi
        rcases hk.key_tick hi.1 with ⟨t, inner, ht, rfl⟩
        have hst := hk.storable ht
        have hqt := (indexer_lt_left hst hq).mp hi.2
        exact (indexer_le_left (hk.storable hget) hst.bounds).mpr (hmin t inner ht hqt)

theorem Keyed.prev_or_eq (hk : s.Keyed) (hq : -2 ^ 20 ≤ q ∧ q < 2 ^ 20) :
    s.nextInitializedTick (s.indexer q) true = (s.snapshot.findLE? q).map s.entryAt := by
  have hlt := indexer_lt (s := s) hq.1 hq.2
  unfold nextInitializedTick
  rw [if_pos rfl]
  cases hget : s.get (s.indexer q) with
  | some info =>
      -- The query is the coordinate of a stored tick.
      have hkeyed := hk _ info hlt hget
      have hst := hkeyed.1
      have hsnap : s.snapshot.get? info.tickIndex = some info.inner := by
        rw [snapshot_get? hk]
        refine ⟨hst, ?_⟩
        unfold inner?
        rw [← hkeyed.2.1, hget]
        rfl
      have hle := (indexer_le_left hst hq).mp (le_of_eq hkeyed.2.1.symm)
      cases hfind : s.snapshot.findLE? q with
      | none =>
          exact absurd (SortedMap.findLE?_eq_none hfind hsnap) (not_lt.mpr hle)
      | some e =>
          rcases SortedMap.findLE?_eq_some (k := e.1) (v := e.2) hfind with ⟨hgete, hqe, hmax⟩
          have hste := hk.storable hgete
          have heq : e.1 = info.tickIndex := by
            apply le_antisymm
            · rw [← indexer_le_left hste hst.bounds, ← hkeyed.2.1, indexer_le_left hste hq]
              exact hqe
            · exact hmax _ _ hsnap hle
          have hentry := hk.get_entry hgete
          rw [heq, ← hkeyed.2.1, hget] at hentry
          dsimp only
          rw [Option.map_some, entryAt, heq, ← hkeyed.2.1, ← Option.some.inj hentry]
  | none =>
      dsimp only
      have hspec := SlabPages.prev_spec s.wellFormed hlt
      refine GreatestEntry.unique hspec ?_
      -- No stored tick has this coordinate, so a tick at or below lies strictly below.
      have hstrict (t : Int) (inner : TickInfoInner) (ht : s.snapshot.get? t = some inner)
          (hle : t ≤ q) : s.indexer t < s.indexer q := by
        apply lt_of_le_of_ne ((indexer_le_left (hk.storable ht) hq).mpr hle)
        intro heq
        have hentry := hk.get_entry ht
        rw [heq, hget] at hentry
        cases hentry
      cases hfind : s.snapshot.findLE? q with
      | none =>
          intro i hi
          rcases hk.key_tick hi.1 with ⟨t, inner, ht, rfl⟩
          have hgt := SortedMap.findLE?_eq_none hfind ht
          have hle := (indexer_le_left (hk.storable ht) hq).mp (le_of_lt hi.2)
          exact absurd hgt (not_lt.mpr hle)
      | some e =>
          rcases SortedMap.findLE?_eq_some (k := e.1) (v := e.2) hfind with ⟨hgete, hqe, hmax⟩
          refine ⟨⟨⟨hk.key_indexer hgete, hstrict _ _ hgete hqe⟩, ?_⟩, hk.get_entry hgete⟩
          intro i hi
          rcases hk.key_tick hi.1 with ⟨t, inner, ht, rfl⟩
          have hst := hk.storable ht
          have htq := (indexer_le_left hst hq).mp (le_of_lt hi.2)
          exact (indexer_le_left hst (hk.storable hgete).bounds).mpr (hmax t inner ht htq)

end Search

end TickSlab

end RmUniswap
