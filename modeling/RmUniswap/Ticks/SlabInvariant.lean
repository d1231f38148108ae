import RmUniswap.Ticks.Slab

/-!
# The invariant of the slab

Bitmap, cache and allocator know the same pages, every page is linked to its
neighbours in the bitmap, and no page is empty.
-/

namespace RmUniswap

open Foundation

namespace SlabPages

variable {A : Type}

structure Stored [LawfulAllocator TickSlabValue A] (s : SlabPages A) : Prop where
  bitmap : s.bitmap.WellFormed
  cap_lt : s.bitmap.cap < 2 ^ 16
  cache_length : s.cache.length = s.bitmap.cap
  cache_fill : s.cache.fill = initialCacheValue
  values : LawfulAllocator.Valid s.values
  length_le : LawfulAllocator.handedOut s.values ≤ s.bitmap.cap
  mem_iff : forall c, s.bitmap.Mem c ↔ (s.getKey c).isSome = true
  live : forall c key, s.getKey c = some key -> (Allocator.get? s.values key).isSome = true
  owned : forall key v, Allocator.get? s.values key = some v -> exists c, s.getKey c = some key
  injective : forall c d key, s.getKey c = some key -> s.getKey d = some key -> c = d
  page : forall c v, s.getSlab c = some v -> v.WellFormed

structure Linked [LawfulAllocator TickSlabValue A] (s : SlabPages A) : Prop extends Stored s where
  prevLink : forall c v, s.getSlab c = some v -> v.prevIdx = s.bitmap.prev c
  nextLink : forall c v, s.getSlab c = some v -> v.nextIdx = s.bitmap.next c

structure WellFormed [LawfulAllocator TickSlabValue A] (s : SlabPages A) : Prop
    extends Linked s where
  nonEmpty : forall c v, s.getSlab c = some v -> exists slot, v.Holds slot

theorem getKey_eq_some {s : SlabPages A} {c key : Nat} :
    s.getKey c = some key ↔ s.cache.get c = key ∧ key ≠ initialCacheValue := by
  unfold getKey
  simp only
  split
  · rename_i h
    rw [Option.some_inj]
    exact ⟨fun he => ⟨he, he ▸ h⟩, And.left⟩
  · rename_i h
    rw [ne_eq, not_not] at h
    constructor
    · intro hc
      cases hc
    · intro hc
      exact absurd (hc.1.symm.trans h) hc.2

theorem getKey_isSome {s : SlabPages A} {c : Nat} :
    (s.getKey c).isSome = true ↔ s.cache.get c ≠ initialCacheValue := by
  unfold getKey
  dsimp only
  split
  · rename_i h
    exact ⟨fun _ => h, fun _ => rfl⟩
  · rename_i h
    exact ⟨(fun hf => by cases hf), fun hf => absurd hf h⟩

section Stored

variable [LawfulAllocator TickSlabValue A] {s : SlabPages A} {c d : Nat} {v : TickSlabValue}

theorem getKey_lt (hs : s.Stored) {key : Nat} (h : s.getKey c = some key) : c < s.bitmap.cap := by
  by_contra hge
  have hkey := getKey_eq_some.mp h
  have hfill : s.cache.get c = initialCacheValue := by
    unfold SparseVec.get
    rw [if_neg (by rw [hs.cache_length]; exact hge), hs.cache_fill]
  exact hkey.2 (hkey.1.symm.trans hfill)

theorem mem_iff_getSlab (hs : s.Stored) : s.bitmap.Mem c ↔ exists v, s.getSlab c = some v := by
  rw [hs.mem_iff c]
  unfold getSlab
  cases hkey : s.getKey c with
  | none => simp
  | some key =>
      have hlive := Option.isSome_iff_exists.mp (hs.live c key hkey)
      simpa using hlive

theorem getSlab_none_iff (hs : s.Stored) : s.getSlab c = none ↔ s.getKey c = none := by
  have hmem := (mem_iff_getSlab hs (c := c)).symm.trans (hs.mem_iff c)
  cases hslab : s.getSlab c with
  | none =>
      cases hkey : s.getKey c with
      | none => simp
      | some key =>
          rw [hslab, hkey] at hmem
          simp at hmem
  | some v =>
      cases hkey : s.getKey c with
      | none =>
          rw [hslab, hkey] at hmem
          simp at hmem
      | some key => simp

/-!
# Writing through a page reference
-/

@[simp] theorem bitmap_modifySlab (s : SlabPages A) (c : Nat) (f : TickSlabValue -> TickSlabValue) :
    (s.modifySlab c f).bitmap = s.bitmap := by
  unfold modifySlab
  split <;> rfl

@[simp] theorem cache_modifySlab (s : SlabPages A) (c : Nat) (f : TickSlabValue -> TickSlabValue) :
    (s.modifySlab c f).cache = s.cache := by
  unfold modifySlab
  split <;> rfl

@[simp] theorem getKey_modifySlab (s : SlabPages A) (c d : Nat)
    (f : TickSlabValue -> TickSlabValue) : (s.modifySlab c f).getKey d = s.getKey d := by
  unfold getKey
  rw [cache_modifySlab]

theorem getSlab_modifySlab (hs : s.Stored) (c d : Nat) (f : TickSlabValue -> TickSlabValue) :
    (s.modifySlab c f).getSlab d = if d = c then (s.getSlab d).map f else s.getSlab d := by
  unfold getSlab
  rw [getKey_modifySlab]
  cases hd : s.getKey d with
  | none =>
      split <;> rfl
  | some key =>
      simp only [Option.bind_some]
      unfold modifySlab
      split
      · rename_i key' hc
        show Allocator.get? (Allocator.modify s.values key' f) key = _
        rw [LawfulAllocator.get?_modify hs.values]
        by_cases hdc : d = c
        · rw [hdc, hc] at hd
          rw [if_pos (Option.some.inj hd).symm, if_pos hdc]
        · rw [if_neg (fun he : key = key' => hdc (hs.injective d c key hd (he ▸ hc))), if_neg hdc]
      · rename_i hc
        rw [if_neg]
        intro hdc
        rw [hdc, hc] at hd
        cases hd

theorem modifySlab_stored (hs : s.Stored) (c : Nat) {f : TickSlabValue -> TickSlabValue}
    (hf : forall v, v.WellFormed -> (f v).WellFormed) : (s.modifySlab c f).Stored := by
  have hget := getSlab_modifySlab hs c (f := f)
  have hvalues (key : Nat) : (Allocator.get? (s.modifySlab c f).values key).isSome =
      (Allocator.get? s.values key).isSome := by
    unfold modifySlab
    split
    · rw [LawfulAllocator.get?_modify hs.values]
      split
      · exact Option.isSome_map
      · rfl
    · rfl
  exact
    { bitmap := by rw [bitmap_modifySlab]; exact hs.bitmap
      cap_lt := by rw [bitmap_modifySlab]; exact hs.cap_lt
      cache_length := by rw [bitmap_modifySlab, cache_modifySlab]; exact hs.cache_length
      cache_fill := by rw [cache_modifySlab]; exact hs.cache_fill
      values := by
        unfold modifySlab
        split
        · exact LawfulAllocator.modify_valid hs.values _ _
        · exact hs.values
      length_le := by
        rw [bitmap_modifySlab]
        unfold modifySlab
        split
        · exact (LawfulAllocator.handedOut_modify _ _ _).trans_le hs.length_le
        · exact hs.length_le
      mem_iff := by
        intro d
        rw [bitmap_modifySlab, getKey_modifySlab]
        exact hs.mem_iff d
      live := by
        intro d key hd
        rw [getKey_modifySlab] at hd
        rw [hvalues]
        exact hs.live d key hd
      owned := by
        intro key w hw
        have hsome : (Allocator.get? s.values key).isSome = true := by
          rw [← hvalues, hw]
          rfl
        rcases Option.isSome_iff_exists.mp hsome with ⟨w', hw'⟩
        rcases hs.owned key w' hw' with ⟨d, hd⟩
        exact ⟨d, by rw [getKey_modifySlab]; exact hd⟩
      injective := by
        intro d e key hd he
        rw [getKey_modifySlab] at hd he
        exact hs.injective d e key hd he
      page := by
        intro d w hw
        rw [hget] at hw
        split at hw
        · rcases Option.map_eq_some_iff.mp hw with ⟨w', hw', heq⟩
          rw [← heq]
          exact hf w' (hs.page d w' hw')
        · exact hs.page d w hw }

theorem modifyLink_stored (hs : s.Stored) (idx : Option Nat)
    {f : TickSlabValue -> TickSlabValue} (hf : forall v, v.WellFormed -> (f v).WellFormed) :
    (s.modifyLink idx f).Stored := by
  cases idx with
  | none => exact hs
  | some c => exact modifySlab_stored hs c hf

@[simp] theorem bitmap_modifyLink (s : SlabPages A) (idx : Option Nat)
    (f : TickSlabValue -> TickSlabValue) : (s.modifyLink idx f).bitmap = s.bitmap := by
  cases idx with
  | none => rfl
  | some c => exact bitmap_modifySlab s c f

@[simp] theorem getKey_modifyLink (s : SlabPages A) (idx : Option Nat)
    (f : TickSlabValue -> TickSlabValue) (d : Nat) :
    (s.modifyLink idx f).getKey d = s.getKey d := by
  cases idx with
  | none => rfl
  | some c => exact getKey_modifySlab s c d f

theorem getSlab_modifyLink (hs : s.Stored) (idx : Option Nat)
    (f : TickSlabValue -> TickSlabValue) (d : Nat) :
    (s.modifyLink idx f).getSlab d =
      if idx = some d then (s.getSlab d).map f else s.getSlab d := by
  cases idx with
  | none => rw [if_neg (by simp)]; rfl
  | some c =>
      unfold modifyLink
      rw [getSlab_modifySlab hs]
      simp only [Option.some.injEq, eq_comm]

/-!
# Attaching and detaching a page
-/

def attach (s : SlabPages A) (c : Nat) (v : TickSlabValue) : SlabPages A :=
  { s with
    bitmap := (s.bitmap.set c).2
    values := (Allocator.insert s.values v).2
    cache := s.cache.set c (wrap 16 (Allocator.insert s.values v).1) }

theorem handedOut_lt (hs : s.Stored) (hc : c < s.bitmap.cap) (hfree : s.getKey c = none)
    (hfull : forall key, key < LawfulAllocator.handedOut s.values ->
      (Allocator.get? s.values key).isSome = true) :
    LawfulAllocator.handedOut s.values < s.bitmap.cap := by
  classical
  have hchoose (key : Nat) (hkey : key < LawfulAllocator.handedOut s.values) :
      exists d, s.getKey d = some key := by
    rcases Option.isSome_iff_exists.mp (hfull key hkey) with ⟨v, hv⟩
    exact hs.owned key v hv
  choose g hg using hchoose
  have hcard : (Finset.range (LawfulAllocator.handedOut s.values)).card ≤
      ((Finset.range s.bitmap.cap).erase c).card := by
    apply Finset.card_le_card_of_injOn (fun key =>
      if h : key < LawfulAllocator.handedOut s.values then g key h else 0)
    · intro key hkey
      simp only [Finset.coe_range, Set.mem_Iio] at hkey
      simp only [dif_pos hkey, Finset.coe_erase, Finset.coe_range, Set.mem_sdiff, Set.mem_Iio,
        Set.mem_singleton_iff]
      refine ⟨getKey_lt hs (hg key hkey), fun he => ?_⟩
      have := hg key hkey
      rw [he, hfree] at this
      cases this
    · intro a ha b hb hab
      simp only [Finset.coe_range, Set.mem_Iio] at ha hb
      simp only [dif_pos ha, dif_pos hb] at hab
      have h := hg a ha
      rw [hab, hg b hb] at h
      exact (Option.some.inj h).symm
  rw [Finset.card_erase_of_mem (Finset.mem_range.mpr hc), Finset.card_range,
    Finset.card_range] at hcard
  omega

theorem attach_length_le (hs : s.Stored) (hc : c < s.bitmap.cap) (hfree : s.getKey c = none)
    (v : TickSlabValue) :
    LawfulAllocator.handedOut (Allocator.insert s.values v).2 ≤ s.bitmap.cap := by
  rcases LawfulAllocator.handedOut_insert hs.values v with h | ⟨h, hfull⟩
  · rw [h]
    exact hs.length_le
  · rw [h]
    exact handedOut_lt hs hc hfree hfull

theorem attach_key (hs : s.Stored) (hc : c < s.bitmap.cap) (hfree : s.getKey c = none)
    (v : TickSlabValue) :
    wrap 16 (Allocator.insert s.values v).1 = (Allocator.insert s.values v).1 ∧
      (Allocator.insert s.values v).1 ≠ initialCacheValue := by
  have hlt := LawfulAllocator.insert_lt hs.values v
  have hle := attach_length_le hs hc hfree v
  have hcap := hs.cap_lt
  refine ⟨wrap_of_lt (by omega), ?_⟩
  unfold initialCacheValue
  omega

theorem getKey_attach (hs : s.Stored) (hc : c < s.bitmap.cap) (hfree : s.getKey c = none)
    (v : TickSlabValue) (d : Nat) :
    (s.attach c v).getKey d =
      if d = c then some (Allocator.insert s.values v).1 else s.getKey d := by
  have hkey := attach_key hs hc hfree v
  have hlen : c < s.cache.length := by rw [hs.cache_length]; exact hc
  split
  · rename_i hdc
    rw [getKey_eq_some, hdc]
    refine ⟨?_, hkey.2⟩
    show (s.cache.set c (wrap 16 (Allocator.insert s.values v).1)).get c = _
    rw [SparseVec.get_set_self hlen, hkey.1]
  · rename_i hdc
    unfold getKey attach
    simp only [SparseVec.get_set_ne _ hdc]

theorem getSlab_attach (hs : s.Stored) (hc : c < s.bitmap.cap) (hfree : s.getKey c = none)
    (v : TickSlabValue) (d : Nat) :
    (s.attach c v).getSlab d = if d = c then some v else s.getSlab d := by
  have hfresh := LawfulAllocator.insert_fresh hs.values v
  unfold getSlab
  rw [getKey_attach hs hc hfree]
  split
  · rw [Option.bind_some]
    show Allocator.get? (Allocator.insert s.values v).2 _ = _
    rw [LawfulAllocator.get?_insert hs.values, if_pos rfl]
  · cases hd : s.getKey d with
    | none => rfl
    | some key =>
        rw [Option.bind_some, Option.bind_some]
        show Allocator.get? (Allocator.insert s.values v).2 key = _
        rw [LawfulAllocator.get?_insert hs.values, if_neg]
        intro heq
        have hlive := hs.live d key hd
        rw [heq, hfresh] at hlive
        cases hlive

theorem attach_stored (hs : s.Stored) (hc : c < s.bitmap.cap) (hfree : s.getKey c = none)
    (hv : v.WellFormed) : (s.attach c v).Stored := by
  have hkey := getKey_attach hs hc hfree v
  have hslab := getSlab_attach hs hc hfree v
  have hfresh := LawfulAllocator.insert_fresh hs.values v
  have hcap : (s.attach c v).bitmap.cap = s.bitmap.cap := HierBitmap.cap_set _ _
  have hne (d : Nat) : s.getKey d ≠ some (Allocator.insert s.values v).1 := by
    intro hd
    have hlive := hs.live d _ hd
    rw [hfresh] at hlive
    cases hlive
  have hget (key : Nat) : Allocator.get? (s.attach c v).values key =
      if key = (Allocator.insert s.values v).1 then some v else Allocator.get? s.values key :=
    LawfulAllocator.get?_insert hs.values _ _
  exact
    { bitmap := HierBitmap.set_wf hs.bitmap c
      cap_lt := by rw [hcap]; exact hs.cap_lt
      cache_length := by
        rw [hcap]
        exact (SparseVec.length_set _ _ _).trans hs.cache_length
      cache_fill := (SparseVec.fill_set _ _ _).trans hs.cache_fill
      values := LawfulAllocator.insert_valid hs.values v
      length_le := by rw [hcap]; exact attach_length_le hs hc hfree v
      mem_iff := by
        intro d
        rw [hkey d]
        refine (HierBitmap.mem_set hs.bitmap hc d).trans ?_
        rw [hs.mem_iff d]
        split
        · rename_i hdc
          simp [hdc]
        · rename_i hdc
          simp [hdc]
      live := by
        intro d key hd
        rw [hkey] at hd
        rw [hget]
        split at hd
        · rw [if_pos (Option.some.inj hd).symm]
          rfl
        · rw [if_neg (fun he : key = (Allocator.insert s.values v).1 => hne d (he ▸ hd))]
          exact hs.live d key hd
      owned := by
        intro key w hw
        rw [hget] at hw
        split at hw
        · rename_i heq
          exact ⟨c, by rw [hkey, if_pos rfl, heq]⟩
        · rcases hs.owned key w hw with ⟨d, hd⟩
          refine ⟨d, ?_⟩
          rw [hkey, if_neg]
          · exact hd
          · intro hdc
            rw [hdc, hfree] at hd
            cases hd
      injective := by
        intro d e key hd he
        rw [hkey] at hd he
        split at hd
        · rename_i hdc
          split at he
          · rename_i hec
            rw [hdc, hec]
          · exact absurd (he.trans hd.symm) (hne e)
        · split at he
          · exact absurd (hd.trans he.symm) (hne d)
          · exact hs.injective d e key hd he
      page := by
        intro d w hw
        rw [hslab] at hw
        split at hw
        · cases hw
          exact hv
        · exact hs.page d w hw }

theorem getKey_removeSlab (hs : s.Stored) (c d : Nat) :
    (s.removeSlab c).getKey d = if d = c then none else s.getKey d := by
  unfold removeSlab
  split
  · rename_i key hc
    have hlen : c < s.cache.length := by
      rw [hs.cache_length]
      exact getKey_lt hs hc
    split
    · rename_i hdc
      unfold getKey
      simp only [hdc, SparseVec.get_set_self hlen]
      rfl
    · rename_i hdc
      unfold getKey
      simp only [SparseVec.get_set_ne _ hdc]
  · rename_i hc
    split
    · rename_i hdc
      rw [hdc, hc]
    · rfl

theorem getSlab_removeSlab (hs : s.Stored) (c d : Nat) :
    (s.removeSlab c).getSlab d = if d = c then none else s.getSlab d := by
  unfold getSlab
  rw [getKey_removeSlab hs]
  split
  · rfl
  · rename_i hdc
    cases hd : s.getKey d with
    | none => rfl
    | some key =>
        rw [Option.bind_some, Option.bind_some]
        unfold removeSlab
        split
        · rename_i key' hc
          show Allocator.get? (Allocator.tryRemove s.values key') key = _
          rw [LawfulAllocator.get?_tryRemove hs.values, if_neg]
          intro heq
          exact hdc (hs.injective d c key hd (heq ▸ hc))
        · rfl

theorem removeSlab_stored (hs : s.Stored) (c : Nat) : (s.removeSlab c).Stored := by
  have hkey := getKey_removeSlab hs c
  have hslab := getSlab_removeSlab hs c
  cases hc : s.getKey c with
  | none =>
      have heq : s.removeSlab c = s := by
        unfold removeSlab
        rw [hc]
      rw [heq]
      exact hs
  | some key =>
      have heq : s.removeSlab c =
          { s with
            cache := s.cache.set c initialCacheValue
            bitmap := (s.bitmap.remove c).2
            values := Allocator.tryRemove s.values key } := by
        unfold removeSlab
        rw [hc]
      have hlt := getKey_lt hs hc
      have hget (j : Nat) : Allocator.get? (s.removeSlab c).values j =
          if j = key then none else Allocator.get? s.values j := by
        rw [heq]
        exact LawfulAllocator.get?_tryRemove hs.values _ _
      have hcap : (s.removeSlab c).bitmap.cap = s.bitmap.cap := by
        rw [heq]
        exact HierBitmap.cap_remove _ _
      exact
        { bitmap := by rw [heq]; exact HierBitmap.remove_wf hs.bitmap c
          cap_lt := by rw [hcap]; exact hs.cap_lt
          cache_length := by
            rw [hcap, heq]
            exact (SparseVec.length_set _ _ _).trans hs.cache_length
          cache_fill := by rw [heq]; exact (SparseVec.fill_set _ _ _).trans hs.cache_fill
          values := by rw [heq]; exact LawfulAllocator.tryRemove_valid hs.values key
          length_le := by
            rw [hcap, heq]
            exact (LawfulAllocator.handedOut_tryRemove _ _).trans_le hs.length_le
          mem_iff := by
            intro d
            rw [hkey d]
            have hmem : (s.removeSlab c).bitmap.Mem d ↔ s.bitmap.Mem d ∧ d ≠ c := by
              rw [heq]
              exact HierBitmap.mem_remove hs.bitmap hlt d
            rw [hmem, hs.mem_iff d]
            split
            · rename_i hdc
              simp [hdc]
            · rename_i hdc
              simp [hdc]
          live := by
            intro d j hd
            rw [hkey] at hd
            split at hd
            · cases hd
            · rename_i hdc
              rw [hget, if_neg]
              · exact hs.live d j hd
              · intro hj
                exact hdc (hs.injective d c j hd (hj ▸ hc))
          owned := by
            intro j w hw
            rw [hget] at hw
            split at hw
            · cases hw
            · rename_i hj
              rcases hs.owned j w hw with ⟨d, hd⟩
              refine ⟨d, ?_⟩
              rw [hkey, if_neg]
              · exact hd
              · intro hdc
                rw [hdc, hc] at hd
                exact hj (Option.some.inj hd).symm
          injective := by
            intro d e j hd he
            rw [hkey] at hd he
            split at hd
            · cases hd
            · split at he
              · cases he
              · exact hs.injective d e j hd he
          page := by
            intro d w hw
            rw [hslab] at hw
            split at hw
            · cases hw
            · exact hs.page d w hw }

end Stored

/-!
# Links after adding and dropping a page
-/

section Links

variable {c d : Nat}

theorem next_add {b b' : HierBitmap} (hb : b.WellFormed) (hb' : b'.WellFormed)
    (hq : forall j, b'.Mem j ↔ b.Mem j ∨ j = c) (hd : b.Mem d) (hdc : d ≠ c) :
    b'.next d = if b.prev c = some d then some c else b.next d := by
  have hprev := b.prev_spec hb c
  split
  · rename_i h
    rw [h] at hprev
    exact (b'.next_spec hb' d).unique (least_after_add hq hprev)
  · rename_i h
    exact (b'.next_spec hb' d).unique
      ((least_after_congr hq hd hdc hprev h).mpr (b.next_spec hb d))

theorem prev_add {b b' : HierBitmap} (hb : b.WellFormed) (hb' : b'.WellFormed)
    (hq : forall j, b'.Mem j ↔ b.Mem j ∨ j = c) (hd : b.Mem d) (hdc : d ≠ c) :
    b'.prev d = if b.next c = some d then some c else b.prev d := by
  have hnext := b.next_spec hb c
  split
  · rename_i h
    rw [h] at hnext
    exact (b'.prev_spec hb' d).unique (greatest_before_add hq hnext)
  · rename_i h
    exact (b'.prev_spec hb' d).unique
      ((greatest_before_congr hq hd hdc hnext h).mpr (b.prev_spec hb d))

theorem next_add_self {b b' : HierBitmap} (hb : b.WellFormed) (hb' : b'.WellFormed)
    (hq : forall j, b'.Mem j ↔ b.Mem j ∨ j = c) : b'.next c = b.next c := by
  apply (b'.next_spec hb' c).unique
  rw [after_add_self hq]
  exact b.next_spec hb c

theorem prev_add_self {b b' : HierBitmap} (hb : b.WellFormed) (hb' : b'.WellFormed)
    (hq : forall j, b'.Mem j ↔ b.Mem j ∨ j = c) : b'.prev c = b.prev c := by
  apply (b'.prev_spec hb' c).unique
  rw [before_add_self hq]
  exact b.prev_spec hb c

theorem next_drop {b b' : HierBitmap} (hb : b.WellFormed) (hb' : b'.WellFormed)
    (hq : forall j, b.Mem j ↔ b'.Mem j ∨ j = c) (hc : ¬ b'.Mem c) (hd : b'.Mem d) :
    b'.next d = if b.prev c = some d then b.next c else b.next d := by
  have hdc : d ≠ c := fun he => hc (he ▸ hd)
  rw [prev_add_self hb' hb hq, next_add_self hb' hb hq, next_add hb' hb hq hd hdc]
  split
  · rename_i h
    have hprev := b'.prev_spec hb' c
    rw [h] at hprev
    exact (b'.next_spec hb' d).unique (least_after_drop hprev (b'.next_spec hb' c) hc)
  · rfl

theorem prev_drop {b b' : HierBitmap} (hb : b.WellFormed) (hb' : b'.WellFormed)
    (hq : forall j, b.Mem j ↔ b'.Mem j ∨ j = c) (hc : ¬ b'.Mem c) (hd : b'.Mem d) :
    b'.prev d = if b.next c = some d then b.prev c else b.prev d := by
  have hdc : d ≠ c := fun he => hc (he ▸ hd)
  rw [prev_add_self hb' hb hq, next_add_self hb' hb hq, prev_add hb' hb hq hd hdc]
  split
  · rename_i h
    have hnext := b'.next_spec hb' c
    rw [h] at hnext
    exact (b'.prev_spec hb' d).unique (greatest_before_drop hnext (b'.prev_spec hb' c) hc)
  · rfl

end Links

/-!
# The invariant is kept
-/

section WellFormed

variable [LawfulAllocator TickSlabValue A] {s : SlabPages A} {c d i : Nat} {v : TickSlabValue}
  {info : TickInfo}

theorem new_wf {tickSpacing : TickSpacing} (h : tickSpacing.IsPositive) :
    (new tickSpacing : SlabPages A).WellFormed := by
  have hcap := calculateCacheCap_lt h
  have hkey (c : Nat) : (new tickSpacing : SlabPages A).getKey c = none := by
    simp [getKey, new]
  have hslab (c : Nat) : (new tickSpacing : SlabPages A).getSlab c = none := by
    rw [getSlab, hkey]
    rfl
  exact
    { bitmap := HierBitmap.new_wf (by show calculateCacheCap tickSpacing ≤ 2 ^ 18; omega)
      cap_lt := hcap
      cache_length := rfl
      cache_fill := rfl
      values := LawfulAllocator.empty_valid
      length_le := le_of_eq_of_le LawfulAllocator.handedOut_empty (Nat.zero_le _)
      mem_iff := by
        intro c
        rw [hkey]
        constructor
        · intro h
          exact absurd h (HierBitmap.not_mem_new _ _)
        · intro h
          cases h
      live := by intro c key h; rw [hkey] at h; cases h
      owned := by
        intro key v h
        have hnone := LawfulAllocator.get?_empty (A := A) key
        exact absurd (hnone.symm.trans h) (by simp)
      injective := by intro c d key h; rw [hkey] at h; cases h
      page := by intro c v h; rw [hslab] at h; cases h
      prevLink := by intro c v h; rw [hslab] at h; cases h
      nextLink := by intro c v h; rw [hslab] at h; cases h
      nonEmpty := by intro c v h; rw [hslab] at h; cases h }

theorem modifySlab_linked (hs : s.Linked) (c : Nat) {f : TickSlabValue -> TickSlabValue}
    (hf : forall v, v.WellFormed -> (f v).WellFormed)
    (hprev : forall v, s.getSlab c = some v -> (f v).prevIdx = v.prevIdx)
    (hnext : forall v, s.getSlab c = some v -> (f v).nextIdx = v.nextIdx) :
    (s.modifySlab c f).Linked := by
  have hget := getSlab_modifySlab hs.toStored c (f := f)
  refine ⟨modifySlab_stored hs.toStored c hf, ?_, ?_⟩
  · intro d w hw
    rw [hget] at hw
    rw [bitmap_modifySlab]
    split at hw
    · rename_i hdc
      rcases Option.map_eq_some_iff.mp hw with ⟨w', hw', heq⟩
      rw [← heq, hprev w' (hdc ▸ hw')]
      exact hs.prevLink d w' hw'
    · exact hs.prevLink d w hw
  · intro d w hw
    rw [hget] at hw
    rw [bitmap_modifySlab]
    split at hw
    · rename_i hdc
      rcases Option.map_eq_some_iff.mp hw with ⟨w', hw', heq⟩
      rw [← heq, hnext w' (hdc ▸ hw')]
      exact hs.nextLink d w' hw'
    · exact hs.nextLink d w hw

/-- A page update that leaves its page with a tick, on a slab whose other pages
have one. -/
theorem modifySlab_wf (hs : s.Linked) (c : Nat) {f : TickSlabValue -> TickSlabValue}
    (hf : forall v, v.WellFormed -> (f v).WellFormed)
    (hprev : forall v, s.getSlab c = some v -> (f v).prevIdx = v.prevIdx)
    (hnext : forall v, s.getSlab c = some v -> (f v).nextIdx = v.nextIdx)
    (hother : forall d v, d ≠ c -> s.getSlab d = some v -> exists slot, v.Holds slot)
    (hne : forall v, s.getSlab c = some v -> exists slot, (f v).Holds slot) :
    (s.modifySlab c f).WellFormed := by
  refine ⟨modifySlab_linked hs c hf hprev hnext, ?_⟩
  intro d w hw
  rw [getSlab_modifySlab hs.toStored] at hw
  split at hw
  · rename_i hdc
    rcases Option.map_eq_some_iff.mp hw with ⟨w', hw', heq⟩
    rw [← heq]
    exact hne w' (hdc ▸ hw')
  · rename_i hdc
    exact hother d w hdc hw

def relink (s : SlabPages A) (prevIdx nextIdx toNext toPrev : Option Nat) : SlabPages A :=
  (s.modifyLink prevIdx fun v => { v with nextIdx := toNext }).modifyLink nextIdx
    fun v => { v with prevIdx := toPrev }

theorem setNext_stored (hs : s.Stored) (p toNext : Option Nat) :
    (s.modifyLink p fun v => { v with nextIdx := toNext }).Stored :=
  modifyLink_stored hs p fun _ hv => ⟨hv.slots_length, hv.map_lt⟩

theorem setPrev_stored (hs : s.Stored) (n toPrev : Option Nat) :
    (s.modifyLink n fun v => { v with prevIdx := toPrev }).Stored :=
  modifyLink_stored hs n fun _ hv => ⟨hv.slots_length, hv.map_lt⟩

theorem relink_stored (hs : s.Stored) (p n toNext toPrev : Option Nat) :
    (s.relink p n toNext toPrev).Stored :=
  setPrev_stored (setNext_stored hs p toNext) n toPrev

@[simp] theorem bitmap_relink (s : SlabPages A) (p n p' n' : Option Nat) :
    (s.relink p n p' n').bitmap = s.bitmap := by
  unfold relink
  rw [bitmap_modifyLink, bitmap_modifyLink]

@[simp] theorem getKey_relink (s : SlabPages A) (p n p' n' : Option Nat) (d : Nat) :
    (s.relink p n p' n').getKey d = s.getKey d := by
  unfold relink
  rw [getKey_modifyLink, getKey_modifyLink]

theorem getSlab_relink (hs : s.Stored) (p n toNext toPrev : Option Nat) (d : Nat) :
    (s.relink p n toNext toPrev).getSlab d = (s.getSlab d).map fun v =>
      { v with
        nextIdx := if p = some d then toNext else v.nextIdx
        prevIdx := if n = some d then toPrev else v.prevIdx } := by
  unfold relink
  rw [getSlab_modifyLink (setNext_stored hs p toNext), getSlab_modifyLink hs]
  by_cases hp : p = some d
  · by_cases hn : n = some d
    · simp only [hp, hn, if_true, Option.map_map]
      rfl
    · simp only [hp, hn, if_true, if_false]
  · by_cases hn : n = some d
    · simp only [hp, hn, if_true, if_false]
    · simp only [hp, hn, if_false, Option.map_id']

theorem insertSlab_eq (hfree : s.getKey c = none) (v : TickSlabValue) :
    s.insertSlab c v =
      (s.relink (s.bitmap.prev c) (s.bitmap.next c) (some c) (some c)).attach c
        { v with prevIdx := s.bitmap.prev c, nextIdx := s.bitmap.next c } := by
  have hcache : s.cache.get c = initialCacheValue := by
    by_contra hne
    have := (getKey_eq_some (s := s)).mpr ⟨rfl, hne⟩
    rw [hfree] at this
    cases this
  unfold insertSlab
  rw [if_neg (by rw [ne_eq, not_not]; exact hcache)]
  rfl

theorem insertSlab_getSlab (hs : s.Stored) (hc : c < s.bitmap.cap) (hfree : s.getKey c = none)
    (v : TickSlabValue) (d : Nat) :
    (s.insertSlab c v).getSlab d =
      if d = c then some { v with prevIdx := s.bitmap.prev c, nextIdx := s.bitmap.next c }
      else (s.getSlab d).map fun w =>
        { w with
          nextIdx := if s.bitmap.prev c = some d then some c else w.nextIdx
          prevIdx := if s.bitmap.next c = some d then some c else w.prevIdx } := by
  rw [insertSlab_eq hfree, getSlab_attach (relink_stored hs _ _ _ _)
    (by rw [bitmap_relink]; exact hc) (by rw [getKey_relink]; exact hfree),
    getSlab_relink hs]

theorem insertSlab_linked (hs : s.Linked) (hc : c < s.bitmap.cap) (hfree : s.getKey c = none)
    (hv : v.WellFormed) : (s.insertSlab c v).Linked := by
  have hget := insertSlab_getSlab hs.toStored hc hfree v
  have hmem (j : Nat) : (s.insertSlab c v).bitmap.Mem j ↔ s.bitmap.Mem j ∨ j = c := by
    rw [insertSlab_eq hfree]
    show ((s.relink _ _ _ _).bitmap.set c).2.Mem j ↔ _
    rw [bitmap_relink]
    exact HierBitmap.mem_set hs.bitmap hc j
  have hstored : (s.insertSlab c v).Stored := by
    rw [insertSlab_eq hfree]
    exact attach_stored (relink_stored hs.toStored _ _ _ _)
      (by rw [bitmap_relink]; exact hc) (by rw [getKey_relink]; exact hfree)
      ⟨hv.slots_length, hv.map_lt⟩
  refine ⟨hstored, ?_, ?_⟩
  · intro d w hw
    rw [hget] at hw
    split at hw
    · rename_i hdc
      cases hw
      rw [hdc, prev_add_self hs.bitmap hstored.bitmap hmem]
    · rename_i hdc
      rcases Option.map_eq_some_iff.mp hw with ⟨w', hw', heq⟩
      have hd := (mem_iff_getSlab hs.toStored).mpr ⟨w', hw'⟩
      rw [← heq, prev_add hs.bitmap hstored.bitmap hmem hd hdc]
      simp only [hs.prevLink d w' hw']
  · intro d w hw
    rw [hget] at hw
    split at hw
    · rename_i hdc
      cases hw
      rw [hdc, next_add_self hs.bitmap hstored.bitmap hmem]
    · rename_i hdc
      rcases Option.map_eq_some_iff.mp hw with ⟨w', hw', heq⟩
      have hd := (mem_iff_getSlab hs.toStored).mpr ⟨w', hw'⟩
      rw [← heq, next_add hs.bitmap hstored.bitmap hmem hd hdc]
      simp only [hs.nextLink d w' hw']

/-!
# Contents
-/

def pageInfo (s : SlabPages A) (c slot : Nat) : Option TickInfo :=
  (s.getSlab c).bind fun v => v.slotInfo slot

theorem get_eq (s : SlabPages A) (i : Nat) :
    s.get i = s.pageInfo (cacheIndex i) (slotIndex i) := by
  unfold get pageInfo
  simp only [TickSlabValue.get_eq]

theorem pageInfo_modifySlab (hs : s.Stored) (c : Nat) (f : TickSlabValue -> TickSlabValue)
    (d slot : Nat) : (s.modifySlab c f).pageInfo d slot =
      if d = c then (s.getSlab d).bind fun v => (f v).slotInfo slot else s.pageInfo d slot := by
  unfold pageInfo
  rw [getSlab_modifySlab hs]
  split
  · cases s.getSlab d <;> rfl
  · rfl

theorem pageInfo_insertEmptySlab (hs : s.Stored) (hc : c < s.bitmap.cap)
    (hfree : s.getKey c = none) (d slot : Nat) :
    (s.insertEmptySlab c).pageInfo d slot = s.pageInfo d slot := by
  unfold pageInfo insertEmptySlab
  rw [insertSlab_getSlab hs hc hfree]
  split
  · rename_i hdc
    rw [hdc, (getSlab_none_iff hs).mpr hfree]
    exact TickSlabValue.slotInfo_new none none slot
  · cases s.getSlab d <;> rfl

theorem insert_spec (hs : s.WellFormed) {s' : SlabPages A} (h : s.insert i info = .ok s') :
    s'.WellFormed ∧ forall d slot, s'.pageInfo d slot =
      if d = cacheIndex i ∧ slot = slotIndex i then some info else s.pageInfo d slot := by
  unfold insert at h
  simp only at h
  split at h
  · cases h
  · rename_i hcap
    rw [hs.cache_length] at hcap
    -- After the page exists, the tick is written into it.
    have hpage (t : SlabPages A) (ht : t.Linked)
        (hother : forall d v, d ≠ cacheIndex i -> t.getSlab d = some v -> exists slot, v.Holds slot)
        (hinfo : forall d slot, t.pageInfo d slot = s.pageInfo d slot)
        (hlive : t.getSlab (cacheIndex i) ≠ none)
        (hs' : s' = t.modifySlab (cacheIndex i) fun v => v.insert i info) :
        s'.WellFormed ∧ forall d slot, s'.pageInfo d slot =
          if d = cacheIndex i ∧ slot = slotIndex i then some info else s.pageInfo d slot := by
      rw [hs']
      constructor
      · apply modifySlab_wf ht _ (fun v hv => TickSlabValue.insert_wf hv i info)
          (fun _ _ => rfl) (fun _ _ => rfl) hother
        intro v hv
        refine ⟨slotIndex i, ?_⟩
        unfold TickSlabValue.Holds
        rw [TickSlabValue.slotInfo_insert (ht.page _ v hv), if_pos rfl]
        rfl
      · intro d slot
        rw [pageInfo_modifySlab ht.toStored, ← hinfo]
        by_cases hd : d = cacheIndex i
        · subst hd
          simp only [true_and, if_true]
          cases hv : t.getSlab (cacheIndex i) with
          | none => exact absurd hv hlive
          | some v =>
              rw [Option.bind_some, TickSlabValue.slotInfo_insert (ht.page _ v hv)]
              unfold pageInfo
              rw [hv, Option.bind_some]
        · rw [if_neg hd, if_neg (fun hc => hd hc.1)]
    cases hkey : s.getKey (cacheIndex i) with
    | some key =>
        rw [hkey] at h
        apply hpage s hs.toLinked (fun d v _ hv => hs.nonEmpty d v hv) (fun _ _ => rfl)
        · intro hnone
          rw [(getSlab_none_iff hs.toStored).mp hnone] at hkey
          cases hkey
        · cases h
          rfl
    | none =>
        rw [hkey] at h
        have hc := not_le.mp hcap
        have hget := insertSlab_getSlab hs.toStored hc hkey (TickSlabValue.new none none)
        apply hpage (s.insertEmptySlab (cacheIndex i))
          (insertSlab_linked hs.toLinked hc hkey (TickSlabValue.new_wf none none))
        · intro d v hd hv
          unfold insertEmptySlab at hv
          rw [hget, if_neg hd] at hv
          rcases Option.map_eq_some_iff.mp hv with ⟨w, hw, heq⟩
          rcases hs.nonEmpty d w hw with ⟨slot, hslot⟩
          exact ⟨slot, heq ▸ hslot⟩
        · exact pageInfo_insertEmptySlab hs.toStored hc hkey
        · unfold insertEmptySlab
          rw [hget, if_pos rfl]
          intro hnone
          cases hnone
        · cases h
          rfl

theorem write_spec (hs : s.WellFormed) (i : Nat) (info : TickInfo) :
    (s.write i info).WellFormed ∧ forall d slot, (s.write i info).pageInfo d slot =
      if d = cacheIndex i ∧ slot = slotIndex i then (s.pageInfo d slot).map (fun _ => info)
      else s.pageInfo d slot := by
  have hslot (v : TickSlabValue) (hv : s.getSlab (cacheIndex i) = some v) :=
    TickSlabValue.slotInfo_write (hs.page _ v hv) i info
  unfold write
  constructor
  · apply modifySlab_wf hs.toLinked _ (fun v hv => TickSlabValue.write_wf hv i info)
      (fun _ _ => rfl) (fun _ _ => rfl) (fun d v _ hv => hs.nonEmpty d v hv)
    intro v hv
    rcases hs.nonEmpty _ v hv with ⟨slot, hslot⟩
    have hbit := TickSlabValue.holds_iff.mp hslot
    exact ⟨slot, TickSlabValue.holds_iff.mpr hbit⟩
  · intro d slot
    rw [pageInfo_modifySlab hs.toStored]
    by_cases hd : d = cacheIndex i
    · subst hd
      simp only [true_and, if_true]
      unfold pageInfo
      cases hv : s.getSlab (cacheIndex i) with
      | none =>
          split <;> rfl
      | some v =>
          rw [Option.bind_some, Option.bind_some, hslot v hv]
    · rw [if_neg hd, if_neg (fun hc => hd hc.1)]

theorem dropSlab_spec (hs : s.Linked) (hv : s.getSlab c = some v)
    (hother : forall d w, d ≠ c -> s.getSlab d = some w -> exists slot, w.Holds slot) :
    let t := (s.modifyLink v.nextIdx fun w => { w with prevIdx := v.prevIdx }).modifyLink v.prevIdx
      fun w => { w with nextIdx := v.nextIdx }
    (t.removeSlab c).WellFormed ∧ forall d slot, (t.removeSlab c).pageInfo d slot =
      if d = c then none else s.pageInfo d slot := by
  intro t
  have hfirst := setPrev_stored hs.toStored v.nextIdx v.prevIdx
  have ht : t.Stored := setNext_stored hfirst v.prevIdx v.nextIdx
  have hbitmap : t.bitmap = s.bitmap := by
    show ((s.modifyLink _ _).modifyLink _ _).bitmap = _
    rw [bitmap_modifyLink, bitmap_modifyLink]
  have hslab (d : Nat) : t.getSlab d = (s.getSlab d).map fun w =>
      { w with
        nextIdx := if v.prevIdx = some d then v.nextIdx else w.nextIdx
        prevIdx := if v.nextIdx = some d then v.prevIdx else w.prevIdx } := by
    show ((s.modifyLink _ _).modifyLink _ _).getSlab d = _
    rw [getSlab_modifyLink hfirst, getSlab_modifyLink hs.toStored]
    by_cases hp : v.prevIdx = some d
    · by_cases hn : v.nextIdx = some d
      · simp only [hp, hn, if_true, Option.map_map]
        rfl
      · simp only [hp, hn, if_true, if_false]
    · by_cases hn : v.nextIdx = some d
      · simp only [hp, hn, if_true, if_false]
      · simp only [hp, hn, if_false, Option.map_id']
  have hmem : s.bitmap.Mem c := (mem_iff_getSlab hs.toStored).mpr ⟨v, hv⟩
  have hstored := removeSlab_stored ht c
  have hget := getSlab_removeSlab ht c
  have hdrop (j : Nat) : s.bitmap.Mem j ↔ (t.removeSlab c).bitmap.Mem j ∨ j = c := by
    rw [mem_iff_getSlab hstored, mem_iff_getSlab hs.toStored, hget]
    by_cases hj : j = c
    · simp [hj, hv]
    · rw [if_neg hj, hslab j]
      simp [hj]
  have hgone : ¬ (t.removeSlab c).bitmap.Mem c := by
    rw [mem_iff_getSlab hstored, hget, if_pos rfl]
    rintro ⟨w, hw⟩
    cases hw
  refine ⟨⟨⟨hstored, ?_, ?_⟩, ?_⟩, ?_⟩
  · intro d w hw
    have hd := (mem_iff_getSlab hstored).mpr ⟨w, hw⟩
    rw [hget] at hw
    split at hw
    · cases hw
    · rw [hslab] at hw
      rcases Option.map_eq_some_iff.mp hw with ⟨w', hw', heq⟩
      rw [← heq, prev_drop hs.bitmap hstored.bitmap hdrop hgone hd]
      simp only [hs.prevLink d w' hw', hs.nextLink c v hv, hs.prevLink c v hv]
  · intro d w hw
    have hd := (mem_iff_getSlab hstored).mpr ⟨w, hw⟩
    rw [hget] at hw
    split at hw
    · cases hw
    · rw [hslab] at hw
      rcases Option.map_eq_some_iff.mp hw with ⟨w', hw', heq⟩
      rw [← heq, next_drop hs.bitmap hstored.bitmap hdrop hgone hd]
      simp only [hs.nextLink d w' hw', hs.nextLink c v hv, hs.prevLink c v hv]
  · intro d w hw
    rw [hget] at hw
    split at hw
    · cases hw
    · rename_i hdc
      rw [hslab] at hw
      rcases Option.map_eq_some_iff.mp hw with ⟨w', hw', heq⟩
      rcases hother d w' hdc hw' with ⟨slot, hslot⟩
      exact ⟨slot, heq ▸ hslot⟩
  · intro d slot
    unfold pageInfo
    rw [hget]
    split
    · rfl
    · rw [hslab]
      cases s.getSlab d <;> rfl

theorem remove_spec (hs : s.WellFormed) (i : Nat) :
    (s.remove i).WellFormed ∧ forall d slot, (s.remove i).pageInfo d slot =
      if d = cacheIndex i ∧ slot = slotIndex i then none else s.pageInfo d slot := by
  unfold remove
  simp only
  cases hv : s.getSlab (cacheIndex i) with
  | none =>
      dsimp only
      refine ⟨hs, fun d slot => ?_⟩
      split
      · rename_i h
        unfold pageInfo
        rw [h.1, hv]
        rfl
      · rfl
  | some v =>
      have hpage := hs.page _ v hv
      have hremoved := TickSlabValue.remove_wf hpage i
      have hslot := TickSlabValue.slotInfo_remove hpage i
      have hprev (w : TickSlabValue) (hw : s.getSlab (cacheIndex i) = some w) :
          (v.remove i).prevIdx = w.prevIdx := by
        rw [hv] at hw
        cases hw
        rfl
      have hnext (w : TickSlabValue) (hw : s.getSlab (cacheIndex i) = some w) :
          (v.remove i).nextIdx = w.nextIdx := by
        rw [hv] at hw
        cases hw
        rfl
      have hlinked := modifySlab_linked hs.toLinked (cacheIndex i) (f := fun _ => v.remove i)
        (fun _ _ => hremoved) hprev hnext
      have hget := getSlab_modifySlab hs.toStored (cacheIndex i) (f := fun _ => v.remove i)
      have hinfo (d slot : Nat) :
          (s.modifySlab (cacheIndex i) fun _ => v.remove i).pageInfo d slot =
            if d = cacheIndex i ∧ slot = slotIndex i then none else s.pageInfo d slot := by
        rw [pageInfo_modifySlab hs.toStored]
        by_cases hd : d = cacheIndex i
        · subst hd
          unfold pageInfo
          simp only [true_and, if_true, hv, Option.bind_some, hslot]
        · rw [if_neg hd, if_neg (fun hc => hd hc.1)]
      simp only
      split
      · rename_i hzero
        have hempty := (TickSlabValue.initialized_eq_zero hremoved).mp hzero
        have htarget : (s.modifySlab (cacheIndex i) fun _ => v.remove i).getSlab (cacheIndex i) =
            some (v.remove i) := by
          rw [hget, if_pos rfl, hv]
          rfl
        have hdrop := dropSlab_spec hlinked htarget (by
          intro d w hd hw
          rw [hget, if_neg hd] at hw
          exact hs.nonEmpty d w hw)
        refine ⟨hdrop.1, fun d slot => ?_⟩
        rw [hdrop.2]
        by_cases hd : d = cacheIndex i
        · subst hd
          simp only [true_and, if_true]
          split
          · rfl
          · rename_i hne
            have := hempty slot
            rw [hslot, if_neg hne] at this
            unfold pageInfo
            rw [hv, Option.bind_some, this]
        · rw [if_neg hd, hinfo]
      · rename_i hne
        refine ⟨modifySlab_wf hs.toLinked _ (fun _ _ => hremoved) hprev hnext
          (fun d w _ hw => hs.nonEmpty d w hw) ?_, hinfo⟩
        intro w hw
        by_contra hnone
        apply hne
        rw [TickSlabValue.initialized_eq_zero hremoved]
        intro slot
        cases hs : (v.remove i).slotInfo slot with
        | none => rfl
        | some x => exact absurd ⟨slot, by unfold TickSlabValue.Holds; rw [hs]; rfl⟩ hnone

end WellFormed

/-!
# Configuration
-/

structure SameShape (s t : SlabPages A) : Prop where
  tickSpacing : t.tickSpacing = s.tickSpacing
  maxLiquidityPerTick : t.maxLiquidityPerTick = s.maxLiquidityPerTick
  cap : t.bitmap.cap = s.bitmap.cap

structure Shaped (s : SlabPages A) : Prop where
  positive : s.tickSpacing.IsPositive
  maxLiquidityPerTick : s.maxLiquidityPerTick = s.tickSpacing.maxLiquidityPerTick
  cap : s.bitmap.cap = calculateCacheCap s.tickSpacing

section Shape

variable {s t u : SlabPages A}

theorem SameShape.refl (s : SlabPages A) : SameShape s s := ⟨rfl, rfl, rfl⟩

theorem SameShape.trans (h : SameShape s t) (h' : SameShape t u) : SameShape s u where
  tickSpacing := h'.tickSpacing.trans h.tickSpacing
  maxLiquidityPerTick := h'.maxLiquidityPerTick.trans h.maxLiquidityPerTick
  cap := h'.cap.trans h.cap

theorem Shaped.of_same (hs : s.Shaped) (h : SameShape s t) : t.Shaped where
  positive := by rw [h.tickSpacing]; exact hs.positive
  maxLiquidityPerTick := by
    rw [h.maxLiquidityPerTick, h.tickSpacing]
    exact hs.maxLiquidityPerTick
  cap := by rw [h.cap, h.tickSpacing]; exact hs.cap

variable [LawfulAllocator TickSlabValue A]

theorem modifySlab_shape (s : SlabPages A) (c : Nat) (f : TickSlabValue -> TickSlabValue) :
    SameShape s (s.modifySlab c f) := by
  unfold modifySlab
  split
  · exact ⟨rfl, rfl, rfl⟩
  · exact SameShape.refl s

theorem modifyLink_shape (s : SlabPages A) (idx : Option Nat)
    (f : TickSlabValue -> TickSlabValue) : SameShape s (s.modifyLink idx f) := by
  cases idx with
  | none => exact SameShape.refl s
  | some c => exact modifySlab_shape s c f

theorem insertSlab_shape (s : SlabPages A) (c : Nat) (v : TickSlabValue) :
    SameShape s (s.insertSlab c v) := by
  unfold insertSlab
  split
  · exact modifySlab_shape s c _
  · refine SameShape.trans (modifyLink_shape s _ _)
      (SameShape.trans (modifyLink_shape _ _ _) ⟨rfl, rfl, ?_⟩)
    exact HierBitmap.cap_set _ _

theorem insert_shape {i : Nat} {info : TickInfo} (h : s.insert i info = .ok t) :
    SameShape s t := by
  unfold insert at h
  simp only at h
  split at h
  · cases h
  · cases h
    refine SameShape.trans ?_ (modifySlab_shape _ _ _)
    split
    · exact SameShape.refl s
    · exact insertSlab_shape s _ _

theorem write_shape (s : SlabPages A) (i : Nat) (info : TickInfo) : SameShape s (s.write i info) :=
  modifySlab_shape s _ _

theorem removeSlab_shape (s : SlabPages A) (c : Nat) : SameShape s (s.removeSlab c) := by
  unfold removeSlab
  split
  · exact ⟨rfl, rfl, HierBitmap.cap_remove _ _⟩
  · exact SameShape.refl s

theorem remove_shape (s : SlabPages A) (i : Nat) : SameShape s (s.remove i) := by
  unfold remove
  simp only
  split
  · split
    · exact SameShape.trans (modifySlab_shape s _ _)
        (SameShape.trans (modifyLink_shape _ _ _)
          (SameShape.trans (modifyLink_shape _ _ _) (removeSlab_shape _ _)))
    · exact modifySlab_shape s _ _
  · exact SameShape.refl s

theorem insert_eq_ok (hs : s.Shaped) (hw : s.WellFormed) {i : Nat}
    (hi : cacheIndex i < calculateCacheCap s.tickSpacing) (info : TickInfo) :
    exists t, s.insert i info = .ok t := by
  unfold insert
  simp only
  rw [if_neg (by rw [hw.cache_length, hs.cap]; exact not_le.mpr hi)]
  exact ⟨_, rfl⟩

end Shape

end SlabPages

end RmUniswap
