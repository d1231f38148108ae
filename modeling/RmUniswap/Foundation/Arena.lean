import RmUniswap.Foundation.Allocator
import RmUniswap.Foundation.SortedMap

/-!
# Arenas

An allocator that reuses the key vacated last.
-/

namespace RmUniswap
namespace Foundation

universe u

structure Arena (α : Type u) where
  occupied : SortedMap Nat α
  vacant : List Nat
  length : Nat

namespace Arena

variable {α : Type u}

def empty : Arena α := { occupied := SortedMap.empty, vacant := [], length := 0 }

def get? (s : Arena α) (key : Nat) : Option α := s.occupied.get? key

def isEmpty (s : Arena α) : Bool := s.occupied.entries.isEmpty

def insert (s : Arena α) (a : α) : Nat × Arena α :=
  match s.vacant with
  | [] =>
      (s.length,
        { occupied := s.occupied.insert s.length a
          vacant := []
          length := s.length + 1 })
  | key :: rest => (key, { s with occupied := s.occupied.insert key a, vacant := rest })

def modify (s : Arena α) (key : Nat) (f : α -> α) : Arena α :=
  match s.get? key with
  | some a => { s with occupied := s.occupied.insert key (f a) }
  | none => s

def tryRemove (s : Arena α) (key : Nat) : Arena α :=
  match s.get? key with
  | some _ => { s with occupied := s.occupied.erase key, vacant := key :: s.vacant }
  | none => s

/-!
# Keys

Occupied and vacant keys partition the keys handed out so far.
-/

structure WellFormed (s : Arena α) : Prop where
  occupied_lt : forall key a, s.get? key = some a -> key < s.length
  vacant_lt : forall key, key ∈ s.vacant -> key < s.length
  vacant_free : forall key, key ∈ s.vacant -> s.get? key = none
  vacant_nodup : s.vacant.Nodup
  total : s.occupied.keys.card + s.vacant.length = s.length

theorem empty_wf : (empty : Arena α).WellFormed where
  occupied_lt := by intro key a h; cases h
  vacant_lt := by intro key h; cases h
  vacant_free := by intro key h; cases h
  vacant_nodup := List.nodup_nil
  total := rfl

@[simp] theorem get?_empty (key : Nat) : (empty : Arena α).get? key = none := rfl

section Insert

variable {s : Arena α}

theorem insert_fresh (hs : s.WellFormed) (a : α) : s.get? (s.insert a).1 = none := by
  unfold insert
  split
  · cases h : s.get? s.length with
    | none => rfl
    | some b => exact absurd (hs.occupied_lt _ b h) (lt_irrefl _)
  · rename_i key rest hv
    exact hs.vacant_free key (by rw [hv]; exact List.mem_cons_self)

theorem get?_insert (s : Arena α) (a : α) (key : Nat) :
    (s.insert a).2.get? key = if key = (s.insert a).1 then some a else s.get? key := by
  unfold insert
  split
  · exact SortedMap.get?_insert _ _ _ _
  · exact SortedMap.get?_insert _ _ _ _

theorem insert_lt (hs : s.WellFormed) (a : α) : (s.insert a).1 < (s.insert a).2.length := by
  unfold insert
  split
  · exact Nat.lt_succ_self _
  · rename_i key rest hv
    exact hs.vacant_lt key (by rw [hv]; exact List.mem_cons_self)

theorem occupied_of_full (hs : s.WellFormed) (hv : s.vacant = []) {key : Nat}
    (hkey : key < s.length) : (s.get? key).isSome = true := by
  have htotal := hs.total
  rw [hv, List.length_nil, Nat.add_zero] at htotal
  have hsub : s.occupied.keys ⊆ Finset.range s.length := by
    intro j hj
    rcases SortedMap.mem_keys.mp hj with ⟨a, ha⟩
    exact Finset.mem_range.mpr (hs.occupied_lt j a ha)
  have heq := Finset.eq_of_subset_of_card_le hsub (by rw [Finset.card_range, htotal])
  have hmem : key ∈ s.occupied.keys := by
    rw [heq]
    exact Finset.mem_range.mpr hkey
  rcases SortedMap.mem_keys.mp hmem with ⟨a, ha⟩
  exact Option.isSome_iff_exists.mpr ⟨a, ha⟩

theorem length_insert (hs : s.WellFormed) (a : α) :
    (s.insert a).2.length = s.length ∨
      (s.insert a).2.length = s.length + 1 ∧
        forall key, key < s.length -> (s.get? key).isSome = true := by
  unfold insert
  split
  · rename_i hv
    exact Or.inr ⟨rfl, fun key hkey => occupied_of_full hs hv hkey⟩
  · exact Or.inl rfl

theorem insert_wf (hs : s.WellFormed) (a : α) : (s.insert a).2.WellFormed := by
  have hfresh := insert_fresh hs a
  have hoccupied (key : Nat) (b : α) (hb : (s.insert a).2.get? key = some b) :
      key < (s.insert a).2.length := by
    rw [get?_insert] at hb
    split at hb
    · rename_i heq
      rw [heq]
      exact insert_lt hs a
    · refine lt_of_lt_of_le (hs.occupied_lt key b hb) ?_
      unfold insert
      split
      · exact Nat.le_succ _
      · exact le_refl _
  have htotal := hs.total
  cases hv : s.vacant with
  | nil =>
      have hins : s.insert a = (s.length,
          { occupied := s.occupied.insert s.length a
            vacant := []
            length := s.length + 1 }) := by
        unfold insert
        rw [hv]
      rw [hins] at hfresh hoccupied ⊢
      rw [hv, List.length_nil, Nat.add_zero] at htotal
      refine ⟨hoccupied, ?_, ?_, List.nodup_nil, ?_⟩
      · intro key hk
        cases hk
      · intro key hk
        cases hk
      · show (s.occupied.insert s.length a).keys.card + 0 = s.length + 1
        rw [SortedMap.keys_insert, Finset.card_insert_of_notMem
          (SortedMap.not_mem_keys.mpr hfresh), htotal]
  | cons key rest =>
      have hins : s.insert a =
          (key, { s with occupied := s.occupied.insert key a, vacant := rest }) := by
        unfold insert
        rw [hv]
      have hget := get?_insert s a
      have hnodup := hs.vacant_nodup
      rw [hins] at hfresh hoccupied hget ⊢
      rw [hv] at hnodup htotal
      have hnd := List.nodup_cons.mp hnodup
      refine ⟨hoccupied, ?_, ?_, hnd.2, ?_⟩
      · intro j hj
        exact hs.vacant_lt j (by rw [hv]; exact List.mem_cons_of_mem _ hj)
      · intro j hj
        have hne : j ≠ key := fun heq => hnd.1 (heq ▸ hj)
        rw [hget, if_neg hne]
        exact hs.vacant_free j (by rw [hv]; exact List.mem_cons_of_mem _ hj)
      · show (s.occupied.insert key a).keys.card + rest.length = s.length
        rw [List.length_cons] at htotal
        rw [SortedMap.keys_insert, Finset.card_insert_of_notMem
          (SortedMap.not_mem_keys.mpr hfresh)]
        omega

end Insert

section Modify

theorem get?_modify (s : Arena α) (key : Nat) (f : α -> α) (j : Nat) :
    (s.modify key f).get? j = if j = key then (s.get? j).map f else s.get? j := by
  unfold modify
  split
  · rename_i a ha
    show (s.occupied.insert key (f a)).get? j = _
    rw [SortedMap.get?_insert]
    split
    · rename_i h
      rw [h, ha]
      rfl
    · rfl
  · rename_i hnone
    split
    · rename_i h
      rw [h, hnone]
      rfl
    · rfl

@[simp] theorem length_modify (s : Arena α) (key : Nat) (f : α -> α) :
    (s.modify key f).length = s.length := by
  unfold modify
  split <;> rfl

theorem modify_wf {s : Arena α} (hs : s.WellFormed) (key : Nat) (f : α -> α) :
    (s.modify key f).WellFormed := by
  have hget := get?_modify s key f
  cases ha : s.get? key with
  | none =>
      have hmod : s.modify key f = s := by
        unfold modify
        rw [ha]
      rw [hmod]
      exact hs
  | some a =>
      have hmod : s.modify key f = { s with occupied := s.occupied.insert key (f a) } := by
        unfold modify
        rw [ha]
      rw [hmod] at hget ⊢
      refine ⟨?_, hs.vacant_lt, ?_, hs.vacant_nodup, ?_⟩
      · intro j b hb
        rw [hget] at hb
        split at hb
        · rename_i heq
          rw [heq]
          exact hs.occupied_lt key a ha
        · exact hs.occupied_lt j b hb
      · intro j hj
        rw [hget, hs.vacant_free j hj]
        split <;> rfl
      · show (s.occupied.insert key (f a)).keys.card + s.vacant.length = s.length
        rw [SortedMap.keys_insert, Finset.insert_eq_of_mem (SortedMap.mem_keys_of_get? ha)]
        exact hs.total

end Modify

section Remove

theorem get?_tryRemove (s : Arena α) (key j : Nat) :
    (s.tryRemove key).get? j = if j = key then none else s.get? j := by
  unfold tryRemove
  split
  · exact SortedMap.get?_erase _ _ _
  · rename_i hnone
    split
    · rename_i h
      rw [h, hnone]
    · rfl

@[simp] theorem length_tryRemove (s : Arena α) (key : Nat) :
    (s.tryRemove key).length = s.length := by
  unfold tryRemove
  split <;> rfl

theorem tryRemove_wf {s : Arena α} (hs : s.WellFormed) (key : Nat) :
    (s.tryRemove key).WellFormed := by
  have hget := get?_tryRemove s key
  cases ha : s.get? key with
  | none =>
      have hrem : s.tryRemove key = s := by
        unfold tryRemove
        rw [ha]
      rw [hrem]
      exact hs
  | some a =>
      have hrem : s.tryRemove key =
          { s with occupied := s.occupied.erase key, vacant := key :: s.vacant } := by
        unfold tryRemove
        rw [ha]
      have hmem := SortedMap.mem_keys_of_get? ha
      have hfree : key ∉ s.vacant := by
        intro hvacant
        have hnone := hs.vacant_free key hvacant
        rw [ha] at hnone
        cases hnone
      rw [hrem] at hget ⊢
      refine ⟨?_, ?_, ?_, List.nodup_cons.mpr ⟨hfree, hs.vacant_nodup⟩, ?_⟩
      · intro j b hb
        rw [hget] at hb
        split at hb
        · cases hb
        · exact hs.occupied_lt j b hb
      · intro j hj
        rcases List.mem_cons.mp hj with heq | hj
        · rw [heq]
          exact hs.occupied_lt key a ha
        · exact hs.vacant_lt j hj
      · intro j hj
        rw [hget]
        split
        · rfl
        · rename_i hne
          exact hs.vacant_free j ((List.mem_cons.mp hj).resolve_left hne)
      · show (s.occupied.erase key).keys.card + (key :: s.vacant).length = s.length
        rw [SortedMap.keys_erase, Finset.card_erase_of_mem hmem, List.length_cons]
        have := Finset.card_pos.mpr ⟨key, hmem⟩
        have := hs.total
        omega

end Remove

theorem isEmpty_iff (s : Arena α) : s.isEmpty = true ↔ forall key, s.get? key = none := by
  unfold isEmpty
  rw [List.isEmpty_iff]
  constructor
  · intro h key
    cases hget : s.get? key with
    | none => rfl
    | some a =>
        have hmem := SortedMap.mem_entries_iff.mpr hget
        rw [h] at hmem
        exact absurd hmem List.not_mem_nil
  · intro h
    rw [List.eq_nil_iff_forall_not_mem]
    intro e he
    have hget := SortedMap.mem_entries_iff.mp (show (e.1, e.2) ∈ s.occupied.entries from he)
    have hnone := h e.1
    rw [show s.get? e.1 = some e.2 from hget] at hnone
    cases hnone

end Arena

instance {α : Type u} : LawfulAllocator α (Arena α) where
  empty := Arena.empty
  isEmpty := Arena.isEmpty
  get? := Arena.get?
  insert := Arena.insert
  modify := Arena.modify
  tryRemove := Arena.tryRemove
  Valid := Arena.WellFormed
  handedOut := Arena.length
  empty_valid := Arena.empty_wf
  insert_valid := Arena.insert_wf
  modify_valid := Arena.modify_wf
  tryRemove_valid := Arena.tryRemove_wf
  get?_empty := Arena.get?_empty
  isEmpty_iff := fun {s} _ => s.isEmpty_iff
  insert_fresh := Arena.insert_fresh
  get?_insert := fun {s} _ => s.get?_insert
  get?_modify := fun {s} _ => s.get?_modify
  get?_tryRemove := fun {s} _ => s.get?_tryRemove
  handedOut_empty := rfl
  insert_lt := Arena.insert_lt
  handedOut_insert := Arena.length_insert
  handedOut_modify := Arena.length_modify
  handedOut_tryRemove := Arena.length_tryRemove

end Foundation
end RmUniswap
