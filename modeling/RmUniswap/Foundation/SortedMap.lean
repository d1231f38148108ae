import Mathlib

/-!
# Sorted finite maps

A finite map kept as a list of entries in strictly ascending key order.  The
order is a field of the structure, so two maps with the same lookups are equal
and neighbour searches are reads of the entry list.

Sums over the entries are related to sums over a finite set of keys, which
makes the effect of one update on a sum a statement about one key.
-/

namespace RmUniswap
namespace Foundation

universe u v w

structure SortedMap (K : Type u) (V : Type v) [LinearOrder K] where
  entries : List (K × V)
  sorted : entries.Pairwise (fun a b => a.1 < b.1)

namespace SortedMap

variable {K : Type u} {V : Type v} [LinearOrder K]

instance [DecidableEq V] : DecidableEq (SortedMap K V) := fun m n =>
  decidable_of_iff (m.entries = n.entries)
    ⟨fun h => by cases m; cases n; cases h; rfl, fun h => by rw [h]⟩

/-!
# Operations
-/

def empty : SortedMap K V :=
  ⟨[], List.Pairwise.nil⟩

instance : Inhabited (SortedMap K V) := ⟨empty⟩

def get? (m : SortedMap K V) (k : K) : Option V :=
  m.entries.lookup k

def insertEntry (k : K) (v : V) : List (K × V) -> List (K × V)
  | [] => [(k, v)]
  | (k', v') :: rest =>
      if k < k' then (k, v) :: (k', v') :: rest
      else if k = k' then (k, v) :: rest
      else (k', v') :: insertEntry k v rest

theorem mem_insertEntry {k : K} {v : V} {e : K × V} {l : List (K × V)}
    (h : e ∈ insertEntry k v l) : e = (k, v) ∨ e ∈ l := by
  induction l with
  | nil =>
      exact Or.inl (List.mem_singleton.mp h)
  | cons hd tl ih =>
      rw [insertEntry] at h
      split at h
      · exact List.mem_cons.mp h
      · split at h
        · rcases List.mem_cons.mp h with h | h
          · exact Or.inl h
          · exact Or.inr (List.mem_cons_of_mem _ h)
        · rcases List.mem_cons.mp h with h | h
          · exact Or.inr (h ▸ List.mem_cons_self)
          · rcases ih h with h | h
            · exact Or.inl h
            · exact Or.inr (List.mem_cons_of_mem _ h)

theorem insertEntry_sorted (k : K) (v : V) {l : List (K × V)}
    (h : l.Pairwise (fun a b => a.1 < b.1)) :
    (insertEntry k v l).Pairwise (fun a b => a.1 < b.1) := by
  induction l with
  | nil =>
      exact List.pairwise_singleton _ _
  | cons hd tl ih =>
      have htl := List.pairwise_cons.mp h
      rw [insertEntry]
      split
      · rename_i hlt
        refine List.pairwise_cons.mpr ⟨?_, h⟩
        intro e he
        rcases List.mem_cons.mp he with he | he
        · rw [he]; exact hlt
        · exact hlt.trans (htl.1 e he)
      · split
        · rename_i heq
          refine List.pairwise_cons.mpr ⟨?_, htl.2⟩
          intro e he
          exact heq ▸ htl.1 e he
        · rename_i hnlt hne
          refine List.pairwise_cons.mpr ⟨?_, ih htl.2⟩
          intro e he
          rcases mem_insertEntry he with he | he
          · rw [he]
            exact lt_of_le_of_ne (not_lt.mp hnlt) (Ne.symm hne)
          · exact htl.1 e he

def insert (m : SortedMap K V) (k : K) (v : V) : SortedMap K V :=
  ⟨insertEntry k v m.entries, insertEntry_sorted k v m.sorted⟩

def erase (m : SortedMap K V) (k : K) : SortedMap K V :=
  ⟨m.entries.filter (fun e => e.1 ≠ k), m.sorted.filter _⟩

def ofList (l : List (K × V)) : SortedMap K V :=
  l.foldl (fun m e => m.insert e.1 e.2) empty

def findLE? (m : SortedMap K V) (q : K) : Option (K × V) :=
  (m.entries.filter (fun e => e.1 ≤ q)).getLast?

def findLT? (m : SortedMap K V) (q : K) : Option (K × V) :=
  (m.entries.filter (fun e => e.1 < q)).getLast?

def findGT? (m : SortedMap K V) (q : K) : Option (K × V) :=
  m.entries.find? (fun e => q < e.1)

/-!
# Lookup
-/

theorem mem_entries_iff {m : SortedMap K V} {k : K} {v : V} :
    (k, v) ∈ m.entries ↔ m.get? k = some v := by
  obtain ⟨l, hl⟩ := m
  unfold get?
  induction l with
  | nil =>
      simp
  | cons hd tl ih =>
      have htl := List.pairwise_cons.mp hl
      rcases hd with ⟨k', v'⟩
      by_cases hk : k = k'
      · subst hk
        constructor
        · intro h
          rcases List.mem_cons.mp h with h | h
          · cases h; simp
          · exact absurd (htl.1 _ h) (lt_irrefl _)
        · intro h
          simp at h
          exact h ▸ List.mem_cons_self
      · simp only [List.lookup, beq_eq_false_iff_ne.mpr hk]
        rw [← ih htl.2]
        simp [hk]

@[simp] theorem get?_empty (k : K) : (empty : SortedMap K V).get? k = none := rfl

private theorem lookup_insertEntry_self (k : K) (v : V) (l : List (K × V)) :
    (insertEntry k v l).lookup k = some v := by
  induction l with
  | nil =>
      simp [insertEntry]
  | cons hd tl ih =>
      rw [insertEntry]
      split
      · simp
      · split
        · simp
        · rename_i hne
          simp only [List.lookup, beq_eq_false_iff_ne.mpr hne, ih]

private theorem lookup_insertEntry_ne {k j : K} (h : j ≠ k) (v : V)
    (l : List (K × V)) : (insertEntry k v l).lookup j = l.lookup j := by
  have hjk := beq_eq_false_iff_ne.mpr h
  induction l with
  | nil =>
      simp [insertEntry, List.lookup, hjk]
  | cons hd tl ih =>
      rw [insertEntry]
      split
      · simp only [List.lookup, hjk]
      · split
        · rename_i heq
          simp only [List.lookup, ← heq, hjk]
        · simp only [List.lookup, ih]

@[simp] theorem get?_insert_self (m : SortedMap K V) (k : K) (v : V) :
    (m.insert k v).get? k = some v :=
  lookup_insertEntry_self k v m.entries

theorem get?_insert_ne (m : SortedMap K V) {k j : K} (h : j ≠ k) (v : V) :
    (m.insert k v).get? j = m.get? j :=
  lookup_insertEntry_ne h v m.entries

theorem get?_insert (m : SortedMap K V) (k j : K) (v : V) :
    (m.insert k v).get? j = if j = k then some v else m.get? j := by
  split
  · rename_i h
    rw [h, get?_insert_self]
  · rename_i h
    exact get?_insert_ne m h v

@[simp] theorem get?_erase_self (m : SortedMap K V) (k : K) :
    (m.erase k).get? k = none := by
  cases h : (m.erase k).get? k with
  | none => rfl
  | some v =>
      have hmem := mem_entries_iff.mpr h
      simp [erase] at hmem

theorem get?_erase_ne (m : SortedMap K V) {k j : K} (h : j ≠ k) :
    (m.erase k).get? j = m.get? j := by
  apply Option.ext
  intro v
  rw [← mem_entries_iff, ← mem_entries_iff]
  simp [erase, h]

theorem get?_erase (m : SortedMap K V) (k j : K) :
    (m.erase k).get? j = if j = k then none else m.get? j := by
  split
  · rename_i h
    rw [h, get?_erase_self]
  · rename_i h
    exact get?_erase_ne m h

@[ext] theorem ext {m n : SortedMap K V} (h : forall k, m.get? k = n.get? k) :
    m = n := by
  have hnodup (p : SortedMap K V) : p.entries.Nodup :=
    p.sorted.imp (fun {a b} hab hEq => absurd hab (by rw [hEq]; exact lt_irrefl _))
  have hperm : m.entries.Perm n.entries := by
    rw [List.perm_ext_iff_of_nodup (hnodup m) (hnodup n)]
    rintro ⟨k, v⟩
    rw [mem_entries_iff, mem_entries_iff, h k]
  have heq : m.entries = n.entries :=
    hperm.eq_of_pairwise
      (fun a b _ _ hab hba => absurd (hab.trans hba) (lt_irrefl _))
      m.sorted n.sorted
  cases m
  cases n
  cases heq
  rfl

theorem get?_foldl_insert {B : Type w} {key : B -> K} {val : B -> V} {l : List B}
    (hval : forall b c, b ∈ l -> c ∈ l -> key b = key c -> val b = val c)
    (m : SortedMap K V) (k : K) (v : V) :
    (l.foldl (fun m b => m.insert (key b) (val b)) m).get? k = some v ↔
      (exists b, b ∈ l ∧ key b = k ∧ val b = v) ∨
        (forall b, b ∈ l -> key b ≠ k) ∧ m.get? k = some v := by
  induction l generalizing m with
  | nil =>
      simp
  | cons hd tl ih =>
      have htl (b c : B) (hb : b ∈ tl) (hc : c ∈ tl) : key b = key c -> val b = val c :=
        hval b c (List.mem_cons_of_mem _ hb) (List.mem_cons_of_mem _ hc)
      rw [List.foldl_cons, ih htl, get?_insert]
      constructor
      · rintro (⟨b, hb, hkey, hv⟩ | ⟨hnone, hget⟩)
        · exact Or.inl ⟨b, List.mem_cons_of_mem _ hb, hkey, hv⟩
        · split at hget
          · rename_i hk
            exact Or.inl ⟨hd, List.mem_cons_self, hk.symm, Option.some.inj hget⟩
          · rename_i hk
            refine Or.inr ⟨fun b hb => ?_, hget⟩
            rcases List.mem_cons.mp hb with hb | hb
            · rw [hb]
              exact fun he => hk he.symm
            · exact hnone b hb
      · rintro (⟨b, hb, hkey, hv⟩ | ⟨hnone, hget⟩)
        · rcases List.mem_cons.mp hb with hb | hb
          · by_cases hex : exists c, c ∈ tl ∧ key c = k
            · rcases hex with ⟨c, hc, hck⟩
              refine Or.inl ⟨c, hc, hck, ?_⟩
              rw [← hv, hb]
              apply hval c hd (List.mem_cons_of_mem _ hc) List.mem_cons_self
              rw [hck, ← hkey, hb]
            · refine Or.inr ⟨fun c hc hck => hex ⟨c, hc, hck⟩, ?_⟩
              rw [← hb, if_pos hkey.symm, hv]
          · exact Or.inl ⟨b, hb, hkey, hv⟩
        · refine Or.inr ⟨fun b hb => hnone b (List.mem_cons_of_mem _ hb), ?_⟩
          rw [if_neg (fun he => hnone hd List.mem_cons_self he.symm)]
          exact hget

def mapValues {W : Type w} (m : SortedMap K V) (f : V -> W) : SortedMap K W :=
  ⟨m.entries.map fun e => (e.1, f e.2), by
    rw [List.pairwise_map]
    exact m.sorted⟩

theorem get?_mapValues {W : Type w} (m : SortedMap K V) (f : V -> W) (k : K) :
    (m.mapValues f).get? k = (m.get? k).map f := by
  apply Option.ext
  intro b
  rw [← mem_entries_iff, Option.map_eq_some_iff]
  unfold mapValues
  rw [List.mem_map]
  constructor
  · rintro ⟨e, he, heq⟩
    cases heq
    exact ⟨e.2, mem_entries_iff.mp he, rfl⟩
  · rintro ⟨a, ha, rfl⟩
    exact ⟨(k, a), mem_entries_iff.mpr ha, rfl⟩

theorem ofList_entries (m : SortedMap K V) : ofList m.entries = m := by
  apply ext
  intro k
  apply Option.ext
  intro v
  rw [ofList, get?_foldl_insert]
  · constructor
    · rintro (⟨e, he, hk, hv⟩ | ⟨_, hnone⟩)
      · exact mem_entries_iff.mp (hk ▸ hv ▸ he)
      · cases hnone
    · intro h
      exact Or.inl ⟨(k, v), mem_entries_iff.mpr h, rfl, rfl⟩
  · intro b c hb hc hbc
    have hb' := mem_entries_iff.mp hb
    have hc' := mem_entries_iff.mp hc
    rw [hbc, hc'] at hb'
    exact (Option.some.inj hb').symm

/-!
# Neighbour searches
-/

private theorem getLast?_filter_some {p : K -> Bool} {l : List (K × V)}
    {e : K × V} (hl : l.Pairwise (fun a b => a.1 < b.1))
    (h : (l.filter (fun e => p e.1)).getLast? = some e) :
    e ∈ l ∧ p e.1 = true ∧
      forall e', e' ∈ l -> p e'.1 = true -> e'.1 ≤ e.1 := by
  obtain ⟨front, hfront⟩ := List.getLast?_eq_some_iff.mp h
  have hmem : e ∈ l.filter (fun e => p e.1) := by
    rw [hfront]; simp
  refine ⟨(List.mem_filter.mp hmem).1, (List.mem_filter.mp hmem).2, ?_⟩
  intro e' he' hp
  have hmem' : e' ∈ front ++ [e] := by
    rw [← hfront]; exact List.mem_filter.mpr ⟨he', hp⟩
  have hsorted : (front ++ [e]).Pairwise (fun a b => a.1 < b.1) := by
    rw [← hfront]; exact hl.filter _
  rcases List.mem_append.mp hmem' with hin | hin
  · exact le_of_lt ((List.pairwise_append.mp hsorted).2.2 e' hin e (by simp))
  · rw [List.mem_singleton.mp hin]

omit [LinearOrder K] in
private theorem getLast?_filter_none {p : K -> Bool} {l : List (K × V)}
    (h : (l.filter (fun e => p e.1)).getLast? = none) :
    forall e', e' ∈ l -> p e'.1 = false := by
  rw [List.getLast?_eq_none_iff, List.filter_eq_nil_iff] at h
  intro e' he'
  simpa using h e' he'

theorem findLE?_eq_some {m : SortedMap K V} {q k : K} {v : V}
    (h : m.findLE? q = some (k, v)) :
    m.get? k = some v ∧ k ≤ q ∧
      forall j w, m.get? j = some w -> j ≤ q -> j ≤ k := by
  rcases getLast?_filter_some (p := fun j => decide (j ≤ q)) m.sorted h with
    ⟨hmem, hle, hmax⟩
  refine ⟨mem_entries_iff.mp hmem, by simpa using hle, ?_⟩
  intro j w hj hjq
  exact hmax (j, w) (mem_entries_iff.mpr hj) (by simpa using hjq)

theorem findLE?_eq_none {m : SortedMap K V} {q : K}
    (h : m.findLE? q = none) {j : K} {w : V} (hj : m.get? j = some w) :
    q < j := by
  have := getLast?_filter_none (p := fun j => decide (j ≤ q)) h (j, w)
    (mem_entries_iff.mpr hj)
  simpa using this

theorem findLT?_eq_some {m : SortedMap K V} {q k : K} {v : V}
    (h : m.findLT? q = some (k, v)) :
    m.get? k = some v ∧ k < q ∧
      forall j w, m.get? j = some w -> j < q -> j ≤ k := by
  rcases getLast?_filter_some (p := fun j => decide (j < q)) m.sorted h with
    ⟨hmem, hlt, hmax⟩
  refine ⟨mem_entries_iff.mp hmem, by simpa using hlt, ?_⟩
  intro j w hj hjq
  exact hmax (j, w) (mem_entries_iff.mpr hj) (by simpa using hjq)

theorem findLT?_eq_none {m : SortedMap K V} {q : K}
    (h : m.findLT? q = none) {j : K} {w : V} (hj : m.get? j = some w) :
    q ≤ j := by
  have := getLast?_filter_none (p := fun j => decide (j < q)) h (j, w)
    (mem_entries_iff.mpr hj)
  simpa using this

theorem findGT?_eq_some {m : SortedMap K V} {q k : K} {v : V}
    (h : m.findGT? q = some (k, v)) :
    m.get? k = some v ∧ q < k ∧
      forall j w, m.get? j = some w -> q < j -> k ≤ j := by
  unfold findGT? at h
  rw [List.find?_eq_some_iff_append] at h
  rcases h with ⟨hlt, front, back, hsplit, hfront⟩
  have hsorted := m.sorted
  rw [hsplit] at hsorted
  refine ⟨mem_entries_iff.mp (by rw [hsplit]; simp), by simpa using hlt, ?_⟩
  intro j w hj hqj
  have hmem := mem_entries_iff.mpr hj
  rw [hsplit] at hmem
  rcases List.mem_append.mp hmem with hin | hin
  · have := hfront _ hin
    simp only [Bool.not_eq_true', decide_eq_false_iff_not] at this
    exact absurd hqj this
  · rcases List.mem_cons.mp hin with hin | hin
    · cases hin; exact le_refl _
    · have hpair := (List.pairwise_append.mp hsorted).2.1
      exact le_of_lt ((List.pairwise_cons.mp hpair).1 _ hin)

theorem findGT?_eq_none {m : SortedMap K V} {q : K}
    (h : m.findGT? q = none) {j : K} {w : V} (hj : m.get? j = some w) :
    j ≤ q := by
  unfold findGT? at h
  rw [List.find?_eq_none] at h
  have := h (j, w) (mem_entries_iff.mpr hj)
  simpa using this

theorem findLE?_eq (m : SortedMap K V) (k : K) :
    m.findLE? k = match m.get? k with
      | some v => some (k, v)
      | none => m.findLT? k := by
  cases hget : m.get? k with
  | some v =>
      cases hfind : m.findLE? k with
      | none =>
          exact absurd (findLE?_eq_none hfind hget) (lt_irrefl k)
      | some e =>
          rcases findLE?_eq_some (k := e.1) (v := e.2) hfind with ⟨hgete, hle, hmax⟩
          have heq : e.1 = k := le_antisymm hle (hmax k v hget (le_refl k))
          rw [heq, hget] at hgete
          rw [← heq, Option.some.inj hgete]
  | none =>
      dsimp only
      cases hfind : m.findLE? k with
      | none =>
          cases hlt : m.findLT? k with
          | none => rfl
          | some e =>
              rcases findLT?_eq_some (k := e.1) (v := e.2) hlt with ⟨hgete, hltk, _⟩
              have hgt := findLE?_eq_none hfind hgete
              exact absurd hltk (not_lt.mpr (le_of_lt hgt))
      | some e =>
          rcases findLE?_eq_some (k := e.1) (v := e.2) hfind with ⟨hgete, hle, hmax⟩
          have hne : e.1 ≠ k := by
            intro heq
            rw [heq, hget] at hgete
            cases hgete
          cases hlt : m.findLT? k with
          | none =>
              exact absurd (findLT?_eq_none hlt hgete) (not_le.mpr (lt_of_le_of_ne hle hne))
          | some e' =>
              rcases findLT?_eq_some (k := e'.1) (v := e'.2) hlt with
                ⟨hgete', hltk, hmax'⟩
              have heq : e.1 = e'.1 :=
                le_antisymm (hmax' _ _ hgete (lt_of_le_of_ne hle hne))
                  (hmax _ _ hgete' (le_of_lt hltk))
              rw [heq, hgete'] at hgete
              exact congrArg some (Prod.ext heq (Option.some.inj hgete).symm)

/-!
# Keys and sums

The sum over the entries is a sum over any finite set of keys that contains
the keys of the map, with zero at the keys the map lacks.
-/

def keys (m : SortedMap K V) : Finset K :=
  (m.entries.map Prod.fst).toFinset

theorem mem_keys {m : SortedMap K V} {k : K} :
    k ∈ m.keys ↔ exists v, m.get? k = some v := by
  simp only [keys, List.mem_toFinset, List.mem_map, Prod.exists,
    exists_and_right, exists_eq_right, mem_entries_iff]

theorem mem_keys_of_get? {m : SortedMap K V} {k : K} {v : V}
    (h : m.get? k = some v) : k ∈ m.keys :=
  mem_keys.mpr ⟨v, h⟩

theorem keys_insert (m : SortedMap K V) (k : K) (v : V) :
    (m.insert k v).keys = Insert.insert k m.keys := by
  ext j
  rw [Finset.mem_insert, mem_keys, mem_keys]
  by_cases hj : j = k
  · subst hj
    simp
  · simp [get?_insert_ne m hj, hj]

theorem keys_erase (m : SortedMap K V) (k : K) : (m.erase k).keys = m.keys.erase k := by
  ext j
  rw [Finset.mem_erase, mem_keys, mem_keys]
  by_cases hj : j = k
  · subst hj
    simp
  · simp [get?_erase_ne m hj, hj]

theorem not_mem_keys {m : SortedMap K V} {k : K} : k ∉ m.keys ↔ m.get? k = none := by
  rw [mem_keys]
  cases m.get? k <;> simp

section Sum

variable {M : Type w} [AddCommMonoid M]

def sum (m : SortedMap K V) (f : K -> V -> M) : M :=
  (m.entries.map (fun e => f e.1 e.2)).sum

def summand (m : SortedMap K V) (f : K -> V -> M) (k : K) : M :=
  ((m.get? k).map (f k)).getD 0

theorem summand_some {m : SortedMap K V} {f : K -> V -> M} {k : K} {v : V}
    (h : m.get? k = some v) : m.summand f k = f k v := by
  simp [summand, h]

theorem summand_none {m : SortedMap K V} {f : K -> V -> M} {k : K}
    (h : m.get? k = none) : m.summand f k = 0 := by
  simp [summand, h]

@[simp] theorem sum_empty (f : K -> V -> M) : (empty : SortedMap K V).sum f = 0 := rfl

theorem sum_eq_sum_keys (m : SortedMap K V) (f : K -> V -> M) :
    m.sum f = ∑ k ∈ m.keys, m.summand f k := by
  have hnodup : (m.entries.map Prod.fst).Nodup := by
    rw [List.Nodup, List.pairwise_map]
    exact m.sorted.imp (fun hab => ne_of_lt hab)
  rw [keys, List.sum_toFinset _ hnodup, List.map_map, sum]
  congr 1
  apply List.map_congr_left
  rintro ⟨k, v⟩ hmem
  exact (summand_some (mem_entries_iff.mp hmem)).symm

theorem sum_eq_sum_of_subset {m : SortedMap K V} {S : Finset K}
    (f : K -> V -> M) (h : m.keys ⊆ S) : m.sum f = ∑ k ∈ S, m.summand f k := by
  rw [sum_eq_sum_keys]
  apply Finset.sum_subset h
  intro k _ hk
  exact summand_none (not_mem_keys.mp hk)

theorem sum_congr {m : SortedMap K V} {f g : K -> V -> M}
    (h : forall k v, m.get? k = some v -> f k v = g k v) : m.sum f = m.sum g := by
  unfold sum
  congr 1
  apply List.map_congr_left
  rintro ⟨k, v⟩ hmem
  exact h k v (mem_entries_iff.mp hmem)

theorem sum_add (m : SortedMap K V) (f g : K -> V -> M) :
    m.sum (fun k v => f k v + g k v) = m.sum f + m.sum g :=
  List.sum_map_add

def AgreeOff (m n : SortedMap K V) (k : K) : Prop :=
  forall j, j ≠ k -> n.get? j = m.get? j

theorem agreeOff_insert (m : SortedMap K V) (k : K) (v : V) :
    AgreeOff m (m.insert k v) k :=
  fun _ hj => get?_insert_ne m hj v

theorem agreeOff_erase (m : SortedMap K V) (k : K) :
    AgreeOff m (m.erase k) k :=
  fun _ hj => get?_erase_ne m hj

theorem sum_update {m n : SortedMap K V} {k : K} (f : K -> V -> M)
    (h : AgreeOff m n k) :
    n.sum f + m.summand f k = m.sum f + n.summand f k := by
  classical
  have hsum (p : SortedMap K V) (hp : p = m ∨ p = n) :
      p.sum f = ∑ j ∈ Insert.insert k (m.keys ∪ n.keys), p.summand f j := by
    apply sum_eq_sum_of_subset
    intro j hj
    rcases hp with rfl | rfl
    · exact Finset.mem_insert_of_mem (Finset.mem_union_left _ hj)
    · exact Finset.mem_insert_of_mem (Finset.mem_union_right _ hj)
  have hrest : ∑ j ∈ (Insert.insert k (m.keys ∪ n.keys)).erase k, n.summand f j =
      ∑ j ∈ (Insert.insert k (m.keys ∪ n.keys)).erase k, m.summand f j := by
    apply Finset.sum_congr rfl
    intro j hj
    simp only [summand, h j (Finset.ne_of_mem_erase hj)]
  have hk : k ∈ Insert.insert k (m.keys ∪ n.keys) := Finset.mem_insert_self _ _
  rw [hsum n (Or.inr rfl), hsum m (Or.inl rfl),
    ← Finset.add_sum_erase _ _ hk, ← Finset.add_sum_erase _ (m.summand f) hk, hrest]
  abel

end Sum

section OrderedSum

variable {M : Type w} [AddCommMonoid M] [PartialOrder M] [IsOrderedAddMonoid M]

theorem sum_le_sum {m : SortedMap K V} {f g : K -> V -> M}
    (h : forall k v, m.get? k = some v -> f k v ≤ g k v) : m.sum f ≤ m.sum g := by
  unfold sum
  apply List.sum_le_sum
  rintro ⟨k, v⟩ hmem
  exact h k v (mem_entries_iff.mp hmem)

theorem sum_nonneg {m : SortedMap K V} {f : K -> V -> M}
    (h : forall k v, m.get? k = some v -> 0 ≤ f k v) : 0 ≤ m.sum f := by
  unfold sum
  apply List.sum_nonneg
  intro x hx
  rcases List.mem_map.mp hx with ⟨⟨k, v⟩, hmem, rfl⟩
  exact h k v (mem_entries_iff.mp hmem)

theorem le_sum_of_get? {m : SortedMap K V} {f : K -> V -> M} {k : K} {v : V}
    (hf : forall k v, m.get? k = some v -> 0 ≤ f k v) (h : m.get? k = some v) :
    f k v ≤ m.sum f := by
  rw [sum_eq_sum_keys, ← summand_some (f := f) h]
  apply Finset.single_le_sum (f := m.summand f)
  · intro j hj
    rcases mem_keys.mp hj with ⟨w, hw⟩
    rw [summand_some hw]
    exact hf j w hw
  · exact mem_keys_of_get? h

end OrderedSum

end SortedMap

end Foundation
end RmUniswap
