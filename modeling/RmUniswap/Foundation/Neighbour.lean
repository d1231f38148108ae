import Mathlib

/-!
# Neighbour searches

The answer of a search over a set of keys is an optional key: the least or the
greatest one of the set, and none exactly when the set is empty.
-/

namespace RmUniswap
namespace Foundation

universe u v

variable {K : Type u} [LinearOrder K]

def LeastIn (S : Set K) : Option K -> Prop
  | some k => IsLeast S k
  | none => forall k, k ∉ S

def GreatestIn (S : Set K) : Option K -> Prop
  | some k => IsGreatest S k
  | none => forall k, k ∉ S

theorem LeastIn.unique {S : Set K} {a b : Option K} (ha : LeastIn S a)
    (hb : LeastIn S b) : a = b := by
  cases a with
  | none =>
      cases b with
      | none => rfl
      | some k => exact absurd hb.1 (ha k)
  | some j =>
      cases b with
      | none => exact absurd ha.1 (hb j)
      | some k => exact congrArg some (IsLeast.unique ha hb)

theorem GreatestIn.unique {S : Set K} {a b : Option K} (ha : GreatestIn S a)
    (hb : GreatestIn S b) : a = b := by
  cases a with
  | none =>
      cases b with
      | none => rfl
      | some k => exact absurd hb.1 (ha k)
  | some j =>
      cases b with
      | none => exact absurd ha.1 (hb j)
      | some k => exact congrArg some (IsGreatest.unique ha hb)

theorem LeastIn.mem {S : Set K} {k : K} (h : LeastIn S (some k)) : k ∈ S := h.1

theorem GreatestIn.mem {S : Set K} {k : K} (h : GreatestIn S (some k)) : k ∈ S := h.1

section Entry

variable {V : Type v} {f : K -> Option V}

def LeastEntry (f : K -> Option V) (S : Set K) : Option (K × V) -> Prop
  | some (k, a) => IsLeast S k ∧ f k = some a
  | none => forall k, k ∉ S

def GreatestEntry (f : K -> Option V) (S : Set K) : Option (K × V) -> Prop
  | some (k, a) => IsGreatest S k ∧ f k = some a
  | none => forall k, k ∉ S

theorem LeastEntry.unique {S : Set K} {a b : Option (K × V)} (ha : LeastEntry f S a)
    (hb : LeastEntry f S b) : a = b := by
  match a, b with
  | none, none => rfl
  | none, some (k, _) => exact absurd hb.1.1 (ha k)
  | some (j, _), none => exact absurd ha.1.1 (hb j)
  | some (j, x), some (k, y) =>
      have hjk : j = k := IsLeast.unique ha.1 hb.1
      have hxy : some x = some y := by rw [← ha.2, ← hb.2, hjk]
      rw [hjk, Option.some.inj hxy]

theorem GreatestEntry.unique {S : Set K} {a b : Option (K × V)} (ha : GreatestEntry f S a)
    (hb : GreatestEntry f S b) : a = b := by
  match a, b with
  | none, none => rfl
  | none, some (k, _) => exact absurd hb.1.1 (ha k)
  | some (j, _), none => exact absurd ha.1.1 (hb j)
  | some (j, x), some (k, y) =>
      have hjk : j = k := IsGreatest.unique ha.1 hb.1
      have hxy : some x = some y := by rw [← ha.2, ← hb.2, hjk]
      rw [hjk, Option.some.inj hxy]

end Entry

/-!
# Keys after and before a position
-/

def after (p : K -> Prop) (k : K) : Set K := {j | p j ∧ k < j}

def before (p : K -> Prop) (k : K) : Set K := {j | p j ∧ j < k}

def atOrAfter (p : K -> Prop) (k : K) : Set K := {j | p j ∧ k ≤ j}

def atOrBefore (p : K -> Prop) (k : K) : Set K := {j | p j ∧ j ≤ k}

@[simp] theorem mem_after {p : K -> Prop} {j k : K} : j ∈ after p k ↔ p j ∧ k < j := Iff.rfl

@[simp] theorem mem_before {p : K -> Prop} {j k : K} : j ∈ before p k ↔ p j ∧ j < k := Iff.rfl

@[simp] theorem mem_atOrAfter {p : K -> Prop} {j k : K} :
    j ∈ atOrAfter p k ↔ p j ∧ k ≤ j := Iff.rfl

@[simp] theorem mem_atOrBefore {p : K -> Prop} {j k : K} :
    j ∈ atOrBefore p k ↔ p j ∧ j ≤ k := Iff.rfl

theorem atOrAfter_eq_after {p : K -> Prop} {k : K} (h : ¬ p k) :
    atOrAfter p k = after p k := by
  ext j
  constructor
  · intro hj
    exact ⟨hj.1, lt_of_le_of_ne hj.2 (fun he => h (he ▸ hj.1))⟩
  · intro hj
    exact ⟨hj.1, le_of_lt hj.2⟩

theorem atOrBefore_eq_before {p : K -> Prop} {k : K} (h : ¬ p k) :
    atOrBefore p k = before p k := by
  ext j
  constructor
  · intro hj
    exact ⟨hj.1, lt_of_le_of_ne hj.2 (fun he => h (he ▸ hj.1))⟩
  · intro hj
    exact ⟨hj.1, le_of_lt hj.2⟩

/-!
# Adding a key

The set {lit}`q` has one key more than {lit}`p`; read backwards, the key is dropped.
Only the neighbours of that key see a change.
-/

section Add

variable {p q : K -> Prop} {c k : K} {o : Option K}

theorem after_add_self (hq : forall j, q j ↔ p j ∨ j = c) : after q c = after p c := by
  ext j
  simp only [mem_after, hq]
  constructor
  · rintro ⟨hp | hp, hlt⟩
    · exact ⟨hp, hlt⟩
    · exact absurd hlt (by rw [hp]; exact lt_irrefl c)
  · rintro ⟨hp, hlt⟩
    exact ⟨Or.inl hp, hlt⟩

theorem before_add_self (hq : forall j, q j ↔ p j ∨ j = c) : before q c = before p c := by
  ext j
  simp only [mem_before, hq]
  constructor
  · rintro ⟨hp | hp, hlt⟩
    · exact ⟨hp, hlt⟩
    · exact absurd hlt (by rw [hp]; exact lt_irrefl c)
  · rintro ⟨hp, hlt⟩
    exact ⟨Or.inl hp, hlt⟩

theorem least_after_add (hq : forall j, q j ↔ p j ∨ j = c)
    (hk : GreatestIn (before p c) (some k)) : LeastIn (after q k) (some c) := by
  refine ⟨⟨(hq c).mpr (Or.inr rfl), hk.1.2⟩, ?_⟩
  intro j hj
  rcases (hq j).mp hj.1 with hp | hp
  · by_contra hlt
    have := hk.2 (show j ∈ before p c from ⟨hp, not_le.mp hlt⟩)
    exact absurd hj.2 (not_lt.mpr this)
  · exact le_of_eq hp.symm

theorem greatest_before_add (hq : forall j, q j ↔ p j ∨ j = c)
    (hk : LeastIn (after p c) (some k)) : GreatestIn (before q k) (some c) := by
  refine ⟨⟨(hq c).mpr (Or.inr rfl), hk.1.2⟩, ?_⟩
  intro j hj
  rcases (hq j).mp hj.1 with hp | hp
  · by_contra hlt
    have := hk.2 (show j ∈ after p c from ⟨hp, not_le.mp hlt⟩)
    exact absurd hj.2 (not_lt.mpr this)
  · exact le_of_eq hp

theorem least_after_drop (hk : GreatestIn (before p c) (some k))
    (ho : LeastIn (after p c) o) (hc : ¬ p c) : LeastIn (after p k) o := by
  have hset : after p k = after p c := by
    ext j
    constructor
    · intro hj
      refine ⟨hj.1, ?_⟩
      by_contra hle
      rcases lt_or_eq_of_le (not_lt.mp hle) with hlt | heq
      · exact absurd hj.2 (not_lt.mpr (hk.2 ⟨hj.1, hlt⟩))
      · exact hc (heq ▸ hj.1)
    · intro hj
      exact ⟨hj.1, hk.1.2.trans hj.2⟩
  rw [hset]
  exact ho

theorem greatest_before_drop (hk : LeastIn (after p c) (some k))
    (ho : GreatestIn (before p c) o) (hc : ¬ p c) : GreatestIn (before p k) o := by
  have hset : before p k = before p c := by
    ext j
    constructor
    · intro hj
      refine ⟨hj.1, ?_⟩
      by_contra hle
      rcases lt_or_eq_of_le (not_lt.mp hle) with hlt | heq
      · exact absurd hj.2 (not_lt.mpr (hk.2 ⟨hj.1, hlt⟩))
      · exact hc (heq.symm ▸ hj.1)
    · intro hj
      exact ⟨hj.1, hj.2.trans hk.1.2⟩
  rw [hset]
  exact ho

theorem least_after_congr (hq : forall j, q j ↔ p j ∨ j = c) (hpk : p k) (hkc : k ≠ c)
    {d : Option K} (hoc : GreatestIn (before p c) d) (hne : d ≠ some k) :
    LeastIn (after q k) o ↔ LeastIn (after p k) o := by
  rcases lt_or_gt_of_ne hkc with hlt | hgt
  · -- A key of the set lies between, so the new key is never the least.
    have hbetween : exists g, p g ∧ k < g ∧ g < c := by
      cases d with
      | none => exact absurd ⟨hpk, hlt⟩ (hoc k)
      | some g =>
          refine ⟨g, hoc.1.1, ?_, hoc.1.2⟩
          exact lt_of_le_of_ne (hoc.2 ⟨hpk, hlt⟩) (fun he => hne (by rw [he]))
    rcases hbetween with ⟨g, hpg, hkg, hgc⟩
    cases o with
    | none =>
        constructor
        · intro h
          exact absurd ⟨(hq g).mpr (Or.inl hpg), hkg⟩ (h g)
        · intro h
          exact absurd ⟨hpg, hkg⟩ (h g)
    | some j =>
        constructor
        · intro h
          have hjg : j ≤ g := h.2 ⟨(hq g).mpr (Or.inl hpg), hkg⟩
          refine ⟨⟨?_, h.1.2⟩, fun i hi => h.2 ⟨(hq i).mpr (Or.inl hi.1), hi.2⟩⟩
          rcases (hq j).mp h.1.1 with hp | hp
          · exact hp
          · exact absurd hgc (not_lt.mpr (hp ▸ hjg))
        · intro h
          have hjg : j ≤ g := h.2 ⟨hpg, hkg⟩
          refine ⟨⟨(hq j).mpr (Or.inl h.1.1), h.1.2⟩, ?_⟩
          intro i hi
          rcases (hq i).mp hi.1 with hp | hp
          · exact h.2 ⟨hp, hi.2⟩
          · exact hp ▸ le_of_lt (lt_of_le_of_lt hjg hgc)
  · have hset : after q k = after p k := by
      ext j
      simp only [mem_after, hq]
      constructor
      · rintro ⟨hp | hp, hj⟩
        · exact ⟨hp, hj⟩
        · exact absurd hj (not_lt.mpr (hp ▸ le_of_lt hgt))
      · rintro ⟨hp, hj⟩
        exact ⟨Or.inl hp, hj⟩
    rw [hset]

theorem greatest_before_congr (hq : forall j, q j ↔ p j ∨ j = c) (hpk : p k) (hkc : k ≠ c)
    {d : Option K} (hoc : LeastIn (after p c) d) (hne : d ≠ some k) :
    GreatestIn (before q k) o ↔ GreatestIn (before p k) o :=
  least_after_congr (K := OrderDual K) hq hpk hkc
    (d := d) (by cases d <;> exact hoc) hne

end Add

end Foundation
end RmUniswap
