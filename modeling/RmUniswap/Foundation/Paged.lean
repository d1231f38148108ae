import RmUniswap.Foundation.Neighbour

/-!
# Searches over pages

A set of keys kept in pages of equal size: key {lit}`u * n + i` is slot {lit}`i` of page
{lit}`u`. A search looks at the page of its start and otherwise at the nearest
page that is not empty.
-/

namespace RmUniswap
namespace Foundation

def Paged (n : Nat) (P : Nat -> Nat -> Prop) (k : Nat) : Prop := P (k / n) (k % n)

def NonEmptyPage (n : Nat) (P : Nat -> Nat -> Prop) (u : Nat) : Prop :=
  exists i, i < n ∧ P u i

section Paged

variable {n : Nat} {P : Nat -> Nat -> Prop} {u v a i k : Nat}

theorem page_mul_add (hi : i < n) : (u * n + i) / n = u := by
  rw [Nat.mul_comm, Nat.mul_add_div (Nat.zero_lt_of_lt hi), Nat.div_eq_of_lt hi, Nat.add_zero]

theorem slot_mul_add (hi : i < n) : (u * n + i) % n = i := by
  rw [Nat.mul_comm, Nat.mul_add_mod, Nat.mod_eq_of_lt hi]

theorem paged_mul_add (hi : i < n) : Paged n P (u * n + i) ↔ P u i := by
  unfold Paged
  rw [page_mul_add hi, slot_mul_add hi]

theorem Paged.nonEmpty (hn : 0 < n) (h : Paged n P k) : NonEmptyPage n P (k / n) :=
  ⟨k % n, Nat.mod_lt k hn, h⟩

theorem mul_add_le_iff (hn : 0 < n) (ha : a ≤ n) :
    u * n + a ≤ k ↔ u < k / n ∨ u = k / n ∧ a ≤ k % n := by
  have hk := Nat.div_add_mod' k n
  have hmod := Nat.mod_lt k hn
  constructor
  · intro h
    rcases Nat.lt_trichotomy u (k / n) with hlt | heq | hgt
    · exact Or.inl hlt
    · refine Or.inr ⟨heq, ?_⟩
      rw [heq] at h
      omega
    · have : (k / n + 1) * n ≤ u * n := Nat.mul_le_mul_right n hgt
      rw [Nat.add_mul, Nat.one_mul] at this
      omega
  · rintro (hlt | ⟨heq, hle⟩)
    · have : (u + 1) * n ≤ k / n * n := Nat.mul_le_mul_right n hlt
      rw [Nat.add_mul, Nat.one_mul] at this
      omega
    · rw [heq]
      omega

/-!
# Forward
-/

theorem least_same (h : IsLeast {i | i < n ∧ P u i ∧ a ≤ i} i) :
    IsLeast (atOrAfter (Paged n P) (u * n + a)) (u * n + i) := by
  have hi := h.1.1
  have hn : 0 < n := Nat.zero_lt_of_lt hi
  constructor
  · exact ⟨(paged_mul_add hi).mpr h.1.2.1, Nat.add_le_add_left h.1.2.2 _⟩
  · intro k hk
    have ha : a ≤ n := h.1.2.2.trans (le_of_lt hi)
    rw [mul_add_le_iff hn (le_of_lt hi)]
    rcases (mul_add_le_iff hn ha).mp hk.2 with hlt | ⟨heq, hle⟩
    · exact Or.inl hlt
    · refine Or.inr ⟨heq, h.2 ⟨Nat.mod_lt k hn, ?_, hle⟩⟩
      rw [heq]
      exact hk.1

theorem least_later (hempty : forall i, i < n -> P u i -> i < a) (ha : a ≤ n)
    (hv : IsLeast (atOrAfter (NonEmptyPage n P) (u + 1)) v)
    (hi : IsLeast {i | i < n ∧ P v i} i) :
    IsLeast (atOrAfter (Paged n P) (u * n + a)) (v * n + i) := by
  have hn : 0 < n := Nat.zero_lt_of_lt hi.1.1
  constructor
  · refine ⟨(paged_mul_add hi.1.1).mpr hi.1.2, ?_⟩
    rw [mul_add_le_iff hn ha, page_mul_add hi.1.1]
    exact Or.inl hv.1.2
  · intro k hk
    rw [mul_add_le_iff hn (le_of_lt hi.1.1)]
    have hlt : u < k / n := by
      rcases (mul_add_le_iff hn ha).mp hk.2 with hlt | ⟨heq, hle⟩
      · exact hlt
      · exact absurd (hempty (k % n) (Nat.mod_lt k hn) (heq ▸ hk.1)) (not_lt.mpr hle)
    rcases Nat.lt_or_eq_of_le (hv.2 ⟨hk.1.nonEmpty hn, hlt⟩) with h | h
    · exact Or.inl h
    · exact Or.inr ⟨h, hi.2 ⟨Nat.mod_lt k hn, h ▸ hk.1⟩⟩

theorem least_none (hn : 0 < n) (hempty : forall i, i < n -> P u i -> i < a) (ha : a ≤ n)
    (hv : forall w, w ∉ atOrAfter (NonEmptyPage n P) (u + 1)) (k : Nat) :
    k ∉ atOrAfter (Paged n P) (u * n + a) := by
  intro hk
  rcases (mul_add_le_iff hn ha).mp hk.2 with hlt | ⟨heq, hle⟩
  · exact hv (k / n) ⟨hk.1.nonEmpty hn, hlt⟩
  · exact absurd (hempty (k % n) (Nat.mod_lt k hn) (heq ▸ hk.1)) (not_lt.mpr hle)

/-!
# Backward
-/

theorem greatest_same (ha : a ≤ n) (h : IsGreatest {i | i < n ∧ P u i ∧ i < a} i) :
    IsGreatest (before (Paged n P) (u * n + a)) (u * n + i) := by
  have hi := h.1.1
  have hn : 0 < n := Nat.zero_lt_of_lt hi
  constructor
  · exact ⟨(paged_mul_add hi).mpr h.1.2.1, Nat.add_lt_add_left h.1.2.2 _⟩
  · intro k hk
    by_contra hlt
    have hle : u * n + (i + 1) ≤ k := not_le.mp hlt
    rcases (mul_add_le_iff hn (show i + 1 ≤ n from hi)).mp hle with hpage | ⟨heq, hslot⟩
    · exact absurd hk.2 (not_lt.mpr ((mul_add_le_iff hn ha).mpr (Or.inl hpage)))
    · have hka : k % n < a := by
        by_contra hge
        exact absurd hk.2 (not_lt.mpr
          ((mul_add_le_iff hn ha).mpr (Or.inr ⟨heq, not_lt.mp hge⟩)))
      have := h.2 ⟨Nat.mod_lt k hn, heq ▸ hk.1, hka⟩
      omega

theorem greatest_earlier (hempty : forall i, i < n -> P u i -> a ≤ i) (ha : a ≤ n)
    (hv : IsGreatest (before (NonEmptyPage n P) u) v)
    (hi : IsGreatest {i | i < n ∧ P v i} i) :
    IsGreatest (before (Paged n P) (u * n + a)) (v * n + i) := by
  have hn : 0 < n := Nat.zero_lt_of_lt hi.1.1
  constructor
  · refine ⟨(paged_mul_add hi.1.1).mpr hi.1.2, ?_⟩
    have h := (mul_add_le_iff (k := u * n + a) hn (show i + 1 ≤ n from hi.1.1)
      (u := v)).mpr
    rcases Nat.lt_or_eq_of_le ha with hlt | heq
    · rw [page_mul_add hlt] at h
      exact h (Or.inl hv.1.2)
    · have : (v + 1) * n ≤ u * n := Nat.mul_le_mul_right n hv.1.2
      rw [Nat.add_mul, Nat.one_mul] at this
      have := hi.1.1
      omega
  · intro k hk
    by_contra hlt
    have hle : v * n + (i + 1) ≤ k := not_le.mp hlt
    have hku : k / n < u := by
      by_contra hge
      rcases Nat.lt_or_eq_of_le (not_lt.mp hge) with hpage | heq
      · exact absurd hk.2 (not_lt.mpr ((mul_add_le_iff hn ha).mpr (Or.inl hpage)))
      · have hslot := hempty (k % n) (Nat.mod_lt k hn) (heq ▸ hk.1)
        exact absurd hk.2 (not_lt.mpr ((mul_add_le_iff hn ha).mpr (Or.inr ⟨heq, hslot⟩)))
    have hkv := hv.2 ⟨hk.1.nonEmpty hn, hku⟩
    rcases (mul_add_le_iff hn (show i + 1 ≤ n from hi.1.1)).mp hle with hpage | ⟨heq, hslot⟩
    · exact absurd hpage (not_lt.mpr hkv)
    · have := hi.2 ⟨Nat.mod_lt k hn, heq ▸ hk.1⟩
      omega

theorem greatest_none (hn : 0 < n) (hempty : forall i, i < n -> P u i -> a ≤ i) (ha : a ≤ n)
    (hv : forall w, w ∉ before (NonEmptyPage n P) u) (k : Nat) :
    k ∉ before (Paged n P) (u * n + a) := by
  intro hk
  have hku : k / n < u := by
    by_contra hge
    rcases Nat.lt_or_eq_of_le (not_lt.mp hge) with hpage | heq
    · exact absurd hk.2 (not_lt.mpr ((mul_add_le_iff hn ha).mpr (Or.inl hpage)))
    · have hslot := hempty (k % n) (Nat.mod_lt k hn) (heq ▸ hk.1)
      exact absurd hk.2 (not_lt.mpr ((mul_add_le_iff hn ha).mpr (Or.inr ⟨heq, hslot⟩)))
  exact hv (k / n) ⟨hk.1.nonEmpty hn, hku⟩

end Paged

end Foundation
end RmUniswap
