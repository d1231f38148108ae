import RmUniswap.Foundation.Bits
import RmUniswap.Foundation.Paged

/-!
# Sets of bits

The bits of a word as a set of positions, and a sequence of 64-bit words as one
long set. A search looks at the word of its start and otherwise at the nearest
non-empty word.
-/

namespace RmUniswap
namespace Foundation

/-!
# One word
-/

theorem testBit_lt {w n i : Nat} (hn : n < 2 ^ w) (h : n.testBit i = true) : i < w := by
  by_contra hge
  have : n < 2 ^ i := lt_of_lt_of_le hn (Nat.pow_le_pow_right (by norm_num) (not_lt.mp hge))
  rw [Nat.testBit_lt_two_pow this] at h
  cases h

theorem testBit_trailingZeros {w n : Nat} (hpos : n ≠ 0) (hlt : n < 2 ^ w) :
    IsLeast {i | n.testBit i = true} (trailingZeros w n) := by
  rcases trailingZeros_spec (Nat.pos_of_ne_zero hpos) hlt with ⟨m, hm⟩
  constructor
  · show n.testBit (trailingZeros w n) = true
    have h : (2 ^ trailingZeros w n * (2 * m + 1)).testBit (trailingZeros w n) = true := by
      rw [Nat.testBit_two_pow_mul]
      simp
    rw [← hm] at h
    exact h
  · intro i hi
    by_contra hlt
    have h : (2 ^ trailingZeros w n * (2 * m + 1)).testBit i = false := by
      rw [Nat.testBit_two_pow_mul]
      simp [hlt]
    rw [← hm] at h
    rw [Set.mem_ofPred_eq, h] at hi
    cases hi

theorem testBit_bitLen {n : Nat} (hpos : n ≠ 0) :
    IsGreatest {i | n.testBit i = true} (bitLen n - 1) := by
  have hlog : bitLen n - 1 = Nat.log2 n := by
    rw [bitLen, if_neg hpos, Nat.add_sub_cancel]
  rw [hlog]
  constructor
  · exact Nat.testBit_log2 hpos
  · intro i hi
    by_contra hlt
    have : n < 2 ^ i := (Nat.log2_lt hpos).mp (not_le.mp hlt)
    rw [Set.mem_ofPred_eq, Nat.testBit_lt_two_pow this] at hi
    cases hi

theorem testBit_complement {w i j : Nat} (hi : i < w) :
    (complement w (1 <<< j)).testBit i = decide (i ≠ j) := by
  unfold complement
  rw [Nat.testBit_xor, Nat.testBit_two_pow_sub_one, Nat.one_shiftLeft, Nat.testBit_two_pow]
  by_cases h : j = i
  · simp [h, hi]
  · simp [h, hi, Ne.symm h]

theorem testBit_or_bit (n i j : Nat) :
    (n ||| 1 <<< j).testBit i = true ↔ n.testBit i = true ∨ i = j := by
  rw [Nat.testBit_or, Nat.one_shiftLeft, Nat.testBit_two_pow, Bool.or_eq_true,
    decide_eq_true_iff, eq_comm (a := j)]

theorem testBit_clear {w n i j : Nat} (hn : n < 2 ^ w) :
    (n &&& complement w (1 <<< j)).testBit i = true ↔ n.testBit i = true ∧ i ≠ j := by
  rw [Nat.testBit_and, Bool.and_eq_true]
  constructor
  · intro h
    have := h.2
    rw [testBit_complement (testBit_lt hn h.1), decide_eq_true_iff] at this
    exact ⟨h.1, this⟩
  · intro h
    rw [testBit_complement (testBit_lt hn h.1), decide_eq_true_iff]
    exact h

theorem land_bit_ne_zero (n j : Nat) : (n &&& 1 <<< j) ≠ 0 ↔ n.testBit j = true := by
  constructor
  · intro h
    rcases Nat.exists_testBit_of_ne_zero h with ⟨i, hi⟩
    rw [Nat.testBit_and, Bool.and_eq_true, Nat.one_shiftLeft, Nat.testBit_two_pow,
      decide_eq_true_iff] at hi
    rw [hi.2]
    exact hi.1
  · intro h heq
    have : (n &&& 1 <<< j).testBit j = true := by
      rw [Nat.testBit_and, h, Nat.one_shiftLeft, Nat.testBit_two_pow_self]
      rfl
    rw [heq, Nat.zero_testBit] at this
    cases this

theorem or_bit_lt {w n j : Nat} (hn : n < 2 ^ w) (hj : j < w) : n ||| 1 <<< j < 2 ^ w := by
  rw [Nat.one_shiftLeft]
  exact Nat.or_lt_two_pow hn (Nat.pow_lt_pow_right (by norm_num) hj)

theorem land_lt {w n m : Nat} (hn : n < 2 ^ w) : n &&& m < 2 ^ w :=
  lt_of_le_of_lt Nat.and_le_left hn

theorem or_bit_ne_zero (n j : Nat) : n ||| 1 <<< j ≠ 0 := by
  intro h
  have : (n ||| 1 <<< j).testBit j = true := (testBit_or_bit n j j).mpr (Or.inr rfl)
  rw [h, Nat.zero_testBit] at this
  cases this

/-!
# A sequence of words
-/

def BitAt (f : Nat -> Nat) (k : Nat) : Prop := Paged 64 (fun w i => (f w).testBit i = true) k

section Search

variable {f : Nat -> Nat} {u cand lo hi v : Nat}

theorem BitAt.ne_zero {k : Nat} (h : BitAt f k) : f (k / 64) ≠ 0 := by
  intro hz
  simp only [BitAt, Paged] at h
  rw [hz, Nat.zero_testBit] at h
  cases h

theorem nonEmptyWord_iff (hf : f u < 2 ^ 64) :
    NonEmptyPage 64 (fun w i => (f w).testBit i = true) u ↔ f u ≠ 0 := by
  constructor
  · rintro ⟨i, _, hi⟩ hz
    rw [hz, Nat.zero_testBit] at hi
    cases hi
  · intro hne
    rcases Nat.exists_testBit_of_ne_zero hne with ⟨i, hi⟩
    exact ⟨i, testBit_lt hf hi, hi⟩

def FromIn (f : Nat -> Nat) (u lo cand : Nat) : Prop :=
  forall i, cand.testBit i = true ↔ (f u).testBit i = true ∧ lo ≤ u * 64 + i

def BeforeIn (f : Nat -> Nat) (u hi cand : Nat) : Prop :=
  forall i, cand.testBit i = true ↔ (f u).testBit i = true ∧ u * 64 + i < hi

theorem FromIn.lt (h : FromIn f u lo cand) (hf : f u < 2 ^ 64) : cand < 2 ^ 64 := by
  apply Nat.lt_pow_two_of_testBit
  intro i hi
  by_contra hc
  rw [Bool.not_eq_false] at hc
  exact absurd (testBit_lt hf ((h i).mp hc).1) (not_lt.mpr hi)

theorem FromIn.empty (h : FromIn f u lo 0) (i : Nat) (hi : (f u).testBit i = true) :
    u * 64 + i < lo := by
  by_contra hle
  have := (h i).mpr ⟨hi, not_lt.mp hle⟩
  rw [Nat.zero_testBit] at this
  cases this

theorem BeforeIn.empty (h : BeforeIn f u hi 0) (i : Nat) (hbit : (f u).testBit i = true) :
    hi ≤ u * 64 + i := by
  by_contra hlt
  have := (h i).mpr ⟨hbit, not_le.mp hlt⟩
  rw [Nat.zero_testBit] at this
  cases this

theorem isLeast_word (h : FromIn f u lo cand) (hf : f u < 2 ^ 64) (hcand : cand ≠ 0)
    (hlo : u * 64 ≤ lo) :
    IsLeast (atOrAfter (BitAt f) lo) (u * 64 + trailingZeros 64 cand) := by
  have hleast := testBit_trailingZeros hcand (h.lt hf)
  obtain ⟨a, rfl⟩ := Nat.exists_eq_add_of_le hlo
  apply least_same
  constructor
  · have hbit := (h _).mp hleast.1
    exact ⟨testBit_lt hf hbit.1, hbit.1, by omega⟩
  · intro i hi
    exact hleast.2 ((h i).mpr ⟨hi.2.1, by have := hi.2.2; omega⟩)

theorem isLeast_later (h : FromIn f u lo 0) (hf : forall w, f w < 2 ^ 64)
    (hlo : u * 64 ≤ lo) (hlo' : lo ≤ u * 64 + 64)
    (hv : IsLeast (atOrAfter (fun w => f w ≠ 0) (u + 1)) v) :
    IsLeast (atOrAfter (BitAt f) lo) (v * 64 + trailingZeros 64 (f v)) := by
  have hleast := testBit_trailingZeros hv.1.1 (hf v)
  obtain ⟨a, rfl⟩ := Nat.exists_eq_add_of_le hlo
  have hset : (fun w => f w ≠ 0) = NonEmptyPage 64 (fun w i => (f w).testBit i = true) :=
    funext fun w => propext (nonEmptyWord_iff (hf w)).symm
  rw [hset] at hv
  apply least_later _ (by omega) hv
  · exact ⟨⟨testBit_lt (hf v) hleast.1, hleast.1⟩, fun i hi => hleast.2 hi.2⟩
  · intro i _ hbit
    have := h.empty i hbit
    omega

theorem atOrAfter_empty (h : FromIn f u lo 0) (hf : forall w, f w < 2 ^ 64)
    (hlo : u * 64 ≤ lo) (hlo' : lo ≤ u * 64 + 64)
    (hv : forall w, w ∉ atOrAfter (fun w => f w ≠ 0) (u + 1)) (k : Nat) :
    k ∉ atOrAfter (BitAt f) lo := by
  obtain ⟨a, rfl⟩ := Nat.exists_eq_add_of_le hlo
  have hset : (fun w => f w ≠ 0) = NonEmptyPage 64 (fun w i => (f w).testBit i = true) :=
    funext fun w => propext (nonEmptyWord_iff (hf w)).symm
  rw [hset] at hv
  apply least_none (by norm_num) _ (by omega) hv
  intro i _ hbit
  have := h.empty i hbit
  omega

theorem isGreatest_word (h : BeforeIn f u hi cand) (hf : f u < 2 ^ 64) (hcand : cand ≠ 0)
    (hhi : u * 64 ≤ hi) (hhi' : hi ≤ u * 64 + 64) :
    IsGreatest (before (BitAt f) hi) (u * 64 + (bitLen cand - 1)) := by
  have hgreatest := testBit_bitLen hcand
  obtain ⟨a, rfl⟩ := Nat.exists_eq_add_of_le hhi
  apply greatest_same (by omega)
  constructor
  · have hbit := (h _).mp hgreatest.1
    exact ⟨testBit_lt hf hbit.1, hbit.1, by omega⟩
  · intro i hi
    exact hgreatest.2 ((h i).mpr ⟨hi.2.1, by have := hi.2.2; omega⟩)

theorem isGreatest_earlier (h : BeforeIn f u hi 0) (hf : forall w, f w < 2 ^ 64)
    (hhi : u * 64 ≤ hi) (hhi' : hi ≤ u * 64 + 64)
    (hv : IsGreatest (before (fun w => f w ≠ 0) u) v) :
    IsGreatest (before (BitAt f) hi) (v * 64 + (bitLen (f v) - 1)) := by
  have hgreatest := testBit_bitLen hv.1.1
  obtain ⟨a, rfl⟩ := Nat.exists_eq_add_of_le hhi
  have hset : (fun w => f w ≠ 0) = NonEmptyPage 64 (fun w i => (f w).testBit i = true) :=
    funext fun w => propext (nonEmptyWord_iff (hf w)).symm
  rw [hset] at hv
  apply greatest_earlier _ (by omega) hv
  · exact ⟨⟨testBit_lt (hf v) hgreatest.1, hgreatest.1⟩, fun i hi => hgreatest.2 hi.2⟩
  · intro i _ hbit
    have := h.empty i hbit
    omega

theorem before_empty (h : BeforeIn f u hi 0) (hf : forall w, f w < 2 ^ 64)
    (hhi : u * 64 ≤ hi) (hhi' : hi ≤ u * 64 + 64)
    (hv : forall w, w ∉ before (fun w => f w ≠ 0) u) (k : Nat) :
    k ∉ before (BitAt f) hi := by
  obtain ⟨a, rfl⟩ := Nat.exists_eq_add_of_le hhi
  have hset : (fun w => f w ≠ 0) = NonEmptyPage 64 (fun w i => (f w).testBit i = true) :=
    funext fun w => propext (nonEmptyWord_iff (hf w)).symm
  rw [hset] at hv
  apply greatest_none (by norm_num) _ (by omega) hv
  intro i _ hbit
  have := h.empty i hbit
  omega

end Search

end Foundation
end RmUniswap
