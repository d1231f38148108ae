import RmUniswap.Foundation.Neighbour
import RmUniswap.Foundation.Words

/-!
# The search of one word

A set of integers in words of a fixed width, one bit each, and the search of the
word of a position for the nearest member.
-/

namespace RmUniswap
namespace Foundation

variable {width : Nat} {member : Int -> Bool} {k : Int}

def wordOf (width : Nat) (member : Int -> Bool) (word : Int) : Nat :=
  Nat.ofBits fun i : Fin width => member (width * word + (i : Nat))

def lastInWord (width : Nat) (member : Int -> Bool) (k : Int) : Option Int :=
  let masked := wordOf width member (k / width) % 2 ^ ((k % width).toNat + 1)
  if masked = 0 then none else some (width * (k / width) + (bitLen masked - 1 : Nat))

def firstInWord (width : Nat) (member : Int -> Bool) (k : Int) : Option Int :=
  let masked := wordOf width member (k / width) >>> (k % width).toNat
  if masked = 0 then none else some (k + (trailingZeros width masked : Nat))

theorem testBit_wordOf (width : Nat) (member : Int -> Bool) (word : Int) (i : Nat) :
    (wordOf width member word).testBit i = true ↔
      i < width ∧ member (width * word + i) = true := by
  unfold wordOf
  rw [Nat.testBit_ofBits]
  split
  · rename_i hi
    exact ⟨fun h => ⟨hi, h⟩, fun h => h.2⟩
  · rename_i hi
    exact ⟨fun h => (Bool.false_ne_true h).elim, fun h => absurd h.1 hi⟩

theorem word_add_place (hwidth : 0 < width) (k : Int) :
    k = width * (k / width) + (k % width).toNat ∧ (k % width).toNat < width := by
  have hpos : (0 : Int) < width := Int.natCast_pos.mpr hwidth
  have hsplit := Int.mul_ediv_add_emod k width
  have hlo := Int.emod_nonneg k (ne_of_gt hpos)
  have hhi := Int.emod_lt_of_pos k hpos
  omega

theorem lastInWord_spec (hwidth : 0 < width) (member : Int -> Bool) (k : Int) :
    GreatestIn {j | member j = true ∧ width * (k / width) ≤ j ∧ j ≤ k}
      (lastInWord width member k) := by
  have hplace := word_add_place hwidth k
  unfold lastInWord
  dsimp only
  generalize k / (width : Int) = word at hplace ⊢
  generalize (k % (width : Int)).toNat = place at hplace ⊢
  have hbit (i : Nat) : (wordOf width member word % 2 ^ (place + 1)).testBit i = true ↔
      i ≤ place ∧ member (width * word + i) = true := by
    rw [Nat.testBit_mod_two_pow, Bool.and_eq_true, decide_eq_true_iff, testBit_wordOf,
      Nat.lt_succ_iff]
    exact ⟨fun h => ⟨h.1, h.2.2⟩, fun h => ⟨h.1, h.1.trans_lt hplace.2, h.2⟩⟩
  generalize wordOf width member word % 2 ^ (place + 1) = masked at hbit ⊢
  -- a member of the word is a bit of the masked word
  have hmember (j : Int) (hj : member j = true) (hlo : width * word ≤ j) (hhi : j ≤ k) :
      masked.testBit (j - width * word).toNat = true := by
    rw [hbit]
    refine ⟨by omega, ?_⟩
    rw [Int.toNat_of_nonneg (by omega), add_sub_cancel]
    exact hj
  by_cases hzero : masked = 0
  · rw [if_pos hzero]
    rintro j ⟨hj, hlo, hhi⟩
    have := hmember j hj hlo hhi
    rw [hzero, Nat.zero_testBit] at this
    cases this
  · rw [if_neg hzero]
    have hgreatest := testBit_bitLen hzero
    have hfound := (hbit _).mp hgreatest.1
    refine ⟨⟨hfound.2, by omega, by omega⟩, ?_⟩
    rintro j ⟨hj, hlo, hhi⟩
    have hle := hgreatest.2 (hmember j hj hlo hhi)
    omega

theorem firstInWord_spec (hwidth : 0 < width) (member : Int -> Bool) (k : Int) :
    LeastIn {j | member j = true ∧ k ≤ j ∧ j ≤ width * (k / width) + (width - 1)}
      (firstInWord width member k) := by
  have hplace := word_add_place hwidth k
  unfold firstInWord
  dsimp only
  generalize k / (width : Int) = word at hplace ⊢
  generalize (k % (width : Int)).toNat = place at hplace ⊢
  have hbit (i : Nat) : (wordOf width member word >>> place).testBit i = true ↔
      place + i < width ∧ member (k + i) = true := by
    rw [Nat.testBit_shiftRight, testBit_wordOf]
    push_cast
    rw [← add_assoc, ← hplace.1]
  have hlt : wordOf width member word >>> place < 2 ^ width :=
    (Nat.shiftRight_le _ _).trans_lt (Nat.ofBits_lt_two_pow _)
  generalize wordOf width member word >>> place = masked at hbit hlt ⊢
  have hmember (j : Int) (hj : member j = true) (hlo : k ≤ j)
      (hhi : j ≤ width * word + (width - 1)) : masked.testBit (j - k).toNat = true := by
    rw [hbit]
    refine ⟨by omega, ?_⟩
    rw [Int.toNat_of_nonneg (by omega), add_sub_cancel]
    exact hj
  by_cases hzero : masked = 0
  · rw [if_pos hzero]
    rintro j ⟨hj, hlo, hhi⟩
    have := hmember j hj hlo hhi
    rw [hzero, Nat.zero_testBit] at this
    cases this
  · rw [if_neg hzero]
    have hleast := testBit_trailingZeros hzero hlt
    have hfound := (hbit _).mp hleast.1
    refine ⟨⟨hfound.2, by omega, by omega⟩, ?_⟩
    rintro j ⟨hj, hlo, hhi⟩
    have hle := hleast.2 (hmember j hj hlo hhi)
    omega

end Foundation
end RmUniswap
