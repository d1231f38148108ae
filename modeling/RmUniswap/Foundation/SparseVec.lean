import RmUniswap.Foundation.SortedMap

/-!
# Filled vectors

A vector of fixed length that starts out filled with one value; only the
entries written since are stored.
-/

namespace RmUniswap
namespace Foundation

universe u

structure SparseVec (α : Type u) where
  length : Nat
  fill : α
  written : SortedMap Nat α

namespace SparseVec

variable {α : Type u}

def replicate (length : Nat) (fill : α) : SparseVec α :=
  { length, fill, written := SortedMap.empty }

/-- The value at an index, the fill past the end. -/
def get (v : SparseVec α) (i : Nat) : α :=
  if i < v.length then (v.written.get? i).getD v.fill else v.fill

/-- Write inside the length; a write past the end is ignored. -/
def set (v : SparseVec α) (i : Nat) (a : α) : SparseVec α :=
  if i < v.length then { v with written := v.written.insert i a } else v

@[simp] theorem length_replicate (n : Nat) (a : α) : (replicate n a).length = n := rfl

@[simp] theorem length_set (v : SparseVec α) (i : Nat) (a : α) :
    (v.set i a).length = v.length := by
  unfold set
  split <;> rfl

@[simp] theorem fill_set (v : SparseVec α) (i : Nat) (a : α) :
    (v.set i a).fill = v.fill := by
  unfold set
  split <;> rfl

@[simp] theorem get_replicate (n : Nat) (a : α) (i : Nat) : (replicate n a).get i = a := by
  unfold get replicate
  split <;> rfl

theorem get_set (v : SparseVec α) (i j : Nat) (a : α) :
    (v.set i a).get j = if j = i ∧ i < v.length then a else v.get j := by
  by_cases hi : i < v.length
  · unfold set
    rw [if_pos hi]
    unfold get
    simp only [SortedMap.get?_insert, hi, and_true]
    by_cases hj : j = i
    · rw [if_pos hj, if_pos hj, hj, if_pos hi, Option.getD_some]
    · rw [if_neg hj, if_neg hj]
  · unfold set
    rw [if_neg hi, if_neg (fun h => hi h.2)]

theorem get_set_self {v : SparseVec α} {i : Nat} (h : i < v.length) (a : α) :
    (v.set i a).get i = a := by
  rw [get_set, if_pos ⟨rfl, h⟩]

theorem get_set_ne (v : SparseVec α) {i j : Nat} (h : j ≠ i) (a : α) :
    (v.set i a).get j = v.get j := by
  rw [get_set, if_neg (fun hc => h hc.1)]

/-!
# Checked access
-/

def get? (v : SparseVec α) (i : Nat) : Option α :=
  if i < v.length then some (v.get i) else none

def set? (v : SparseVec α) (i : Nat) (a : α) : Option (SparseVec α) :=
  if i < v.length then some (v.set i a) else none

theorem get?_of_lt {v : SparseVec α} {i : Nat} (h : i < v.length) : v.get? i = some (v.get i) :=
  if_pos h

theorem set?_of_lt {v : SparseVec α} {i : Nat} (h : i < v.length) (a : α) :
    v.set? i a = some (v.set i a) :=
  if_pos h

theorem lt_of_get_ne_fill {v : SparseVec α} {i : Nat} (h : v.get i ≠ v.fill) : i < v.length := by
  by_contra hge
  exact h (if_neg hge)

end SparseVec

end Foundation
end RmUniswap
