import Mathlib

/-!
# Allocators

Storage that hands out small keys for its values. A new value goes under a vacant
key, reads and removals address one key, and no key is handed out for the first
time while one handed out before is vacant.
-/

namespace RmUniswap
namespace Foundation

universe u v

class Allocator (α : outParam (Type u)) (A : Type v) where
  empty : A
  isEmpty : A -> Bool
  get? : A -> Nat -> Option α
  insert : A -> α -> Nat × A
  modify : A -> Nat -> (α -> α) -> A
  tryRemove : A -> Nat -> A

/-- The laws hold in the states that the operations reach from the empty one. -/
class LawfulAllocator (α : outParam (Type u)) (A : Type v) extends Allocator α A where
  Valid : A -> Prop
  handedOut : A -> Nat
  empty_valid : Valid empty
  insert_valid {s : A} (h : Valid s) (a : α) : Valid (insert s a).2
  modify_valid {s : A} (h : Valid s) (key : Nat) (f : α -> α) : Valid (modify s key f)
  tryRemove_valid {s : A} (h : Valid s) (key : Nat) : Valid (tryRemove s key)
  get?_empty (key : Nat) : get? empty key = none
  isEmpty_iff {s : A} (h : Valid s) : isEmpty s = true ↔ forall key, get? s key = none
  insert_fresh {s : A} (h : Valid s) (a : α) : get? s (insert s a).1 = none
  get?_insert {s : A} (h : Valid s) (a : α) (key : Nat) :
    get? (insert s a).2 key = if key = (insert s a).1 then some a else get? s key
  get?_modify {s : A} (h : Valid s) (key : Nat) (f : α -> α) (j : Nat) :
    get? (modify s key f) j = if j = key then (get? s j).map f else get? s j
  get?_tryRemove {s : A} (h : Valid s) (key j : Nat) :
    get? (tryRemove s key) j = if j = key then none else get? s j
  handedOut_empty : handedOut empty = 0
  insert_lt {s : A} (h : Valid s) (a : α) : (insert s a).1 < handedOut (insert s a).2
  handedOut_insert {s : A} (h : Valid s) (a : α) :
    handedOut (insert s a).2 = handedOut s ∨
      handedOut (insert s a).2 = handedOut s + 1 ∧
        forall key, key < handedOut s -> (get? s key).isSome = true
  handedOut_modify (s : A) (key : Nat) (f : α -> α) :
    handedOut (modify s key f) = handedOut s
  handedOut_tryRemove (s : A) (key : Nat) : handedOut (tryRemove s key) = handedOut s

end Foundation
end RmUniswap
