import Mathlib

/-!
# Fallible computations

Inversion lemmas for sequenced computations, so that a proof about a long
fallible function peels its steps one at a time.
-/

namespace RmUniswap
namespace Foundation

universe u

variable {ε α β : Type u}

def okOr (e : ε) : Option α -> Except ε α
  | some a => Except.ok a
  | none => Except.error e

@[simp] theorem okOr_some (e : ε) (a : α) : okOr e (some a) = Except.ok a := rfl

@[simp] theorem okOr_none (e : ε) : okOr e (none : Option α) = Except.error e := rfl

theorem okOr_eq_ok {e : ε} {o : Option α} {a : α} :
    okOr e o = Except.ok a ↔ o = some a := by
  cases o <;> simp [okOr]

theorem okOr_eq_error {e e' : ε} {o : Option α} :
    okOr e o = Except.error e' ↔ o = none ∧ e' = e := by
  cases o with
  | none => simp [okOr, eq_comm]
  | some a => simp [okOr]

theorem bind_eq_error {x : Except ε α} {f : α -> Except ε β} {e : ε} :
    (x >>= f) = Except.error e ↔
      x = Except.error e ∨ exists a, x = Except.ok a ∧ f a = Except.error e := by
  cases x with
  | error e' => simp [bind, Except.bind]
  | ok a => simp [bind, Except.bind]

theorem bind_eq_ok {x : Except ε α} {f : α -> Except ε β} {b : β} :
    (x >>= f) = Except.ok b ↔ exists a, x = Except.ok a ∧ f a = Except.ok b := by
  cases x with
  | error e => simp [bind, Except.bind]
  | ok a => simp [bind, Except.bind]

@[simp] theorem ok_bind (a : α) (f : α -> Except ε β) :
    ((Except.ok a : Except ε α) >>= f) = f a := by
  simp only [bind, Except.bind]

@[simp] theorem error_bind (e : ε) (f : α -> Except ε β) :
    ((Except.error e : Except ε α) >>= f) = Except.error e := by
  simp only [bind, Except.bind]

/-!
# Computations that may panic
-/

inductive Outcome (ε α : Type u) where
  | ok (a : α)
  | err (e : ε)
  | panic
deriving DecidableEq

namespace Outcome

def bind (x : Outcome ε α) (f : α -> Outcome ε β) : Outcome ε β :=
  match x with
  | ok a => f a
  | err e => err e
  | panic => panic

instance : Monad (Outcome ε) where
  pure := ok
  bind := bind

def isOk : Outcome ε α -> Bool
  | ok _ => true
  | err _ => false
  | panic => false

def getD (x : Outcome ε α) (a : α) : α :=
  match x with
  | ok b => b
  | err _ => a
  | panic => a

theorem eq_ok_getD {x : Outcome ε α} (h : x.isOk = true) (a : α) : x = ok (x.getD a) := by
  cases x with
  | ok b => rfl
  | err e => cases h
  | panic => cases h

/-- A result that cannot panic. -/
def ofExcept : Except ε α -> Outcome ε α
  | .ok a => ok a
  | .error e => err e

def panicIf (c : Prop) [Decidable c] : Outcome ε PUnit :=
  if c then panic else ok PUnit.unit

theorem bind_eq_ok {x : Outcome ε α} {f : α -> Outcome ε β} {b : β} :
    (x >>= f) = ok b ↔ exists a, x = ok a ∧ f a = ok b := by
  cases x <;> simp [Bind.bind, bind]

theorem bind_eq_panic {x : Outcome ε α} {f : α -> Outcome ε β} :
    (x >>= f) = panic ↔ x = panic ∨ exists a, x = ok a ∧ f a = panic := by
  cases x <;> simp [Bind.bind, bind]

theorem ofExcept_ne_panic (x : Except ε α) : ofExcept x ≠ panic := by
  cases x <;> simp [ofExcept]

@[simp] theorem ok_bind (a : α) (f : α -> Outcome ε β) :
    ((ok a : Outcome ε α) >>= f) = f a := by
  simp only [Bind.bind, bind]

@[simp] theorem err_bind (e : ε) (f : α -> Outcome ε β) :
    ((err e : Outcome ε α) >>= f) = err e := by
  simp only [Bind.bind, bind]

@[simp] theorem panic_bind (f : α -> Outcome ε β) :
    ((panic : Outcome ε α) >>= f) = panic := by
  simp only [Bind.bind, bind]

theorem ofExcept_eq_ok {x : Except ε α} {a : α} :
    ofExcept x = ok a ↔ x = .ok a := by
  cases x <;> simp [ofExcept]

theorem panicIf_of {c : Prop} [Decidable c] (h : c) :
    (panicIf c : Outcome ε PUnit) = panic := by
  unfold panicIf
  rw [if_pos h]

theorem panicIf_of_not {c : Prop} [Decidable c] (h : ¬ c) :
    (panicIf c : Outcome ε PUnit) = ok PUnit.unit := by
  unfold panicIf
  rw [if_neg h]

theorem panicIf_eq_ok {c : Prop} [Decidable c] {u : PUnit} :
    (panicIf c : Outcome ε PUnit) = ok u ↔ ¬ c := by
  unfold panicIf
  split
  · rename_i h
    simp [h]
  · rename_i h
    simp [h]

end Outcome

end Foundation
end RmUniswap
