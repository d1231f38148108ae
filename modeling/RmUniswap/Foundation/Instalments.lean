import Mathlib

/-!
# Paying an accrual in instalments

Two accounts follow one accrual that is paid in whole units. The first is paid
seldom, the second at more points in between. Every payment rounds down, so the
second account never gets ahead, and it falls behind by at most one unit for each
payment the first one does not make.
-/

namespace RmUniswap
namespace Foundation

/-- The first account was paid {lit}`a` and the second {lit}`b`, which is
{lit}`k` payments more. The first has {lit}`x` left to be paid on top of what the
second has, whatever that is. -/
structure Instalments (unit k : Nat) (a b : Int) (x : Nat) : Prop where
  ahead : forall y : Nat, b + (y / unit : Nat) ≤ a + ((x + y) / unit : Nat)
  lag : forall y : Nat, a + ((x + y) / unit : Nat) ≤ b + (y / unit : Nat) + k

namespace Instalments

variable {unit k x : Nat} {a b : Int}

theorem refl (unit : Nat) (a : Int) : Instalments unit 0 a a 0 where
  ahead y := by rw [Nat.zero_add]
  lag y := by rw [Nat.zero_add, Nat.cast_zero, add_zero]

theorem second (h : Instalments unit k a b x) (y : Nat) :
    Instalments unit (k + 1) a (b + (y / unit : Nat)) (x + y) where
  ahead z := by
    have hahead := h.ahead (y + z)
    have hfloor : y / unit + z / unit ≤ (y + z) / unit := Nat.div_add_div_le_add_div
    rw [← Nat.add_assoc] at hahead
    omega
  lag z := by
    have hlag := h.lag (y + z)
    have hfloor := Nat.add_div_le_div_add_div_add_one y z unit
    rw [← Nat.add_assoc] at hlag
    rw [Nat.cast_succ]
    omega

theorem both (h : Instalments unit k a b x) (y : Nat) :
    Instalments unit k (a + ((x + y) / unit : Nat)) (b + (y / unit : Nat)) 0 where
  ahead z := by
    have hahead := h.ahead y
    rw [Nat.zero_add]
    omega
  lag z := by
    have hlag := h.lag y
    rw [Nat.zero_add]
    omega

theorem le (h : Instalments unit k a b 0) : b ≤ a ∧ a ≤ b + k := by
  have hahead := h.ahead 0
  have hlag := h.lag 0
  rw [Nat.add_zero, Nat.zero_div] at hahead hlag
  omega

end Instalments

end Foundation
end RmUniswap
