import RmUniswap.Foundation.Bits
import RmUniswap.Foundation.FixedWidth

/-!
# Wrapping signed words

Signed arithmetic that wraps around at a width, and agrees with that of the
integers while the results fit.
-/

namespace RmUniswap
namespace Foundation

def wrapSigned (w : Nat) (x : Int) : Int := x.bmod (2 ^ w)

def toRaw (w : Nat) (x : Int) : Nat := (x % 2 ^ w).toNat

def narrow (w x : Nat) : Option Nat := if x < 2 ^ w then some x else none

def checkedDiv (a b : Nat) : Option Nat := if b = 0 then none else some (a / b)

theorem narrow_of_lt {w x : Nat} (h : x < 2 ^ w) : narrow w x = some x := if_pos h

theorem checkedDiv_of_pos {a b : Nat} (h : 0 < b) : checkedDiv a b = some (a / b) :=
  if_neg (Nat.pos_iff_ne_zero.mp h)

theorem wrapSigned_of_fits {w : Nat} (hw : 0 < w) {x : Int} (h : FitsSigned w x) :
    wrapSigned w x = x := by
  obtain ⟨v, rfl⟩ : exists v, w = v + 1 := ⟨w - 1, by omega⟩
  unfold FitsSigned at h
  rw [Nat.add_sub_cancel] at h
  unfold wrapSigned
  have hpow : (2 : Nat) ^ (v + 1) = 2 * 2 ^ v := by ring
  have hcast : ((2 ^ v : Nat) : Int) = 2 ^ v := by push_cast; rfl
  rw [Int.bmod_eq_iff (by positivity), hpow]
  refine ⟨?_, ?_, ?_⟩
  · omega
  · omega
  · simp

theorem fitsSigned_of_abs_le {w n : Nat} {x : Int} (h : |x| ≤ 2 ^ n) (hn : n + 1 < w) :
    FitsSigned w x := by
  have hpow : (2 : Int) ^ n < 2 ^ (w - 1) := pow_lt_pow_right₀ (by norm_num) (by omega)
  have habs := abs_le.mp h
  exact ⟨by omega, by omega⟩

theorem toRaw_of_nonneg {w : Nat} {x : Int} (h0 : 0 ≤ x) (h : x < 2 ^ w) :
    (toRaw w x : Int) = x := by
  unfold toRaw
  rw [Int.emod_eq_of_lt h0 h, Int.toNat_of_nonneg h0]

theorem toSigned_of_lt {w x : Nat} (h : x < 2 ^ (w - 1)) : toSigned w x = x := if_pos h

end Foundation
end RmUniswap
