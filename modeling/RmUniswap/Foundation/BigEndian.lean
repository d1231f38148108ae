import Mathlib

/-!
# Big-endian words

A number is written as a fixed count of bytes, the highest first. Zero bytes in
front of a shorter word make it the longer word of the same number, so a short word
copied to the right end of a cleared slot fills that slot.
-/

namespace RmUniswap
namespace Foundation

def bigEndian : Nat -> Nat -> List UInt8
  | 0, _ => []
  | size + 1, value => bigEndian size (value / 256) ++ [UInt8.ofNat value]

def ofBigEndian (bytes : List UInt8) : Nat :=
  bytes.foldl (fun value byte => value * 256 + byte.toNat) 0

def overwrite (buffer : List UInt8) (start : Nat) (bytes : List UInt8) : List UInt8 :=
  buffer.take start ++ bytes ++ buffer.drop (start + bytes.length)

section Words

variable {size pad value value' : Nat} {values values' : List Nat}

@[simp] theorem length_bigEndian (size value : Nat) : (bigEndian size value).length = size := by
  induction size generalizing value with
  | zero => rfl
  | succ size ih =>
      rw [bigEndian, List.length_append, ih, List.length_singleton]

theorem ofBigEndian_append (bytes : List UInt8) (byte : UInt8) :
    ofBigEndian (bytes ++ [byte]) = ofBigEndian bytes * 256 + byte.toNat := by
  unfold ofBigEndian
  rw [List.foldl_append]
  rfl

theorem ofBigEndian_bigEndian (h : value < 256 ^ size) :
    ofBigEndian (bigEndian size value) = value := by
  induction size generalizing value with
  | zero =>
      rw [pow_zero] at h
      exact (Nat.lt_one_iff.mp h).symm
  | succ size ih =>
      have hdiv : value / 256 < 256 ^ size := by
        rw [Nat.div_lt_iff_lt_mul (by norm_num), ← pow_succ]
        exact h
      rw [bigEndian, ofBigEndian_append, ih hdiv, UInt8.toNat_ofNat']
      omega

theorem bigEndian_inj (h : value < 256 ^ size) (h' : value' < 256 ^ size)
    (heq : bigEndian size value = bigEndian size value') : value = value' := by
  rw [← ofBigEndian_bigEndian h, heq, ofBigEndian_bigEndian h']

theorem bigEndian_zero (size : Nat) : bigEndian size 0 = List.replicate size 0 := by
  induction size with
  | zero => rfl
  | succ size ih =>
      rw [bigEndian, Nat.zero_div, ih, List.replicate_succ']
      rfl

theorem bigEndian_pad (pad : Nat) (h : value < 256 ^ size) :
    bigEndian (pad + size) value = List.replicate pad 0 ++ bigEndian size value := by
  induction size generalizing value with
  | zero =>
      rw [pow_zero, Nat.lt_one_iff] at h
      rw [h, Nat.add_zero, bigEndian_zero, bigEndian, List.append_nil]
  | succ size ih =>
      have hdiv : value / 256 < 256 ^ size := by
        rw [Nat.div_lt_iff_lt_mul (by norm_num), ← pow_succ]
        exact h
      rw [← Nat.add_assoc, bigEndian, ih hdiv, bigEndian, List.append_assoc]

theorem overwrite_slot (before after : List UInt8) (h : value < 256 ^ size) :
    overwrite (before ++ (List.replicate (pad + size) 0 ++ after)) (before.length + pad)
        (bigEndian size value) =
      before ++ bigEndian (pad + size) value ++ after := by
  have htake : (before ++ (List.replicate (pad + size) (0 : UInt8) ++ after)).take
      (before.length + pad) = before ++ List.replicate pad 0 := by
    rw [List.take_length_add_append, List.replicate_add, List.append_assoc,
      List.take_append_of_le_length (le_of_eq (List.length_replicate).symm),
      List.take_of_length_le (le_of_eq List.length_replicate)]
  have hdrop : (before ++ (List.replicate (pad + size) (0 : UInt8) ++ after)).drop
      (before.length + pad + size) = after := by
    rw [Nat.add_assoc, List.drop_length_add_append]
    exact List.drop_left' List.length_replicate
  unfold overwrite
  rw [length_bigEndian, htake, hdrop, bigEndian_pad pad h]
  simp only [List.append_assoc]

theorem length_flatMap_bigEndian (size : Nat) (values : List Nat) :
    (values.flatMap (bigEndian size)).length = size * values.length := by
  induction values with
  | nil => rfl
  | cons value values ih =>
      rw [List.flatMap_cons, List.length_append, ih, length_bigEndian, List.length_cons,
        Nat.mul_succ, Nat.add_comm]

theorem overwrite_next (pad size : Nat) (values : List Nat) (slots : Nat)
    (h : value < 256 ^ size) :
    overwrite (values.flatMap (bigEndian (pad + size)) ++
          List.replicate ((pad + size) * (slots + 1)) 0)
        ((pad + size) * values.length + pad) (bigEndian size value) =
      (values ++ [value]).flatMap (bigEndian (pad + size)) ++
        List.replicate ((pad + size) * slots) 0 := by
  rw [← length_flatMap_bigEndian, Nat.mul_succ, Nat.add_comm _ (pad + size), List.replicate_add,
    overwrite_slot _ _ h, List.flatMap_append, List.flatMap_singleton]

theorem flatMap_bigEndian_inj (h : forall value, value ∈ values -> value < 256 ^ size)
    (h' : forall value, value ∈ values' -> value < 256 ^ size)
    (hlength : values.length = values'.length)
    (heq : values.flatMap (bigEndian size) = values'.flatMap (bigEndian size)) :
    values = values' := by
  induction values generalizing values' with
  | nil =>
      exact (List.eq_nil_of_length_eq_zero hlength.symm).symm
  | cons value values ih =>
      cases values' with
      | nil =>
          cases hlength
      | cons value' values' =>
          rw [List.flatMap_cons, List.flatMap_cons] at heq
          have hparts := List.append_inj heq
            ((length_bigEndian size value).trans (length_bigEndian size value').symm)
          have hhead := bigEndian_inj (h value List.mem_cons_self) (h' value' List.mem_cons_self)
            hparts.1
          have htail := ih (fun v hv => h v (List.mem_cons_of_mem _ hv))
            (fun v hv => h' v (List.mem_cons_of_mem _ hv)) (Nat.succ.inj hlength) hparts.2
          rw [hhead, htail]

end Words

end Foundation
end RmUniswap
