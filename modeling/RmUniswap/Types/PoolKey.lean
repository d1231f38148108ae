import RmUniswap.Foundation.BigEndian
import RmUniswap.Types.Hooks

/-!
# Pool ids

The id of a pool is the hash of the five words that hold its key in memory. The
words tell the fields of the key apart, so two keys have one id only where they name
the same pool or the hash collides.
-/

namespace RmUniswap

open Foundation

structure PoolId (Bytes32 : Type) where
  hash : Bytes32
deriving DecidableEq

def poolKeyMemoryLen : Nat := 32 * 5

/-- An address at the right end of the word that starts here. -/
def writeAddressWord (encoded : List UInt8) (word address : Nat) : List UInt8 :=
  overwrite encoded (word + 12) (bigEndian 20 address)

/-- A number of four bytes at the right end of the word that starts here. -/
def writeU32Word (encoded : List UInt8) (word value : Nat) : List UInt8 :=
  overwrite encoded (word + 28) (bigEndian 4 value)

namespace PoolKey

def encoded (key : PoolKey) : List UInt8 :=
  let encoded := List.replicate poolKeyMemoryLen 0
  let encoded := writeAddressWord encoded 0 key.currency0
  let encoded := writeAddressWord encoded 32 key.currency1
  let encoded := writeU32Word encoded 64 (key.fee.getD dynamicFeeFlag)
  let encoded := writeU32Word encoded 96 key.tickSpacing
  writeAddressWord encoded 128 key.hooks

def toId {Bytes32 : Type} (keccak256 : List UInt8 -> Bytes32) (key : PoolKey) : PoolId Bytes32 :=
  ⟨keccak256 key.encoded⟩

/-- The widths of the types of the source. -/
structure Typed (key : PoolKey) : Prop where
  currency0 : key.currency0 < 2 ^ 160
  currency1 : key.currency1 < 2 ^ 160
  fee : forall fee, key.fee = some fee -> fee < 2 ^ 32
  tickSpacing : key.tickSpacing < 2 ^ 32
  hooks : key.hooks < 2 ^ 160

/-- The five words of the key. -/
def words (key : PoolKey) : List Nat :=
  [key.currency0, key.currency1, key.fee.getD dynamicFeeFlag, key.tickSpacing, key.hooks]

/-- Keys that differ at most in how they write the dynamic fee. -/
structure SamePool (key key' : PoolKey) : Prop where
  currency0 : key.currency0 = key'.currency0
  currency1 : key.currency1 = key'.currency1
  fee : key.fee = key'.fee ∨ key.isDynamicFee = true ∧ key'.isDynamicFee = true
  tickSpacing : key.tickSpacing = key'.tickSpacing
  hooks : key.hooks = key'.hooks

section Ids

variable {key key' : PoolKey}

theorem isDynamicFee_iff :
    key.isDynamicFee = true ↔ key.fee.getD dynamicFeeFlag = dynamicFeeFlag := by
  unfold isDynamicFee
  cases key.fee with
  | none => exact ⟨fun _ => rfl, fun _ => rfl⟩
  | some fee => exact beq_iff_eq

theorem Typed.feeWord (hk : key.Typed) : key.fee.getD dynamicFeeFlag < 2 ^ 32 := by
  cases hfee : key.fee with
  | none => decide
  | some fee => exact hk.fee fee hfee

theorem writeAddressWord_next (values : List Nat) (slots : Nat) {address : Nat}
    (h : address < 2 ^ 160) :
    writeAddressWord (values.flatMap (bigEndian 32) ++ List.replicate (32 * (slots + 1)) 0)
        (32 * values.length) address =
      (values ++ [address]).flatMap (bigEndian 32) ++ List.replicate (32 * slots) 0 := by
  have hfits : address < 256 ^ 20 := h.trans_le (by norm_num)
  exact overwrite_next 12 20 values slots hfits

theorem writeU32Word_next (values : List Nat) (slots : Nat) {value : Nat} (h : value < 2 ^ 32) :
    writeU32Word (values.flatMap (bigEndian 32) ++ List.replicate (32 * (slots + 1)) 0)
        (32 * values.length) value =
      (values ++ [value]).flatMap (bigEndian 32) ++ List.replicate (32 * slots) 0 := by
  have hfits : value < 256 ^ 4 := h.trans_le (by norm_num)
  exact overwrite_next 28 4 values slots hfits

theorem Typed.encoded_eq (hk : key.Typed) : key.encoded = key.words.flatMap (bigEndian 32) := by
  have hclear : List.replicate poolKeyMemoryLen (0 : UInt8) =
      ([] : List Nat).flatMap (bigEndian 32) ++ List.replicate (32 * (4 + 1)) 0 :=
    (List.nil_append _).symm
  have hend : key.words.flatMap (bigEndian 32) =
      key.words.flatMap (bigEndian 32) ++ List.replicate (32 * 0) 0 :=
    (List.append_nil _).symm
  have h0 := writeAddressWord_next [] 4 hk.currency0
  have h1 := writeAddressWord_next [key.currency0] 3 hk.currency1
  have h2 := writeU32Word_next [key.currency0, key.currency1] 2 hk.feeWord
  have h3 := writeU32Word_next [key.currency0, key.currency1, key.fee.getD dynamicFeeFlag] 1
    hk.tickSpacing
  have h4 := writeAddressWord_next [key.currency0, key.currency1,
    key.fee.getD dynamicFeeFlag, key.tickSpacing] 0 hk.hooks
  unfold encoded
  rw [hclear, hend]
  refine Eq.trans ?_ h4
  refine congrArg (fun encoded => writeAddressWord encoded 128 key.hooks) (Eq.trans ?_ h3)
  refine congrArg (fun encoded => writeU32Word encoded 96 key.tickSpacing) (Eq.trans ?_ h2)
  refine congrArg (fun encoded => writeU32Word encoded 64 (key.fee.getD dynamicFeeFlag))
    (Eq.trans ?_ h1)
  exact congrArg (fun encoded => writeAddressWord encoded 32 key.currency1) h0

theorem Typed.words_lt (hk : key.Typed) : forall word, word ∈ key.words -> word < 256 ^ 32 := by
  have hwide {n : Nat} (h : n < 2 ^ 160) : n < 256 ^ 32 := h.trans (by norm_num)
  have hshort {n : Nat} (h : n < 2 ^ 32) : n < 256 ^ 32 := h.trans (by norm_num)
  unfold words
  simp only [List.mem_cons, List.not_mem_nil, or_false, forall_eq_or_imp, forall_eq]
  exact ⟨hwide hk.currency0, hwide hk.currency1, hshort hk.feeWord, hshort hk.tickSpacing,
    hwide hk.hooks⟩

theorem feeWord_eq_iff : key.fee.getD dynamicFeeFlag = key'.fee.getD dynamicFeeFlag ↔
    (key.fee = key'.fee ∨ key.isDynamicFee = true ∧ key'.isDynamicFee = true) := by
  rw [isDynamicFee_iff, isDynamicFee_iff]
  cases key.fee with
  | none =>
      cases key'.fee with
      | none => simp
      | some fee' => simp [eq_comm]
  | some fee =>
      cases key'.fee with
      | none => simp
      | some fee' =>
          simp only [Option.getD_some, Option.some.injEq]
          constructor
          · exact Or.inl
          · rintro (heq | ⟨h, h'⟩)
            · exact heq
            · exact h.trans h'.symm

theorem words_eq_iff : key.words = key'.words ↔ key.SamePool key' := by
  unfold words
  simp only [List.cons.injEq, and_true, feeWord_eq_iff]
  constructor
  · rintro ⟨h0, h1, hfee, hspacing, hhooks⟩
    exact ⟨h0, h1, hfee, hspacing, hhooks⟩
  · rintro ⟨h0, h1, hfee, hspacing, hhooks⟩
    exact ⟨h0, h1, hfee, hspacing, hhooks⟩

theorem Typed.encoded_eq_iff (hk : key.Typed) (hk' : key'.Typed) :
    key.encoded = key'.encoded ↔ key.SamePool key' := by
  rw [hk.encoded_eq, hk'.encoded_eq, ← words_eq_iff]
  constructor
  · exact flatMap_bigEndian_inj hk.words_lt hk'.words_lt rfl
  · intro h
    rw [h]

/-- The hash reads the five words of the key, and two keys have one id exactly when they
name one pool, or when the hash collides on two memories that differ. -/
theorem toId_eq_iff {Bytes32 : Type} (keccak256 : List UInt8 -> Bytes32) (hk : key.Typed)
    (hk' : key'.Typed) :
    key.toId keccak256 = ⟨keccak256 (key.words.flatMap (bigEndian 32))⟩ ∧
      (key.toId keccak256 = key'.toId keccak256 ↔
        key.SamePool key' ∨
          (key.encoded ≠ key'.encoded ∧ keccak256 key.encoded = keccak256 key'.encoded)) := by
  unfold toId
  refine ⟨by rw [hk.encoded_eq], ?_⟩
  rw [PoolId.mk.injEq, ← hk.encoded_eq_iff hk']
  by_cases hsame : key.encoded = key'.encoded
  · exact iff_of_true (congrArg keccak256 hsame) (Or.inl hsame)
  · rw [or_iff_right hsame, and_iff_right hsame]

end Ids

/-- A key of a pool whose fee its hook sets, with the fee left out or flagged. -/
def sample (fee : Option Nat) : PoolKey :=
  { currency0 := 1, currency1 := 2, fee, tickSpacing := 60, hooks := 3 }

/-- The flag of a dynamic fee names the pool that no fee names, whatever the hash. -/
theorem toId_eq_iff_sample :
    sample none ≠ sample (some dynamicFeeFlag) ∧
      forall (Bytes32 : Type) (keccak256 : List UInt8 -> Bytes32),
        (sample none).toId keccak256 = (sample (some dynamicFeeFlag)).toId keccak256 := by
  have htyped (fee : Option Nat) (hfee : forall n, fee = some n -> n < 2 ^ 32) :
      (sample fee).Typed :=
    ⟨show 1 < 2 ^ 160 by norm_num, show 2 < 2 ^ 160 by norm_num, hfee,
      show 60 < 2 ^ 32 by norm_num, show 3 < 2 ^ 160 by norm_num⟩
  have hnone := htyped none (fun n h => by cases h)
  have hflag := htyped (some dynamicFeeFlag) (fun n h => by cases h; decide)
  refine ⟨by decide, fun Bytes32 keccak256 => ?_⟩
  exact (toId_eq_iff keccak256 hnone hflag).2.mpr (Or.inl ⟨rfl, rfl, Or.inr ⟨rfl, rfl⟩, rfl, rfl⟩)

end PoolKey

end RmUniswap
