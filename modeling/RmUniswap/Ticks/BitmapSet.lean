import RmUniswap.Ticks.Bitmap

/-!
# The bitmap as an ordered set

Every operation is written again with the bounds check of each index
expression, so that an index past a layer is a failure. From an empty bitmap
no sequence of marks and clears fails, and the bitmap answers every query as
the set of its keys does.
-/

namespace RmUniswap

open Foundation

namespace HierBitmap

/-!
# Checked operations
-/

def contains? (b : HierBitmap) (key : Nat) : Option Bool :=
  if key ≥ b.cap then
    some false
  else do
    let wordIndex := key >>> wordShift
    let bitIndex := key &&& wordMask
    let word <- b.layer0.get? wordIndex
    some ((word &&& (1 <<< bitIndex)) != 0)

def set? (b : HierBitmap) (key : Nat) : Option (Bool × HierBitmap) :=
  if key ≥ b.cap then
    some (false, b)
  else do
    let l0WordIndex := key >>> wordShift
    let l0BitIndex := key &&& wordMask
    let l1WordIndex := l0WordIndex >>> wordShift
    let l1BitIndex := l0WordIndex &&& wordMask
    let l2BitIndex := l1WordIndex
    let l0Mask := 1 <<< l0BitIndex
    let oldL0Word <- b.layer0.get? l0WordIndex
    if (oldL0Word &&& l0Mask) ≠ 0 then
      some (false, b)
    else do
      let layer0 <- b.layer0.set? l0WordIndex (oldL0Word ||| l0Mask)
      if oldL0Word ≠ 0 then
        some (true, { b with layer0 })
      else do
        let oldL1Word <- b.layer1.get? l1WordIndex
        let layer1 <- b.layer1.set? l1WordIndex (oldL1Word ||| 1 <<< l1BitIndex)
        if oldL1Word = 0 then
          some (true, { b with layer0, layer1, layer2 := b.layer2 ||| 1 <<< l2BitIndex })
        else
          some (true, { b with layer0, layer1 })

def remove? (b : HierBitmap) (key : Nat) : Option (Bool × HierBitmap) :=
  if key ≥ b.cap then
    some (false, b)
  else do
    let l0WordIndex := key >>> wordShift
    let l0BitIndex := key &&& wordMask
    let l1WordIndex := l0WordIndex >>> wordShift
    let l1BitIndex := l0WordIndex &&& wordMask
    let l2BitIndex := l1WordIndex
    let l0Mask := 1 <<< l0BitIndex
    let oldL0Word <- b.layer0.get? l0WordIndex
    if (oldL0Word &&& l0Mask) = 0 then
      some (false, b)
    else do
      let l0Word := oldL0Word &&& complement 64 l0Mask
      let layer0 <- b.layer0.set? l0WordIndex l0Word
      if l0Word ≠ 0 then
        some (true, { b with layer0 })
      else do
        let oldL1Word <- b.layer1.get? l1WordIndex
        let l1Word := oldL1Word &&& complement 64 (1 <<< l1BitIndex)
        let layer1 <- b.layer1.set? l1WordIndex l1Word
        if l1Word ≠ 0 then
          some (true, { b with layer0, layer1 })
        else
          some (true,
            { b with
              layer0
              layer1
              layer2 := b.layer2 &&& complement 64 (1 <<< l2BitIndex) })

def nextFrom? (b : HierBitmap) (start : Nat) : Option (Option Nat) :=
  if start ≥ b.cap then
    some none
  else do
    let l0WordIndex := start >>> wordShift
    let l0BitIndex := start &&& wordMask
    let word <- b.layer0.get? l0WordIndex
    let candidates := word &&& bitsFrom l0BitIndex
    if candidates ≠ 0 then
      some (b.makeKey l0WordIndex (trailingZeros 64 candidates))
    else do
      let l1WordIndex := l0WordIndex >>> wordShift
      let l1BitIndex := l0WordIndex &&& wordMask
      let l1Word <- b.layer1.get? l1WordIndex
      let candidates := l1Word &&& bitsAfter l1BitIndex
      if candidates ≠ 0 then do
        let nextL0Bit := trailingZeros 64 candidates
        let nextL0WordIndex := (l1WordIndex <<< wordShift) ||| nextL0Bit
        let leafWord <- b.layer0.get? nextL0WordIndex
        some (b.makeKey nextL0WordIndex (trailingZeros 64 leafWord))
      else
        let candidates := b.layer2 &&& bitsAfter l1WordIndex
        if candidates = 0 then
          some none
        else do
          let nextL1WordIndex := trailingZeros 64 candidates
          let nextL1Word <- b.layer1.get? nextL1WordIndex
          let nextL0Bit := trailingZeros 64 nextL1Word
          let nextL0WordIndex := (nextL1WordIndex <<< wordShift) ||| nextL0Bit
          let leafWord <- b.layer0.get? nextL0WordIndex
          some (b.makeKey nextL0WordIndex (trailingZeros 64 leafWord))

def prevFrom? (b : HierBitmap) (start : Nat) : Option (Option Nat) :=
  if start ≥ b.cap then
    some none
  else do
    let l0WordIndex := start >>> wordShift
    let l0BitIndex := start &&& wordMask
    let word <- b.layer0.get? l0WordIndex
    let candidates := word &&& bitsThrough l0BitIndex
    if candidates ≠ 0 then
      some (b.makeKey l0WordIndex (highestSetBit candidates))
    else do
      let l1WordIndex := l0WordIndex >>> wordShift
      let l1BitIndex := l0WordIndex &&& wordMask
      let l1Word <- b.layer1.get? l1WordIndex
      let candidates := l1Word &&& bitsBefore l1BitIndex
      if candidates ≠ 0 then do
        let prevL0Bit := highestSetBit candidates
        let prevL0WordIndex := (l1WordIndex <<< wordShift) ||| prevL0Bit
        let leafWord <- b.layer0.get? prevL0WordIndex
        some (b.makeKey prevL0WordIndex (highestSetBit leafWord))
      else
        let candidates := b.layer2 &&& bitsBefore l1WordIndex
        if candidates = 0 then
          some none
        else do
          let prevL1WordIndex := highestSetBit candidates
          let prevL1Word <- b.layer1.get? prevL1WordIndex
          let prevL0Bit := highestSetBit prevL1Word
          let prevL0WordIndex := (prevL1WordIndex <<< wordShift) ||| prevL0Bit
          let leafWord <- b.layer0.get? prevL0WordIndex
          some (b.makeKey prevL0WordIndex (highestSetBit leafWord))

def next? (b : HierBitmap) (key : Nat) : Option (Option Nat) := b.nextFrom? (key + 1)

def nextOrEq? (b : HierBitmap) (key : Nat) : Option (Option Nat) := b.nextFrom? key

def prev? (b : HierBitmap) (key : Nat) : Option (Option Nat) :=
  if key = 0 ∨ b.cap = 0 then
    some none
  else
    let lastValidKey := b.cap - 1
    b.prevFrom? (min (key - 1) lastValidKey)

def prevOrEq? (b : HierBitmap) (key : Nat) : Option (Option Nat) :=
  if b.cap = 0 then
    some none
  else
    let lastValidKey := b.cap - 1
    b.prevFrom? (min key lastValidKey)

/-!
# No index is out of bounds
-/

section WellFormed

variable {b : HierBitmap} {key : Nat}

theorem leaf_length (hb : b.WellFormed) {w : Nat} (h : BitAt b.layer1.get w) :
    w < b.layer0.length := by
  apply SparseVec.lt_of_get_ne_fill
  rw [hb.fill0]
  exact (hb.middle w).mp h

theorem middle_length (hb : b.WellFormed) {u : Nat} (h : b.layer2.testBit u = true) :
    u < b.layer1.length := by
  apply SparseVec.lt_of_get_ne_fill
  rw [hb.fill1]
  exact (hb.top u).mp h

theorem contains?_eq (hb : b.WellFormed) (key : Nat) : b.contains? key = some (b.contains key) := by
  unfold contains? contains
  split
  · rfl
  · rename_i hcap
    have hw := layer0_length hb (not_le.mp hcap)
    rw [← wordIndex_eq] at hw
    dsimp only
    rw [SparseVec.get?_of_lt hw]
    rfl

theorem set?_eq (hb : b.WellFormed) (key : Nat) : b.set? key = some (b.set key) := by
  unfold set? set
  split
  · rfl
  · rename_i hcap
    have hw := layer0_length hb (not_le.mp hcap)
    have hu := layer1_length hb (not_le.mp hcap)
    simp only [wordIndex_eq, SparseVec.get?_of_lt hw, SparseVec.get?_of_lt hu,
      SparseVec.set?_of_lt hw, SparseVec.set?_of_lt hu, Option.bind_eq_bind, Option.bind_some]
    split_ifs <;> rfl

theorem remove?_eq (hb : b.WellFormed) (key : Nat) : b.remove? key = some (b.remove key) := by
  unfold remove? remove
  split
  · rfl
  · rename_i hcap
    have hw := layer0_length hb (not_le.mp hcap)
    have hu := layer1_length hb (not_le.mp hcap)
    simp only [wordIndex_eq, SparseVec.get?_of_lt hw, SparseVec.get?_of_lt hu,
      SparseVec.set?_of_lt hw, SparseVec.set?_of_lt hu, Option.bind_eq_bind, Option.bind_some]
    split_ifs <;> rfl

theorem below_length (hb : b.WellFormed) {w i : Nat} (h : (b.layer1.get w).testBit i = true) :
    (w <<< wordShift) ||| i < b.layer0.length := by
  have hlt := testBit_lt (hb.lt1 w) h
  rw [key_eq hlt]
  exact leaf_length hb ((paged_mul_add hlt).mpr h)

theorem testBit_of_land {n m i : Nat} (h : (n &&& m).testBit i = true) : n.testBit i = true := by
  rw [Nat.testBit_and, Bool.and_eq_true] at h
  exact h.1

theorem nextFrom?_eq (hb : b.WellFormed) (start : Nat) :
    b.nextFrom? start = some (b.nextFrom start) := by
  unfold nextFrom? nextFrom
  split
  · rfl
  · rename_i hcap
    have hw := layer0_length hb (not_le.mp hcap)
    have hu := layer1_length hb (not_le.mp hcap)
    rw [← wordIndex_eq] at hw hu
    rw [← wordIndex_eq] at hu
    simp only [SparseVec.get?_of_lt hw, SparseVec.get?_of_lt hu, Option.bind_eq_bind,
      Option.bind_some]
    split
    · rfl
    · split
      · rename_i hcand
        have hbit := testBit_trailingZeros hcand (land_lt (hb.lt1 _))
        rw [SparseVec.get?_of_lt (below_length hb (testBit_of_land hbit.1)), Option.bind_some]
      · split
        · rfl
        · rename_i hcand
          have htop := testBit_trailingZeros hcand (land_lt hb.lt2)
          have hnext := testBit_of_land htop.1
          have hbit := testBit_trailingZeros ((hb.top _).mp hnext) (hb.lt1 _)
          rw [SparseVec.get?_of_lt (middle_length hb hnext), Option.bind_some,
            SparseVec.get?_of_lt (below_length hb hbit.1), Option.bind_some]

theorem prevFrom?_eq (hb : b.WellFormed) (start : Nat) :
    b.prevFrom? start = some (b.prevFrom start) := by
  unfold prevFrom? prevFrom
  split
  · rfl
  · rename_i hcap
    have hw := layer0_length hb (not_le.mp hcap)
    have hu := layer1_length hb (not_le.mp hcap)
    rw [← wordIndex_eq] at hw hu
    rw [← wordIndex_eq] at hu
    simp only [SparseVec.get?_of_lt hw, SparseVec.get?_of_lt hu, Option.bind_eq_bind,
      Option.bind_some]
    split
    · rfl
    · split
      · rename_i hcand
        have hbit := testBit_bitLen hcand
        rw [← highestSetBit_eq (land_lt (hb.lt1 _))] at hbit
        rw [SparseVec.get?_of_lt (below_length hb (testBit_of_land hbit.1)), Option.bind_some]
      · split
        · rfl
        · rename_i hcand
          have htop := testBit_bitLen hcand
          rw [← highestSetBit_eq (land_lt hb.lt2)] at htop
          have hprev := testBit_of_land htop.1
          have hbit := testBit_bitLen ((hb.top _).mp hprev)
          rw [← highestSetBit_eq (hb.lt1 _)] at hbit
          rw [SparseVec.get?_of_lt (middle_length hb hprev), Option.bind_some,
            SparseVec.get?_of_lt (below_length hb hbit.1), Option.bind_some]

theorem prev?_eq (hb : b.WellFormed) (key : Nat) : b.prev? key = some (b.prev key) := by
  unfold prev? prev
  split
  · rfl
  · exact prevFrom?_eq hb _

theorem prevOrEq?_eq (hb : b.WellFormed) (key : Nat) :
    b.prevOrEq? key = some (b.prevOrEq key) := by
  unfold prevOrEq? prevOrEq
  split
  · rfl
  · exact prevFrom?_eq hb _

end WellFormed

end HierBitmap

/-!
# Runs
-/

inductive BitmapOp
  | set (key : Nat)
  | remove (key : Nat)
deriving DecidableEq, Repr

namespace BitmapOp

def apply (b : HierBitmap) : BitmapOp -> Option (Bool × HierBitmap)
  | set key => b.set? key
  | remove key => b.remove? key

def onKeys (cap : Nat) (keys : Finset Nat) : BitmapOp -> Finset Nat
  | set key => if key < cap then insert key keys else keys
  | remove key => keys.erase key

/-- Apply the operations in order and collect their flags. -/
def applyAll : List BitmapOp -> HierBitmap -> Option (List Bool × HierBitmap)
  | [], b => some ([], b)
  | op :: ops, b => do
      let (changed, b) <- op.apply b
      let (flags, b) <- applyAll ops b
      some (changed :: flags, b)

/-- The same for the set: an operation answers whether the set changed. -/
def onKeysAll (cap : Nat) : List BitmapOp -> Finset Nat -> List Bool × Finset Nat
  | [], keys => ([], keys)
  | op :: ops, keys =>
      let (flags, rest) := onKeysAll cap ops (op.onKeys cap keys)
      (decide (op.onKeys cap keys ≠ keys) :: flags, rest)

end BitmapOp

namespace HierBitmap

structure Represents (b : HierBitmap) (cap : Nat) (keys : Finset Nat) : Prop where
  wellFormed : b.WellFormed
  cap_eq : b.cap = cap
  mem : forall key, b.Mem key ↔ key ∈ keys

/-- Every query answers as the ordered set does, and both summaries are exact. -/
structure Answers (b : HierBitmap) (keys : Finset Nat) : Prop where
  contains : forall key, b.contains? key = some (decide (key ∈ keys))
  next : forall key, exists o, b.next? key = some o ∧ LeastIn (after (· ∈ keys) key) o
  nextOrEq : forall key, exists o,
    b.nextOrEq? key = some o ∧ LeastIn (atOrAfter (· ∈ keys) key) o
  prev : forall key, exists o, b.prev? key = some o ∧ GreatestIn (before (· ∈ keys) key) o
  prevOrEq : forall key, exists o,
    b.prevOrEq? key = some o ∧ GreatestIn (atOrBefore (· ∈ keys) key) o
  layer1 : forall w, (b.layer1.get (w / 64)).testBit (w % 64) = true ↔ b.layer0.get w ≠ 0
  layer2 : forall u, b.layer2.testBit u = true ↔ b.layer1.get u ≠ 0

section Represents

variable {b : HierBitmap} {cap : Nat} {keys : Finset Nat}

theorem new_represents (h : cap ≤ 2 ^ 18) : (new cap).Represents cap ∅ where
  wellFormed := new_wf h
  cap_eq := rfl
  mem key := iff_of_false (not_mem_new cap key) (Finset.notMem_empty key)

theorem Represents.lt (h : b.Represents cap keys) {key : Nat} (hkey : key ∈ keys) : key < cap :=
  h.cap_eq ▸ h.wellFormed.below key ((h.mem key).mpr hkey)

theorem Represents.answers (h : b.Represents cap keys) : b.Answers keys := by
  have hb := h.wellFormed
  have hmem : b.Mem = (· ∈ keys) := funext fun key => propext (h.mem key)
  exact
    { contains := fun key => by
        rw [contains?_eq hb, Option.some_inj, Bool.eq_iff_iff, contains_iff hb, h.mem key,
          decide_eq_true_iff]
      next := fun key => ⟨_, nextFrom?_eq hb _, hmem ▸ next_spec hb key⟩
      nextOrEq := fun key => ⟨_, nextFrom?_eq hb _, hmem ▸ nextOrEq_spec hb key⟩
      prev := fun key => ⟨_, prev?_eq hb _, hmem ▸ prev_spec hb key⟩
      prevOrEq := fun key => ⟨_, prevOrEq?_eq hb _, hmem ▸ prevOrEq_spec hb key⟩
      layer1 := hb.middle
      layer2 := hb.top }

/-!
# What an operation does to the set
-/

theorem set_changed (b : HierBitmap) (key : Nat) :
    (b.set key).1 = true ↔ key < b.cap ∧ ¬ b.Mem key := by
  unfold set
  split
  · rename_i hcap
    simp [not_lt.mpr hcap]
  · rename_i hcap
    simp only [wordIndex_eq, bitIndex_eq]
    have hmem : (b.layer0.get (key / 64) &&& 1 <<< (key % 64)) ≠ 0 ↔ b.Mem key :=
      land_bit_ne_zero _ _
    split
    · rename_i hset
      simp [hmem.mp hset]
    · rename_i hset
      have habsent : ¬ b.Mem key := fun hm => hset (hmem.mpr hm)
      split
      · simp [not_le.mp hcap, habsent]
      · split <;> simp [not_le.mp hcap, habsent]

theorem remove_changed (hb : b.WellFormed) (key : Nat) : (b.remove key).1 = true ↔ b.Mem key := by
  unfold remove
  split
  · rename_i hcap
    have habsent : ¬ b.Mem key := fun hm => absurd (hb.below key hm) (not_lt.mpr hcap)
    simp [habsent]
  · simp only [wordIndex_eq, bitIndex_eq]
    have hmem : (b.layer0.get (key / 64) &&& 1 <<< (key % 64)) ≠ 0 ↔ b.Mem key :=
      land_bit_ne_zero _ _
    split
    · rename_i hset
      have habsent : ¬ b.Mem key := fun hm => hmem.mpr hm hset
      simp [habsent]
    · rename_i hset
      split
      · simp [hmem.mp hset]
      · split <;> simp [hmem.mp hset]

theorem Represents.set (h : b.Represents cap keys) (key : Nat) :
    (b.set key).2.Represents cap ((BitmapOp.set key).onKeys cap keys) := by
  refine ⟨set_wf h.wellFormed key, (cap_set b key).trans h.cap_eq, fun j => ?_⟩
  unfold BitmapOp.onKeys
  dsimp only
  split
  · rename_i hkey
    rw [mem_set h.wellFormed (h.cap_eq ▸ hkey), Finset.mem_insert, h.mem j, or_comm]
  · rename_i hkey
    unfold HierBitmap.set
    rw [if_pos (h.cap_eq ▸ not_lt.mp hkey)]
    exact h.mem j

theorem Represents.remove (h : b.Represents cap keys) (key : Nat) :
    (b.remove key).2.Represents cap ((BitmapOp.remove key).onKeys cap keys) := by
  refine ⟨remove_wf h.wellFormed key, (cap_remove b key).trans h.cap_eq, fun j => ?_⟩
  unfold BitmapOp.onKeys
  rw [Finset.mem_erase, ← h.mem j, and_comm]
  by_cases hkey : key < b.cap
  · exact mem_remove h.wellFormed hkey j
  · unfold HierBitmap.remove
    rw [if_pos (not_lt.mp hkey)]
    constructor
    · intro hj
      exact ⟨hj, fun he => hkey (he ▸ h.wellFormed.below j hj)⟩
    · exact And.left

end Represents

theorem apply_represents {b : HierBitmap} {cap : Nat} {keys : Finset Nat}
    (h : b.Represents cap keys) (op : BitmapOp) :
    exists b', op.apply b = some (decide (op.onKeys cap keys ≠ keys), b') ∧
      b'.Represents cap (op.onKeys cap keys) := by
  have hb := h.wellFormed
  cases op with
  | set key =>
      refine ⟨(b.set key).2, ?_, h.set key⟩
      have hflag : (b.set key).1 = decide ((BitmapOp.set key).onKeys cap keys ≠ keys) := by
        rw [Bool.eq_iff_iff, set_changed, decide_eq_true_iff, h.cap_eq, h.mem key]
        unfold BitmapOp.onKeys
        dsimp only
        split
        · rename_i hkey
          rw [ne_eq, Finset.insert_eq_self]
          exact and_iff_right hkey
        · rename_i hkey
          exact iff_of_false (fun hc => hkey hc.1) (fun hc => hc rfl)
      exact (set?_eq hb key).trans (congrArg some (Prod.ext hflag rfl))
  | remove key =>
      refine ⟨(b.remove key).2, ?_, h.remove key⟩
      have hflag : (b.remove key).1 = decide ((BitmapOp.remove key).onKeys cap keys ≠ keys) := by
        rw [Bool.eq_iff_iff, remove_changed hb, decide_eq_true_iff, h.mem key]
        unfold BitmapOp.onKeys
        rw [ne_eq, Finset.erase_eq_self, not_not]
      exact (remove?_eq hb key).trans (congrArg some (Prod.ext hflag rfl))

theorem applyAll_represents {b : HierBitmap} {cap : Nat} {keys : Finset Nat}
    (h : b.Represents cap keys) (ops : List BitmapOp) :
    exists b', BitmapOp.applyAll ops b = some ((BitmapOp.onKeysAll cap ops keys).1, b') ∧
      b'.Represents cap (BitmapOp.onKeysAll cap ops keys).2 := by
  induction ops generalizing b keys with
  | nil =>
      exact ⟨b, rfl, h⟩
  | cons op ops ih =>
      rcases apply_represents h op with ⟨b1, happly, h1⟩
      rcases ih h1 with ⟨b2, hrest, h2⟩
      refine ⟨b2, ?_, h2⟩
      unfold BitmapOp.applyAll
      rw [happly, Option.bind_eq_bind, Option.bind_some]
      dsimp only
      rw [hrest, Option.bind_eq_bind, Option.bind_some]
      rfl

/-- No operation fails, each says whether the set of keys changed, and the
bitmap they leave answers every query as that set. -/
theorem bitmap_refines_set {cap : Nat} (hcap : cap ≤ 65535) (ops : List BitmapOp) :
    exists b, BitmapOp.applyAll ops (new cap) = some ((BitmapOp.onKeysAll cap ops ∅).1, b) ∧
      b.Answers (BitmapOp.onKeysAll cap ops ∅).2 := by
  have hnew : (new cap).Represents cap ∅ := new_represents (le_trans hcap (by norm_num))
  rcases applyAll_represents hnew ops with ⟨b, happly, hb⟩
  exact ⟨b, happly, hb.answers⟩

theorem bitmap_refines_set_sample :
    exists b,
      BitmapOp.applyAll [.set 4096, .set 63, .set 4097, .remove 63, .set 4096] (new 4097) =
        some ([true, true, false, true, false], b) ∧ b.Answers {4096} := by
  have hcap : 4097 ≤ 65535 := by
    norm_num
  have h := bitmap_refines_set hcap [.set 4096, .set 63, .set 4097, .remove 63, .set 4096]
  have hmodel : BitmapOp.onKeysAll 4097 [.set 4096, .set 63, .set 4097, .remove 63, .set 4096] ∅ =
      ([true, true, false, true, false], {4096}) := by
    decide +kernel
  rw [hmodel] at h
  exact h

end HierBitmap

end RmUniswap
