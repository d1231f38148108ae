import RmUniswap.Foundation.SparseVec
import RmUniswap.Foundation.Words

/-!
# Hierarchical bitmap

Keys below a capacity in three layers of 64-bit words: a leaf bit for each
key, a bit for each non-empty leaf word, a bit for each non-empty middle word.
-/

namespace RmUniswap

open Foundation

def wordShift : Nat := 6

def wordMask : Nat := 63

def bitsFrom (bit : Nat) : Nat := wrap 64 ((2 ^ 64 - 1) <<< bit)

def bitsAfter (bit : Nat) : Nat :=
  if bit = wordMask then 0 else wrap 64 ((2 ^ 64 - 1) <<< (bit + 1))

def bitsThrough (bit : Nat) : Nat := (2 ^ 64 - 1) >>> (wordMask - bit)

def bitsBefore (bit : Nat) : Nat := if bit = 0 then 0 else (1 <<< bit) - 1

def highestSetBit (value : Nat) : Nat := wordMask - (64 - bitLen value)

structure HierBitmap where
  cap : Nat
  layer2 : Nat
  layer1 : SparseVec Nat
  layer0 : SparseVec Nat

namespace HierBitmap

def new (cap : Nat) : HierBitmap :=
  let layer0Len := divCeil cap 64
  let layer1Len := divCeil layer0Len 64
  { cap
    layer2 := 0
    layer1 := SparseVec.replicate layer1Len 0
    layer0 := SparseVec.replicate layer0Len 0 }

def contains (b : HierBitmap) (key : Nat) : Bool :=
  if key ≥ b.cap then
    false
  else
    let wordIndex := key >>> wordShift
    let bitIndex := key &&& wordMask
    (b.layer0.get wordIndex &&& (1 <<< bitIndex)) != 0

/-- Mark a key; the flag says whether the bitmap changed. -/
def set (b : HierBitmap) (key : Nat) : Bool × HierBitmap :=
  if key ≥ b.cap then
    (false, b)
  else
    let l0WordIndex := key >>> wordShift
    let l0BitIndex := key &&& wordMask
    let l1WordIndex := l0WordIndex >>> wordShift
    let l1BitIndex := l0WordIndex &&& wordMask
    let l2BitIndex := l1WordIndex
    let l0Mask := 1 <<< l0BitIndex
    let oldL0Word := b.layer0.get l0WordIndex
    if (oldL0Word &&& l0Mask) ≠ 0 then
      (false, b)
    else
      let layer0 := b.layer0.set l0WordIndex (oldL0Word ||| l0Mask)
      if oldL0Word ≠ 0 then
        (true, { b with layer0 })
      else
        let oldL1Word := b.layer1.get l1WordIndex
        let layer1 := b.layer1.set l1WordIndex (oldL1Word ||| 1 <<< l1BitIndex)
        if oldL1Word = 0 then
          (true, { b with layer0, layer1, layer2 := b.layer2 ||| 1 <<< l2BitIndex })
        else
          (true, { b with layer0, layer1 })

/-- Clear a key; the flag says whether the bitmap changed. -/
def remove (b : HierBitmap) (key : Nat) : Bool × HierBitmap :=
  if key ≥ b.cap then
    (false, b)
  else
    let l0WordIndex := key >>> wordShift
    let l0BitIndex := key &&& wordMask
    let l1WordIndex := l0WordIndex >>> wordShift
    let l1BitIndex := l0WordIndex &&& wordMask
    let l2BitIndex := l1WordIndex
    let l0Mask := 1 <<< l0BitIndex
    if (b.layer0.get l0WordIndex &&& l0Mask) = 0 then
      (false, b)
    else
      let l0Word := b.layer0.get l0WordIndex &&& complement 64 l0Mask
      let layer0 := b.layer0.set l0WordIndex l0Word
      if l0Word ≠ 0 then
        (true, { b with layer0 })
      else
        let l1Word := b.layer1.get l1WordIndex &&& complement 64 (1 <<< l1BitIndex)
        let layer1 := b.layer1.set l1WordIndex l1Word
        if l1Word ≠ 0 then
          (true, { b with layer0, layer1 })
        else
          (true,
            { b with
              layer0
              layer1
              layer2 := b.layer2 &&& complement 64 (1 <<< l2BitIndex) })

def makeKey (b : HierBitmap) (l0WordIndex l0BitIndex : Nat) : Option Nat :=
  let key := (l0WordIndex <<< wordShift) ||| l0BitIndex
  if key < b.cap then some key else none

/-- Search forward from an inclusive start, one layer after the other. -/
def nextFrom (b : HierBitmap) (start : Nat) : Option Nat :=
  if start ≥ b.cap then
    none
  else
    let l0WordIndex := start >>> wordShift
    let l0BitIndex := start &&& wordMask
    let candidates := b.layer0.get l0WordIndex &&& bitsFrom l0BitIndex
    if candidates ≠ 0 then
      b.makeKey l0WordIndex (trailingZeros 64 candidates)
    else
      let l1WordIndex := l0WordIndex >>> wordShift
      let l1BitIndex := l0WordIndex &&& wordMask
      let candidates := b.layer1.get l1WordIndex &&& bitsAfter l1BitIndex
      if candidates ≠ 0 then
        let nextL0Bit := trailingZeros 64 candidates
        let nextL0WordIndex := (l1WordIndex <<< wordShift) ||| nextL0Bit
        let leafWord := b.layer0.get nextL0WordIndex
        b.makeKey nextL0WordIndex (trailingZeros 64 leafWord)
      else
        let candidates := b.layer2 &&& bitsAfter l1WordIndex
        if candidates = 0 then
          none
        else
          let nextL1WordIndex := trailingZeros 64 candidates
          let nextL1Word := b.layer1.get nextL1WordIndex
          let nextL0Bit := trailingZeros 64 nextL1Word
          let nextL0WordIndex := (nextL1WordIndex <<< wordShift) ||| nextL0Bit
          let leafWord := b.layer0.get nextL0WordIndex
          b.makeKey nextL0WordIndex (trailingZeros 64 leafWord)

def prevFrom (b : HierBitmap) (start : Nat) : Option Nat :=
  if start ≥ b.cap then
    none
  else
    let l0WordIndex := start >>> wordShift
    let l0BitIndex := start &&& wordMask
    let candidates := b.layer0.get l0WordIndex &&& bitsThrough l0BitIndex
    if candidates ≠ 0 then
      b.makeKey l0WordIndex (highestSetBit candidates)
    else
      let l1WordIndex := l0WordIndex >>> wordShift
      let l1BitIndex := l0WordIndex &&& wordMask
      let candidates := b.layer1.get l1WordIndex &&& bitsBefore l1BitIndex
      if candidates ≠ 0 then
        let prevL0Bit := highestSetBit candidates
        let prevL0WordIndex := (l1WordIndex <<< wordShift) ||| prevL0Bit
        let leafWord := b.layer0.get prevL0WordIndex
        b.makeKey prevL0WordIndex (highestSetBit leafWord)
      else
        let candidates := b.layer2 &&& bitsBefore l1WordIndex
        if candidates = 0 then
          none
        else
          let prevL1WordIndex := highestSetBit candidates
          let prevL1Word := b.layer1.get prevL1WordIndex
          let prevL0Bit := highestSetBit prevL1Word
          let prevL0WordIndex := (prevL1WordIndex <<< wordShift) ||| prevL0Bit
          let leafWord := b.layer0.get prevL0WordIndex
          b.makeKey prevL0WordIndex (highestSetBit leafWord)

def next (b : HierBitmap) (key : Nat) : Option Nat := b.nextFrom (key + 1)

def nextOrEq (b : HierBitmap) (key : Nat) : Option Nat := b.nextFrom key

def prev (b : HierBitmap) (key : Nat) : Option Nat :=
  if key = 0 ∨ b.cap = 0 then
    none
  else
    let lastValidKey := b.cap - 1
    b.prevFrom (min (key - 1) lastValidKey)

def prevOrEq (b : HierBitmap) (key : Nat) : Option Nat :=
  if b.cap = 0 then
    none
  else
    let lastValidKey := b.cap - 1
    b.prevFrom (min key lastValidKey)

end HierBitmap

/-!
# The three layers
-/

theorem wordIndex_eq (key : Nat) : key >>> wordShift = key / 64 :=
  Nat.shiftRight_eq_div_pow key 6

theorem bitIndex_eq (key : Nat) : key &&& wordMask = key % 64 :=
  Nat.and_two_pow_sub_one_eq_mod key 6

theorem key_eq {w i : Nat} (hi : i < 64) : (w <<< wordShift) ||| i = w * 64 + i := by
  unfold wordShift
  rw [← Nat.shiftLeft_add_eq_or_of_lt (by norm_num; exact hi), Nat.shiftLeft_eq]

theorem highestSetBit_eq {n : Nat} (hn : n < 2 ^ 64) : highestSetBit n = bitLen n - 1 := by
  have hle := bitLen_le_iff.mpr hn
  unfold highestSetBit wordMask
  omega

theorem testBit_ones_shiftLeft (i j : Nat) :
    (wrap 64 ((2 ^ 64 - 1) <<< j)).testBit i = decide (i < 64 ∧ j ≤ i) := by
  unfold wrap
  rw [Nat.testBit_mod_two_pow, Nat.testBit_shiftLeft, Nat.testBit_two_pow_sub_one]
  by_cases h1 : i < 64
  · by_cases h2 : j ≤ i
    · simp [h1, h2, show i - j < 64 by omega]
    · simp [h1, h2]
  · simp [h1]

section Candidates

variable {f : Nat -> Nat} {u b : Nat}

theorem fromIn_bitsFrom (hf : f u < 2 ^ 64) :
    FromIn f u (u * 64 + b) (f u &&& bitsFrom b) := by
  intro i
  unfold bitsFrom
  rw [Nat.testBit_and, Bool.and_eq_true, testBit_ones_shiftLeft, decide_eq_true_iff]
  constructor
  · intro h
    exact ⟨h.1, by omega⟩
  · intro h
    exact ⟨h.1, testBit_lt hf h.1, by omega⟩

theorem fromIn_bitsAfter (hf : f u < 2 ^ 64) :
    FromIn f u (u * 64 + b + 1) (f u &&& bitsAfter b) := by
  intro i
  unfold bitsAfter
  split
  · rename_i h
    rw [Nat.and_zero, Nat.zero_testBit]
    constructor
    · intro hc
      cases hc
    · intro hi
      have := testBit_lt hf hi.1
      unfold wordMask at h
      omega
  · rw [Nat.testBit_and, Bool.and_eq_true, testBit_ones_shiftLeft, decide_eq_true_iff]
    constructor
    · intro h
      exact ⟨h.1, by omega⟩
    · intro h
      exact ⟨h.1, testBit_lt hf h.1, by omega⟩

theorem beforeIn_bitsThrough (hb : b < 64) :
    BeforeIn f u (u * 64 + b + 1) (f u &&& bitsThrough b) := by
  intro i
  unfold bitsThrough wordMask
  rw [Nat.testBit_and, Bool.and_eq_true, Nat.testBit_shiftRight, Nat.testBit_two_pow_sub_one,
    decide_eq_true_iff]
  exact and_congr_right fun _ => by omega

theorem beforeIn_bitsBefore : BeforeIn f u (u * 64 + b) (f u &&& bitsBefore b) := by
  intro i
  have hbits : (bitsBefore b).testBit i = decide (i < b) := by
    unfold bitsBefore
    split
    · rename_i h
      simp [h]
    · rw [Nat.one_shiftLeft, Nat.testBit_two_pow_sub_one]
  rw [Nat.testBit_and, Bool.and_eq_true, hbits, decide_eq_true_iff]
  exact and_congr_right fun _ => by omega

end Candidates

namespace HierBitmap

def Mem (b : HierBitmap) (key : Nat) : Prop := BitAt b.layer0.get key

/-- Each layer summarizes the one below, and no bit lies past the capacity. -/
structure WellFormed (b : HierBitmap) : Prop where
  cap_le : b.cap ≤ 2 ^ 18
  length0 : b.layer0.length = divCeil b.cap 64
  length1 : b.layer1.length = divCeil (divCeil b.cap 64) 64
  fill0 : b.layer0.fill = 0
  fill1 : b.layer1.fill = 0
  lt0 : forall w, b.layer0.get w < 2 ^ 64
  lt1 : forall u, b.layer1.get u < 2 ^ 64
  lt2 : b.layer2 < 2 ^ 64
  below : forall key, b.Mem key -> key < b.cap
  middle : forall w, BitAt b.layer1.get w ↔ b.layer0.get w ≠ 0
  top : forall u, b.layer2.testBit u = true ↔ b.layer1.get u ≠ 0

theorem new_wf {cap : Nat} (h : cap ≤ 2 ^ 18) : (new cap).WellFormed where
  cap_le := h
  length0 := rfl
  length1 := rfl
  fill0 := rfl
  fill1 := rfl
  lt0 := by intro w; simp [new]
  lt1 := by intro u; simp [new]
  lt2 := by simp [new]
  below := by
    intro key hkey
    simp [Mem, BitAt, Paged, new] at hkey
  middle := by
    intro w
    simp [BitAt, Paged, new]
  top := by
    intro u
    simp [new]

theorem not_mem_new (cap key : Nat) : ¬ (new cap).Mem key := by
  simp [Mem, BitAt, Paged, new]

section WellFormed

variable {b : HierBitmap} {key : Nat}

theorem contains_iff (hb : b.WellFormed) : b.contains key = true ↔ b.Mem key := by
  unfold contains
  split
  · rename_i h
    constructor
    · intro hc
      cases hc
    · intro hc
      exact absurd (hb.below key hc) (not_lt.mpr h)
  · simp only [bne_iff_ne]
    rw [wordIndex_eq, bitIndex_eq, land_bit_ne_zero]
    rfl

theorem layer0_length (hb : b.WellFormed) (h : key < b.cap) : key / 64 < b.layer0.length := by
  rw [hb.length0, lt_divCeil_iff (by norm_num)]
  omega

theorem layer1_length (hb : b.WellFormed) (h : key < b.cap) :
    key / 64 / 64 < b.layer1.length := by
  have := layer0_length hb h
  rw [hb.length0] at this
  rw [hb.length1, lt_divCeil_iff (by norm_num)]
  omega

theorem top_index_lt (hb : b.WellFormed) (h : key < b.cap) : key / 64 / 64 < 64 := by
  have := hb.cap_le
  omega

/-!
# Marking and clearing
-/

theorem bitAt_set {v : SparseVec Nat} {w n key : Nat} (hw : w < v.length) :
    BitAt (v.set w n).get key ↔
      if key / 64 = w then n.testBit (key % 64) = true else BitAt v.get key := by
  simp only [BitAt, Paged]
  rw [SparseVec.get_set]
  by_cases h : key / 64 = w
  · rw [if_pos ⟨h, hw⟩, if_pos h]
  · rw [if_neg (fun hc => h hc.1), if_neg h]

theorem bitAt_set_or {v : SparseVec Nat} {key j : Nat} (hw : key / 64 < v.length) :
    BitAt (v.set (key / 64) (v.get (key / 64) ||| 1 <<< (key % 64))).get j ↔
      BitAt v.get j ∨ j = key := by
  rw [bitAt_set hw]
  split
  · rename_i h
    rw [testBit_or_bit]
    simp only [BitAt, Paged]
    rw [h]
    exact or_congr_right (by omega)
  · rename_i h
    constructor
    · exact Or.inl
    · intro hj
      rcases hj with hj | hj
      · exact hj
      · exact absurd (by rw [hj]) h

theorem bitAt_set_clear {v : SparseVec Nat} {key j : Nat} (hw : key / 64 < v.length)
    (hv : v.get (key / 64) < 2 ^ 64) :
    BitAt (v.set (key / 64) (v.get (key / 64) &&& complement 64 (1 <<< (key % 64)))).get j ↔
      BitAt v.get j ∧ j ≠ key := by
  rw [bitAt_set hw]
  split
  · rename_i h
    rw [testBit_clear hv]
    simp only [BitAt, Paged]
    rw [h]
    exact and_congr_right fun _ => by omega
  · rename_i h
    constructor
    · intro hj
      exact ⟨hj, fun he => h (by rw [he])⟩
    · exact And.left

theorem get_set_ne_zero {v : SparseVec Nat} {w n j : Nat} (hw : w < v.length) :
    (v.set w n).get j ≠ 0 ↔ if j = w then n ≠ 0 else v.get j ≠ 0 := by
  rw [SparseVec.get_set]
  by_cases h : j = w
  · rw [if_pos ⟨h, hw⟩, if_pos h]
  · rw [if_neg (fun hc => h hc.1), if_neg h]

theorem get_set_lt {v : SparseVec Nat} {w n : Nat} (hv : forall j, v.get j < 2 ^ 64)
    (hn : n < 2 ^ 64) (j : Nat) : (v.set w n).get j < 2 ^ 64 := by
  rw [SparseVec.get_set]
  split
  · exact hn
  · exact hv j

theorem WellFormed.leaf {n : Nat} (hb : b.WellFormed) (hn : n < 2 ^ 64)
    (hbelow : forall j, BitAt (b.layer0.set (key / 64) n).get j -> j < b.cap)
    (hmiddle : forall w, BitAt b.layer1.get w ↔ (b.layer0.set (key / 64) n).get w ≠ 0) :
    ({ b with layer0 := b.layer0.set (key / 64) n } : HierBitmap).WellFormed :=
  { hb with
    length0 := (SparseVec.length_set _ _ _).trans hb.length0
    fill0 := (SparseVec.fill_set _ _ _).trans hb.fill0
    lt0 := get_set_lt hb.lt0 hn
    below := hbelow
    middle := hmiddle }

theorem set_wf (hb : b.WellFormed) (key : Nat) : (b.set key).2.WellFormed := by
  unfold set
  split
  · exact hb
  · rename_i hcap
    have hkey : key < b.cap := not_le.mp hcap
    have hw := layer0_length hb hkey
    have hu := layer1_length hb hkey
    have ht := top_index_lt hb hkey
    simp only [wordIndex_eq, bitIndex_eq]
    split
    · exact hb
    · have hn := or_bit_lt (hb.lt0 (key / 64)) (Nat.mod_lt key (by norm_num : 0 < 64))
      have hbelow (j : Nat) (hj : BitAt (b.layer0.set (key / 64)
          (b.layer0.get (key / 64) ||| 1 <<< (key % 64))).get j) : j < b.cap := by
        rcases (bitAt_set_or hw).mp hj with hj | hj
        · exact hb.below j hj
        · exact hj ▸ hkey
      split
      · rename_i hold
        apply hb.leaf hn hbelow
        intro w
        rw [hb.middle w, get_set_ne_zero hw]
        split
        · rename_i hwk
          exact ⟨fun _ => or_bit_ne_zero _ _, fun _ => hwk ▸ hold⟩
        · exact Iff.rfl
      · rename_i hold
        rw [ne_eq, not_not] at hold
        have hn1 := or_bit_lt (hb.lt1 (key / 64 / 64))
          (Nat.mod_lt (key / 64) (by norm_num : 0 < 64))
        have hmiddle (w : Nat) : BitAt (b.layer1.set (key / 64 / 64)
            (b.layer1.get (key / 64 / 64) ||| 1 <<< (key / 64 % 64))).get w ↔
            (b.layer0.set (key / 64)
              (b.layer0.get (key / 64) ||| 1 <<< (key % 64))).get w ≠ 0 := by
          rw [bitAt_set_or hu, hb.middle w, get_set_ne_zero hw]
          split
          · rename_i hwk
            exact ⟨fun _ => or_bit_ne_zero _ _, fun _ => Or.inr hwk⟩
          · rename_i hwk
            exact ⟨fun h => h.resolve_right hwk, Or.inl⟩
        split
        · rename_i hold1
          exact
            { cap_le := hb.cap_le
              length0 := (SparseVec.length_set _ _ _).trans hb.length0
              length1 := (SparseVec.length_set _ _ _).trans hb.length1
              fill0 := (SparseVec.fill_set _ _ _).trans hb.fill0
              fill1 := (SparseVec.fill_set _ _ _).trans hb.fill1
              lt0 := get_set_lt hb.lt0 hn
              lt1 := get_set_lt hb.lt1 hn1
              lt2 := or_bit_lt hb.lt2 ht
              below := hbelow
              middle := hmiddle
              top := by
                intro u
                rw [testBit_or_bit, hb.top u, get_set_ne_zero hu]
                split
                · rename_i huk
                  exact ⟨fun _ => or_bit_ne_zero _ _, fun _ => Or.inr huk⟩
                · rename_i huk
                  exact ⟨fun h => h.resolve_right huk, Or.inl⟩ }
        · rename_i hold1
          exact
            { cap_le := hb.cap_le
              length0 := (SparseVec.length_set _ _ _).trans hb.length0
              length1 := (SparseVec.length_set _ _ _).trans hb.length1
              fill0 := (SparseVec.fill_set _ _ _).trans hb.fill0
              fill1 := (SparseVec.fill_set _ _ _).trans hb.fill1
              lt0 := get_set_lt hb.lt0 hn
              lt1 := get_set_lt hb.lt1 hn1
              lt2 := hb.lt2
              below := hbelow
              middle := hmiddle
              top := by
                intro u
                rw [hb.top u, get_set_ne_zero hu]
                split
                · rename_i huk
                  exact ⟨fun _ => or_bit_ne_zero _ _, fun _ => huk ▸ hold1⟩
                · exact Iff.rfl }

theorem mem_set (hb : b.WellFormed) (hkey : key < b.cap) (j : Nat) :
    (b.set key).2.Mem j ↔ b.Mem j ∨ j = key := by
  have hw := layer0_length hb hkey
  unfold set
  rw [if_neg (not_le.mpr hkey)]
  simp only [wordIndex_eq, bitIndex_eq]
  split
  · rename_i hset
    have hmem : b.Mem key := (land_bit_ne_zero _ _).mp hset
    constructor
    · exact Or.inl
    · rintro (hj | hj)
      · exact hj
      · exact hj ▸ hmem
  · split
    · exact bitAt_set_or hw
    · split
      · exact bitAt_set_or hw
      · exact bitAt_set_or hw

@[simp] theorem cap_set (b : HierBitmap) (key : Nat) : (b.set key).2.cap = b.cap := by
  unfold set
  dsimp only
  split_ifs <;> rfl

theorem remove_wf (hb : b.WellFormed) (key : Nat) : (b.remove key).2.WellFormed := by
  unfold remove
  split
  · exact hb
  · rename_i hcap
    have hkey : key < b.cap := not_le.mp hcap
    have hw := layer0_length hb hkey
    have hu := layer1_length hb hkey
    simp only [wordIndex_eq, bitIndex_eq]
    split
    · exact hb
    · rename_i hset
      have hold : b.layer0.get (key / 64) ≠ 0 := by
        have := BitAt.ne_zero ((land_bit_ne_zero _ _).mp hset : b.Mem key)
        exact this
      have hn := land_lt (m := complement 64 (1 <<< (key % 64))) (hb.lt0 (key / 64))
      have hbelow (j : Nat) (hj : BitAt (b.layer0.set (key / 64)
          (b.layer0.get (key / 64) &&& complement 64 (1 <<< (key % 64)))).get j) : j < b.cap :=
        hb.below j ((bitAt_set_clear hw (hb.lt0 _)).mp hj).1
      split
      · rename_i hnew
        apply hb.leaf hn hbelow
        intro w
        rw [hb.middle w, get_set_ne_zero hw]
        split
        · rename_i hwk
          exact ⟨fun _ => hnew, fun _ => hwk ▸ hold⟩
        · exact Iff.rfl
      · rename_i hnew
        have hn1 := land_lt (m := complement 64 (1 <<< (key / 64 % 64)))
          (hb.lt1 (key / 64 / 64))
        have hold1 : b.layer1.get (key / 64 / 64) ≠ 0 :=
          BitAt.ne_zero ((hb.middle (key / 64)).mpr hold)
        have hmiddle (w : Nat) : BitAt (b.layer1.set (key / 64 / 64)
            (b.layer1.get (key / 64 / 64) &&& complement 64 (1 <<< (key / 64 % 64)))).get w ↔
            (b.layer0.set (key / 64)
              (b.layer0.get (key / 64) &&& complement 64 (1 <<< (key % 64)))).get w ≠ 0 := by
          rw [bitAt_set_clear hu (hb.lt1 _), hb.middle w, get_set_ne_zero hw]
          split
          · rename_i hwk
            exact ⟨fun h => absurd hwk h.2, fun h => absurd h hnew⟩
          · rename_i hwk
            exact ⟨And.left, fun h => ⟨h, hwk⟩⟩
        split
        · rename_i hnew1
          exact
            { cap_le := hb.cap_le
              length0 := (SparseVec.length_set _ _ _).trans hb.length0
              length1 := (SparseVec.length_set _ _ _).trans hb.length1
              fill0 := (SparseVec.fill_set _ _ _).trans hb.fill0
              fill1 := (SparseVec.fill_set _ _ _).trans hb.fill1
              lt0 := get_set_lt hb.lt0 hn
              lt1 := get_set_lt hb.lt1 hn1
              lt2 := hb.lt2
              below := hbelow
              middle := hmiddle
              top := by
                intro u
                rw [hb.top u, get_set_ne_zero hu]
                split
                · rename_i huk
                  exact ⟨fun _ => hnew1, fun _ => huk ▸ hold1⟩
                · exact Iff.rfl }
        · rename_i hnew1
          exact
            { cap_le := hb.cap_le
              length0 := (SparseVec.length_set _ _ _).trans hb.length0
              length1 := (SparseVec.length_set _ _ _).trans hb.length1
              fill0 := (SparseVec.fill_set _ _ _).trans hb.fill0
              fill1 := (SparseVec.fill_set _ _ _).trans hb.fill1
              lt0 := get_set_lt hb.lt0 hn
              lt1 := get_set_lt hb.lt1 hn1
              lt2 := land_lt hb.lt2
              below := hbelow
              middle := hmiddle
              top := by
                intro u
                rw [testBit_clear hb.lt2, hb.top u, get_set_ne_zero hu]
                split
                · rename_i huk
                  exact ⟨fun h => absurd huk h.2, fun h => absurd h hnew1⟩
                · rename_i huk
                  exact ⟨And.left, fun h => ⟨h, huk⟩⟩ }

theorem mem_remove (hb : b.WellFormed) (hkey : key < b.cap) (j : Nat) :
    (b.remove key).2.Mem j ↔ b.Mem j ∧ j ≠ key := by
  have hw := layer0_length hb hkey
  unfold remove
  rw [if_neg (not_le.mpr hkey)]
  simp only [wordIndex_eq, bitIndex_eq]
  split
  · rename_i hset
    have hmem : ¬ b.Mem key := fun hm => (land_bit_ne_zero _ _).mpr hm hset
    constructor
    · intro hj
      exact ⟨hj, fun he => hmem (he ▸ hj)⟩
    · exact And.left
  · split
    · exact bitAt_set_clear hw (hb.lt0 _)
    · split
      · exact bitAt_set_clear hw (hb.lt0 _)
      · exact bitAt_set_clear hw (hb.lt0 _)

@[simp] theorem cap_remove (b : HierBitmap) (key : Nat) : (b.remove key).2.cap = b.cap := by
  unfold remove
  dsimp only
  split_ifs <;> rfl

/-!
# Searching
-/

theorem makeKey_eq (hb : b.WellFormed) {w i : Nat} (h : b.Mem (w * 64 + i)) (hi : i < 64) :
    b.makeKey w i = some (w * 64 + i) := by
  unfold makeKey
  rw [key_eq hi, if_pos (hb.below _ h)]

theorem nextFrom_spec (hb : b.WellFormed) (start : Nat) :
    LeastIn (atOrAfter b.Mem start) (b.nextFrom start) := by
  unfold nextFrom
  split
  · rename_i hcap
    intro key hkey
    exact absurd (hb.below key hkey.1) (not_lt.mpr (hcap.trans hkey.2))
  · simp only [wordIndex_eq, bitIndex_eq]
    have hfrom := fromIn_bitsFrom (f := b.layer0.get) (b := start % 64) (hb.lt0 (start / 64))
    rw [Nat.div_add_mod' start 64] at hfrom
    have hfrom1 := fromIn_bitsAfter (f := b.layer1.get) (b := start / 64 % 64)
      (hb.lt1 (start / 64 / 64))
    rw [Nat.div_add_mod' (start / 64) 64] at hfrom1
    have hset : (fun w => b.layer0.get w ≠ 0) = BitAt b.layer1.get :=
      funext fun w => propext (hb.middle w).symm
    have hmask := Nat.mod_lt start (by norm_num : 0 < 64)
    split
    · rename_i hcand
      have hleast := isLeast_word hfrom (hb.lt0 _) hcand (by omega)
      have hlt := testBit_lt (hb.lt0 _)
        ((hfrom _).mp (testBit_trailingZeros hcand (hfrom.lt (hb.lt0 _))).1).1
      rw [makeKey_eq hb hleast.1.1 hlt]
      exact hleast
    · rename_i hcand
      rw [ne_eq, not_not] at hcand
      rw [hcand] at hfrom
      -- The answer is the lowest bit of the next non-empty leaf word.
      have hleaf {w : Nat} (hw : IsLeast (atOrAfter (BitAt b.layer1.get) (start / 64 + 1)) w) :
          LeastIn (atOrAfter b.Mem start)
            (b.makeKey w (trailingZeros 64 (b.layer0.get w))) := by
        rw [← hset] at hw
        have hleast := isLeast_later hfrom hb.lt0 (by omega) (by omega) hw
        have hlt := testBit_lt (hb.lt0 _) (testBit_trailingZeros hw.1.1 (hb.lt0 _)).1
        rw [makeKey_eq hb hleast.1.1 hlt]
        exact hleast
      split
      · rename_i hcand1
        have hleast1 := isLeast_word hfrom1 (hb.lt1 _) hcand1 (by omega)
        have hlt1 := testBit_lt (hb.lt1 _)
          ((hfrom1 _).mp (testBit_trailingZeros hcand1 (hfrom1.lt (hb.lt1 _))).1).1
        rw [key_eq hlt1]
        exact hleaf hleast1
      · rename_i hcand1
        rw [ne_eq, not_not] at hcand1
        rw [hcand1] at hfrom1
        have hfrom2 := fromIn_bitsAfter (f := fun _ => b.layer2) (u := 0)
          (b := start / 64 / 64) hb.lt2
        simp only [Nat.zero_mul, Nat.zero_add] at hfrom2
        have hset1 : (fun u => b.layer1.get u ≠ 0) = fun u => b.layer2.testBit u = true :=
          funext fun u => propext (hb.top u).symm
        split
        · rename_i hcand2
          apply atOrAfter_empty hfrom hb.lt0 (by omega) (by omega)
          rw [hset]
          apply atOrAfter_empty hfrom1 hb.lt1 (by omega) (by omega)
          rw [hset1]
          intro u hu
          have hbit := (hfrom2 u).mpr ⟨hu.1, by have := hu.2; omega⟩
          rw [hcand2, Nat.zero_testBit] at hbit
          cases hbit
        · rename_i hcand2
          have hleast2 := testBit_trailingZeros hcand2 (land_lt hb.lt2)
          have hu : IsLeast (atOrAfter (fun u => b.layer1.get u ≠ 0) (start / 64 / 64 + 1))
              (trailingZeros 64 (b.layer2 &&& bitsAfter (start / 64 / 64))) := by
            rw [hset1]
            constructor
            · have := (hfrom2 _).mp hleast2.1
              exact ⟨this.1, by have := this.2; omega⟩
            · intro u hu
              exact hleast2.2 ((hfrom2 u).mpr ⟨hu.1, by have := hu.2; omega⟩)
          have hleast1 := isLeast_later hfrom1 hb.lt1 (by omega) (by omega) hu
          have hlt1 := testBit_lt (hb.lt1 _) (testBit_trailingZeros hu.1.1 (hb.lt1 _)).1
          rw [key_eq hlt1]
          exact hleaf hleast1

theorem prevFrom_spec (hb : b.WellFormed) {start : Nat} (hcap : start < b.cap) :
    GreatestIn (before b.Mem (start + 1)) (b.prevFrom start) := by
  unfold prevFrom
  rw [if_neg (not_le.mpr hcap)]
  simp only [wordIndex_eq, bitIndex_eq]
  have hmask := Nat.mod_lt start (by norm_num : 0 < 64)
  have hbefore := beforeIn_bitsThrough (f := b.layer0.get) (u := start / 64) hmask
  rw [Nat.div_add_mod' start 64] at hbefore
  have hbefore1 := beforeIn_bitsBefore (f := b.layer1.get) (u := start / 64 / 64)
    (b := start / 64 % 64)
  rw [Nat.div_add_mod' (start / 64) 64] at hbefore1
  have hset : (fun w => b.layer0.get w ≠ 0) = BitAt b.layer1.get :=
    funext fun w => propext (hb.middle w).symm
  split
  · rename_i hcand
    have hgreatest := isGreatest_word hbefore (hb.lt0 _) hcand (by omega) (by omega)
    have hlt := testBit_lt (hb.lt0 _) ((hbefore _).mp (testBit_bitLen hcand).1).1
    rw [highestSetBit_eq (land_lt (hb.lt0 _)), makeKey_eq hb hgreatest.1.1 hlt]
    exact hgreatest
  · rename_i hcand
    rw [ne_eq, not_not] at hcand
    rw [hcand] at hbefore
    -- The answer is the highest bit of the previous non-empty leaf word.
    have hleaf {w : Nat} (hw : IsGreatest (before (BitAt b.layer1.get) (start / 64)) w) :
        GreatestIn (before b.Mem (start + 1))
          (b.makeKey w (highestSetBit (b.layer0.get w))) := by
      rw [← hset] at hw
      have hgreatest := isGreatest_earlier hbefore hb.lt0 (by omega) (by omega) hw
      have hlt := testBit_lt (hb.lt0 _) (testBit_bitLen hw.1.1).1
      rw [highestSetBit_eq (hb.lt0 _), makeKey_eq hb hgreatest.1.1 hlt]
      exact hgreatest
    split
    · rename_i hcand1
      have hgreatest1 := isGreatest_word hbefore1 (hb.lt1 _) hcand1 (by omega) (by omega)
      have hlt1 := testBit_lt (hb.lt1 _) ((hbefore1 _).mp (testBit_bitLen hcand1).1).1
      rw [highestSetBit_eq (land_lt (hb.lt1 _)), key_eq hlt1]
      exact hleaf hgreatest1
    · rename_i hcand1
      rw [ne_eq, not_not] at hcand1
      rw [hcand1] at hbefore1
      have hbefore2 := beforeIn_bitsBefore (f := fun _ => b.layer2) (u := 0)
        (b := start / 64 / 64)
      simp only [Nat.zero_mul, Nat.zero_add] at hbefore2
      have hset1 : (fun u => b.layer1.get u ≠ 0) = fun u => b.layer2.testBit u = true :=
        funext fun u => propext (hb.top u).symm
      split
      · rename_i hcand2
        apply before_empty hbefore hb.lt0 (by omega) (by omega)
        rw [hset]
        apply before_empty hbefore1 hb.lt1 (by omega) (by omega)
        rw [hset1]
        intro u hu
        have hbit := (hbefore2 u).mpr ⟨hu.1, by have := hu.2; omega⟩
        rw [hcand2, Nat.zero_testBit] at hbit
        cases hbit
      · rename_i hcand2
        have hgreatest2 := testBit_bitLen hcand2
        have hu : IsGreatest (before (fun u => b.layer1.get u ≠ 0) (start / 64 / 64))
            (bitLen (b.layer2 &&& bitsBefore (start / 64 / 64)) - 1) := by
          rw [hset1]
          constructor
          · have := (hbefore2 _).mp hgreatest2.1
            exact ⟨this.1, by have := this.2; omega⟩
          · intro u hu
            exact hgreatest2.2 ((hbefore2 u).mpr ⟨hu.1, by have := hu.2; omega⟩)
        have hgreatest1 :=
          isGreatest_earlier hbefore1 hb.lt1 (by omega) (by omega) hu
        have hlt1 := testBit_lt (hb.lt1 _) (testBit_bitLen hu.1.1).1
        rw [highestSetBit_eq (land_lt hb.lt2), highestSetBit_eq (hb.lt1 _), key_eq hlt1]
        exact hleaf hgreatest1

theorem nextOrEq_spec (hb : b.WellFormed) (key : Nat) :
    LeastIn (atOrAfter b.Mem key) (b.nextOrEq key) :=
  nextFrom_spec hb key

theorem next_spec (hb : b.WellFormed) (key : Nat) : LeastIn (after b.Mem key) (b.next key) :=
  nextFrom_spec hb (key + 1)

theorem prev_spec (hb : b.WellFormed) (key : Nat) :
    GreatestIn (before b.Mem key) (b.prev key) := by
  unfold prev
  split
  · rename_i h
    intro j hj
    have := hb.below j hj.1
    have := hj.2
    omega
  · rename_i h
    have hset : before b.Mem key = before b.Mem (min (key - 1) (b.cap - 1) + 1) := by
      ext j
      refine and_congr_right fun hj => ?_
      have := hb.below j hj
      omega
    rw [hset]
    exact prevFrom_spec hb (by omega)

theorem prevOrEq_spec (hb : b.WellFormed) (key : Nat) :
    GreatestIn (atOrBefore b.Mem key) (b.prevOrEq key) := by
  unfold prevOrEq
  split
  · rename_i h
    intro j hj
    have := hb.below j hj.1
    omega
  · rename_i h
    have hset : atOrBefore b.Mem key = before b.Mem (min key (b.cap - 1) + 1) := by
      ext j
      refine and_congr_right fun hj => ?_
      have := hb.below j hj
      omega
    rw [hset]
    exact prevFrom_spec hb (by omega)

end WellFormed

end HierBitmap

end RmUniswap
