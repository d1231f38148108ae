import RmUniswap.Foundation.SparseVec
import RmUniswap.Foundation.Words
import RmUniswap.Types.TickSlabIndexer

/-!
# Slab pages

One page holds thirty-two tick slots, an occupancy word and the links to its
neighbours. A cleared slot keeps its stale payload.
-/

namespace RmUniswap

open Foundation

structure TickSlabValue where
  slots : SparseVec TickInfo
  initializedMap : Nat
  prevIdx : Option Nat
  nextIdx : Option Nat

namespace TickSlabValue

def new (prevIdx nextIdx : Option Nat) : TickSlabValue :=
  { slots := SparseVec.replicate 32 TickInfo.default
    initializedMap := 0
    prevIdx
    nextIdx }

def initialized (v : TickSlabValue) : Nat := countOnes 32 v.initializedMap

def isInitialized (v : TickSlabValue) (i : Nat) : Bool :=
  (v.initializedMap &&& (1 <<< slotIndex i)) != 0

def insert (v : TickSlabValue) (i : Nat) (tickInfo : TickInfo) : TickSlabValue :=
  { v with
    slots := v.slots.set (slotIndex i) tickInfo
    initializedMap := v.initializedMap ||| 1 <<< slotIndex i }

def get (v : TickSlabValue) (i : Nat) : Option TickInfo :=
  if v.isInitialized i then some (v.slots.get (slotIndex i)) else none

def write (v : TickSlabValue) (i : Nat) (tickInfo : TickInfo) : TickSlabValue :=
  { v with slots := v.slots.set (slotIndex i) tickInfo }

def remove (v : TickSlabValue) (i : Nat) : TickSlabValue :=
  { v with initializedMap := v.initializedMap &&& complement 32 (1 <<< slotIndex i) }

def nextSlot (v : TickSlabValue) (i : Nat) : Option (Nat × TickInfo) :=
  let slot := slotIndex i
  if slot = 31 then
    none
  else
    let candidates := v.initializedMap &&& wrap 32 ((2 ^ 32 - 1) <<< (slot + 1))
    if candidates = 0 then
      none
    else
      let nextSlot := trailingZeros 32 candidates
      some (nextSlot, v.slots.get nextSlot)

def prevSlot (v : TickSlabValue) (i : Nat) : Option (Nat × TickInfo) :=
  let slot := slotIndex i
  if slot = 0 then
    none
  else
    let candidates := v.initializedMap &&& ((1 <<< slot) - 1)
    if candidates = 0 then
      none
    else
      let prevSlot := 32 - 1 - (32 - bitLen candidates)
      some (prevSlot, v.slots.get prevSlot)

def firstSlot (v : TickSlabValue) : Option (Nat × TickInfo) :=
  if v.initializedMap = 0 then
    none
  else
    let firstSlot := trailingZeros 32 v.initializedMap
    some (firstSlot, v.slots.get firstSlot)

def lastSlot (v : TickSlabValue) : Option (Nat × TickInfo) :=
  if v.initializedMap = 0 then
    none
  else
    let lastSlot := 32 - 1 - (32 - bitLen v.initializedMap)
    some (lastSlot, v.slots.get lastSlot)

def initializedSlots (v : TickSlabValue) : List (Nat × TickInfo) :=
  (List.range 32).filterMap fun slot =>
    if (v.initializedMap &&& (1 <<< slot)) ≠ 0 then some (slot, v.slots.get slot) else none

/-!
# A page as a partial map of slots
-/

def slotInfo (v : TickSlabValue) (slot : Nat) : Option TickInfo :=
  if v.initializedMap.testBit slot then some (v.slots.get slot) else none

structure WellFormed (v : TickSlabValue) : Prop where
  slots_length : v.slots.length = 32
  map_lt : v.initializedMap < 2 ^ 32

theorem new_wf (prevIdx nextIdx : Option Nat) : (new prevIdx nextIdx).WellFormed where
  slots_length := rfl
  map_lt := by norm_num [new]

theorem slotInfo_new (prevIdx nextIdx : Option Nat) (slot : Nat) :
    (new prevIdx nextIdx).slotInfo slot = none := by
  simp [slotInfo, new]

theorem slotInfo_isSome {v : TickSlabValue} {slot : Nat} :
    (v.slotInfo slot).isSome = true ↔ v.initializedMap.testBit slot = true := by
  unfold slotInfo
  split
  · rename_i h
    simp [h]
  · rename_i h
    simp [h]

section WellFormed

variable {v : TickSlabValue} {i slot : Nat} {info : TickInfo}

theorem slotInfo_lt (hv : v.WellFormed) (h : (v.slotInfo slot).isSome = true) : slot < 32 :=
  testBit_lt hv.map_lt (slotInfo_isSome.mp h)

theorem get_eq (v : TickSlabValue) (i : Nat) : v.get i = v.slotInfo (slotIndex i) := by
  unfold get slotInfo isInitialized
  simp only [bne_iff_ne, land_bit_ne_zero]

theorem insert_wf (hv : v.WellFormed) (i : Nat) (info : TickInfo) :
    (v.insert i info).WellFormed where
  slots_length := (SparseVec.length_set _ _ _).trans hv.slots_length
  map_lt := or_bit_lt hv.map_lt (slotIndex_lt i)

theorem slotInfo_insert (hv : v.WellFormed) (i : Nat) (info : TickInfo) (slot : Nat) :
    (v.insert i info).slotInfo slot =
      if slot = slotIndex i then some info else v.slotInfo slot := by
  have hi : slotIndex i < v.slots.length := by
    rw [hv.slots_length]
    exact slotIndex_lt i
  simp only [slotInfo, insert, testBit_or_bit]
  by_cases h : slot = slotIndex i
  · rw [if_pos (Or.inr h), if_pos h, h, SparseVec.get_set_self hi]
  · rw [if_neg h, SparseVec.get_set_ne _ h]
    simp only [h, or_false]

theorem write_wf (hv : v.WellFormed) (i : Nat) (info : TickInfo) :
    (v.write i info).WellFormed where
  slots_length := (SparseVec.length_set _ _ _).trans hv.slots_length
  map_lt := hv.map_lt

theorem slotInfo_write (hv : v.WellFormed) (i : Nat) (info : TickInfo) (slot : Nat) :
    (v.write i info).slotInfo slot =
      if slot = slotIndex i then (v.slotInfo slot).map (fun _ => info) else v.slotInfo slot := by
  have hi : slotIndex i < v.slots.length := by
    rw [hv.slots_length]
    exact slotIndex_lt i
  by_cases h : slot = slotIndex i
  · rw [if_pos h, h]
    unfold slotInfo write
    by_cases hbit : v.initializedMap.testBit (slotIndex i) = true
    · simp only [hbit, if_true, SparseVec.get_set_self hi, Option.map_some]
    · simp only [hbit, Bool.false_eq_true, if_false, Option.map_none]
  · rw [if_neg h]
    unfold slotInfo write
    simp only [SparseVec.get_set_ne _ h]

theorem remove_wf (hv : v.WellFormed) (i : Nat) : (v.remove i).WellFormed where
  slots_length := hv.slots_length
  map_lt := land_lt hv.map_lt

theorem slotInfo_remove (hv : v.WellFormed) (i slot : Nat) :
    (v.remove i).slotInfo slot = if slot = slotIndex i then none else v.slotInfo slot := by
  simp only [slotInfo, remove, testBit_clear hv.map_lt]
  by_cases h : slot = slotIndex i
  · rw [if_neg (fun hc => hc.2 h), if_pos h]
  · rw [if_neg h]
    simp only [ne_eq, h, not_false_eq_true, and_true]

theorem countOnes_eq_zero {w n : Nat} (h : n < 2 ^ w) : countOnes w n = 0 ↔ n = 0 := by
  induction w generalizing n with
  | zero =>
      simp only [countOnes, true_iff]
      omega
  | succ w ih =>
      have hhalf : n / 2 < 2 ^ w := by
        rw [pow_succ] at h
        omega
      unfold countOnes
      rw [Nat.add_eq_zero_iff, ih hhalf]
      omega

theorem map_eq_zero_iff (v : TickSlabValue) :
    v.initializedMap = 0 ↔ forall slot, v.slotInfo slot = none := by
  constructor
  · intro h slot
    unfold slotInfo
    rw [h, Nat.zero_testBit]
    rfl
  · intro h
    by_contra hne
    rcases Nat.exists_testBit_of_ne_zero hne with ⟨slot, hslot⟩
    have := slotInfo_isSome.mpr hslot
    rw [h slot] at this
    cases this

theorem initialized_eq_zero (hv : v.WellFormed) :
    v.initialized = 0 ↔ forall slot, v.slotInfo slot = none := by
  rw [initialized, countOnes_eq_zero hv.map_lt, map_eq_zero_iff]

/-!
# Searches inside a page
-/

theorem highestSlot_eq {n : Nat} (hn : n < 2 ^ 32) : 32 - 1 - (32 - bitLen n) = bitLen n - 1 := by
  have hle := bitLen_le_iff.mpr hn
  omega

theorem slotInfo_of_testBit (h : v.initializedMap.testBit slot = true) :
    v.slotInfo slot = some (v.slots.get slot) := if_pos h

/-- The initialized slots of the page. -/
def Holds (v : TickSlabValue) (slot : Nat) : Prop := (v.slotInfo slot).isSome = true

theorem holds_iff : v.Holds slot ↔ v.initializedMap.testBit slot = true := slotInfo_isSome

theorem nextSlot_spec (hv : v.WellFormed) (i : Nat) :
    LeastEntry v.slotInfo (after v.Holds (slotIndex i)) (v.nextSlot i) := by
  have hlt := slotIndex_lt i
  unfold nextSlot
  simp only
  split
  · rename_i h
    intro j hj
    have := slotInfo_lt hv hj.1
    have := hj.2
    omega
  · rename_i h
    have hcand (j : Nat) : (v.initializedMap &&&
        wrap 32 ((2 ^ 32 - 1) <<< (slotIndex i + 1))).testBit j = true ↔
        j ∈ after v.Holds (slotIndex i) := by
      rw [Nat.testBit_and, Bool.and_eq_true, wrap, Nat.testBit_mod_two_pow,
        Nat.testBit_shiftLeft, Nat.testBit_two_pow_sub_one, mem_after, holds_iff]
      refine and_congr_right fun hj => ?_
      have := testBit_lt hv.map_lt hj
      simp only [Bool.and_eq_true, decide_eq_true_iff]
      omega
    split
    · rename_i hzero
      intro j hj
      have := (hcand j).mpr hj
      rw [hzero, Nat.zero_testBit] at this
      cases this
    · rename_i hne
      have hleast := testBit_trailingZeros hne (land_lt hv.map_lt)
      have hmem := (hcand _).mp hleast.1
      exact ⟨⟨hmem, fun j hj => hleast.2 ((hcand j).mpr hj)⟩,
        slotInfo_of_testBit (holds_iff.mp hmem.1)⟩

theorem prevSlot_spec (hv : v.WellFormed) (i : Nat) :
    GreatestEntry v.slotInfo (before v.Holds (slotIndex i)) (v.prevSlot i) := by
  unfold prevSlot
  simp only
  split
  · rename_i h
    intro j hj
    have := hj.2
    omega
  · have hcand (j : Nat) : (v.initializedMap &&& ((1 <<< slotIndex i) - 1)).testBit j = true ↔
        j ∈ before v.Holds (slotIndex i) := by
      rw [Nat.testBit_and, Bool.and_eq_true, Nat.one_shiftLeft, Nat.testBit_two_pow_sub_one,
        decide_eq_true_iff, mem_before, holds_iff]
    split
    · rename_i hzero
      intro j hj
      have := (hcand j).mpr hj
      rw [hzero, Nat.zero_testBit] at this
      cases this
    · rename_i hne
      have hgreatest := testBit_bitLen hne
      have hmem := (hcand _).mp hgreatest.1
      rw [highestSlot_eq (land_lt hv.map_lt)]
      exact ⟨⟨hmem, fun j hj => hgreatest.2 ((hcand j).mpr hj)⟩,
        slotInfo_of_testBit (holds_iff.mp hmem.1)⟩

theorem firstSlot_spec (hv : v.WellFormed) :
    LeastEntry v.slotInfo {slot | v.Holds slot} v.firstSlot := by
  unfold firstSlot
  split
  · rename_i hzero
    intro j hj
    have hbit := holds_iff.mp hj
    rw [hzero, Nat.zero_testBit] at hbit
    cases hbit
  · rename_i hne
    have hleast := testBit_trailingZeros hne hv.map_lt
    exact ⟨⟨holds_iff.mpr hleast.1, fun j hj => hleast.2 (holds_iff.mp hj)⟩,
      slotInfo_of_testBit hleast.1⟩

theorem lastSlot_spec (hv : v.WellFormed) :
    GreatestEntry v.slotInfo {slot | v.Holds slot} v.lastSlot := by
  unfold lastSlot
  split
  · rename_i hzero
    intro j hj
    have hbit := holds_iff.mp hj
    rw [hzero, Nat.zero_testBit] at hbit
    cases hbit
  · rename_i hne
    have hgreatest := testBit_bitLen hne
    simp only
    rw [highestSlot_eq hv.map_lt]
    exact ⟨⟨holds_iff.mpr hgreatest.1, fun j hj => hgreatest.2 (holds_iff.mp hj)⟩,
      slotInfo_of_testBit hgreatest.1⟩

end WellFormed

theorem mem_initializedSlots {v : TickSlabValue} (hv : v.WellFormed) {slot : Nat}
    {info : TickInfo} : (slot, info) ∈ v.initializedSlots ↔ v.slotInfo slot = some info := by
  unfold initializedSlots
  simp only [List.mem_filterMap, List.mem_range, land_bit_ne_zero]
  constructor
  · rintro ⟨j, _, hj⟩
    unfold slotInfo
    split at hj
    · rename_i hbit
      cases hj
      rw [if_pos hbit]
    · cases hj
  · intro h
    have hlt := slotInfo_lt hv (by rw [h]; rfl)
    unfold slotInfo at h
    split at h
    · rename_i hbit
      cases h
      exact ⟨slot, hlt, if_pos hbit⟩
    · cases h

end TickSlabValue

end RmUniswap
