import RmUniswap.Foundation.Allocator
import RmUniswap.Math.Tick
import RmUniswap.Ticks.Bitmap
import RmUniswap.Ticks.SlabValue

/-!
# Tick slab

Initialized ticks in pages of thirty-two slots. A bitmap knows the pages in
use, a cache maps a page to its key in the allocator, and each page links to its
neighbours so that a swap walks from page to page.
-/

namespace RmUniswap

open Foundation

def initialCacheValue : Nat := 2 ^ 16 - 1

/-- The fields of the slab, without their invariant. -/
structure SlabPages (A : Type) where
  bitmap : HierBitmap
  cache : SparseVec Nat
  values : A
  tickSpacing : TickSpacing
  maxLiquidityPerTick : Nat

namespace SlabPages

variable {A : Type} [Allocator TickSlabValue A]

def new (tickSpacing : TickSpacing) : SlabPages A :=
  let cacheCap := calculateCacheCap tickSpacing
  { bitmap := HierBitmap.new cacheCap
    cache := SparseVec.replicate cacheCap initialCacheValue
    values := Allocator.empty
    tickSpacing
    maxLiquidityPerTick := tickSpacing.maxLiquidityPerTick }

def isEmpty (s : SlabPages A) : Bool := Allocator.isEmpty s.values

def indexer (s : SlabPages A) (tickIdx : Int) : Nat := fromTick tickIdx s.tickSpacing.asU32

def getKey (s : SlabPages A) (cacheIndex : Nat) : Option Nat :=
  let key := s.cache.get cacheIndex
  if key ≠ initialCacheValue then some key else none

def getSlab (s : SlabPages A) (cacheIndex : Nat) : Option TickSlabValue :=
  (s.getKey cacheIndex).bind (Allocator.get? s.values)

def modifySlab (s : SlabPages A) (cacheIndex : Nat) (f : TickSlabValue -> TickSlabValue) :
    SlabPages A :=
  match s.getKey cacheIndex with
  | some key => { s with values := Allocator.modify s.values key f }
  | none => s

def modifyLink (s : SlabPages A) (idx : Option Nat) (f : TickSlabValue -> TickSlabValue) :
    SlabPages A :=
  match idx with
  | some cacheIndex => s.modifySlab cacheIndex f
  | none => s

/-- Store a page under a cache index and link it between its neighbours. -/
def insertSlab (s : SlabPages A) (cacheIndex : Nat) (tickSlab : TickSlabValue) : SlabPages A :=
  if s.cache.get cacheIndex ≠ initialCacheValue then
    s.modifySlab cacheIndex (fun _ => tickSlab)
  else
    let prevIdx := s.bitmap.prev cacheIndex
    let nextIdx := s.bitmap.next cacheIndex
    let s := s.modifyLink prevIdx fun v => { v with nextIdx := some cacheIndex }
    let s := s.modifyLink nextIdx fun v => { v with prevIdx := some cacheIndex }
    let tickSlab := { tickSlab with prevIdx, nextIdx }
    let bitmap := (s.bitmap.set cacheIndex).2
    let (key, values) := Allocator.insert s.values tickSlab
    { s with bitmap, values, cache := s.cache.set cacheIndex (wrap 16 key) }

def insertEmptySlab (s : SlabPages A) (cacheIndex : Nat) : SlabPages A :=
  s.insertSlab cacheIndex (TickSlabValue.new none none)

def insert (s : SlabPages A) (tickIndexer : Nat) (tickInfo : TickInfo) :
    Except Error (SlabPages A) :=
  let cacheIndex := cacheIndex tickIndexer
  if cacheIndex ≥ s.cache.length then
    .error .invalidTick
  else
    let s :=
      match s.getKey cacheIndex with
      | some _ => s
      | none => s.insertEmptySlab cacheIndex
    .ok (s.modifySlab cacheIndex fun v => v.insert tickIndexer tickInfo)

def get (s : SlabPages A) (tickIndexer : Nat) : Option TickInfo :=
  (s.getSlab (cacheIndex tickIndexer)).bind fun slab => slab.get tickIndexer

def slotAt (cacheIndex : Nat) (slot : Nat × TickInfo) : Nat × TickInfo :=
  (fromParts cacheIndex slot.1, slot.2)

def next (s : SlabPages A) (tickIndexer : Nat) : Option (Nat × TickInfo) :=
  let cacheIndex := cacheIndex tickIndexer
  match s.getSlab cacheIndex with
  | some currentSlab =>
      match currentSlab.nextSlot tickIndexer with
      | some slot => some (slotAt cacheIndex slot)
      | none =>
          currentSlab.nextIdx.bind fun nextIdx =>
            (s.getSlab nextIdx).bind fun nextSlab => nextSlab.firstSlot.map (slotAt nextIdx)
  | none =>
      (s.bitmap.nextOrEq cacheIndex).bind fun nextIdx =>
        (s.getSlab nextIdx).bind fun nextSlab => nextSlab.firstSlot.map (slotAt nextIdx)

def prev (s : SlabPages A) (tickIndexer : Nat) : Option (Nat × TickInfo) :=
  let cacheIndex := cacheIndex tickIndexer
  match s.getSlab cacheIndex with
  | some currentSlab =>
      match currentSlab.prevSlot tickIndexer with
      | some slot => some (slotAt cacheIndex slot)
      | none =>
          currentSlab.prevIdx.bind fun prevIdx =>
            (s.getSlab prevIdx).bind fun prevSlab => prevSlab.lastSlot.map (slotAt prevIdx)
  | none =>
      (s.bitmap.prevOrEq cacheIndex).bind fun prevIdx =>
        (s.getSlab prevIdx).bind fun prevSlab => prevSlab.lastSlot.map (slotAt prevIdx)

def write (s : SlabPages A) (tickIndexer : Nat) (tickInfo : TickInfo) : SlabPages A :=
  s.modifySlab (cacheIndex tickIndexer) fun v => v.write tickIndexer tickInfo

def removeSlab (s : SlabPages A) (cacheIndex : Nat) : SlabPages A :=
  match s.getKey cacheIndex with
  | some key =>
      { s with
        cache := s.cache.set cacheIndex initialCacheValue
        bitmap := (s.bitmap.remove cacheIndex).2
        values := Allocator.tryRemove s.values key }
  | none => s

def remove (s : SlabPages A) (tickIndexer : Nat) : SlabPages A :=
  let cacheIndex := cacheIndex tickIndexer
  match s.getSlab cacheIndex with
  | some slab =>
      let targetSlab := slab.remove tickIndexer
      let s := s.modifySlab cacheIndex fun _ => targetSlab
      if targetSlab.initialized = 0 then
        let s := s.modifyLink targetSlab.nextIdx fun v => { v with prevIdx := targetSlab.prevIdx }
        let s := s.modifyLink targetSlab.prevIdx fun v => { v with nextIdx := targetSlab.nextIdx }
        s.removeSlab cacheIndex
      else
        s
  | none => s

def snapshotPage (s : SlabPages A) (cacheIndex : Nat) (ticks : SortedMap Int TickInfoInner) :
    SortedMap Int TickInfoInner :=
  match s.getSlab cacheIndex with
  | some slab =>
      slab.initializedSlots.foldl
        (fun ticks slot =>
          ticks.insert (toTick (fromParts cacheIndex slot.1) s.tickSpacing.asU32) slot.2.inner)
        ticks
  | none => ticks

def snapshotLoop (s : SlabPages A) :
    Nat -> Option Nat -> SortedMap Int TickInfoInner -> SortedMap Int TickInfoInner
  | 0, _, ticks => ticks
  | _ + 1, none, ticks => ticks
  | fuel + 1, some cacheIndex, ticks =>
      s.snapshotLoop fuel (s.bitmap.next cacheIndex) (s.snapshotPage cacheIndex ticks)

def snapshot (s : SlabPages A) : SortedMap Int TickInfoInner :=
  s.snapshotLoop (s.bitmap.cap + 1) (s.bitmap.nextOrEq 0) SortedMap.empty

end SlabPages

end RmUniswap
