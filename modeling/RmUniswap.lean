import RmUniswap.Foundation.SortedMap
import RmUniswap.Foundation.FixedWidth
import RmUniswap.Foundation.Holding
import RmUniswap.Foundation.Result
import RmUniswap.Foundation.SparseVec
import RmUniswap.Foundation.Bits
import RmUniswap.Types.Basic
import RmUniswap.Types.TickSlabIndexer
import RmUniswap.Types.Fee
import RmUniswap.Types.Params
import RmUniswap.Math.Full
import RmUniswap.Math.MulQ96
import RmUniswap.Math.SmallRatio
import RmUniswap.Math.SmallRatioDebug
import RmUniswap.Math.Tick
import RmUniswap.Math.SqrtPrice
import RmUniswap.Math.SqrtPriceReference
import RmUniswap.Math.Swap
import RmUniswap.Math.SwapStep
import RmUniswap.Ticks.Bitmap
import RmUniswap.Foundation.Arena
import RmUniswap.Ticks.SlabValue
import RmUniswap.Ticks.Slab
import RmUniswap.Ticks.SlabInvariant
import RmUniswap.Ticks.SlabMap
import RmUniswap.Ticks.TickMap
import RmUniswap.Position
import RmUniswap.Types.Delta
import RmUniswap.Pool.State
import RmUniswap.Pool.ModifyLiquidity
import RmUniswap.Pool.Swap
import RmUniswap.Foundation.Transition
import RmUniswap.Foundation.Simulation
import RmUniswap.Foundation.RangeAccumulator
import RmUniswap.Pool.Accounting
import RmUniswap.Foundation.Neighbour
import RmUniswap.Foundation.Paged
import RmUniswap.Foundation.Spans
import RmUniswap.Foundation.Words
import RmUniswap.Foundation.WordSearch
import RmUniswap.Foundation.BinaryLog
import RmUniswap.Math.TickPrice
import RmUniswap.Math.TickFloor
import RmUniswap.Math.TickAccuracy
import RmUniswap.Foundation.WeightedSum
import RmUniswap.Types.LiquidityCap
import RmUniswap.Pool.SwapTarget
import RmUniswap.Pool.SwapStep
import RmUniswap.Pool.SwapRun
import RmUniswap.Pool.Sound
import RmUniswap.Pool.Restore
import RmUniswap.Pool.ModifySpec
import RmUniswap.Pool.Reconcile
import RmUniswap.Pool.Expect
import RmUniswap.Pool.Backed
import RmUniswap.Math.SwapTotal
import RmUniswap.Pool.Operation
import RmUniswap.Pool.InStep
import RmUniswap.Pool.Underflow
import RmUniswap.Pool.SwapRequest
import RmUniswap.Pool.Termination
import RmUniswap.Pool.QuoteMonotone
import RmUniswap.Pool.Drain
import RmUniswap.Pool.Capacity
import RmUniswap.Pool.Growth
import RmUniswap.Pool.SwapEnd
import RmUniswap.Pool.Untrusted
import RmUniswap.Pool.OrderedTicks
import RmUniswap.Pool.WordTarget
import RmUniswap.Pool.Quote
import RmUniswap.Pool.Course
import RmUniswap.Pool.CourseRun
import RmUniswap.Pool.CourseTotal
import RmUniswap.Pool.Success
import RmUniswap.Pool.Fork
import RmUniswap.Pool.Failure
import RmUniswap.Pool.Traversable
import RmUniswap.Pool.FeeShift
import RmUniswap.Pool.ProtocolShare
import RmUniswap.Ticks.OrderedMap
import RmUniswap.Pool.Accrual
import RmUniswap.Pool.Limits
import RmUniswap.V3
import RmUniswap.Pool.Reserves
import RmUniswap.Pool.RoundTrip
import RmUniswap.Pool.Undo
import RmUniswap.Pool.QuoteModify
import RmUniswap.Ticks.BitmapSet
import RmUniswap.Pool.AnyOrder
import RmUniswap.Types.Hooks
import RmUniswap.Pool.PoolManager
import RmUniswap.Foundation.SignedWord
import RmUniswap.StablePair.Wad
import RmUniswap.StablePair.Hook
import RmUniswap.StablePair.Cached
import RmUniswap.Foundation.RationalPoly
import RmUniswap.Foundation.QuotientApprox
import RmUniswap.Foundation.FixedPoint
import RmUniswap.StablePair.Polynomials
import RmUniswap.StablePair.ExpWad
import RmUniswap.StablePair.LnWad
import RmUniswap.StablePair.Decay
import RmUniswap.StablePair.NoTrap
import RmUniswap.Pool.Ledger
import RmUniswap.Pool.Solvency
import RmUniswap.Foundation.Instalments
import RmUniswap.Pool.Collect
import RmUniswap.Pool.Exit
import RmUniswap.Pool.Isolation
import RmUniswap.Pool.Additions
import RmUniswap.Pool.Extraction
import RmUniswap.Pool.Erasure
import RmUniswap.Types.Lifecycle
import RmUniswap.Pool.Lifecycle
import RmUniswap.StablePair.Manager
import RmUniswap.Math.SwapCompose
import RmUniswap.Pool.SwapPath
import RmUniswap.Pool.SwapSplit
import RmUniswap.Math.SwapAfford
import RmUniswap.Pool.SwapAfford
import RmUniswap.Math.SwapSpot
import RmUniswap.Pool.SwapSpot
import RmUniswap.Foundation.BigEndian
import RmUniswap.Types.PoolKey
