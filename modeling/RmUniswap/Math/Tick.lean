import RmUniswap.Foundation.Bits
import RmUniswap.Types.Basic

/-!
# Ticks and prices

The two conversions of TickMath: a price from the bits of a tick through a
table of ratios, and a tick from a price through a binary logarithm.
-/

namespace RmUniswap

open Foundation

/-- Entry {lit}`k` is the ratio of {lit}`2 ^ k` ticks in Q128. -/
def tickRatios : List Nat :=
  [0xfffcb933bd6fad37aa2d162d1a594001,
    0xfff97272373d413259a46990580e213a,
    0xfff2e50f5f656932ef12357cf3c7fdcc,
    0xffe5caca7e10e4e61c3624eaa0941cd0,
    0xffcb9843d60f6159c9db58835c926644,
    0xff973b41fa98c081472e6896dfb254c0,
    0xff2ea16466c96a3843ec78b326b52861,
    0xfe5dee046a99a2a811c461f1969c3053,
    0xfcbe86c7900a88aedcffc83b479aa3a4,
    0xf987a7253ac413176f2b074cf7815e54,
    0xf3392b0822b70005940c7a398e4b70f3,
    0xe7159475a2c29b7443b29c7fa6e889d9,
    0xd097f3bdfd2022b8845ad8f792aa5825,
    0xa9f746462d870fdf8a65dc1f90e061e5,
    0x70d869a156d2a1b890bb3df62baf32f7,
    0x31be135f97d08fd981231505542fcfa6,
    0x09aa508b5b7a84e1c677de54f3e99bc9,
    0x005d6af8dedb81196699c329225ee604,
    0x0002216e584f5fa1ea926041bedfe98,
    0x00000000048a170391f7dc42444e8fa2]

def tickRatio (k : Nat) : Nat := tickRatios.getD k 0

/-- The full product of two {lit}`u128` values, as high and low halves. -/
def wideningMulU128 (a b : Nat) : Nat × Nat :=
  let lowMask := 2 ^ 64 - 1
  let al := a &&& lowMask
  let ah := a >>> 64
  let bl := b &&& lowMask
  let bh := b >>> 64
  let ll := al * bl
  let lh := al * bh
  let hl := ah * bl
  let hh := ah * bh
  let mid := (ll >>> 64) + (lh &&& lowMask) + (hl &&& lowMask)
  let lo := ((mid &&& lowMask) <<< 64) ||| (ll &&& lowMask)
  let hi := hh + (lh >>> 64) + (hl >>> 64) + (mid >>> 64)
  (hi, lo)

def mulHiU128 (a b : Nat) : Nat :=
  let lowMask := 2 ^ 64 - 1
  let al := a &&& lowMask
  let ah := a >>> 64
  let bl := b &&& lowMask
  let bh := b >>> 64
  let ll := al * bl
  let lh := al * bh
  let hl := ah * bl
  let hh := ah * bh
  let mid := (ll >>> 64) + (lh &&& lowMask) + (hl &&& lowMask)
  hh + (lh >>> 64) + (hl >>> 64) + (mid >>> 64)

def ratioLoop : Nat -> Nat -> Nat -> Nat
  | 0, _, ratio => ratio
  | fuel + 1, bits, ratio =>
      if bits = 0 then ratio
      else
        ratioLoop fuel (bits &&& (bits - 1))
          (mulHiU128 ratio (tickRatio (trailingZeros 32 bits)))

def ratioAtAbsTick (absTick : Nat) : Nat :=
  ratioLoop 32 (absTick &&& (absTick - 1)) (tickRatio (trailingZeros 32 absTick))

def getSqrtPriceAtTick (tickIdx : Int) : Nat :=
  let absTick := tickIdx.natAbs
  if absTick = 0 then
    1 <<< 96
  else
    let ratio := ratioAtAbsTick absTick
    if tickIdx > 0 then
      let ratio := (2 ^ 256 - 1) / ratio
      (ratio + (1 <<< 32 - 1)) >>> 32
    else
      let q32Mask := 1 <<< 32 - 1
      (ratio >>> 32) + (if (ratio &&& q32Mask) ≠ 0 then 1 else 0)

/-!
# The inverse
-/

/-- A signed word times an unsigned one, as a signed high half and a low half. -/
def smulI128U128 (a : Int) (b : Nat) : Int × Nat :=
  let (hi, lo) := wideningMulU128 a.natAbs b
  if a < 0 then
    if lo = 0 then (-hi, 0) else (-hi - 1, wrappingSub 128 0 lo)
  else
    (hi, lo)

def logLoop : Nat -> Nat -> Nat -> Nat
  | 0, _, log2 => log2
  | n + 1, r, log2 =>
      let (hi, lo) := wideningMulU128 r r
      let f := hi >>> 127
      let log2 := log2 ||| (f <<< (50 + n))
      let r := if f ≠ 0 then hi else wrap 128 (hi <<< 1) ||| (lo >>> 127)
      logLoop n r log2

def logMul : Nat := 255738958999603826347141

def tickLowOffset : Nat := 3402992956809132418596140100660247210

def tickHighOffset : Nat := 291339464771989622907027621153398088495

def clampI64ToTickIndex (tick : Int) : Int := max minTick (min maxTick tick)

/-- The binary logarithm of a Q128 ratio, in Q64 and two's complement. -/
def log2Word (ratio : Nat) : Nat :=
  let msb := bitLen ratio - 1
  let whole := (((msb : Int) - 128) * 2 ^ 64 % 2 ^ 128).toNat
  let normalized :=
    if msb ≥ 128 then ratio >>> (msb - 127) else wrap 256 (ratio <<< (127 - msb))
  let r := normalized % 2 ^ 128
  logLoop 14 r whole

def getTickAtSqrtPrice (sqrtPriceX96 : Nat) : Int :=
  let ratio := wrap 256 (sqrtPriceX96 <<< 32)
  let log2 := toSigned 128 (log2Word ratio)
  let (logHi, logLo) := smulI128U128 log2 logMul
  let borrow := if logLo < tickLowOffset then 1 else 0
  let tickLow := clampI64ToTickIndex (logHi - borrow)
  let carry := if 2 ^ 128 ≤ logLo + tickHighOffset then 1 else 0
  let tickHigh := clampI64ToTickIndex (logHi + carry)
  if tickLow = tickHigh then tickLow
  else if getSqrtPriceAtTick tickHigh ≤ sqrtPriceX96 then tickHigh
  else tickLow

/-!
# Exact products
-/

section Products

variable {a b : Nat}

theorem wideningMulU128_eq (a b : Nat) :
    wideningMulU128 a b = (a * b / 2 ^ 128, a * b % 2 ^ 128) := by
  have hmask (x : Nat) : x &&& (2 ^ 64 - 1) = x % 2 ^ 64 := Nat.and_two_pow_sub_one_eq_mod x 64
  have hsplit : a * b =
      (a / 2 ^ 64) * (b / 2 ^ 64) * 2 ^ 128 +
        ((a % 2 ^ 64) * (b / 2 ^ 64) + (a / 2 ^ 64) * (b % 2 ^ 64)) * 2 ^ 64 +
          (a % 2 ^ 64) * (b % 2 ^ 64) := by
    calc
      a * b = (a / 2 ^ 64 * 2 ^ 64 + a % 2 ^ 64) * (b / 2 ^ 64 * 2 ^ 64 + b % 2 ^ 64) := by
        rw [Nat.div_add_mod', Nat.div_add_mod']
      _ = _ := by ring
  simp only [wideningMulU128, hmask, Nat.shiftRight_eq_div_pow]
  rw [← Nat.shiftLeft_add_eq_or_of_lt (Nat.mod_lt _ (Nat.two_pow_pos 64)), Nat.shiftLeft_eq,
    hsplit]
  generalize a / 2 ^ 64 * (b / 2 ^ 64) = hh
  generalize a % 2 ^ 64 * (b / 2 ^ 64) = lh
  generalize a / 2 ^ 64 * (b % 2 ^ 64) = hl
  generalize a % 2 ^ 64 * (b % 2 ^ 64) = ll
  rw [Prod.mk.injEq]
  constructor <;> omega

theorem mulHiU128_eq (a b : Nat) : mulHiU128 a b = a * b / 2 ^ 128 := by
  have h := congrArg Prod.fst (wideningMulU128_eq a b)
  exact h

end Products

end RmUniswap
