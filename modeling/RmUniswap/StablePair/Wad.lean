import RmUniswap.Foundation.SignedWord

/-!
# Exponential and logarithm in fixed point

Both functions take and return integers at 18 decimals. They reduce their
argument to a short range, evaluate a quotient of two polynomials at 96
fractional bits in wrapping arithmetic, and scale back. A failed assertion, a
division by zero or a conversion that does not fit is {lit}`none`.
-/

namespace RmUniswap

open Foundation

namespace Wad

def wrappingAdd (a b : Int) : Int := wrapSigned 256 (a + b)

def wrappingSub (a b : Int) : Int := wrapSigned 256 (a - b)

def wrappingMul (a b : Int) : Int := wrapSigned 256 (a * b)

/-- The arithmetic shift to the right. -/
def sar (value : Int) (shift : Nat) : Int := value / 2 ^ shift

def shl (value : Int) (shift : Nat) : Int := wrapSigned 256 (value * 2 ^ shift)

def div (a b : Int) : Option Int :=
  if b = 0 then none else checkedSigned 256 (a.tdiv b)

def step (x z c : Int) : Int := wrappingAdd (sar (wrappingMul z x) 96) c

def expReduce (x : Int) : Option (Int × Int) := do
  let x <- div (shl x 78) 3814697265625
  let ln2 := 54916777467707473351141471128
  let quotient <- div (shl x 96) ln2
  let rounded <- checkedSigned 256 (quotient + 2 ^ 95)
  let k := sar rounded 96
  some (wrappingSub x (wrappingMul k ln2), k)

def expNumerator (x : Int) : Int :=
  let y := wrappingAdd x 1346386616545796478920950773328
  let y := step x y 57155421227552351082224309758442
  let p := wrappingSub (wrappingAdd y x) 94201549194550492254356042504812
  let p := wrappingAdd (sar (wrappingMul p y) 96) 28719021644029726153956944680412240
  wrappingAdd (wrappingMul p x) (shl 4385272521454847904659076985693276 96)

def expCoefficients : List Int :=
  [50020603652535783019961831881945, -533845033583426703283633433725380,
    3604857256930695427073651918091429, -14423608567350463180887372962807573,
    26449188498355588339934803723976023]

def expDenominator (x : Int) : Int :=
  expCoefficients.foldl (step x) (wrappingSub x 2855989394907223263936484059900)

def expScale : Nat := 3822833074963236453042738258902158003155416615667

def expWad (x : Int) : Option Int :=
  if x ≤ -41446531673892822313 then
    some 0
  else if ¬ x < 135305999368893231589 then
    none
  else do
    let (x, k) <- expReduce x
    let r <- div (expNumerator x) (expDenominator x)
    let k <- checkedSigned 64 k
    let shift <- checkedSigned 64 (195 - k)
    some (toSigned 256 (wrap 256 (toRaw 256 r * expScale) >>> toRaw 64 shift))

/-- The shift that brings the highest bit of a word to the top, by a binary
search for its byte and a table for the rest. -/
def leadingShift (xu : Nat) : Option Nat := do
  let r := if xu > 2 ^ 128 - 1 then 1 <<< 7 else 0
  let r := r ||| if xu >>> r > 2 ^ 64 - 1 then 1 <<< 6 else 0
  let r := r ||| if xu >>> r > 2 ^ 32 - 1 then 1 <<< 5 else 0
  let r := r ||| if xu >>> r > 2 ^ 16 - 1 then 1 <<< 4 else 0
  let r := r ||| if xu >>> r > 2 ^ 8 - 1 then 1 <<< 3 else 0
  let byte <- Foundation.narrow 64 (xu >>> r)
  let index := (0x8421084210842108cc6318c6db6d54be >>> byte) &&& 0x1f
  let table := 0xf8f9f9faf9fdfafbf9fdfcfdfafbfcfef9fafdfafcfcfbfefafafcfbffffffff
  some (r ^^^ ((table >>> (8 * (31 - index))) &&& 0xff))

def lnNumerator (x : Int) : Int :=
  let p := wrappingAdd 3273285459638523848632254066296 x
  let p := step x p 24828157081833163892658089445524
  let p := step x p 43456485725739037958740375743393
  let p := wrappingSub (sar (wrappingMul p x) 96) 11111509109440967052023855526967
  let p := wrappingSub (sar (wrappingMul p x) 96) 45023709667254063763336534515857
  let p := wrappingSub (sar (wrappingMul p x) 96) 14706773417378608786704636184526
  wrappingSub (wrappingMul p x) (shl 795164235651350426258249787498 96)

def lnCoefficients : List Int :=
  [71694874799317883764090561454958, 283447036172924575727196451306956,
    401686690394027663651624208769553, 204048457590392012362485061816622,
    31853899698501571402653359427138, 909429971244387300277376558375]

def lnDenominator (x : Int) : Int :=
  lnCoefficients.foldl (fun q c => wrappingAdd c (sar (wrappingMul x q) 96))
    (wrappingAdd 5573035233440673466300451813936 x)

def lnWad (x : Int) : Option Int :=
  if ¬ x > 0 then
    none
  else do
    let xu := toRaw 256 x
    let r <- leadingShift xu
    let x := toSigned 256 (wrap 256 (xu <<< r) >>> 159)
    let p <- div (lnNumerator x) (lnDenominator x)
    let p := wrappingMul 1677202110996718588342820967067443963516166 p
    let p := wrappingAdd
      (wrappingMul 16597577552685614221487285958193947469193820559219878177908093499208371
        (159 - r)) p
    let p := wrappingAdd
      600920179829731861736702779321621459595472258049074101567377883020018308 p
    some (sar p 174)

end Wad

end RmUniswap
