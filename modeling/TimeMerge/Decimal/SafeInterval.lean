import TimeMerge.Decimal.Shortest

/-!
Decimals found in 64-bit fractions. A value and the two ends of the interval of reals that round to it
are multiplied by a power of ten; power and products are rounded to 64 bits, so one unit at either end
of the interval is not safe and is left out. The decimal chosen is the upper end, cut off after the
first place at which the rest still lies in the interval, and then stepped down in that place as long
as this comes nearer to the value. Because the interval is narrower than the exact one, it may have a
digit more than the shortest decimal.
-/
namespace TimeMerge.Decimal

/-- The number `significand · 2^exponent`. -/
structure Fraction where
  significand : Nat
  exponent : Int
  deriving DecidableEq, Repr

namespace Fraction

/-- Brings the significand to 64 bits. -/
def normalize (f : Fraction) : Fraction :=
  let shift := 63 - f.significand.log2
  ⟨f.significand <<< shift, f.exponent - shift⟩

/-- The product without its lower 64 bits, rounded to the nearest, halves upwards. -/
def mul (a b : Fraction) : Fraction :=
  ⟨(a.significand * b.significand + (1 <<< 63)) >>> 64, a.exponent + b.exponent + 64⟩

/-- The nearest fraction of 64 bits to `num / den`. -/
def ofRatio (num den : Nat) : Fraction :=
  let nearest (exponent : Int) : Nat :=
    let n := num <<< (-exponent).toNat
    let d := den <<< exponent.toNat
    (2 * n + d) / (2 * d)
  let exponent : Int := (num.log2 : Int) - den.log2 - 64
  if nearest exponent < 1 <<< 64 then ⟨nearest exponent, exponent⟩
  else ⟨nearest (exponent + 1), exponent + 1⟩

def powerOfTen (p : Int) : Fraction := ofRatio (tenTo p.toNat) (tenTo (-p).toNat)

end Fraction

/-- The power of ten, one of every eighth from -340 on, that takes a fraction of this exponent to one
with an exponent between -60 and -32. -/
def scalingPower (exponent : Int) : Int :=
  let k := 347 - (61 + exponent) * 30103 / 100000
  8 * (k / 8) - 340

/-- Steps down from a decimal that lies `rest` below the upper end of an interval of that width,
while the value, `target` below the end, comes nearer. -/
def stepDown (width target unit : Nat) : Nat → Nat → Nat
  | 0, _ => 0
  | n + 1, rest =>
    if rest < target ∧ rest + unit ≤ width ∧
        (rest + unit < target ∨ rest + unit - target < target - rest) then
      stepDown width target unit n (rest + unit)
    else n + 1

/-- The upper end cut off at a place, if the rest is in the interval. Lengths are in units of
`2^(-bits)`. From the ninth place after the point on the decimal is not stepped down. -/
def cutAt (upper width target bits : Nat) (place : Int) : Option Scientific :=
  let scale := tenTo (-place).toNat
  let unit := tenTo place.toNat <<< bits
  let rest := upper * scale % unit
  let fits := if 0 ≤ place then rest ≤ width * scale else rest < width * scale
  if fits then
    let target := if -9 < place then target * scale else 0
    some ⟨stepDown (width * scale) target unit (upper * scale / unit) rest, place⟩
  else none

/-- The decimal of a value that is not zero. The exact value stands in for a search that finds none. -/
def Magnitude.inSafeInterval (x : Magnitude) : Scientific :=
  let high := Fraction.normalize ⟨2 * x.m + 1, x.q - 1⟩
  let low : Fraction := if x.m = hiddenBit then ⟨4 * x.m - 1, x.q - 2⟩ else ⟨2 * x.m - 1, x.q - 1⟩
  let low : Fraction :=
    ⟨low.significand <<< (low.exponent - high.exponent).toNat, high.exponent⟩
  let p := scalingPower high.exponent
  let power := Fraction.powerOfTen p
  let upper := (high.mul power).significand - 1
  let width := upper - ((low.mul power).significand + 1)
  let target := upper - ((Fraction.normalize ⟨x.m, x.q⟩).mul power).significand
  let bits := (-(high.mul power).exponent).toNat
  match (List.range 30).findSome? fun i : Nat => cutAt upper width target bits (9 - i) with
  | some d => ⟨d.digits, d.exponent - p⟩
  | none => x.exact

end TimeMerge.Decimal
