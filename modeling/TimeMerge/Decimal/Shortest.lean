/-!
The shortest decimal of a binary64 value. A finite value is `m · 2^q`; the reals that round to it
form an interval around it, ends included when `m` is even. The decimal chosen lies in that
interval, has the fewest digits of all that do, and is the nearest of those. All tests are
comparisons of natural numbers.
-/
namespace TimeMerge.Decimal

/-- A finite value without its sign. Below a power of two the neighbour is half as far away. -/
structure Magnitude where
  m : Nat
  q : Int
  narrowBelow : Bool
  deriving DecidableEq, Repr

/-- The exponent field of a value; the greatest marks those that are not finite. -/
def exponentField (bits : UInt64) : Nat := (bits.toNat >>> 52) % 2048

def isNegative (bits : UInt64) : Bool := bits.toNat >>> 63 == 1

/-- The leading bit of a significand, which is not stored. -/
def hiddenBit : Nat := 4503599627370496

/-- Bits that stand for no finite value are read by the same rule. -/
def Magnitude.ofBits (bits : UInt64) : Magnitude :=
  let field := exponentField bits
  let fraction : Nat := bits.toNat % hiddenBit
  if field = 0 then ⟨fraction, -1074, false⟩
  else ⟨hiddenBit + fraction, (field : Int) - 1075, fraction == 0 && 1 < field⟩

/-- The decimal `digits · 10^exponent`. -/
structure Scientific where
  digits : Nat
  exponent : Int
  deriving DecidableEq, Repr

def tenTo (n : Nat) : Nat := Nat.pow 10 n

/-- Numerator and denominator of `n · 2^j / 10^g`. -/
def ratio (n : Nat) (j g : Int) : Nat × Nat :=
  ((n <<< j.toNat) * tenTo (-g).toNat, tenTo g.toNat <<< (-j).toNat)

/-- Whether `c · 10^g` rounds to `x`, by comparison with the halfway points in quarter units. -/
def Magnitude.readsBack (x : Magnitude) (c : Nat) (g : Int) : Bool :=
  let low := ratio (4 * x.m - (if x.narrowBelow then 1 else 2)) (x.q - 2) g
  let high := ratio (4 * x.m + 2) (x.q - 2) g
  if x.m % 2 = 0 then low.1 ≤ c * low.2 && c * high.2 ≤ high.1
  else low.1 < c * low.2 && c * high.2 < high.1

/-- The nearer of the two neighbours of `x` on the grid `10^g`, if one of them reads back; of two
equally near ones the even one. -/
def Magnitude.onGrid (x : Magnitude) (g : Int) : Option Scientific :=
  let (num, den) := ratio x.m x.q g
  let below := num / den
  let nearer :=
    match compare (2 * num) ((2 * below + 1) * den) with
    | .lt => below
    | .gt => below + 1
    | .eq => below + below % 2
  let farther := 2 * below + 1 - nearer
  if x.readsBack nearer g then some ⟨nearer, g⟩
  else if x.readsBack farther g then some ⟨farther, g⟩
  else none

/-- An exponent `k` with `x < 10^k`, at most two above the least. -/
def Magnitude.scale (x : Magnitude) : Int :=
  let (num, den) := ratio x.m x.q 0
  if den ≤ num then (Nat.toDigits 10 (num / den)).length
  else 2 - (Nat.toDigits 10 (den / num)).length

def Magnitude.exact (x : Magnitude) : Scientific :=
  ⟨(x.m <<< x.q.toNat) * Nat.pow 5 (-x.q).toNat, -(-x.q).toNat⟩

/-- Grids are tried from the coarsest on, so that the first hit has the fewest digits. The exact
value stands in for a search that finds none. -/
def Magnitude.shortest (x : Magnitude) : Scientific :=
  match (List.range 21).findSome? fun i : Nat => x.onGrid (x.scale - i) with
  | some d => d
  | none => x.exact

/-- How a decimal is laid out: which positions of its point, counted from its first digit, are
written without an exponent, and whether a positive exponent carries a sign. -/
structure Layout where
  afterPoint : Int
  upToPoint : Int
  plus : Bool
  deriving DecidableEq, Repr

def Layout.render (layout : Layout) (d : Scientific) : List Char :=
  let digits := Nat.toDigits 10 d.digits
  let point : Int := digits.length + d.exponent
  if point ≤ layout.upToPoint ∧ 0 ≤ d.exponent then
    digits ++ List.replicate d.exponent.toNat '0' ++ ['.', '0']
  else if point ≤ layout.upToPoint ∧ 0 < point then
    digits.take point.toNat ++ '.' :: digits.drop point.toNat
  else if layout.afterPoint < point ∧ point ≤ 0 then
    ['0', '.'] ++ List.replicate (-point).toNat '0' ++ digits
  else
    let exponent := point - 1
    let sign := if exponent < 0 then ['-'] else if layout.plus then ['+'] else []
    let fraction := digits.drop 1
    digits.take 1 ++ (if fraction.isEmpty then [] else '.' :: fraction) ++ 'e' :: sign ++
      Nat.toDigits 10 exponent.natAbs

/-- Of the values that are not finite only the infinite ones have a text here. -/
def isInfinite (bits : UInt64) : Bool := exponentField bits == 2047

/-- The text of a value, with the decimal that `choose` gives for it. -/
def Layout.renderBits (layout : Layout) (choose : Magnitude → Scientific) (bits : UInt64) :
    String :=
  let x := Magnitude.ofBits bits
  let body :=
    if isInfinite bits then ['i', 'n', 'f']
    else if x.m = 0 then ['0', '.', '0']
    else layout.render (choose x)
  String.ofList (if isNegative bits then '-' :: body else body)

end TimeMerge.Decimal
