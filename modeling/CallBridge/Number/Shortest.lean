import CallBridge.Number.Binary64

/-!
# Shortest decimals

The text of a double is made of the fewest decimal digits that read back as the same double, and
of those the nearest to it. `shortest` finds them by trying grids of one, two, … seventeen digits:
on each grid only the two neighbours of the exact value can lie in the interval that reads back.
A decimal is a digit list with the place of its point; how it is written out is the business of
the formats that use it.
-/

namespace CallBridge.Number

/-- The decimal digits of a natural, most significant first; zero has one digit. -/
def digitsOf (n : Nat) : List Char := Nat.toDigits 10 n

/-- A positive decimal: `0.d₁d₂d₃… * 10 ^ point`. -/
structure Decimal where
  digits : List Char
  point : Int
  deriving DecidableEq, Repr

namespace Decimal

/-- The decimal `n * 10 ^ exponent` without trailing zeros. -/
def ofScaled (n : Nat) (exponent : Int) : Decimal :=
  let ds := digitsOf n
  ⟨(ds.reverse.dropWhile (· == '0')).reverse, ds.length + exponent⟩

end Decimal

/-- The reals that read back as one double, as quotients over a common denominator. -/
structure Interval where
  low : Nat
  high : Nat
  den : Nat
  closed : Bool

namespace Interval

/-- Whether `num / den` lies inside. -/
def contains (i : Interval) (num den : Nat) : Bool :=
  let v := num * i.den
  let lo := i.low * den
  let hi := i.high * den
  if i.closed then lo ≤ v && v ≤ hi else lo < v && v < hi

/-- The interval around `m * 2 ^ e`: halfway to each neighbour, the ends included when the
mantissa is even. The lower neighbour is half as far when the mantissa is a power of two. -/
def around (m : Nat) (e : Int) : Interval :=
  let narrow := m = Nat.pow 2 52 && Magnitude.minExponent < e
  let low := if narrow then 4 * m - 1 else 4 * m - 2
  let high := 4 * m + 2
  let even := m % 2 = 0
  if 0 ≤ e - 2 then ⟨low * Nat.pow 2 (e - 2).toNat, high * Nat.pow 2 (e - 2).toNat, 1, even⟩
  else ⟨low, high, Nat.pow 2 (2 - e).toNat, even⟩

end Interval

/-- The exponent `k` with `10 ^ (k - 1) ≤ num / den < 10 ^ k`, for a positive quotient. -/
def decimalPoint (num den : Nat) : Int :=
  if den ≤ num then (digitsOf (num / den)).length
  else
    -- the quotient's reciprocal, rounded up, has one digit more than there are leading zeros
    let r := (den + num - 1) / num
    let k := (digitsOf r).length
    if r = Nat.pow 10 (k - 1) then 2 - k else 1 - k

/-- `num / den * 10 ^ places` as a quotient. -/
def shiftDecimal (num den : Nat) (places : Int) : Nat × Nat :=
  if 0 ≤ places then (num * Nat.pow 10 places.toNat, den)
  else (num, den * Nat.pow 10 (-places).toNat)

/-- The point on the grid of `n` digits that reads back, the nearer of two, if there is one. -/
def onGrid (num den : Nat) (i : Interval) (point : Int) (n : Nat) : Option Decimal :=
  let places : Int := n - point
  let (a, b) := shiftDecimal num den places
  let below := a / b
  let inside (d : Nat) : Bool :=
    let (x, y) := shiftDecimal d 1 (-places)
    i.contains x y
  match inside below && 0 < below, inside (below + 1) with
  | true, true =>
    some (.ofScaled (if 2 * (a % b) ≤ b then below else below + 1) (-places))
  | true, false => some (.ofScaled below (-places))
  | false, true => some (.ofScaled (below + 1) (-places))
  | false, false => none

/-- The first grid, of one digit upwards, that holds a point. -/
def firstGrid (num den : Nat) (i : Interval) (point : Int) : Nat → Nat → Option Decimal
  | 0, _ => none
  | fuel + 1, n =>
    match onGrid num den i point n with
    | some d => some d
    | none => firstGrid num den i point fuel (n + 1)

/-- The shortest decimal of a positive finite double; zero has no digits. -/
def shortest (m : Nat) (e : Int) : Decimal :=
  match (Magnitude.finite m e).toQuotient with
  | some (num, den) =>
    if m = 0 then ⟨['0'], 1⟩
    else (firstGrid num den (.around m e) (decimalPoint num den) 17 1).getD ⟨['0'], 1⟩
  | none => ⟨['0'], 1⟩

/-! ### Fixed places -/

/-- `num / den` with exactly `places` digits after the point, a half going to the even digit. -/
def fixedPlaces (num den places : Nat) : List Char :=
  let n := roundDiv (num * Nat.pow 10 places) den .toEven
  let whole := digitsOf (n / Nat.pow 10 places)
  if places = 0 then whole
  else
    let frac := digitsOf (n % Nat.pow 10 places)
    whole ++ '.' :: (List.replicate (places - frac.length) '0' ++ frac)

/-- A double with exactly `places` digits after the point. -/
def Binary64.toFixed (x : Binary64) (places : Nat) : String :=
  let sign := if x.negative then ['-'] else []
  match x.magnitude.toQuotient with
  | some (num, den) => String.ofList (sign ++ fixedPlaces num den places)
  | none => String.ofList (sign ++ "inf".toList)

/-- The whole number nearest to a double, a half going away from zero, written in full. -/
def Binary64.toRounded (x : Binary64) : String :=
  let sign := if x.negative then ['-'] else []
  match x.magnitude.toQuotient with
  | some (num, den) => String.ofList (sign ++ digitsOf (roundDiv num den .awayFromZero))
  | none => String.ofList (sign ++ "inf".toList)

end CallBridge.Number
