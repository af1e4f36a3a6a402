import CallBridge.Number.Shortest

/-!
# Numbers of JSON

A number without point and exponent is an integer as long as it fits in 64 bits; every other
number is a double. Reading keeps at most the digits that fit in 64 bits and shifts them by powers
of ten, one rounding a step, so the last bit of a long literal can differ from the nearest double.
Writing uses the shortest digits that read back, with a point or an exponent always present.
-/

namespace CallBridge.Json

open CallBridge.Number

/-- A JSON number. -/
inductive Number where
  | int (n : Int)
  | real (x : Binary64)
  deriving DecidableEq, Repr

/-- The parts of a number as written. -/
structure Numeral where
  negative : Bool
  whole : List Char
  fraction : Option (List Char)
  /-- Whether the exponent has a minus sign, and its digits. -/
  exponent : Option (Bool × List Char)
  deriving DecidableEq, Repr

def digitValue (c : Char) : Nat := c.toNat - 48

/-- The number that decimal digits stand for. -/
def ofDigits (ds : List Char) : Nat := ds.foldl (fun n c => n * 10 + digitValue c) 0

/-- Significant digits kept so far and the power of ten they still want. -/
structure Scaled where
  significand : Nat
  exponent : Int

/-- Whether a further digit still fits in 64 bits. -/
def fits (n : Nat) (c : Char) : Bool := n * 10 + digitValue c < Nat.pow 2 64

/-- Takes digits before the point as long as they fit; the rest only count. -/
def takeWhole : Nat → List Char → Scaled
  | n, [] => ⟨n, 0⟩
  | n, c :: rest =>
    if fits n c then takeWhole (n * 10 + digitValue c) rest else ⟨n, rest.length + 1⟩

/-- Takes digits after the point as long as they fit and drops the rest. -/
def takeFraction : Scaled → List Char → Scaled
  | s, [] => s
  | s, c :: rest =>
    if fits s.significand c then
      takeFraction ⟨s.significand * 10 + digitValue c, s.exponent - 1⟩ rest
    else s

/-- Divides by `10 ^ places` in steps of at most 308 places. -/
def divPowerOfTen : Nat → Magnitude → Nat → Magnitude
  | 0, x, _ => x
  | fuel + 1, x, places =>
    if places ≤ 308 then x.div (.ofNat (Nat.pow 10 places))
    else if x = .zero then x
    else divPowerOfTen fuel (x.div (.ofNat (Nat.pow 10 308))) (places - 308)

/-- The double of kept digits and a power of ten; none when it is too large. -/
def Scaled.toMagnitude? (s : Scaled) : Option Magnitude :=
  let x := Magnitude.ofNat s.significand
  if s.exponent < 0 then some (divPowerOfTen 8 x (-s.exponent).toNat)
  else if s.exponent ≤ 308 then
    match x.mul (.ofNat (Nat.pow 10 s.exponent.toNat)) with
    | .infinite => none
    | y => some y
  else if s.significand = 0 then some .zero
  else none

namespace Numeral

/-- Whether the exponent's digits leave 32 bits. -/
def exponentOverflows (ds : List Char) : Bool := Nat.pow 2 31 ≤ ofDigits ds

/-- The double that a numeral with a point or an exponent, or a long one, stands for. -/
def toReal? (l : Numeral) : Option Binary64 :=
  let s := takeFraction (takeWhole 0 l.whole) (l.fraction.getD [])
  let exponent? : Option Int :=
    match l.exponent with
    | none => some s.exponent
    | some (minus, ds) =>
      if exponentOverflows ds then
        if s.significand = 0 ∨ minus then some (-(Nat.pow 2 31 : Nat)) else none
      else some (if minus then s.exponent - ofDigits ds else s.exponent + ofDigits ds)
  exponent?.bind fun e =>
    if s.significand = 0 then some ⟨l.negative, .zero⟩
    else (Scaled.toMagnitude? ⟨s.significand, e⟩).map fun x => ⟨l.negative, x⟩

/-- The number that a numeral stands for; none when it is out of range. -/
def toNumber? (l : Numeral) : Option Number :=
  let n := ofDigits l.whole
  if l.fraction.isNone ∧ l.exponent.isNone ∧ n < Nat.pow 2 64 then
    if !l.negative then some (.int n)
    else if 0 < n ∧ n ≤ Nat.pow 2 63 then some (.int (-n))
    else some (.real ⟨true, .ofNat n⟩)
  else l.toReal?.map .real

end Numeral

/-! ### Writing -/

/-- Decimal digits with their point: positional up to sixteen digits before the point and five
zeros after it, otherwise with an exponent. -/
def writeDecimal (d : Decimal) : List Char :=
  let n := d.digits.length
  let k := d.point
  if n ≤ k ∧ k ≤ 16 then
    d.digits ++ List.replicate (k - n).toNat '0' ++ ['.', '0']
  else if 0 < k ∧ k ≤ 16 then d.digits.take k.toNat ++ '.' :: d.digits.drop k.toNat
  else if -5 < k ∧ k ≤ 0 then '0' :: '.' :: List.replicate (-k).toNat '0' ++ d.digits
  else
    let exponent := (toString (k - 1)).toList
    match d.digits with
    | [c] => c :: 'e' :: exponent
    | c :: rest => c :: '.' :: rest ++ 'e' :: exponent
    | [] => []

def writeReal (x : Binary64) : List Char :=
  let sign := if x.negative then ['-'] else []
  match x.magnitude with
  | .infinite => "null".toList
  | .finite 0 _ => sign ++ "0.0".toList
  | .finite m e => sign ++ writeDecimal (shortest m e)

def writeInt (n : Int) : List Char :=
  if n < 0 then '-' :: digitsOf n.natAbs else digitsOf n.natAbs

/-- A number as JSON text. -/
def Number.write : Number → List Char
  | .int n => writeInt n
  | .real x => writeReal x

end CallBridge.Json
