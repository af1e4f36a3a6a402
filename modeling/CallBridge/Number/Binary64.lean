import CallBridge.Number.Round

/-!
# Double-precision numbers

A double is a sign and a magnitude: a whole mantissa below `2 ^ 53` times a power of two, or an
infinity. All arithmetic goes through the exact quotient of two naturals, so a result is by
construction the double nearest to the exact one, a half going to the even mantissa. No operation
of the library can produce an undefined value, so there is none.
-/

namespace CallBridge.Number

/-- The size of a double. -/
inductive Magnitude where
  /-- `mantissa * 2 ^ exponent`. -/
  | finite (mantissa : Nat) (exponent : Int)
  | infinite
  deriving DecidableEq, Repr

/-- A double-precision number. -/
structure Binary64 where
  negative : Bool
  magnitude : Magnitude
  deriving DecidableEq, Repr

namespace Magnitude

/-- The least exponent: below it the mantissa loses digits instead. -/
def minExponent : Int := -1074

/-- The greatest exponent of a full mantissa. -/
def maxExponent : Int := 971

def zero : Magnitude := .finite 0 minExponent

/-- `num / den` as a quotient whose denominator takes the power of two `2 ^ exponent`. -/
def scaled (num den : Nat) (exponent : Int) : Nat × Nat :=
  if 0 ≤ exponent then (num, den * Nat.pow 2 exponent.toNat)
  else (num * Nat.pow 2 (-exponent).toNat, den)

/-- The exponent under which `num / den` has a mantissa of 53 binary digits, never below
`minExponent`. -/
def exponentFor (num den : Nat) : Int :=
  let guess : Int := (num.log2 : Int) - den.log2 - 52
  let (n, d) := scaled num den guess
  max minExponent (if n < d * Nat.pow 2 52 then guess - 1 else guess)

/-- The double nearest to `num / den`, for a positive `den`. -/
def ofQuotient (num den : Nat) : Magnitude :=
  if num = 0 then zero else
    let e := exponentFor num den
    let (n, d) := scaled num den e
    let m := roundDiv n d .toEven
    let (m, e) := if m = Nat.pow 2 53 then (Nat.pow 2 52, e + 1) else (m, e)
    if maxExponent < e then .infinite else .finite m e

def ofNat (n : Nat) : Magnitude := ofQuotient n 1

/-- The exact value of a finite magnitude as a quotient. -/
def toQuotient : Magnitude → Option (Nat × Nat)
  | .finite m e => if 0 ≤ e then some (m * Nat.pow 2 e.toNat, 1)
    else some (m, Nat.pow 2 (-e).toNat)
  | .infinite => none

/-- A finite product of finite magnitudes is the double nearest to the exact product. -/
def mul (a b : Magnitude) : Magnitude :=
  match a.toQuotient, b.toQuotient with
  | some (n, d), some (n', d') => ofQuotient (n * n') (d * d')
  | _, _ => .infinite

/-- The quotient by a positive finite magnitude. -/
def div (a b : Magnitude) : Magnitude :=
  match a.toQuotient, b.toQuotient with
  | some (n, d), some (n', d') => ofQuotient (n * d') (d * n')
  | none, _ => .infinite
  | _, none => zero

/-- The whole value of a magnitude that has no fraction. -/
def toNat? (a : Magnitude) : Option Nat :=
  match a.toQuotient with
  | some (n, d) => if n % d = 0 then some (n / d) else none
  | none => none

end Magnitude

namespace Binary64

def zero : Binary64 := ⟨false, .zero⟩

def ofNat (n : Nat) : Binary64 := ⟨false, .ofNat n⟩

def ofInt (n : Int) : Binary64 := ⟨n < 0, .ofNat n.natAbs⟩

/-- `num / den` with the sign of `num`. -/
def ofQuotient (num : Int) (den : Nat) : Binary64 := ⟨num < 0, .ofQuotient num.natAbs den⟩

/-- The exact value as a quotient with a positive denominator; none for an infinity. -/
def toQuotient (x : Binary64) : Option (Int × Nat) :=
  x.magnitude.toQuotient.map fun (n, d) => (if x.negative then -(n : Int) else n, d)

/-- The double nearest to the exact sum. The sum of two negative zeros keeps its sign. -/
def add (x y : Binary64) : Binary64 :=
  match x.toQuotient, y.toQuotient with
  | some (n, d), some (n', d') =>
    if n = 0 ∧ n' = 0 then ⟨x.negative && y.negative, .zero⟩
    else ofQuotient (n * d' + n' * d) (d * d')
  | none, _ => x
  | _, none => y

/-- The quotient by a positive natural. -/
def divNat (x : Binary64) (n : Nat) : Binary64 := ⟨x.negative, x.magnitude.div (.ofNat n)⟩

end Binary64

end CallBridge.Number
