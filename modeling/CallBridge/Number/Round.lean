/-!
# Rounding a quotient

Every number format of this library ends in one decision: which whole number stands for the exact
quotient `num / den`. `roundDiv` takes that decision under a `Tie` rule. Main statement: a
quotient that is whole is its own answer (`roundDiv_mul_right`).
-/

namespace CallBridge.Number

/-- Where a quotient exactly halfway between two whole numbers goes. -/
inductive Tie where
  | toEven
  | awayFromZero
  deriving DecidableEq, Repr

/-- The whole number nearest to `num / den`. -/
def roundDiv (num den : Nat) (tie : Tie) : Nat :=
  let q := num / den
  match compare (2 * (num % den)) den with
  | .lt => q
  | .gt => q + 1
  | .eq => match tie with
    | .awayFromZero => q + 1
    | .toEven => if q % 2 = 0 then q else q + 1

theorem roundDiv_mul_right (q den : Nat) (tie : Tie) (h : 0 < den) :
    roundDiv (q * den) den tie = q := by
  have hlt : compare 0 den = .lt := by simpa [Nat.compare_eq_lt] using h
  simp [roundDiv, hlt, Nat.mul_div_left _ h]

end CallBridge.Number
