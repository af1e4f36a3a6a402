import CallBridge.Source.Reader
import Mathlib.Tactic.Ring

/-!
# Differences in base 64

A number is read back from its digits, five bits at a time (`readDifferences?_base64Digits`), and a
difference from the number that holds its sign in the lowest bit. No digit is one of the characters
that separate tokens and lines. Main statement: `readDifferences?_writeDifference`.
-/

namespace CallBridge.Source

/-- Every digit is read back. -/
theorem base64Value?_base64Digit : ∀ n < 64, base64Value? (base64Digit n) = some n := by
  decide

/-- The digits of a number add it to the bits so far and end a difference. -/
theorem readDifferences?_base64Digits (n bits weight : Nat) (rest : List Char) :
    readDifferences? bits weight (base64Digits n ++ rest) =
      (readDifferences? 0 1 rest).map (signedDifference (bits + n * weight) :: ·) := by
  induction n using Nat.strongRecOn generalizing bits weight with
  | ind n ih =>
    rw [base64Digits]
    split
    · next hlast =>
      have hmod : n % 32 = n := Nat.mod_eq_of_lt hlast
      rw [List.singleton_append, readDifferences?, base64Value?_base64Digit n (by omega),
        Option.bind_some, hmod]
      exact if_pos hlast
    · next hmore =>
      have hmod : (n % 32 + 32) % 32 = n % 32 := by omega
      have hsum : bits + n % 32 * weight + n / 32 * (weight * 32) = bits + n * weight := by
        calc bits + n % 32 * weight + n / 32 * (weight * 32)
            = bits + (n % 32 + 32 * (n / 32)) * weight := by ring
          _ = bits + n * weight := by rw [Nat.mod_add_div]
      rw [List.cons_append, readDifferences?, base64Value?_base64Digit _ (by omega),
        Option.bind_some, hmod]
      dsimp only
      rw [if_neg (by omega), ih (n / 32) (by omega), hsum]

/-- The last bit is the sign: even numbers stand for those from zero on. -/
theorem signedDifference_even (n : Nat) : signedDifference (2 * n) = n := by
  have hhalf : 2 * n / 2 = n := by omega
  rw [signedDifference, if_pos (by omega), hhalf]

/-- Odd ones stand for those below zero. -/
theorem signedDifference_odd (n : Nat) : signedDifference (2 * n + 1) = -n := by
  have hhalf : (2 * n + 1) / 2 = n := by omega
  rw [signedDifference, if_neg (by omega), hhalf]

/-- A difference is read as it was written, and then what stands behind it. -/
theorem readDifferences?_writeDifference (d : Int) (rest : List Char) :
    readDifferences? 0 1 (writeDifference d ++ rest) =
      (readDifferences? 0 1 rest).map (d :: ·) := by
  rw [writeDifference, readDifferences?_base64Digits, Nat.zero_add, Nat.mul_one]
  split
  · next hneg =>
    rw [signedDifference_odd, Int.ofNat_natAbs_of_nonpos (by omega), Int.neg_neg]
  · next hpos => rw [signedDifference_even, Int.natAbs_of_nonneg (by omega)]

/-! ### What digits are not -/

/-- No digit is one of the marks between fields and lines, so fields can be told apart. -/
theorem base64Digit_ne : ∀ n < 64, base64Digit n ≠ ';' ∧ base64Digit n ≠ ',' := by
  decide

theorem ne_of_mem_base64Digits (n : Nat) : ∀ c ∈ base64Digits n, c ≠ ';' ∧ c ≠ ',' := by
  induction n using Nat.strongRecOn with
  | ind n ih =>
    rw [base64Digits]
    split
    · next hlast => exact List.forall_mem_singleton.2 (base64Digit_ne n (by omega))
    · next hmore =>
      exact List.forall_mem_cons.2 ⟨base64Digit_ne _ (by omega), ih (n / 32) (by omega)⟩

theorem ne_of_mem_writeDifference (d : Int) : ∀ c ∈ writeDifference d, c ≠ ';' ∧ c ≠ ',' :=
  ne_of_mem_base64Digits _

/-- A field is never empty. -/
theorem base64Digits_ne_nil (n : Nat) : base64Digits n ≠ [] := by
  rw [base64Digits]
  split <;> exact List.cons_ne_nil _ _

theorem writeDifference_ne_nil (d : Int) : writeDifference d ≠ [] := base64Digits_ne_nil _

end CallBridge.Source
