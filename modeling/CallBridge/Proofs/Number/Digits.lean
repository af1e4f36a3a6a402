import CallBridge.Number.Shortest
import Mathlib.Data.List.Induction

/-!
# Decimal digits

The digits of a natural number are digits (`isDigit_of_mem_digitsOf`), the first of them is not a
zero unless the number is (`digitsOf_head`), and they stand for the number (`foldl_digitsOf`). Digits
that do not begin with a zero are those of their number (`digitsOf_ofDigitChars`).
-/

namespace CallBridge.Number

/-- What holds of the ten digits holds of every digit. -/
theorem forall_isDigit {p : Char → Prop} (h : ∀ k < 10, p (Char.ofNat (48 + k))) {c : Char}
    (hc : c.isDigit) : p c := by
  have hbounds : 48 ≤ c.toNat ∧ c.toNat ≤ 57 := by
    simpa [Char.isDigit, UInt32.le_iff_toNat_le] using hc
  obtain ⟨k, hk⟩ := Nat.exists_eq_add_of_le hbounds.1
  have hp := h k (by omega)
  rwa [← hk, Char.ofNat_toNat] at hp

theorem digitsOf_ne_nil (n : Nat) : digitsOf n ≠ [] := Nat.toDigits_ne_nil

theorem isDigit_of_mem_digitsOf {n : Nat} {c : Char} (hc : c ∈ digitsOf n) : c.isDigit :=
  Nat.isDigit_of_mem_toDigits (by decide) (by decide) hc

/-- No zero stands in front of the digits of a number but zero. -/
theorem digitsOf_head {n : Nat} (hn : 0 < n) : ∀ c ∈ (digitsOf n).head?, c ≠ '0' := by
  induction n using Nat.strongRecOn with
  | ind n ih =>
    rw [digitsOf, Nat.toDigits_eq_if (by decide)]
    split
    · next hlt =>
      rintro c hc rfl
      have hzero : ∀ k < 10, 0 < k → Nat.digitChar k ≠ '0' := by decide
      exact hzero n hlt hn (by simpa using hc)
    · next hge =>
      have hhead := ih (n / 10) (by omega) (by omega)
      obtain ⟨d, ds, hds⟩ := List.exists_cons_of_ne_nil (digitsOf_ne_nil (n / 10))
      rw [hds] at hhead
      rw [← digitsOf, hds]
      exact hhead

/-- The value of digits, read from the left. -/
theorem foldl_eq_ofDigitChars (ds : List Char) :
    ds.foldl (fun m c => m * 10 + (c.toNat - 48)) 0 = Nat.ofDigitChars 10 ds 0 := by
  have hstep : (fun (m : Nat) (c : Char) => m * 10 + (c.toNat - 48)) =
      fun m c => 10 * m + (c.toNat - '0'.toNat) := by
    funext m c
    rw [Nat.mul_comm]
    rfl
  rw [hstep]
  exact Nat.ofDigitChars_eq_foldl.symm

/-- Digits stand for the number that they were made of. -/
theorem foldl_digitsOf (n : Nat) :
    (digitsOf n).foldl (fun m c => m * 10 + (c.toNat - 48)) 0 = n := by
  rw [foldl_eq_ofDigitChars]
  exact Nat.ofDigitChars_ten_toDigits

/-- Numbers that are written the same are the same. -/
theorem eq_of_toString_eq {n m : Nat} (h : toString n = toString m) : n = m := by
  have hdigits : digitsOf n = digitsOf m := String.ofList_injective h
  rw [← foldl_digitsOf n, hdigits, foldl_digitsOf]

theorem exists_digitChar {c : Char} (hc : c.isDigit) :
    ∃ d < 10, c = d.digitChar ∧ c.toNat - 48 = d :=
  forall_isDigit (p := fun c => ∃ d < 10, c = Nat.digitChar d ∧ c.toNat - 48 = d) (by decide) hc

/-- Digits that do not begin with a zero are the ones that their number is written with. -/
theorem digitsOf_ofDigitChars {ds : List Char} (hne : ds ≠ []) (hdigits : ∀ c ∈ ds, c.isDigit)
    (hhead : ds.head? ≠ some '0') : digitsOf (Nat.ofDigitChars 10 ds 0) = ds := by
  induction ds using List.reverseRecOn with
  | nil => exact absurd rfl hne
  | append_singleton ds c ih =>
    obtain ⟨d, hd, hc, hvalue⟩ := exists_digitChar (hdigits c (by simp))
    have hlast : Nat.ofDigitChars 10 (ds ++ [c]) 0 = 10 * Nat.ofDigitChars 10 ds 0 + d := by
      rw [Nat.ofDigitChars_append, Nat.ofDigitChars_cons, Nat.ofDigitChars_nil]
      exact congrArg _ hvalue
    rw [hlast]
    rcases eq_or_ne ds [] with rfl | hds
    · rw [Nat.ofDigitChars_nil, Nat.mul_zero, Nat.zero_add, digitsOf, Nat.toDigits_of_lt_base hd,
        hc]
      rfl
    · rw [List.head?_append, Option.or_of_isSome (List.isSome_head?.2 hds)] at hhead
      have hfront : digitsOf (Nat.ofDigitChars 10 ds 0) = ds :=
        ih hds (fun c hc => hdigits c (List.mem_append_left _ hc)) hhead
      have hpos : 0 < Nat.ofDigitChars 10 ds 0 := by
        refine Nat.pos_of_ne_zero fun hzero => ?_
        -- zero is written as a zero, and the digits do not begin with one
        rw [hzero] at hfront
        exact hhead (by rw [← hfront]; rfl)
      rw [digitsOf, ← Nat.toDigits_append_toDigits (by decide) hpos hd, ← digitsOf, hfront,
        Nat.toDigits_of_lt_base hd, hc]

end CallBridge.Number
