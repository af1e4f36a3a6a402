import CallBridge.Proofs.Url.Form

/-!
# Values and the texts they were read from

A single value of a query is written back as an integer in decimal, a truth value by its name, a
text as it stands (`scalarText?`). Main statement: the value of a text is written back as that text,
unless the text is a minus sign with a zero and any further digits behind it; such an integer loses
its zeros, and the sign of a zero (`scalarText?_coerceScalar_iff`).
-/

namespace CallBridge.Url

open CallBridge.Json CallBridge.Number

/-- The text of a single value. -/
def scalarText? : Value → Option (List Char)
  | .number (.int n) => some (toString n).toList
  | .bool b => some (toString b).toList
  | .string s => some s.toList
  | _ => none

/-- A minus sign with a zero and any further digits behind it, in the range of 64 bits. -/
def PaddedNegative (cs : List Char) : Prop :=
  ∃ digits, cs = '-' :: '0' :: digits ∧ (∀ c ∈ digits, c.isDigit) ∧
    Nat.ofDigitChars 10 digits 0 ≤ 2 ^ 63

variable {cs ds : List Char} {n : Int} {k : Nat}

/-- A text that is kept or is no integer is a truth value or a string; any other is its integer. -/
theorem coerceScalar_cases (cs : List Char) :
    (∃ n, keepsText cs = false ∧ readInteger? cs = some n ∧ coerceScalar cs = .int n) ∨
      ((keepsText cs = true ∨ readInteger? cs = none) ∧
        ((cs = "true".toList ∧ coerceScalar cs = .bool true) ∨
          (cs = "false".toList ∧ coerceScalar cs = .bool false) ∨
          coerceScalar cs = .string (String.ofList cs))) := by
  by_cases hnone : keepsText cs = true ∨ readInteger? cs = none
  · have hplain : coerceScalar cs = if cs = "true".toList then .bool true
        else if cs = "false".toList then .bool false else .string (String.ofList cs) := by
      rw [coerceScalar]
      rcases hnone with hkeeps | hread
      · rw [if_pos hkeeps]
      · rw [hread, Option.elim_none, ite_self]
    refine Or.inr ⟨hnone, ?_⟩
    rw [hplain]
    split
    · next htrue => exact Or.inl ⟨htrue, rfl⟩
    split
    · next hfalse => exact Or.inr (Or.inl ⟨hfalse, rfl⟩)
    · exact Or.inr (Or.inr rfl)
  · obtain ⟨hkeeps, hread⟩ := not_or.1 hnone
    obtain ⟨n, hn⟩ := Option.ne_none_iff_exists'.1 hread
    refine Or.inl ⟨n, Bool.eq_false_iff.2 hkeeps, hn, ?_⟩
    rw [coerceScalar, if_neg hkeeps, hn, Option.elim_some]

/-! ### Reading digits -/

theorem readDigits?_eq_some_iff :
    readDigits? ds = some k ↔
      ds ≠ [] ∧ (∀ c ∈ ds, c.isDigit) ∧ Nat.ofDigitChars 10 ds 0 = k := by
  rw [readDigits?, foldl_eq_ofDigitChars]
  by_cases h : ds ≠ [] ∧ ∀ c ∈ ds, c.isDigit
  · have hdigits : (ds.isEmpty || !ds.all Char.isDigit) = false := by simpa using h
    rw [hdigits, if_neg Bool.false_ne_true, Option.some.injEq]
    exact ⟨fun hk => ⟨h.1, h.2, hk⟩, fun hk => hk.2.2⟩
  · have hother : (ds.isEmpty || !ds.all Char.isDigit) = true := by
      by_contra hno
      exact h (by simpa using hno)
    rw [hother, if_pos rfl]
    exact iff_of_false (Option.some_ne_none k).symm fun hk => h ⟨hk.1, hk.2.1⟩

/-- A zero in front adds nothing. -/
theorem ofDigitChars_zero_cons (digits : List Char) :
    Nat.ofDigitChars 10 ('0' :: digits) 0 = Nat.ofDigitChars 10 digits 0 := by
  rw [Nat.ofDigitChars_cons]
  rfl

/-- Digits in front of which no zero is left out are those of their number. -/
theorem digitsOf_of_readDigits? (h : readDigits? ds = some k)
    (hhead : ds.head? = some '0' → ds = ['0']) : digitsOf k = ds := by
  obtain ⟨hne, hdigits, rfl⟩ := readDigits?_eq_some_iff.1 h
  by_cases hzero : ds.head? = some '0'
  · rw [hhead hzero]
    rfl
  · exact digitsOf_ofDigitChars hne hdigits hzero

/-! ### Reading integers -/

theorem readInteger?_of_paddedNegative (h : PaddedNegative cs) :
    ∃ digits, cs = '-' :: '0' :: digits ∧ keepsText cs = false ∧
      readInteger? cs = some (-(Nat.ofDigitChars 10 digits 0 : Int)) := by
  obtain ⟨digits, rfl, hdigits, hbound⟩ := h
  have hread : readDigits? ('0' :: digits) = some (Nat.ofDigitChars 10 digits 0) :=
    readDigits?_eq_some_iff.2 ⟨List.cons_ne_nil _ _, List.forall_mem_cons.2 ⟨rfl, hdigits⟩,
      ofDigitChars_zero_cons digits⟩
  refine ⟨digits, rfl, rfl, ?_⟩
  rw [readInteger?, hread]
  exact if_pos hbound

/-- An integer that is no identifier is digits, with a minus sign in front of them or without. -/
theorem exists_digits_of_readInteger? (hkeeps : keepsText cs = false)
    (h : readInteger? cs = some n) :
    (∃ ds k, cs = '-' :: ds ∧ readDigits? ds = some k ∧ k ≤ 2 ^ 63 ∧ n = -(k : Int)) ∨
      ∃ k : Nat, readDigits? cs = some k ∧ n = k := by
  unfold readInteger? at h
  split at h
  · next ds =>
    obtain ⟨k, hread, hk⟩ := Option.bind_eq_some_iff.1 h
    obtain ⟨hle, hn⟩ := Option.ite_none_right_eq_some.1 hk
    exact Or.inl ⟨ds, k, rfl, hread, hle, (Option.some.inj hn).symm⟩
  · cases hkeeps
  · obtain ⟨k, hread, hk⟩ := Option.bind_eq_some_iff.1 h
    obtain ⟨-, hn⟩ := Option.ite_none_right_eq_some.1 hk
    exact Or.inr ⟨k, hread, (Option.some.inj hn).symm⟩

/-! ### Writing back -/

/-- Behind a minus sign, digits are written back exactly when they do not begin with a zero. -/
theorem toString_neg_iff (h : readDigits? ds = some k) :
    (toString (-(k : Int))).toList = '-' :: ds ↔ ds.head? ≠ some '0' := by
  rw [toString_toList, Int.natAbs_neg, Int.natAbs_natCast]
  constructor
  · intro hwritten hhead
    split at hwritten
    · next hneg =>
      rw [List.cons.injEq] at hwritten
      exact digitsOf_head (n := k) (by omega) _ (hwritten.2 ▸ hhead) rfl
    · next hzero =>
      obtain rfl : k = 0 := by omega
      cases hwritten
  · intro hhead
    have hdigits : digitsOf k = ds := digitsOf_of_readDigits? h fun hzero => absurd hzero hhead
    have hpos : k ≠ 0 := by
      rintro rfl
      exact hhead (hdigits ▸ rfl)
    rw [if_pos (by omega), hdigits]

/-- An integer is written back as its text exactly when that is no padded negative. -/
theorem toString_eq_iff (hkeeps : keepsText cs = false) (h : readInteger? cs = some n) :
    (toString n).toList = cs ↔ ¬ PaddedNegative cs := by
  rcases exists_digits_of_readInteger? hkeeps h with ⟨ds, k, rfl, hread, hle, rfl⟩ | ⟨k, hread, rfl⟩
  · rw [toString_neg_iff hread]
    refine not_congr ⟨fun hhead => ?_, fun ⟨digits, heq, _⟩ => ?_⟩
    · obtain ⟨digits, rfl⟩ := List.head?_eq_some_iff.1 hhead
      obtain ⟨-, hdigits, rfl⟩ := readDigits?_eq_some_iff.1 hread
      rw [ofDigitChars_zero_cons] at hle
      exact ⟨digits, rfl, (List.forall_mem_cons.1 hdigits).2, hle⟩
    · rw [(List.cons.inj heq).2]
      rfl
  · have hdigits : digitsOf k = cs := by
      refine digitsOf_of_readDigits? hread fun hhead => ?_
      obtain ⟨more, rfl⟩ := List.head?_eq_some_iff.1 hhead
      -- more characters behind the zero would make the text an identifier
      cases more with
      | nil => rfl
      | cons c more => cases hkeeps
    refine iff_of_true ?_ fun ⟨digits, heq, _⟩ => ?_
    · rw [toString_toList, if_neg (by omega), Int.natAbs_natCast, hdigits]
    · obtain ⟨-, hall, -⟩ := readDigits?_eq_some_iff.1 hread
      rw [heq] at hall
      exact absurd (hall '-' (List.mem_cons_self ..)) (by decide)

/-- The value of a text is written back as that text, unless it is a negative integer with zeros in
front or a negated zero; that is read as an integer, without the zeros. -/
theorem scalarText?_coerceScalar_iff (cs : List Char) :
    (scalarText? (coerceScalar cs) = some cs ↔ ¬ PaddedNegative cs) ∧
      (PaddedNegative cs → ∃ digits, cs = '-' :: '0' :: digits ∧
        coerceScalar cs = .int (-(Nat.ofDigitChars 10 digits 0 : Int))) := by
  constructor
  · rcases coerceScalar_cases cs with ⟨n, hkeeps, hread, hvalue⟩ | ⟨hnone, hplain⟩
    · have hwritten : scalarText? (.int n) = some (toString n).toList := rfl
      rw [hvalue, hwritten, Option.some.injEq]
      exact toString_eq_iff hkeeps hread
    · have hkept : scalarText? (coerceScalar cs) = some cs := by
        rcases hplain with ⟨rfl, hvalue⟩ | ⟨rfl, hvalue⟩ | hvalue
        · rw [hvalue]; rfl
        · rw [hvalue]; rfl
        · rw [hvalue, scalarText?, String.toList_ofList]
      refine iff_of_true hkept fun h => ?_
      obtain ⟨digits, -, hkeeps, hread⟩ := readInteger?_of_paddedNegative h
      rw [hkeeps, hread] at hnone
      exact hnone.elim nofun nofun
  · intro h
    obtain ⟨digits, heq, hkeeps, hread⟩ := readInteger?_of_paddedNegative h
    refine ⟨digits, heq, ?_⟩
    rw [coerceScalar, hkeeps, hread]
    rfl

theorem coerceScalar_padded_seven :
    PaddedNegative "-007".toList ∧
      ∃ digits, "-007".toList = '-' :: '0' :: digits ∧
        coerceScalar "-007".toList = .int (-(Nat.ofDigitChars 10 digits 0 : Int)) := by
  have hpadded : PaddedNegative "-007".toList := ⟨"07".toList, rfl, by decide, by decide⟩
  exact ⟨hpadded, (scalarText?_coerceScalar_iff _).2 hpadded⟩

/-- Zeros behind a sign are lost, and so is the sign of a zero. -/
theorem zeros_behind_sign_lost :
    (coerceScalar "-007".toList = .int (-7) ∧
      scalarText? (coerceScalar "-007".toList) ≠ some "-007".toList) ∧
    (coerceScalar "-0".toList = .int 0 ∧
      scalarText? (coerceScalar "-0".toList) ≠ some "-0".toList) := by
  refine ⟨⟨rfl, ?_⟩, rfl, ?_⟩ <;> decide +kernel

end CallBridge.Url
