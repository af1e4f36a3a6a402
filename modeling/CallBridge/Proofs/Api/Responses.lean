import CallBridge.Api.Catalogue
import CallBridge.Proofs.Json.Reading
import CallBridge.Proofs.Json.Values
import CallBridge.Proofs.Url.Scalars

/-!
# Responses

A list of records is answered as it is, but for its total count, which becomes a number where it is
the text of one (`Counted`). Main statement: the body of the response is read as that value, and to
answer with the value that is read changes nothing more (`records_counted`). A value's fields stand in
order, as they do in every value that is read (`Document.sorted_of_valueWithin`).
-/

namespace CallBridge.ApiCatalogue

open CallBridge.Json

/-! ### Counts -/

/-- The texts of a natural of 64 bits: its digits, with any zeros and perhaps a plus in front. -/
def SpellsCount (s : String) (n : Nat) : Prop :=
  ∃ digits, (s.toList = digits ∨ s.toList = '+' :: digits) ∧ digits ≠ [] ∧
    (∀ c ∈ digits, c.isDigit) ∧ Nat.ofDigitChars 10 digits 0 = n ∧ n < 2 ^ 64

/-- A count is read exactly if the text spells one. -/
theorem readCount?_eq_some_iff {s : String} {n : Nat} :
    readCount? s = some n ↔ SpellsCount s n := by
  have hread (digits : List Char) :
      (Url.readDigits? digits).filter (· < Nat.pow 2 64) = some n ↔
        digits ≠ [] ∧ (∀ c ∈ digits, c.isDigit) ∧ Nat.ofDigitChars 10 digits 0 = n ∧
          n < 2 ^ 64 := by
    rw [Option.filter_eq_some_iff, Url.readDigits?_eq_some_iff, decide_eq_true_iff]
    simp only [and_assoc]
    rfl
  unfold readCount? SpellsCount
  split
  · next digits htext =>
    rw [hread]
    constructor
    · exact fun h => ⟨digits, Or.inr htext, h⟩
    · rintro ⟨ds, hds | hds, hne, hdigits, hvalue⟩
      · -- a plus is no digit
        have hplus : '+' ∈ ds := hds ▸ htext ▸ List.mem_cons_self ..
        exact absurd (hdigits _ hplus) (by decide)
      · obtain rfl := (List.cons.inj (htext.symm.trans hds)).2
        exact ⟨hne, hdigits, hvalue⟩
  · next hplain =>
    rw [hread]
    constructor
    · exact fun h => ⟨s.toList, Or.inl rfl, h⟩
    · rintro ⟨ds, rfl | hds, h⟩
      · exact h
      · exact absurd hds (hplain ds)

/-! ### Counted values -/

/-- What a value is answered as. -/
inductive Counted : Value → Value → Prop where
  | number {before after : Fields} {s : String} {n : Nat} (h : SpellsCount s n) :
      Counted (.object (before ++ ("totalCount", .string s) :: after))
        (.object (before ++ ("totalCount", .nat n) :: after))
  | unchanged {v : Value}
      (h : ∀ before after s n, v = .object (before ++ ("totalCount", .string s) :: after) →
        ¬ SpellsCount s n) :
      Counted v v

/-- A count that can be read becomes a number and stays where it is. -/
theorem countAsNumber_of_spells {before after : Fields} {s : String} {n : Nat}
    (hsorted : Fields.Ascending (before ++ ("totalCount", .string s) :: after))
    (h : SpellsCount s n) :
    countAsNumber (.object (before ++ ("totalCount", .string s) :: after)) =
      .object (before ++ ("totalCount", .nat n) :: after) := by
  have hget := hsorted.get?_eq_some_iff.2 ⟨before, after, rfl⟩
  simp only [countAsNumber, hget, Option.bind_some, Value.string?, readCount?_eq_some_iff.2 h,
    Fields.put_replace hsorted]

/-- Anything else is left alone. -/
theorem countAsNumber_of_no_count {v : Value} (hsorted : v.Sorted)
    (h : ∀ before after s n, v = .object (before ++ ("totalCount", .string s) :: after) →
      ¬ SpellsCount s n) : countAsNumber v = v := by
  unfold countAsNumber
  split
  · next fields =>
    split
    · next n hread =>
      obtain ⟨s, hs, hn⟩ := Option.bind_eq_some_iff.1 hread
      obtain ⟨w, hw, hstring⟩ := Option.bind_eq_some_iff.1 hs
      cases w with
      | string t =>
        obtain rfl := Option.some.inj hstring
        obtain ⟨before, after, rfl⟩ := hsorted.1.get?_eq_some_iff.1 hw
        exact absurd (readCount?_eq_some_iff.1 hn) (h before after t n rfl)
      | _ => cases hstring
    · rfl
  · rfl

/-- For every value there is one with its count as a number, which may be itself. -/
theorem exists_counted (v : Value) : ∃ w, Counted v w := by
  by_cases h : ∃ before after s n, v = .object (before ++ ("totalCount", .string s) :: after) ∧
      SpellsCount s n
  · obtain ⟨before, after, s, n, rfl, hcount⟩ := h
    exact ⟨_, .number hcount⟩
  · exact ⟨v, .unchanged fun before after s n heq hcount => h ⟨before, after, s, n, heq, hcount⟩⟩

namespace Counted

variable {v w : Value}

/-- The step from a value to its counted form is what the program does. -/
theorem countAsNumber_eq (h : Counted v w) (hsorted : v.Sorted) : countAsNumber v = w := by
  cases h with
  | number hcount => exact countAsNumber_of_spells hsorted.1 hcount
  | unchanged hnone => exact countAsNumber_of_no_count hsorted hnone

/-- Fields stay in order. -/
theorem sorted (h : Counted v w) (hsorted : v.Sorted) : w.Sorted := by
  cases h with
  | number hcount =>
    refine ⟨hsorted.1.replace _, sortedFields_iff.2 fun f hf => ?_⟩
    have hfields := sortedFields_iff.1 hsorted.2
    rcases List.mem_append.1 hf with hf | hf
    · exact hfields f (List.mem_append_left _ hf)
    · rcases List.mem_cons.1 hf with rfl | hf
      · trivial
      · exact hfields f (List.mem_append_right _ (List.mem_cons_of_mem _ hf))
  | unchanged => exact hsorted

/-- The count is a natural of 64 bits, so the value stays integral. -/
theorem integral (h : Counted v w) (hint : v.Integral) : w.Integral := by
  cases h with
  | @number before after s n hcount =>
    obtain ⟨-, -, -, -, -, hn⟩ := hcount
    refine integralFields_iff.2 fun f hf => ?_
    have hfields := integralFields_iff.1 hint
    rcases List.mem_append.1 hf with hf | hf
    · exact hfields f (List.mem_append_left _ hf)
    · rcases List.mem_cons.1 hf with rfl | hf
      · exact ⟨n, rfl, by omega, by omega⟩
      · exact hfields f (List.mem_append_right _ (List.mem_cons_of_mem _ hf))
  | unchanged => exact hint

/-- A text and a number are equally deep. -/
theorem nesting_eq (h : Counted v w) : w.nesting = v.nesting := by
  cases h with
  | number => simp only [Value.nesting, nestingFields_append]; rfl
  | unchanged => rfl

/-- A count that is a number is not counted again. -/
theorem again (h : Counted v w) (hsorted : v.Sorted) : countAsNumber w = w := by
  have hw : w.Sorted := h.sorted hsorted
  cases h with
  | @number before after s n hcount =>
    refine countAsNumber_of_no_count hw fun before' after' s' n' heq => ?_
    have hfields := Value.object.inj heq
    have hnumber := hw.1.get?_eq_some_iff.2 ⟨before, after, rfl⟩
    have hstring := hw.1.get?_eq_some_iff.2 ⟨before', after', hfields⟩
    exact nomatch Option.some.inj (hnumber.symm.trans hstring)
  | unchanged hnone => exact countAsNumber_of_no_count hsorted hnone

end Counted

/-! ### Responses -/

/-- Of the catalogue, it is the mapping of this name that counts. -/
theorem response_of_list {m : ApiMapping} (hm : m ∈ all) (hname : m.platformName = "records.get") :
    m.transform.response = recordsResponse := by
  simp only [all, List.mem_cons, List.not_mem_nil, or_false] at hm
  rcases hm with rfl | rfl | rfl | rfl | rfl
  case inl => rfl
  all_goals exact absurd hname (by decide)

/-- The body of a list of records is read, with any limit on the nesting that leaves room for it, as
the value with nothing changed but a total count at the top that is the text of a natural of 64 bits
and becomes that number. A response to the value that is read is the same response. -/
theorem records_counted {m : ApiMapping} (hm : m ∈ all) (hname : m.platformName = "records.get")
    {v : Value} (hint : v.Integral) (hsorted : v.Sorted) :
    (∃ w, Counted v w) ∧
    ∀ w, Counted v w →
      (∀ depth, (read? (m.transform.response v).body.toList).bind (Document.valueWithin depth) =
        if v.nesting ≤ depth then some w else none) ∧
      m.transform.response w = m.transform.response v := by
  rw [response_of_list hm hname]
  refine ⟨exists_counted v, fun w hw => ⟨fun depth => ?_, ?_⟩⟩
  · have htext : (recordsResponse v).body.toList = w.write := by
      rw [recordsResponse, hw.countAsNumber_eq hsorted]
      exact String.toList_ofList
    rw [htext, read?_write w (hw.integral hint), Option.bind_some,
      Document.valueWithin_ofValue w (hw.sorted hsorted), hw.nesting_eq]
  · rw [recordsResponse, recordsResponse, hw.again hsorted, hw.countAsNumber_eq hsorted]

/-- A total count with a plus and a zero in front, and one that stands deeper. -/
def countedTwice : Value :=
  .object [("records", .array [.object [("totalCount", .string "7")]]),
    ("totalCount", .string "+042")]

/-- A response with a count inside of a record: only the outer one is read. -/
theorem records_counted_once :
    ∃ m ∈ all, m.platformName = "records.get" ∧ countedTwice.Integral ∧ countedTwice.Sorted ∧
      readValue? (m.transform.response countedTwice).body =
        some (.object [("records", .array [.object [("totalCount", .string "7")]]),
          ("totalCount", .nat 42)]) := by
  have hm : all[0] ∈ all := List.getElem_mem _
  have hint : countedTwice.Integral := ⟨⟨⟨trivial, trivial⟩, trivial⟩, trivial, trivial⟩
  have hsorted : countedTwice.Sorted := by
    refine ⟨?_, ⟨⟨List.pairwise_singleton _ _, trivial, trivial⟩, trivial⟩, trivial, trivial⟩
    exact List.pairwise_pair.2 (by decide)
  have hcount : SpellsCount "+042" 42 :=
    ⟨"042".toList, Or.inr (by decide), by decide, by decide, by decide, by decide⟩
  let before : Fields := [("records", .array [.object [("totalCount", .string "7")]])]
  have hcounted : Counted (.object (before ++ ("totalCount", .string "+042") :: []))
      (.object (before ++ ("totalCount", .nat 42) :: [])) := .number hcount
  have hread := ((records_counted hm rfl hint hsorted).2 _ hcounted).1 maxDepth
  exact ⟨_, hm, rfl, hint, hsorted, hread.trans (if_pos (by decide))⟩

end CallBridge.ApiCatalogue
