import CallBridge.Marker.Count
import Mathlib.Data.List.Basic

/-!
# Calls that are counted

A call is counted where its name stands with an opening parenthesis right behind it and, unless it
begins the text, a character in front of it that cannot be part of the name. Nothing that is counted
earlier hides it without being counted itself. Main statement: a text with such a call has a count
(`countCalls_pos`).
-/

namespace CallBridge.Marker

open CallBridge.Text

variable {names : List (List Char)} {boundary : Char → Bool} {name before rest cs : List Char}

@[simp] theorem afterName?_append (name rest : List Char) :
    afterName? name (name ++ rest) = some rest := by
  induction name with
  | nil => rfl
  | cons c cs ih => simpa [afterName?] using ih

/-- A name with an opening parenthesis behind it is a call. -/
theorem callLength?_isSome (h : name ∈ names) :
    (callLength? names (name ++ '(' :: rest)).isSome := by
  rw [callLength?, List.findSome?_isSome_iff]
  refine ⟨name, h, ?_⟩
  rw [afterName?_append, Option.bind_some]
  rfl

theorem countFrom_pos {c : Char} (h : (callLength? names cs).isSome) (hc : boundary c)
    (before : List Char) : 0 < countFrom names boundary 0 (before ++ c :: cs) := by
  induction before with
  | nil =>
    obtain ⟨n, hn⟩ := Option.isSome_iff_exists.1 h
    simp [countFrom, hc, hn]
  | cons d before ih =>
    rw [List.cons_append, countFrom]
    split
    · split
      · exact Nat.succ_pos _
      · exact ih
    · exact ih

/-- A call counts at the start of a text and behind a character that may stand there. -/
theorem countCalls_pos (h : name ∈ names) (hbefore : ∀ c ∈ before.getLast?, boundary c) :
    0 < countCalls names boundary (before ++ (name ++ '(' :: rest)) := by
  have hcall : (callLength? names (name ++ '(' :: rest)).isSome := callLength?_isSome h
  rw [countCalls]
  split
  · exact Nat.succ_pos _
  · next hnone =>
    cases hlast : before.getLast? with
    | none =>
      obtain rfl := List.getLast?_eq_none_iff.1 hlast
      rw [List.nil_append] at hnone
      rw [hnone] at hcall
      cases hcall
    | some c =>
      obtain ⟨init, rfl⟩ := List.getLast?_eq_some_iff.1 hlast
      rw [List.append_assoc, List.singleton_append]
      exact countFrom_pos hcall (hbefore c hlast) init

end CallBridge.Marker
