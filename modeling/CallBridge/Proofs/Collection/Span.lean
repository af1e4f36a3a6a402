import Mathlib.Data.List.TakeDrop
import Mathlib.Data.List.TakeWhile

/-!
# Splitting a list where a predicate stops

A list splits into the items in front that fit a predicate and the rest; the rest begins with an item
that does not fit, if it begins at all (`Stops`).
-/

namespace CallBridge.Collection

variable {α : Type} {p : α → Bool} {as bs : List α}

/-- A list that does not begin with an item that fits. -/
def Stops (p : α → Bool) (bs : List α) : Prop := ∀ b ∈ bs.head?, p b = false

/-- Nothing follows. -/
theorem stops_nil : Stops p [] := fun _ h => by cases h

theorem stops_cons {b : α} : Stops p (b :: bs) ↔ p b = false := by
  simp [Stops]

/-- What is left behind the longest such beginning. -/
theorem stops_dropWhile (p : α → Bool) (as : List α) : Stops p (as.dropWhile p) := by
  induction as with
  | nil => exact stops_nil
  | cons a rest ih =>
    rw [List.dropWhile_cons]
    split
    · exact ih
    · next ha => exact stops_cons.2 (Bool.eq_false_iff.2 ha)

/-- The longest beginning all of whose elements are taken is found whatever follows, if that does
not go on. -/
theorem takeWhile_append_stops (has : ∀ a ∈ as, p a) (hbs : Stops p bs) :
    (as ++ bs).takeWhile p = as := by
  rw [List.takeWhile_append_of_pos has]
  cases bs with
  | nil => exact List.append_nil _
  | cons b rest => rw [List.takeWhile_cons_of_neg (by simp [stops_cons.1 hbs]), List.append_nil]

/-- And what follows is left. -/
theorem dropWhile_append_stops (has : ∀ a ∈ as, p a) (hbs : Stops p bs) :
    (as ++ bs).dropWhile p = bs := by
  rw [List.dropWhile_append_of_pos has]
  cases bs with
  | nil => rfl
  | cons b rest => rw [List.dropWhile_cons_of_neg (by simp [stops_cons.1 hbs])]

theorem dropWhile_of_stops (hbs : Stops p bs) : bs.dropWhile p = bs := by
  have hnone : ∀ a ∈ ([] : List α), p a := fun a ha => absurd ha List.not_mem_nil
  exact dropWhile_append_stops hnone hbs

theorem span_append_stops (has : ∀ a ∈ as, p a) (hbs : Stops p bs) : (as ++ bs).span p = (as, bs) := by
  rw [List.span_eq_takeWhile_dropWhile, takeWhile_append_stops has hbs,
    dropWhile_append_stops has hbs]

end CallBridge.Collection
