/-!
# Lists without repetitions

`distinct` keeps the first occurrence of each element. Main statements: it keeps the same elements
(`mem_distinct`) and none of them twice (`nodup_distinct`).
-/

namespace CallBridge.Collection

variable {α : Type} [DecidableEq α]

/-- Adds an element that is not there yet. -/
def insertNew (seen : List α) (x : α) : List α := if x ∈ seen then seen else seen ++ [x]

/-- A list without repetitions, each element at its first place. -/
def distinct (xs : List α) : List α := xs.foldl insertNew []

/-- Whether it was there or not, the element is there afterwards. -/
theorem mem_insertNew {seen : List α} {x y : α} : y ∈ insertNew seen x ↔ y ∈ seen ∨ y = x := by
  unfold insertNew
  split
  · constructor
    · exact Or.inl
    · rintro (h | rfl) <;> assumption
  · simp

/-- An element that is there already is not added again. -/
theorem nodup_insertNew {seen : List α} {x : α} (h : seen.Nodup) : (insertNew seen x).Nodup := by
  unfold insertNew
  split
  · exact h
  · next hx => grind [List.nodup_append]

theorem mem_foldl_insertNew {xs seen : List α} {y : α} :
    y ∈ xs.foldl insertNew seen ↔ y ∈ seen ∨ y ∈ xs := by
  induction xs generalizing seen with
  | nil => simp
  | cons x rest ih => simp [ih, mem_insertNew, or_assoc]

/-- Nothing is lost and nothing is made up. -/
theorem mem_distinct {xs : List α} {y : α} : y ∈ distinct xs ↔ y ∈ xs := by
  simp [distinct, mem_foldl_insertNew]

theorem nodup_foldl_insertNew {xs seen : List α} (h : seen.Nodup) :
    (xs.foldl insertNew seen).Nodup := by
  induction xs generalizing seen with
  | nil => exact h
  | cons x rest ih => exact ih (nodup_insertNew h)

/-- Nothing is there twice. -/
theorem nodup_distinct (xs : List α) : (distinct xs).Nodup := nodup_foldl_insertNew List.nodup_nil

end CallBridge.Collection
