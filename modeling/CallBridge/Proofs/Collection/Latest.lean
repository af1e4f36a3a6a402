import CallBridge.Collection.Buffer
import Mathlib.Data.List.DropRight
import Mathlib.Data.List.ModifyLast

/-!
# The latest items

What a bounded buffer holds is a number of last items of a list. Main statements: dropping early
makes no difference to the last items (`rtake_append_rtake`), a buffer holds the last items of what
it held and what is pushed (`items_push`), and a change of the newest item is one of the last item
of the list (`items_updateLast`).
-/

namespace CallBridge.Collection

variable {α β : Type} {n : ℕ} {l : List α}

/-- A list that is not too long is kept as a whole. -/
theorem rtake_of_length_le (h : l.length ≤ n) : l.rtake n = l := by
  rw [List.rtake, Nat.sub_eq_zero_of_le h, List.drop_zero]

/-- The last elements of a list that is too long are the last ones behind its first. -/
theorem rtake_cons {x : α} (h : n < (x :: l).length) : (x :: l).rtake n = l.rtake n := by
  rw [List.length_cons, Nat.lt_succ_iff] at h
  rw [List.rtake, List.rtake, List.length_cons, Nat.succ_sub h, List.drop_succ_cons]

theorem length_rtake_le (n : ℕ) (l : List α) : (l.rtake n).length ≤ n := by
  rw [List.rtake, List.length_drop]
  omega

theorem rtake_suffix (n : ℕ) (l : List α) : l.rtake n <:+ l := List.drop_suffix _ _

theorem map_rtake (f : α → β) (n : ℕ) (l : List α) : (l.rtake n).map f = (l.map f).rtake n := by
  rw [List.rtake, List.rtake, List.map_drop, List.length_map]

/-- A list that is long enough has the last items of any list that ends in it. -/
theorem rtake_append_of_le_length {more : List α} (h : n ≤ more.length) (l : List α) :
    (l ++ more).rtake n = more.rtake n := by
  have hlength : (l ++ more).length - n = l.length + (more.length - n) := by
    rw [List.length_append]
    omega
  rw [List.rtake, List.rtake, hlength, List.drop_length_add_append]

/-- Items that were dropped before are not among the last items of a longer list. -/
theorem rtake_append_rtake (n : ℕ) (l more : List α) :
    (l.rtake n ++ more).rtake n = (l ++ more).rtake n := by
  by_cases h : l.length ≤ n
  · rw [rtake_of_length_le h]
  · have hlength : n ≤ (l.rtake n ++ more).length := by
      rw [List.length_append, List.rtake, List.length_drop]
      omega
    have hsplit : l ++ more = l.take (l.length - n) ++ (l.rtake n ++ more) := by
      rw [← List.append_assoc, List.rtake, List.take_append_drop]
    rw [hsplit, rtake_append_of_le_length hlength]

/-- A full list loses its first item to a new one. -/
theorem rtake_concat (h : l.length ≤ n) (x : α) :
    (l ++ [x]).rtake n = if l.length < n then l ++ [x] else (l ++ [x]).tail := by
  split
  · next hroom => exact rtake_of_length_le (by rw [List.length_append, List.length_singleton]; omega)
  · next hfull =>
    have hdrop : (l ++ [x]).length - n = 1 := by
      rw [List.length_append, List.length_singleton]
      omega
    rw [List.rtake, hdrop, List.drop_one]

/-! ### The last item -/

theorem modifyLast_cons (f : α → α) (a : α) (h : l ≠ []) :
    (a :: l).modifyLast f = a :: l.modifyLast f :=
  List.modifyLast_append_of_right_ne_nil f [a] l h

theorem modifyLast_eq_self {f : α → α} (h : ∀ a, f a = a) (l : List α) : l.modifyLast f = l := by
  rcases List.eq_nil_or_concat l with rfl | ⟨front, x, rfl⟩
  · rfl
  · rw [List.concat_eq_append, List.modifyLast_concat, h]

theorem map_modifyLast {f : α → α} {g : α → β} {f' : β → β} (h : ∀ a, g (f a) = f' (g a))
    (l : List α) : (l.modifyLast f).map g = (l.map g).modifyLast f' := by
  rcases List.eq_nil_or_concat l with rfl | ⟨front, x, rfl⟩
  · rfl
  · rw [List.concat_eq_append, List.modifyLast_concat, List.map_append, List.map_append,
      List.map_singleton, List.map_singleton, List.modifyLast_concat, h]

/-- Changing the last item and dropping items in front do not depend on each other. -/
theorem rtake_modifyLast (f : α → α) (n : ℕ) (l : List α) :
    (l.modifyLast f).rtake n = (l.rtake n).modifyLast f := by
  rcases List.eq_nil_or_concat l with rfl | ⟨front, x, rfl⟩
  · rw [List.rtake_nil]
    exact List.rtake_nil n
  · rw [List.concat_eq_append, List.modifyLast_concat]
    cases n with
    | zero =>
      rw [List.rtake_zero, List.rtake_zero]
      rfl
    | succ n => rw [List.rtake_concat_succ, List.rtake_concat_succ, List.modifyLast_concat]

namespace Buffer

variable {b : Buffer α}

/-- A buffer that is not too full keeps the latest elements. -/
theorem items_push (h : b.items.length ≤ b.capacity) (x : α) :
    (b.push x).1.items = (b.items ++ [x]).rtake b.capacity := by
  rw [rtake_concat h]
  unfold push
  split
  · next hzero =>
    have hnil : b.items = [] := List.eq_nil_of_length_eq_zero (by omega)
    rw [hnil, hzero, if_neg (by simp)]
    rfl
  · next hpos =>
    split
    · rfl
    · next hfull =>
      have hne : b.items ≠ [] := fun hnil => by
        rw [hnil, List.length_nil] at hfull
        omega
      exact (List.tail_append_of_ne_nil hne).symm

theorem capacity_push (b : Buffer α) (x : α) : (b.push x).1.capacity = b.capacity := by
  unfold push
  split
  · rfl
  · split <;> rfl

/-- Only the latest element is changed. -/
theorem items_updateLast (b : Buffer α) (f : α → α) :
    (b.updateLast f).items = b.items.modifyLast f := by
  unfold updateLast
  rcases List.eq_nil_or_concat b.items with hnil | ⟨front, x, hconcat⟩
  · rw [hnil]
    exact hnil
  · rw [hconcat, List.concat_eq_append, List.getLast?_concat, List.dropLast_concat,
      List.modifyLast_concat]

theorem capacity_updateLast (b : Buffer α) (f : α → α) :
    (b.updateLast f).capacity = b.capacity := by
  unfold updateLast
  split <;> rfl

theorem length_updateLast (b : Buffer α) (f : α → α) :
    (b.updateLast f).items.length = b.items.length := by
  unfold updateLast
  split
  · next x hx =>
    have hne : b.items ≠ [] := fun hnil => by
      rw [hnil] at hx
      cases hx
    have hpos := List.length_pos_iff.2 hne
    rw [List.length_append, List.length_dropLast, List.length_singleton]
    omega
  · rfl

/-- What was pushed is the latest. -/
theorem last?_push (h : 0 < b.capacity) (x : α) : (b.push x).1.last? = some x := by
  unfold push last?
  rw [if_neg (by omega)]
  split <;> exact List.getLast?_concat ..

/-- To change an item that was just pushed is to push it changed. -/
theorem updateLast_push (h : b.capacity = 0 → b.items = []) (x : α) (f : α → α) :
    (b.push x).1.updateLast f = (b.push (f x)).1 := by
  by_cases hzero : b.capacity = 0
  · unfold push updateLast
    rw [if_pos hzero, if_pos hzero, h hzero]
    rfl
  · have hlast : (b.push x).1.items.getLast? = some x := last?_push (by omega) x
    unfold updateLast
    rw [hlast]
    by_cases hroom : b.items.length < b.capacity
    · simp only [push, if_neg hzero, if_pos hroom, List.dropLast_concat]
    · simp only [push, if_neg hzero, if_neg hroom, List.dropLast_concat]

end Buffer

end CallBridge.Collection
