import CallBridge.Collection.Distinct
import Mathlib.Data.List.Basic
import Mathlib.Data.List.Induction

/-!
# Order of lists without repetitions

What a list without repetitions keeps stands in the order of the first occurrences
(`pairwise_distinct`); of two elements, the one that occurs first stands in front of all places of
the other (`firstBefore_of_idxOf_lt`).
-/

namespace CallBridge.Collection

variable {α : Type} [DecidableEq α]

theorem distinct_concat (xs : List α) (x : α) :
    distinct (xs ++ [x]) = insertNew (distinct xs) x :=
  List.foldl_append

/-- What a list without repetitions keeps stands in the order of the first occurrences. -/
theorem pairwise_distinct (xs : List α) :
    (distinct xs).Pairwise fun a b => xs.idxOf a < xs.idxOf b := by
  induction xs using List.reverseRecOn with
  | nil => exact List.Pairwise.nil
  | append_singleton xs x ih =>
    have hbefore : ∀ a ∈ distinct xs, (xs ++ [x]).idxOf a = xs.idxOf a :=
      fun a ha => List.idxOf_append_of_mem (mem_distinct.1 ha)
    have hkept : (distinct xs).Pairwise fun a b => (xs ++ [x]).idxOf a < (xs ++ [x]).idxOf b :=
      ih.imp_of_mem fun ha hb h => by rwa [hbefore _ ha, hbefore _ hb]
    rw [distinct_concat, insertNew]
    split
    · exact hkept
    · next hx =>
      refine List.pairwise_append.2 ⟨hkept, List.pairwise_singleton .., fun a ha b hb => ?_⟩
      have hnew : (xs ++ [x]).idxOf x = xs.length := by
        rw [List.idxOf_append_of_notMem (fun h => hx (mem_distinct.2 h)), List.idxOf_cons_self,
          Nat.add_zero]
      rw [List.mem_singleton.1 hb, hnew, hbefore a ha]
      exact List.idxOf_lt_length_of_mem (mem_distinct.1 ha)

/-- Whether the first `a` of a list stands in front of every `b`, and there is one. -/
def FirstBefore (xs : List α) (a b : α) : Prop :=
  ∃ front behind, xs = front ++ a :: behind ∧ b ∉ front ++ [a] ∧ b ∈ behind

theorem firstBefore_of_idxOf_lt {xs : List α} {a b : α} (ha : a ∈ xs) (hb : b ∈ xs)
    (h : xs.idxOf a < xs.idxOf b) : FirstBefore xs a b := by
  obtain ⟨front, behind, rfl, hfront⟩ := List.eq_append_cons_of_mem ha
  have hplace : (front ++ a :: behind).idxOf a = front.length := by
    rw [List.idxOf_append_of_notMem hfront, List.idxOf_cons_self, Nat.add_zero]
  rw [hplace] at h
  have hnew : b ∉ front ++ [a] := by
    intro hmem
    rcases List.mem_append.1 hmem with hmem | hmem
    · rw [List.idxOf_append_of_mem hmem] at h
      exact absurd (List.idxOf_lt_length_of_mem hmem) (Nat.lt_asymm h)
    · rw [List.mem_singleton.1 hmem, hplace] at h
      exact Nat.lt_irrefl _ h
  refine ⟨front, behind, rfl, hnew, ?_⟩
  rw [List.append_cons] at hb
  exact (List.mem_append.1 hb).resolve_left hnew

theorem idxOf_lt_of_firstBefore {xs : List α} {a b : α} (h : FirstBefore xs a b) :
    xs.idxOf a < xs.idxOf b := by
  obtain ⟨front, behind, rfl, hnew, -⟩ := h
  have ha : a ∈ front ++ [a] := List.mem_append_right _ (List.mem_singleton_self a)
  rw [List.append_cons, List.idxOf_append_of_mem ha, List.idxOf_append_of_notMem hnew]
  exact Nat.lt_add_right _ (List.idxOf_lt_length_of_mem ha)

end CallBridge.Collection
