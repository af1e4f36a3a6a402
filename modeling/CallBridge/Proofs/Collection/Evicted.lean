import CallBridge.Proofs.Collection.Latest
import Mathlib.Data.List.ReduceOption

/-!
# What a buffer drops

A buffer is used by pushing and clearing, and every push returns the item that it drops, if it drops
one. Main statement: what was returned since the last clearing, and what is held, account for what was
pushed since then (`accounts_used`).
-/

namespace CallBridge.Collection

variable {α β : Type}

/-- The steps behind the last one that clears. -/
def sinceClear (clears : β → Bool) (steps : List β) : List β := steps.rtakeWhile fun s => !clears s

theorem sinceClear_concat (clears : β → Bool) (steps : List β) (s : β) :
    sinceClear clears (steps ++ [s]) = if clears s then [] else sinceClear clears steps ++ [s] := by
  rw [sinceClear, List.rtakeWhile_concat]
  cases clears s <;> rfl

namespace Buffer

/-! ### Use -/

/-- What is done to a buffer. -/
inductive Operation (α : Type) where
  | push (x : α)
  | clear
  deriving DecidableEq, Repr

namespace Operation

def isClear : Operation α → Bool
  | push _ => false
  | clear => true

def pushed? : Operation α → Option α
  | push x => some x
  | clear => none

end Operation

/-- The items pushed since the last clearing. -/
def pushedSince (ops : List (Operation α)) : List α :=
  (sinceClear Operation.isClear ops).filterMap Operation.pushed?

/-- A buffer with what every push since the last clearing has returned. -/
structure Used (α : Type) where
  buffer : Buffer α
  returned : List (Option α)
  deriving Repr

def Used.apply (u : Used α) : Operation α → Used α
  | .push x => ⟨(u.buffer.push x).1, u.returned ++ [(u.buffer.push x).2]⟩
  | .clear => ⟨u.buffer.clear, []⟩

/-- A new buffer behind a number of operations. -/
def used (capacity : ℕ) (ops : List (Operation α)) : Used α :=
  ops.foldl Used.apply ⟨empty capacity, []⟩

theorem pushedSince_push (ops : List (Operation α)) (x : α) :
    pushedSince (ops ++ [.push x]) = pushedSince ops ++ [x] := by
  rw [pushedSince, sinceClear_concat]
  exact List.filterMap_append

theorem pushedSince_clear (ops : List (Operation α)) : pushedSince (ops ++ [.clear]) = [] := by
  rw [pushedSince, sinceClear_concat]
  rfl

/-! ### Accounts -/

/-- What a buffer holds are the last of the items pushed; with those that it has returned in front of
them they are all, and without room every item is returned. -/
structure Accounts (n : ℕ) (pushed : List α) (u : Used α) : Prop where
  capacity : u.buffer.capacity = n
  held : u.buffer.items = pushed.rtake n
  all : 0 < n → u.returned.reduceOption ++ u.buffer.items = pushed
  none_kept : n = 0 → u.returned = pushed.map some

variable {n : ℕ} {pushed : List α} {u : Used α}

theorem accounts_empty (n : ℕ) : Accounts n [] (⟨empty n, []⟩ : Used α) where
  capacity := rfl
  held := (List.rtake_nil n).symm
  all := fun _ => rfl
  none_kept := fun _ => rfl

theorem Accounts.clear (h : Accounts n pushed u) : Accounts n [] (u.apply .clear) where
  capacity := h.capacity
  held := (List.rtake_nil n).symm
  all := fun _ => rfl
  none_kept := fun _ => rfl

theorem Accounts.push (h : Accounts n pushed u) (x : α) :
    Accounts n (pushed ++ [x]) (u.apply (.push x)) where
  capacity := (capacity_push u.buffer x).trans h.capacity
  held := by
    have hbound : u.buffer.items.length ≤ u.buffer.capacity := by
      rw [h.held, h.capacity]
      exact length_rtake_le n pushed
    calc (u.buffer.push x).1.items = (u.buffer.items ++ [x]).rtake u.buffer.capacity :=
          items_push hbound x
      _ = (pushed.rtake n ++ [x]).rtake n := by rw [h.held, h.capacity]
      _ = (pushed ++ [x]).rtake n := rtake_append_rtake n pushed [x]
  all := fun hn => by
    have hstep := push_conserves u.buffer x (h.capacity ▸ hn)
    change (u.returned ++ [(u.buffer.push x).2]).reduceOption ++ (u.buffer.push x).1.items = _
    rw [← List.concat_eq_append, List.reduceOption_concat, List.append_assoc, hstep,
      ← List.append_assoc, h.all hn]
  none_kept := fun hn => by
    have hreturned : (u.buffer.push x).2 = some x := by
      rw [Buffer.push, if_pos (h.capacity.trans hn)]
    change u.returned ++ [(u.buffer.push x).2] = _
    rw [hreturned, h.none_kept hn, List.map_append, List.map_singleton]

/-- However a buffer was used, it accounts for what was pushed since the last clearing. -/
theorem accounts_used (n : ℕ) (ops : List (Operation α)) :
    Accounts n (pushedSince ops) (used n ops) := by
  induction ops using List.reverseRecOn with
  | nil => exact accounts_empty n
  | append_singleton ops op ih =>
    rw [used, List.foldl_concat]
    cases op with
    | push x =>
      rw [pushedSince_push]
      exact ih.push x
    | clear =>
      rw [pushedSince_clear]
      exact ih.clear

end Buffer

end CallBridge.Collection
