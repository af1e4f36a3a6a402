/-!
# Bounded buffers

A buffer holds at most `capacity` items, the oldest first. Pushing onto a full buffer drops its
oldest item; a buffer without room drops what is pushed. Main statement: nothing is lost but what
a push reports as dropped (`push_conserves`).
-/

namespace CallBridge.Collection

/-- Elements in the order they came in, and how many of them are kept. -/
structure Buffer (α : Type) where
  capacity : Nat
  items : List α
  deriving Repr

namespace Buffer

variable {α : Type}

def empty (capacity : Nat) : Buffer α := ⟨capacity, []⟩

/-- The buffer with an item more, and the item that is dropped. -/
def push (b : Buffer α) (x : α) : Buffer α × Option α :=
  if b.capacity = 0 then (b, some x)
  else if b.items.length < b.capacity then ({ b with items := b.items ++ [x] }, none)
  else ({ b with items := b.items.tail ++ [x] }, b.items.head?)

def clear (b : Buffer α) : Buffer α := { b with items := [] }

/-- The element that came last. -/
def last? (b : Buffer α) : Option α := b.items.getLast?

/-- Changes the newest item. -/
def updateLast (b : Buffer α) (f : α → α) : Buffer α :=
  match b.items.getLast? with
  | some x => { b with items := b.items.dropLast ++ [f x] }
  | none => b

/-- What is dropped followed by what is held is what was held and what is pushed. -/
theorem push_conserves (b : Buffer α) (x : α) (h : 0 < b.capacity) :
    (b.push x).2.toList ++ (b.push x).1.items = b.items ++ [x] := by
  unfold push
  rw [if_neg (by omega)]
  split
  · simp
  · cases hi : b.items with
    | nil => simp_all
    | cons y ys => simp

/-- A buffer that is not too full does not become so. -/
theorem length_push_le (b : Buffer α) (x : α) (h : b.items.length ≤ b.capacity) :
    (b.push x).1.items.length ≤ b.capacity := by
  unfold push
  split
  · exact h
  · split <;> simp <;> omega

end Buffer

end CallBridge.Collection
