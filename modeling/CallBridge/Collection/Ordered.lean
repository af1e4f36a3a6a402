/-!
# Ordered maps

A list of keys with values in which each key occurs once, in the order of first insertion. Setting
a key again changes its value and keeps its place. Main statements: `keys_set` says which keys stand
where after a `set`, and `get?_set` what they hold.
-/

namespace CallBridge.Collection

/-- Keys with values, in the order of first insertion. -/
abbrev Ordered (κ α : Type) := List (κ × α)

namespace Ordered

variable {κ α : Type} [DecidableEq κ]

/-- Gives a key a value. -/
def set (k : κ) (a : α) : Ordered κ α → Ordered κ α
  | [] => [(k, a)]
  | (k', a') :: rest => if k = k' then (k', a) :: rest else (k', a') :: set k a rest

/-- The value of a key. -/
def get? (k : κ) : Ordered κ α → Option α
  | [] => none
  | (k', a) :: rest => if k = k' then some a else get? k rest

/-- Entries set one after the other. -/
def ofList (entries : List (κ × α)) : Ordered κ α :=
  entries.foldl (fun m e => set e.1 e.2 m) []

def keys (m : Ordered κ α) : List κ := m.map Prod.fst

/-- A new key goes to the end, a known one stays. -/
theorem keys_set (k : κ) (a : α) (m : Ordered κ α) :
    keys (set k a m) = if k ∈ keys m then keys m else keys m ++ [k] := by
  induction m with
  | nil => simp [set, keys]
  | cons e rest ih =>
    obtain ⟨k', a'⟩ := e
    by_cases h : k = k'
    · simp [set, keys, h]
    · simp only [keys, List.map_cons, set, h, ↓reduceIte, List.mem_cons, false_or] at ih ⊢
      split <;> simp_all

theorem get?_set (k k' : κ) (a : α) (m : Ordered κ α) :
    get? k' (set k a m) = if k' = k then some a else get? k' m := by
  induction m with
  | nil => simp [set, get?]
  | cons e rest ih =>
    obtain ⟨k₀, a₀⟩ := e
    grind [set, get?]

end Ordered

end CallBridge.Collection
