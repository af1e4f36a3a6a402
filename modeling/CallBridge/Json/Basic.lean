import CallBridge.Json.Number

/-!
# JSON values

A value keeps the fields of an object in the order of their names, each name once. `Fields.put`
is the only way fields are added; a name put again takes the later value.
-/

namespace CallBridge.Json

/-- A JSON value. -/
inductive Value where
  | null
  | bool (b : Bool)
  | number (n : Number)
  | string (s : String)
  | array (items : List Value)
  | object (fields : List (String × Value))
  deriving Repr

/-- The fields of an object, by name in ascending order. -/
abbrev Fields := List (String × Value)

namespace Fields

/-- Adds a field or replaces the one of that name. -/
def put (name : String) (v : Value) : Fields → Fields
  | [] => [(name, v)]
  | (k, w) :: rest =>
    if name = k then (name, v) :: rest
    else if name < k then (name, v) :: (k, w) :: rest
    else (k, w) :: put name v rest

/-- The value of a field. -/
def get? (name : String) (fields : Fields) : Option Value := fields.lookup name

/-- Fields given in any order, later ones winning. -/
def ofList (entries : List (String × Value)) : Fields :=
  entries.foldl (fun fields (k, v) => put k v fields) []

end Fields

namespace Value

/-- An object with the given fields. -/
def mk (entries : List (String × Value)) : Value := .object (Fields.ofList entries)

def nat (n : Nat) : Value := .number (.int n)

def int (n : Int) : Value := .number (.int n)

/-- The value, or null. -/
def ofOption {α : Type} (f : α → Value) : Option α → Value
  | some a => f a
  | none => .null

def ofList {α : Type} (f : α → Value) (xs : List α) : Value := .array (xs.map f)

/-- The field of an object. -/
def get? (name : String) : Value → Option Value
  | .object fields => Fields.get? name fields
  | _ => none

def isNull : Value → Bool
  | .null => true
  | _ => false

def string? : Value → Option String
  | .string s => some s
  | _ => none

def nat? : Value → Option Nat
  | .number (.int n) => if 0 ≤ n then some n.toNat else none
  | _ => none

def array? : Value → Option (List Value)
  | .array items => some items
  | _ => none

end Value

end CallBridge.Json
