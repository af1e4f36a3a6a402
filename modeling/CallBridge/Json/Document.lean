import CallBridge.Json.Basic

/-!
# JSON as written

A document is the tree of a JSON text before any field has been given a meaning: fields stand in
the order of the text, a name may occur twice, and a number out of range or a text with half a
surrogate pair is kept as a leaf without value. `Document.value?` gives the value of a document,
later fields winning; a document that nests too deep has none.
-/

namespace CallBridge.Json

/-- A JSON text as a tree. -/
inductive Document where
  | null
  | bool (b : Bool)
  /-- None for a number that is out of range. -/
  | number (n : Option Number)
  /-- None for a text that is not Unicode. -/
  | string (s : Option String)
  | array (items : List Document)
  | object (fields : List (Option String × Document))
  deriving Repr

/-- How deep arrays and objects may nest in a value. -/
def maxDepth : Nat := 127

namespace Document

mutual

/-- The value of a document whose arrays and objects nest at most `depth` deep. -/
def valueWithin : Nat → Document → Option Value
  | _, .null => some .null
  | _, .bool b => some (.bool b)
  | _, .number n => n.map .number
  | _, .string s => s.map .string
  | 0, .array _ => none
  | 0, .object _ => none
  | depth + 1, .array items => (itemsWithin depth items).map .array
  | depth + 1, .object fields =>
    (fieldsWithin depth fields).map fun entries => .object (Fields.ofList entries)

def itemsWithin : Nat → List Document → Option (List Value)
  | _, [] => some []
  | depth, d :: rest =>
    match valueWithin depth d, itemsWithin depth rest with
    | some v, some vs => some (v :: vs)
    | _, _ => none

def fieldsWithin : Nat → List (Option String × Document) → Option (List (String × Value))
  | _, [] => some []
  | depth, (k, d) :: rest =>
    match k, valueWithin depth d, fieldsWithin depth rest with
    | some k, some v, some entries => some ((k, v) :: entries)
    | _, _, _ => none

end

/-- The value of a document. -/
def value? (d : Document) : Option Value := valueWithin maxDepth d

mutual

/-- The document that a value is written as. -/
def ofValue : Value → Document
  | .null => .null
  | .bool b => .bool b
  | .number n => .number (some n)
  | .string s => .string (some s)
  | .array items => .array (ofItems items)
  | .object fields => .object (ofFields fields)

def ofItems : List Value → List Document
  | [] => []
  | v :: rest => ofValue v :: ofItems rest

def ofFields : List (String × Value) → List (Option String × Document)
  | [] => []
  | (k, v) :: rest => (some k, ofValue v) :: ofFields rest

end

end Document

end CallBridge.Json
