import CallBridge.Json.Document

/-!
# Records in documents

A record is written as an object, its fields under their names, or as an array, its fields by
place. `members?` brings both to one list of the fields that are present: unknown names are passed
over, a field given twice or more items than fields make the record unreadable. What is missing is
decided field by field.
-/

namespace CallBridge.Json

open CallBridge.Number

namespace Document

/-! ### Leaves -/

def text? : Document → Option String
  | .string s => s
  | _ => none

def bool? : Document → Option Bool
  | .bool b => some b
  | _ => none

/-- A natural below a bound. -/
def natBelow? (bound : Nat) : Document → Option Nat
  | .number (some (.int n)) => if 0 ≤ n ∧ n < bound then some n.toNat else none
  | _ => none

/-- A double; integers count as well. -/
def real? : Document → Option Binary64
  | .number (some (.int n)) => some (.ofInt n)
  | .number (some (.real x)) => some x
  | _ => none

/-- A choice by its name; the name may also be the key of null. -/
def choice? {α : Type} (name : α → String) (all : List α) : Document → Option α
  | .string (some s) => all.find? fun a => name a == s
  | .object [(some s, .null)] => all.find? fun a => name a == s
  | _ => none

/-! ### Lists and options -/

/-- What may be null. -/
def option? {α : Type} (read : Document → Option α) : Document → Option (Option α)
  | .null => some none
  | d => (read d).map some

def list? {α : Type} (read : Document → Option α) : Document → Option (List α)
  | .array items => items.mapM read
  | _ => none

end Document

/-! ### Records -/

/-- The fields of a record that are present, under their own names. -/
structure Members where
  /-- Whether they were written by name. -/
  named : Bool
  present : List (String × Document)
  deriving Repr

/-- The fields of a record with given names; an alias stands for a name. -/
def Document.members? (names : List String) (aliases : List (String × String)) :
    Document → Option Members
  | .object fields => do
    let entries ← fields.mapM fun (k, d) => k.map fun k => ((aliases.lookup k).getD k, d)
    let known := entries.filter fun e => names.contains e.1
    if (known.map Prod.fst).Nodup then some ⟨true, known⟩ else none
  | .array items => if items.length ≤ names.length then some ⟨false, names.zip items⟩ else none
  | _ => none

namespace Members

variable {α : Type}

/-- A field that must be present. -/
def get? (m : Members) (name : String) (read : Document → Option α) : Option α :=
  (m.present.lookup name).bind read

/-- A field with a default. -/
def getD? (m : Members) (name : String) (read : Document → Option α) (default : α) : Option α :=
  (m.present.lookup name).elim (some default) read

/-- A field that may be null, and that may be missing where fields have names. -/
def option? (m : Members) (name : String) (read : Document → Option α) : Option (Option α) :=
  match m.present.lookup name with
  | some d => d.option? read
  | none => if m.named then some none else none

theorem getD?_of_missing {m : Members} {name : String} (h : m.present.lookup name = none)
    (read : Document → Option α) (default : α) : m.getD? name read default = some default := by
  simp [getD?, h]

theorem getD?_of_present {m : Members} {name : String} {d : Document}
    (h : m.present.lookup name = some d) (read : Document → Option α) (default : α) :
    m.getD? name read default = read d := by
  simp [getD?, h]

end Members

end CallBridge.Json
