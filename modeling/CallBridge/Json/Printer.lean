import CallBridge.Json.Basic
import CallBridge.Text.Quoted

/-!
# JSON text

The compact text of a value: no blanks, fields in the order of their names.
-/

namespace CallBridge.Json

open CallBridge.Text

/-- Texts with a comma between neighbours. -/
def withCommas : List (List Char) → List Char
  | [] => []
  | [x] => x
  | x :: rest => x ++ ',' :: withCommas rest

mutual

/-- The text of a value. -/
def Value.write : Value → List Char
  | .null => "null".toList
  | .bool true => "true".toList
  | .bool false => "false".toList
  | .number n => n.write
  | .string s => quoteJson s.toList
  | .array items => '[' :: withCommas (writeItems items) ++ [']']
  | .object fields => '\x7b' :: withCommas (writeFields fields) ++ ['\x7d']

/-- The texts of the items of an array. -/
def writeItems : List Value → List (List Char)
  | [] => []
  | v :: rest => v.write :: writeItems rest

/-- The texts of the fields of an object. -/
def writeFields : List (String × Value) → List (List Char)
  | [] => []
  | (k, v) :: rest => (quoteJson k.toList ++ ':' :: v.write) :: writeFields rest

end

/-- The text of a value as a string. -/
def Value.render (v : Value) : String := String.ofList v.write

end CallBridge.Json
