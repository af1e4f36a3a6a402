import CallBridge.Collection.Ordered
import CallBridge.Json.Basic
import CallBridge.Text.Units
import CallBridge.Text.Word
import CallBridge.Url.Split

/-!
# Query strings

The parameters of a form-encoded query string with typed values: integers and truth values lose
their quotes, a value with commas becomes a list. Lists are split before they are decoded, so an
encoded comma stays inside its element. A repeated key keeps its place and its last value.
-/

namespace CallBridge.Url

open CallBridge.Collection CallBridge.Json CallBridge.Text

/-! ### Decoding -/

def hexValue? (b : UInt8) : Option UInt8 :=
  if 48 ≤ b ∧ b ≤ 57 then some (b - 48)
  else if 97 ≤ b ∧ b ≤ 102 then some (b - 87)
  else if 65 ≤ b ∧ b ≤ 70 then some (b - 55)
  else none

/-- The bytes that form-encoded bytes stand for: a plus is a space, a percent sign with two
hexadecimal digits one byte. Any other percent sign stays. -/
def decodeForm : List UInt8 → List UInt8
  | [] => []
  | 0x2b :: rest => 0x20 :: decodeForm rest
  | 0x25 :: a :: b :: rest =>
    match hexValue? a, hexValue? b with
    | some high, some low => (high * 16 + low) :: decodeForm rest
    | _, _ => 0x25 :: decodeForm (a :: b :: rest)
  | b :: rest => b :: decodeForm rest

/-- The text that a form-encoded text stands for. -/
def percentDecode (cs : List Char) : List Char := decodeBytes (decodeForm (encodeBytes cs))

/-! ### Values -/

/-- The number that decimal digits stand for. -/
def readDigits? (ds : List Char) : Option Nat :=
  if ds.isEmpty || !ds.all Char.isDigit then none
  else some (ds.foldl (fun n c => n * 10 + (c.toNat - 48)) 0)

/-- An integer of 64 bits with a possible sign. -/
def readInteger? (cs : List Char) : Option Int :=
  match cs with
  | '-' :: ds => (readDigits? ds).bind fun n => if n ≤ Nat.pow 2 63 then some (-(n : Int)) else none
  | '+' :: ds => (readDigits? ds).bind fun n => if n < Nat.pow 2 63 then some (n : Int) else none
  | ds => (readDigits? ds).bind fun n => if n < Nat.pow 2 63 then some (n : Int) else none

/-- Whether a number is rather an identifier, such as a postal code. -/
def keepsText (cs : List Char) : Bool :=
  match cs with
  | '0' :: _ :: _ => true
  | '+' :: _ => true
  | _ => false

/-- The typed value of a decoded text. -/
def coerceScalar (cs : List Char) : Value :=
  let plain : Value :=
    if cs = "true".toList then .bool true
    else if cs = "false".toList then .bool false
    else .string (String.ofList cs)
  if keepsText cs then plain else (readInteger? cs).elim plain Value.int

/-! ### Parameters -/

/-- The value of the part behind an equals sign. -/
def coerceValue (raw : List Char) : Value :=
  if raw.contains ',' then
    .array ((raw.splitOn ',').map fun part => coerceScalar (trimBlank (percentDecode part)))
  else coerceScalar (percentDecode raw)

/-- The key and the value of a pair; without an equals sign the value is empty. -/
def readPair (pair : List Char) : String × Value :=
  let (key, rest) := pair.span (· != '=')
  (String.ofList (percentDecode key), coerceValue (rest.drop 1))

/-- The parameters of a URL in the order of their first occurrence. -/
def parameters (url : List Char) : Ordered String Value :=
  match query? url with
  | none => []
  | some query => .ofList (((query.splitOn '&').filter (!·.isEmpty)).map readPair)

/-- The parameters as the fields of an object. -/
def parameterObject (url : List Char) : Value := .mk (parameters url)

end CallBridge.Url
