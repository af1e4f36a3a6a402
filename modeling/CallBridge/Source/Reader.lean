import CallBridge.Json.Reader
import CallBridge.Source.Map

/-!
# Reading source maps

`readMappings?` gives the tokens that the mappings of a map stand for, each with the index of its
name; `SourceMap.ofText?` the fields of a map from its text.
-/

namespace CallBridge.Source

open CallBridge.Json

/-- The number of a digit. -/
def base64Value? (c : Char) : Option Nat :=
  if 'A' ≤ c ∧ c ≤ 'Z' then some (c.toNat - 65)
  else if 'a' ≤ c ∧ c ≤ 'z' then some (c.toNat - 97 + 26)
  else if '0' ≤ c ∧ c ≤ '9' then some (c.toNat - 48 + 52)
  else if c = '+' then some 62
  else if c = '/' then some 63
  else none

/-- The difference whose sign is in the lowest bit. -/
def signedDifference (n : Nat) : Int := if n % 2 = 0 then (n / 2 : Nat) else -((n / 2 : Nat) : Int)

/-- The differences of a segment, from the bits of the first one so far and the weight of its next
digit. -/
def readDifferences? (bits weight : Nat) : List Char → Option (List Int)
  | [] => if weight = 1 then some [] else none
  | c :: rest =>
    (base64Value? c).bind fun n =>
      let bits := bits + n % 32 * weight
      if n < 32 then (readDifferences? 0 1 rest).map (signedDifference bits :: ·)
      else readDifferences? bits (weight * 32) rest

def moved (n : Nat) (d : Int) : Nat := (n + d).toNat

/-- The token of a segment: one difference without a source, four with one, five with a name. -/
def readToken? (c : Cursor) : List Int → Option NamedToken
  | [column] => some ⟨⟨c.line, moved c.column column, 0, 0, false⟩, none⟩
  | [column, _, line, sourceColumn] =>
    some ⟨⟨c.line, moved c.column column, moved c.sourceLine line,
      moved c.sourceColumn sourceColumn, true⟩, none⟩
  | [column, _, line, sourceColumn, name] =>
    some ⟨⟨c.line, moved c.column column, moved c.sourceLine line,
      moved c.sourceColumn sourceColumn, true⟩, some (moved c.name name)⟩
  | _ => none

/-- The tokens of the segments of a line and the cursor behind them. -/
def readSegments? : Cursor → List (List Char) → Option (List NamedToken × Cursor)
  | c, [] => some ([], c)
  | c, segment :: rest => do
    let t ← readToken? c (← readDifferences? 0 1 segment)
    let (ts, c) ← readSegments? (c.past t) rest
    return (t :: ts, c)

/-- The tokens of lines; a line without a text has none. -/
def readLines? : Cursor → List (List Char) → Option (List NamedToken)
  | _, [] => some []
  | c, line :: rest => do
    let segments := if line.isEmpty then [] else line.splitOn ','
    let (ts, c) ← readSegments? { c with column := 0 } segments
    let more ← readLines? { c with line := c.line + 1 } rest
    return ts ++ more

/-- The tokens of mappings. -/
def readMappings? (mappings : List Char) : Option (List NamedToken) :=
  readLines? .start (mappings.splitOn ';')

/-- The fields of a map with one source. -/
def SourceMap.ofText? (text : String) : Option SourceMap := do
  let v ← readValue? text
  let strings (name : String) : Option (List String) :=
    (v.get? name).bind fun v => v.array?.bind fun items => items.mapM Value.string?
  let file ← (v.get? "file").bind Value.string?
  let names ← strings "names"
  let mappings ← (v.get? "mappings").bind Value.string?
  match ← strings "sourcesContent" with
  | [source] => return ⟨file, names, source, mappings.toList⟩
  | _ => none

end CallBridge.Source
