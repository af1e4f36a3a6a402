import CallBridge.Collection.Distinct
import CallBridge.Json.Printer
import CallBridge.Source.Location

/-!
# Source maps

A source map ties places of a generated text to places of its source. Its mappings are lists of
differences in base 64, each digit holding five bits and a flag that another digit follows. A
recorded position gives its name to every token that starts where it was recorded; the first
one recorded at a location wins.
-/

namespace CallBridge.Source

open CallBridge.Collection CallBridge.Json CallBridge.Text

/-- A place of the generated text and the place of the source it comes from, both counted from
zero. -/
structure Token where
  line : Nat
  column : Nat
  sourceLine : Nat
  sourceColumn : Nat
  /-- Whether the token points into the source at all. -/
  mapped : Bool
  deriving DecidableEq, Repr

/-- A token with the index of its name. -/
structure NamedToken where
  token : Token
  name : Option Nat
  deriving DecidableEq, Repr

/-- A recorded position: where a construct stood and where it stands. -/
structure Mapping where
  origin : Location
  generated : Location
  name : String
  deriving DecidableEq, Repr

namespace Mapping

/-- The position of a construct replaced in place. -/
def ofReplacement (place : Location) (web platform : String) : Mapping :=
  ⟨place, place, web ++ "->" ++ platform⟩

end Mapping

/-! ### Names -/

def nameTable (entries : List Mapping) : List String := distinct (entries.map (·.name))

/-- The name of a token: that of the first entry recorded where it starts. -/
def nameOf? (entries : List Mapping) (t : Token) : Option String :=
  if t.mapped then
    (entries.find? fun e => e.origin.line == t.sourceLine + 1 &&
      e.origin.column == t.sourceColumn).map (·.name)
  else none

def nameToken (entries : List Mapping) (t : Token) : NamedToken :=
  ⟨t, (nameOf? entries t).bind fun n => (nameTable entries).idxOf? n⟩

/-! ### Mappings -/

/-- The digit of a number below 64. -/
def base64Digit (n : Nat) : Char :=
  if n < 26 then Char.ofNat (65 + n)
  else if n < 52 then Char.ofNat (97 + (n - 26))
  else if n < 62 then Char.ofNat (48 + (n - 52))
  else if n = 62 then '+'
  else '/'

/-- The digits of a natural, the five lowest bits first. -/
def base64Digits (n : Nat) : List Char :=
  if n < 32 then [base64Digit n] else base64Digit (n % 32 + 32) :: base64Digits (n / 32)
termination_by n

/-- A difference, its sign in the lowest bit. -/
def writeDifference (d : Int) : List Char :=
  base64Digits (if d < 0 then 2 * d.natAbs + 1 else 2 * d.natAbs)

/-- What the next differences count from. -/
structure Cursor where
  line : Nat
  column : Nat
  sourceLine : Nat
  sourceColumn : Nat
  name : Nat
  /-- Whether a token has been written. -/
  started : Bool

def Cursor.start : Cursor := ⟨0, 0, 0, 0, 0, false⟩

def difference (a b : Nat) : List Char := writeDifference ((a : Int) - b)

/-- The fields of a token. A map has one source, so its index never changes. -/
def writeFields (c : Cursor) (t : NamedToken) : List Char :=
  let source :=
    if t.token.mapped then
      'A' :: difference t.token.sourceLine c.sourceLine ++
        difference t.token.sourceColumn c.sourceColumn ++
        (t.name.elim [] fun n => difference n c.name)
    else []
  difference t.token.column c.column ++ source

/-- The cursor behind a token. -/
def Cursor.past (c : Cursor) (t : NamedToken) : Cursor :=
  { line := t.token.line
    column := t.token.column
    sourceLine := if t.token.mapped then t.token.sourceLine else c.sourceLine
    sourceColumn := if t.token.mapped then t.token.sourceColumn else c.sourceColumn
    name := if t.token.mapped then t.name.getD c.name else c.name
    started := true }

/-- The mappings of tokens in the order of the generated text: a semicolon ends a line, a comma a
token. -/
def writeMappings : Cursor → List NamedToken → List Char
  | _, [] => []
  | c, t :: rest =>
    let lines := t.token.line - c.line
    if 0 < lines then
      let c := { c with column := 0 }
      List.replicate lines ';' ++ writeFields c t ++ writeMappings (c.past t) rest
    else (if c.started then [','] else []) ++ writeFields c t ++ writeMappings (c.past t) rest

/-! ### The text of a map -/

/-- Why a map cannot be written. -/
inductive MapProblem where
  /-- An entry has line zero. -/
  | noSuchLine
  /-- A token stands on an earlier line than the one before it. -/
  | backwards
  deriving DecidableEq, Repr

def MapProblem.message : MapProblem → String
  | noSuchLine | backwards => "attempt to subtract with overflow"

/-- Whether lines never go back. -/
def isOrdered (tokens : List Token) : Bool :=
  (tokens.zip tokens.tail).all fun (a, b) => a.line ≤ b.line

/-- A JSON array of strings. -/
def writeStrings (xs : List String) : List Char :=
  '[' :: withCommas (xs.map fun s => quoteJson s.toList) ++ [']']

/-- The fields of a map, in the order they are written. -/
structure SourceMap where
  file : String
  names : List String
  source : String
  mappings : List Char

/-- The map of tokens under the names of the recorded entries. -/
def SourceMap.build (entries : List Mapping) (tokens : List Token) (file source : String) :
    Except MapProblem SourceMap :=
  if entries.any fun e => e.origin.line == 0 then .error .noSuchLine
  else if !isOrdered tokens then .error .backwards
  else
    .ok ⟨file, nameTable entries, source,
      writeMappings .start (tokens.map (nameToken entries))⟩

/-- The text of a map. -/
def SourceMap.render (m : SourceMap) : String :=
  String.ofList <|
    "\x7b\"version\":3,\"file\":".toList ++ quoteJson m.file.toList ++
    ",\"names\":".toList ++ writeStrings m.names ++
    ",\"sources\":".toList ++ writeStrings [m.file] ++
    ",\"sourcesContent\":".toList ++ writeStrings [m.source] ++
    ",\"mappings\":".toList ++ quoteJson m.mappings ++ ['\x7d']

end CallBridge.Source
