import CallBridge.Json.Document

/-!
# Reading JSON text

`read?` reads a text that is one JSON document with blanks around it. Each scanner takes the text
still to be read and gives back what it found and the rest; the two that call each other are
bounded by a budget computed from the length of the text, which no document can use up.
-/

namespace CallBridge.Json

def isJsonBlank (c : Char) : Bool := c == ' ' || c == '\n' || c == '\t' || c == '\r'

def skipBlanks (cs : List Char) : List Char := cs.dropWhile isJsonBlank

/-! ### Numbers -/

/-- Decimal digits at the front. -/
def spanDigits (cs : List Char) : List Char × List Char := cs.span Char.isDigit

/-- At least one decimal digit. -/
def spanDigits1? (cs : List Char) : Option (List Char × List Char) :=
  match spanDigits cs with
  | ([], _) => none
  | found => some found

def readExponent? : List Char → Option (Option (Bool × List Char) × List Char)
  | c :: rest =>
    if c == 'e' || c == 'E' then
      let (minus, rest) :=
        match rest with
        | '-' :: r => (true, r)
        | '+' :: r => (false, r)
        | r => (false, r)
      (spanDigits1? rest).map fun (ds, r) => (some (minus, ds), r)
    else some (none, c :: rest)
  | [] => some (none, [])

/-- A numeral; a leading zero stands alone. -/
def readNumeral? (negative : Bool) (cs : List Char) : Option (Numeral × List Char) := do
  let (whole, rest) ← spanDigits1? cs
  if whole.head? == some '0' && 1 < whole.length then none
  let (fraction, rest) ←
    match rest with
    | '.' :: r => (spanDigits1? r).map fun (ds, r) => (some ds, r)
    | r => some (none, r)
  let (exponent, rest) ← readExponent? rest
  some (⟨negative, whole, fraction, exponent⟩, rest)

/-! ### Strings -/

def hexValue? (c : Char) : Option Nat :=
  if '0' ≤ c ∧ c ≤ '9' then some (c.toNat - 48)
  else if 'a' ≤ c ∧ c ≤ 'f' then some (c.toNat - 87)
  else if 'A' ≤ c ∧ c ≤ 'F' then some (c.toNat - 55)
  else none

/-- A piece of a string: a character or one UTF-16 unit given by its number. -/
inductive Piece where
  | char (c : Char)
  | unit (n : Nat)
  deriving Repr

def simpleEscape? : Char → Option Char
  | '"' => some '"'
  | '\\' => some '\\'
  | '/' => some '/'
  | 'b' => some '\x08'
  | 'f' => some '\x0c'
  | 'n' => some '\n'
  | 'r' => some '\r'
  | 't' => some '\t'
  | _ => none

/-- The pieces of a string up to its closing quote. -/
def readPieces : List Char → Option (List Piece × List Char)
  | [] => none
  | '"' :: rest => some ([], rest)
  | '\\' :: 'u' :: a :: b :: c :: d :: rest =>
    match hexValue? a, hexValue? b, hexValue? c, hexValue? d with
    | some a, some b, some c, some d =>
      (readPieces rest).map fun (ps, r) => (.unit (((a * 16 + b) * 16 + c) * 16 + d) :: ps, r)
    | _, _, _, _ => none
  | '\\' :: e :: rest =>
    match simpleEscape? e with
    | some c => (readPieces rest).map fun (ps, r) => (.char c :: ps, r)
    | none => none
  | c :: rest =>
    if c.toNat < 32 || c == '\\' then none
    else (readPieces rest).map fun (ps, r) => (.char c :: ps, r)

/-- The text of pieces, two halves of a surrogate pair making one character; none when a half
stands alone. -/
def joinPieces? : List Piece → Option (List Char)
  | [] => some []
  | .char c :: rest => (joinPieces? rest).map (c :: ·)
  | .unit high :: .unit low :: rest =>
    if 0xd800 ≤ high ∧ high < 0xdc00 then
      if 0xdc00 ≤ low ∧ low < 0xe000 then
        (joinPieces? rest).map
          (Char.ofNat (0x10000 + (high - 0xd800) * 0x400 + (low - 0xdc00)) :: ·)
      else none
    else if 0xdc00 ≤ high ∧ high < 0xe000 then none
    else (joinPieces? (.unit low :: rest)).map (Char.ofNat high :: ·)
  | .unit n :: rest =>
    if 0xd800 ≤ n ∧ n < 0xe000 then none else (joinPieces? rest).map (Char.ofNat n :: ·)

/-- A string whose opening quote has been read. -/
def readString? (cs : List Char) : Option (Option String × List Char) :=
  (readPieces cs).map fun (ps, r) => ((joinPieces? ps).map String.ofList, r)

/-! ### Documents -/

/-- The text after a word, if it begins with it. -/
def afterWord? : List Char → List Char → Option (List Char)
  | [], cs => some cs
  | w :: ws, c :: cs => if w = c then afterWord? ws cs else none
  | _ :: _, [] => none

mutual

/-- One document and the rest of the text. -/
def readDocument : Nat → List Char → Option (Document × List Char)
  | 0, _ => none
  | budget + 1, cs =>
    match skipBlanks cs with
    | '"' :: rest => (readString? rest).map fun (s, r) => (.string s, r)
    | '[' :: rest =>
      match skipBlanks rest with
      | ']' :: r => some (.array [], r)
      | r => (readItems budget r).map fun (items, r) => (.array items, r)
    | '\x7b' :: rest =>
      match skipBlanks rest with
      | '\x7d' :: r => some (.object [], r)
      | r => (readMembers budget r).map fun (fields, r) => (.object fields, r)
    | 'n' :: rest => (afterWord? "ull".toList rest).map fun r => (.null, r)
    | 't' :: rest => (afterWord? "rue".toList rest).map fun r => (.bool true, r)
    | 'f' :: rest => (afterWord? "alse".toList rest).map fun r => (.bool false, r)
    | '-' :: rest => (readNumeral? true rest).map fun (l, r) => (.number l.toNumber?, r)
    | rest => (readNumeral? false rest).map fun (l, r) => (.number l.toNumber?, r)

/-- The items of an array up to its closing bracket. -/
def readItems : Nat → List Char → Option (List Document × List Char)
  | 0, _ => none
  | budget + 1, cs =>
    match readDocument budget cs with
    | none => none
    | some (d, rest) =>
      match skipBlanks rest with
      | ',' :: r => (readItems budget r).map fun (ds, r) => (d :: ds, r)
      | ']' :: r => some ([d], r)
      | _ => none

/-- The fields of an object up to its closing brace. -/
def readMembers : Nat → List Char → Option (List (Option String × Document) × List Char)
  | 0, _ => none
  | budget + 1, cs =>
    match skipBlanks cs with
    | '"' :: rest =>
      match readString? rest with
      | none => none
      | some (k, rest) =>
        match skipBlanks rest with
        | ':' :: rest =>
          match readDocument budget rest with
          | none => none
          | some (d, rest) =>
            match skipBlanks rest with
            | ',' :: r => (readMembers budget r).map fun (fields, r) => ((k, d) :: fields, r)
            | '\x7d' :: r => some ([(k, d)], r)
            | _ => none
        | _ => none
    | _ => none

end

/-- The document of a text, with nothing but blanks around it. -/
def read? (cs : List Char) : Option Document :=
  match readDocument (2 * cs.length + 2) cs with
  | some (d, rest) => if (skipBlanks rest).isEmpty then some d else none
  | none => none

/-- The value of a text. -/
def readValue? (s : String) : Option Value := (read? s.toList).bind Document.value?

end CallBridge.Json
