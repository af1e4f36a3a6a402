import CallBridge.Text.Word

/-!
# Counting calls in a text

A call is looked for without reading the script: one of some names, blanks, and an opening
parenthesis, at the start of the text or behind a character that cannot be part of the name. A call
that has been counted is passed over as a whole, with the character in front of it.
-/

namespace CallBridge.Marker

open Text

/-- What stands behind a beginning of a text. -/
def afterName? : List Char → List Char → Option (List Char)
  | [], cs => some cs
  | n :: ns, c :: cs => if n = c then afterName? ns cs else none
  | _ :: _, [] => none

/-- The length of the call that a text begins with. -/
def callLength? (names : List (List Char)) (cs : List Char) : Option Nat :=
  names.findSome? fun name =>
    (afterName? name cs).bind fun rest =>
      match rest.dropWhile isBlank with
      | '(' :: tail => some (cs.length - tail.length)
      | _ => none

/-- Counts behind a number of characters to be passed over. -/
def countFrom (names : List (List Char)) (boundary : Char → Bool) : Nat → List Char → Nat
  | _, [] => 0
  | skip + 1, _ :: rest => countFrom names boundary skip rest
  | 0, c :: rest =>
    if boundary c then
      match callLength? names rest with
      | some n => countFrom names boundary n rest + 1
      | none => countFrom names boundary 0 rest
    else countFrom names boundary 0 rest

/-- The number of calls of some names. -/
def countCalls (names : List (List Char)) (boundary : Char → Bool) (cs : List Char) : Nat :=
  match callLength? names cs with
  | some n => countFrom names boundary n cs + 1
  | none => countFrom names boundary 0 cs

/-- A character that may stand in front of a method. -/
def beforeMethod (c : Char) : Bool := !(isWord c || c == '$')

/-- A character that may stand in front of a variable. -/
def beforeVariable (c : Char) : Bool := !(isWord c || c == '$' || c == '.')

/-- The names that are looked for; an empty one is none. -/
def markerNames (names : List String) : List (List Char) :=
  (names.map String.toList).filter (!·.isEmpty)

/-- The number of calls of methods with some names. -/
def countMethods (names : List String) (text : String) : Nat :=
  countCalls (markerNames names) beforeMethod text.toList

/-- The number of calls of functions with some dotted names. -/
def countFunctions (names : List String) (text : String) : Nat :=
  countCalls (markerNames names) beforeVariable text.toList

/-! ### Words -/

/-- Whether a word stands in a text, the character in front being given. -/
def hasWordAfter (word : List Char) (joined : Bool) : List Char → Bool
  | [] => word.isEmpty
  | c :: rest =>
    let here :=
      !joined &&
        match afterName? word (c :: rest) with
        | some tail => !(tail.head?.any isWord)
        | none => false
    here || hasWordAfter word (isWord c) rest

/-- Whether a word stands in a text by itself. -/
def hasWord (word : String) (text : String) : Bool := hasWordAfter word.toList false text.toList

end CallBridge.Marker
