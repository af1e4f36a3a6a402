import CallBridge.Text.Units

/-!
# Lines of a script

A line of a script ends at a line feed, a carriage return, both together, or one of the two
separators of Unicode. A place counts lines and UTF-16 units from zero.
-/

namespace CallBridge.Script

open CallBridge.Text

def isLineEnd (c : Char) : Bool :=
  c == '\n' || c == '\r' || c.toNat == 0x2028 || c.toNat == 0x2029

/-- The lines of a text without their ends. -/
def splitLines : List Char → List (List Char)
  | [] => [[]]
  | '\r' :: '\n' :: rest => [] :: splitLines rest
  | c :: rest =>
    if isLineEnd c then [] :: splitLines rest
    else
      match splitLines rest with
      | line :: lines => (c :: line) :: lines
      | [] => [[c]]

/-- A place in a text. -/
structure Place where
  line : Nat
  column : Nat
  deriving DecidableEq, Repr

/-- The place behind a text. -/
def placeAfter (cs : List Char) : Place :=
  let lines := splitLines cs
  ⟨lines.length - 1, units (lines.getLast?.getD [])⟩

/-- The place behind the first `n` bytes of a text. -/
def placeAtByte (cs : List Char) (n : Nat) : Place := placeAfter (takeBytes n cs)
where
  takeBytes : Nat → List Char → List Char
    | _, [] => []
    | n, c :: rest => if n < c.utf8Size then [] else c :: takeBytes (n - c.utf8Size) rest

end CallBridge.Script
