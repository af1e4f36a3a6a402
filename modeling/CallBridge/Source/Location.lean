import CallBridge.Text.Units

/-!
# Locations in a source

A location is a line, counted from one, and a column in UTF-16 units, counted from zero. Lines end
at line feeds alone. `locationOf` turns a byte offset into a location; an offset inside a character
has column zero, one behind the end counts as the end. Main statement: on a boundary between
characters the column is that of the text in front (`locationOf_append`).
-/

namespace CallBridge.Source

open CallBridge.Text

/-- A line and a column. -/
structure Location where
  line : Nat
  column : Nat
  deriving DecidableEq, Repr

namespace Location

/-- The start of a text. -/
def origin : Location := ⟨1, 0⟩

/-- The order of the text. -/
def before (a b : Location) : Bool :=
  a.line < b.line || (a.line == b.line && a.column < b.column)

/-- The location behind a character. -/
def after (l : Location) (c : Char) : Location :=
  if c = '\n' then ⟨l.line + 1, 0⟩ else ⟨l.line, l.column + unitsOf c⟩

def display (l : Location) : String := toString l.line ++ ":" ++ toString l.column

end Location

/-- The location an offset further on. -/
def locateFrom : Location → List Char → Nat → Location
  | l, [], _ => l
  | l, c :: rest, offset =>
    if offset = 0 then l
    else if offset < c.utf8Size then ⟨l.line, 0⟩
    else locateFrom (l.after c) rest (offset - c.utf8Size)

/-- The location of a byte offset. -/
def locationOf (source : List Char) (offset : Nat) : Location :=
  locateFrom .origin source offset

/-- The lines of a text without their line feeds. -/
def linesOf (source : List Char) : List (List Char) := source.splitOn '\n'

/-- A line's text without carriage returns at its end; there is no text outside the source. -/
def lineText (source : List Char) (line : Nat) : List Char :=
  let text := (linesOf source)[line - 1]?.getD []
  (text.reverse.dropWhile (· == '\r')).reverse

theorem locateFrom_append (l : Location) (xs ys : List Char) :
    locateFrom l (xs ++ ys) (bytes xs) = xs.foldl Location.after l := by
  induction xs generalizing l with
  | nil => cases ys <;> simp [locateFrom]
  | cons c rest ih =>
    have h : 0 < c.utf8Size := c.utf8Size_pos
    simp only [List.cons_append, locateFrom, bytes_cons, List.foldl_cons]
    rw [if_neg (by omega), if_neg (by omega), Nat.add_sub_cancel_left, ih]

/-- The location between two parts of a text. -/
theorem locationOf_append (xs ys : List Char) :
    locationOf (xs ++ ys) (bytes xs) = xs.foldl Location.after .origin :=
  locateFrom_append _ _ _

end CallBridge.Source
