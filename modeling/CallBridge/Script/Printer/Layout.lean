import CallBridge.Script.Lines
import CallBridge.Script.Operators
import CallBridge.Script.Printer.Literal
import CallBridge.Text.Word

/-!
# Layout

What printing knows of the text written so far (`Out`), and the small steps (`Doc`) that every
form of the grammar is laid out with. A `Writer` is the layout of a node in its surroundings. Marks
tie places of the text to offsets of the source.
-/

namespace CallBridge.Script

open CallBridge.Text (isBlank isIdentifierPart)

namespace Printer

/-- A place of the printed text, as a count of characters, and the source offset it comes from. -/
structure Mark where
  place : Nat
  source : Nat
  deriving DecidableEq, Repr

structure Out where
  /-- The characters written, the last one first. -/
  written : List Char
  /-- Their number. -/
  size : Nat
  /-- How many levels new lines are indented. -/
  depth : Nat
  /-- Whether a space takes the place of the next indentation. -/
  spaceNext : Bool
  /-- Where the last statement, body of an arrow function and default export begin. The start of
  the text counts as all three. -/
  statementStart : Nat
  arrowStart : Nat
  defaultStart : Nat
  /-- Where a point would be read as part of a number. -/
  numberEnd : Option Nat
  /-- The last unary operator and where it ends. -/
  lastUnary : Option (String × Nat)
  /-- The marks, the last one first. -/
  marks : List Mark
  /-- The comments still to be printed. -/
  comments : List Comment

/-- Nothing written yet. -/
def Out.start (comments : List Comment) : Out :=
  ⟨[], 0, 0, false, 0, 0, 0, none, none, [], comments⟩

/-- A step of printing. -/
abbrev Doc := Out → Out

/-- Where a statement is printed. -/
inductive Role where
  /-- On a line of its own. -/
  | line
  /-- Behind a word of the statement around it. -/
  | tail
  /-- In the head of a loop. -/
  | head
  /-- Behind the key of a method. -/
  | method
  deriving DecidableEq, Repr

/-- What surrounds a node. -/
structure Ctx where
  level : Level
  /-- Whether `in` would be read as part of a loop. -/
  noIn : Bool
  /-- Whether a call would be read as the arguments of `new`. -/
  noCall : Bool
  role : Role
  /-- Whether a function keeps its parentheses. -/
  forced : Bool

namespace Ctx

def statement : Ctx := ⟨Level.lowest, false, false, .line, false⟩

/-- An expression at a level. -/
def operand (level : Level) : Ctx := ⟨level, false, false, .line, false⟩

/-- The same surroundings at another level. -/
def withLevel (c : Ctx) (level : Level) : Ctx := { c with level, forced := false }

/-- Another level, keeping only what forbids `in`. -/
def keepIn (c : Ctx) (level : Level) : Ctx := { operand level with noIn := c.noIn }

/-- Another level, keeping only what forbids calls. -/
def keepCall (c : Ctx) (level : Level) : Ctx := { operand level with noCall := c.noCall }

end Ctx

/-- The layout of a node in its surroundings. -/
abbrev Writer := Ctx → Doc

/-- A child with its layout. -/
abbrev Part := Tree × Writer

namespace Part

def tree (p : Part) : Tree := p.1

/-- The child as an expression at a level. -/
def operand (p : Part) (level : Level) : Doc := p.2 (.operand level)

/-- The child in given surroundings. -/
def within (p : Part) (c : Ctx) : Doc := p.2 c

/-- The child as a whole expression. -/
def whole (p : Part) : Doc := p.operand Level.lowest

def isAbsent (p : Part) : Bool := p.tree.isAbsent

end Part

/-! ### Steps -/

/-- Steps one after the other. -/
def seq (ds : List Doc) : Doc := fun o => ds.foldl (fun o d => d o) o

def nothing : Doc := id

/-- A step taken only under a condition. -/
def onlyIf (b : Bool) (d : Doc) : Doc := if b then d else nothing

def chars (cs : List Char) : Doc := fun o =>
  { o with written := cs.reverseAux o.written, size := o.size + cs.length }

def text (s : String) : Doc := chars s.toList

def newline : Doc := text "\n"

/-- The indentation of a new line, or the space that takes its place. -/
def indent : Doc := fun o =>
  if o.spaceNext then text " " { o with spaceNext := false }
  else chars (List.replicate o.depth '\t') o

/-- Steps whose lines are indented one level more. -/
def nested (d : Doc) : Doc := fun o =>
  let o := d { o with depth := o.depth + 1 }
  { o with depth := o.depth - 1 }

/-- A space where the last character would run into a word. -/
def spaceBeforeWord : Doc := fun o =>
  match o.written with
  | c :: _ => if isIdentifierPart c then text " " o else o
  | [] => o

def word (s : String) : Doc := seq [spaceBeforeWord, text s]

/-- Steps in parentheses, if needed. -/
def wrap (needed : Bool) (d : Doc) : Doc := if needed then seq [text "(", d, text ")"] else d

/-- Ties the current place to the start of a span; a repetition of the last offset is left out. -/
def mark (s : Span) : Doc := fun o =>
  if s.start = s.stop then o
  else if o.marks.head?.any (·.source == s.start) then o
  else { o with marks := ⟨o.size, s.start⟩ :: o.marks }

/-- Steps with others between neighbours. -/
def separated (between : Doc) : List Doc → Doc
  | [] => nothing
  | [d] => d
  | d :: rest => seq [d, between, separated between rest]

def commas : List Doc → Doc := separated (text ", ")

/-- Braces around steps that write whole lines, or with nothing between them. -/
def braces (isEmpty : Bool) (d : Doc) : Doc :=
  if isEmpty then text "\x7b\x7d" else seq [text "\x7b\n", nested d, indent, text "\x7d"]

/-! ### Comments -/

/-- The text of a comment; the further lines of a long one are indented anew. -/
def commentText (c : Comment) : Doc :=
  match c.form with
  | .line | .block => chars (breakScript c.text.toList)
  | .lines =>
    match splitLines c.text.toList with
    | [] => nothing
    | first :: rest =>
      seq (chars (breakScript first) ::
        rest.map fun l => seq [newline, indent, chars (breakScript (l.dropWhile isBlank))])

/-- The place of a comment that comes first. -/
def beforeFirst (c : Comment) : Doc := fun o =>
  if c.afterNewline then
    match o.written with
    | '\n' :: _ => indent o
    | '\t' :: _ => o
    | [] => o
    | _ => seq [newline, indent] o
  else indent o

def afterLast (c : Comment) : Doc :=
  if c.form == .line || c.beforeNewline then newline else fun o => { o with spaceNext := true }

/-- Comments in front of the same token. -/
def printComments : List Comment → Doc
  | [] => nothing
  | first :: rest =>
    seq [beforeFirst first, commentText first,
      seq (rest.map fun c => seq [onlyIf c.afterNewline (seq [newline, indent]), commentText c]),
      afterLast ((first :: rest).getLast?.getD first)]

/-- The comments in front of the token at an offset. -/
def commentsAt (offset : Nat) : Doc := fun o =>
  let (here, others) := o.comments.partition (·.owner == offset)
  printComments here { o with comments := others }

/-! ### Lines -/

/-- A statement on a line of its own, or what is left of it behind a word. -/
def statementLine (s : Span) (c : Ctx) (d : Doc) : Doc :=
  match c.role with
  | .line => seq [commentsAt s.start, indent, d]
  | _ => d

/-- The end of a statement with a semicolon, where statements end. -/
def endLine (c : Ctx) : Doc :=
  match c.role with
  | .head => nothing
  | _ => text ";\n"

/-- A statement that belongs to the one before it: a block on the same line, or a statement
behind a space. -/
def bodyOf (p : Part) : Doc :=
  match p.tree.kind with
  | .block => seq [text " ", p.within { Ctx.statement with role := .tail }, newline]
  | .empty => text ";\n"
  | _ => fun o => p.within .statement { o with spaceNext := true }

/-- A block behind a space, its line going on. -/
def blockOf (p : Part) : Doc := seq [text " ", p.within { Ctx.statement with role := .tail }]

end Printer

end CallBridge.Script
