import CallBridge.Script.Printer.Function

/-!
# Layout of statements

One statement a line. The statement inside another one stands behind a space, unless it is a
block; an `if` whose `else` could be taken for that of an inner `if` gets a block around the inner
one.
-/

namespace CallBridge.Script

namespace Printer

/-- A statement on a line of its own behind a mark. -/
def markedLine (s : Span) (d : Doc) : Doc :=
  let marked : Doc := fun o => if 0 < o.depth || o.spaceNext then mark s o else o
  seq [commentsAt s.start, marked, indent, d]

/-- An expression as a statement. Where it starts is remembered: a function, a class or an object
that comes first there needs parentheses. -/
def expressionStatement (s : Span) (value : Part) : Doc :=
  let start : Doc := fun o => { o with statementStart := o.size }
  markedLine s (seq [start, value.whole, text ";\n"])

/-- A directive keeps the text it was written with. -/
def directive (raw : String) : Doc := seq [indent, chars (quoteDirective raw), text ";\n"]

/-- A block; as a statement of its own it takes a line. -/
def block (s : Span) (items : List Part) : Writer := fun c =>
  let inside := braces items.isEmpty (seq (items.map (·.within .statement)))
  match c.role with
  | .line => seq [commentsAt s.start, indent, inside, newline]
  | _ => inside

/-- Declarators behind their word. In the head of a loop no semicolon follows. -/
def variableList (kind : VariableKind) (s : Span) (items : List Part) : Writer := fun c =>
  let kindWord :=
    match kind with
    | .var => "var"
    | .let => "let"
    | .const => "const"
  statementLine s c (seq [word kindWord, text " ",
    commas (items.map (·.within (c.keepIn Level.lowest))), endLine c])

/-- A pattern and its value, if it has one. -/
def declarator (pattern value : Part) : Writer := fun c =>
  let assigned := seq [text " = ", value.within (c.keepIn Level.comma)]
  seq [pattern.operand Level.comma, onlyIf (!value.isAbsent) assigned]

/-! ### Branches -/

/-- Whether a statement ends in an `if` without `else`. -/
def endsInBareIf : Tree → Bool :=
  Tree.fold fun k _ cs =>
    match k, cs with
    | .ifElse, [_, _, (no, ends)] => no.isAbsent || ends
    | .forLoop, [_, _, _, (_, ends)] => ends
    | .forIn, [_, _, (_, ends)] => ends
    | .forOf _, [_, _, (_, ends)] => ends
    | .whileLoop, [_, (_, ends)] => ends
    | .withScope, [_, (_, ends)] => ends
    | .labeled _, [(_, ends)] => ends
    | _, _ => false

/-- The alternative behind a branch that has been written. -/
def alternative (no : Part) : Doc :=
  match no.tree.kind with
  | .absent => nothing
  | .ifElse =>
    seq [spaceBeforeWord, text "else ", no.within { Ctx.statement with role := .tail }]
  | _ => seq [spaceBeforeWord, text "else", bodyOf no]

/-- The test, a branch and possibly the other one. A first branch that ends in a bare `if` takes
braces, since the `else` would be its own. -/
def ifElse (s : Span) (test yes no : Part) : Writer := fun c =>
  let behindBlock := if no.isAbsent then newline else text " "
  let first : Doc :=
    match yes.tree.kind with
    | .block => seq [blockOf yes, behindBlock]
    | _ =>
      if endsInBareIf yes.tree then
        seq [text " ", braces false (yes.within .statement), behindBlock]
      else seq [bodyOf yes, onlyIf (!no.isAbsent) indent]
  statementLine s c (seq [word "if", text " (", test.whole, text ")", first, alternative no])

/-- A label and its statements. A single one stays behind the label. -/
def case (test : Part) (items : List Part) : Doc :=
  let label := if test.isAbsent then text "default" else seq [text "case ", test.whole]
  let statements : Doc :=
    match items with
    | [only] => bodyOf only
    | _ => seq [newline, nested (seq (items.map (·.within .statement)))]
  seq [indent, label, text ":", statements]

def switch (s : Span) (value : Part) (cases : List Part) : Writer := fun c =>
  statementLine s c (seq [word "switch", text " (", value.whole, text ") ",
    braces cases.isEmpty (seq (cases.map (·.within .statement))), newline])

/-- The blocks of a `try`. Either of the last two may be absent. -/
def tryCatch (s : Span) (inside handler finalizer : Part) : Writer := fun c =>
  let last := seq [text " finally", blockOf finalizer]
  statementLine s c (seq [word "try", blockOf inside, onlyIf (!handler.isAbsent) handler.whole,
    onlyIf (!finalizer.isAbsent) last, newline])

/-- A `catch` and its parameter, if it has one. -/
def handler (param inside : Part) : Doc :=
  seq [text " catch", onlyIf (!param.isAbsent) (seq [text " (", param.whole, text ")"]),
    blockOf inside]

/-! ### Loops -/

/-- Where the first part of a loop stands. -/
def loopHead : Ctx := { Ctx.statement with role := .head }

/-- A child that may be left out, behind a space. -/
def spaced (p : Part) : Doc := onlyIf (!p.isAbsent) (seq [text " ", p.whole])

/-- The three parts of the head, each of which may be absent. An `in` of the first one is put in
parentheses. -/
def forLoop (s : Span) (start test step inside : Part) : Writer := fun c =>
  statementLine s c (seq [word "for", text " (", start.within { loopHead with noIn := true },
    text ";", spaced test, text ";", spaced step, text ")", bodyOf inside])

/-- The loops over keys and over values, told apart by their words and by how tight the object
binds. -/
def forEach (s : Span) (words between : String) (level : Level) (left object inside : Part) :
    Writer := fun c =>
  statementLine s c (seq [word words, text " (", left.within { loopHead with noIn := true },
    text " ", text between, text " ", object.operand level, text ")", bodyOf inside])

def whileLoop (s : Span) (test inside : Part) : Writer := fun c =>
  statementLine s c (seq [word "while", text " (", test.whole, text ")", bodyOf inside])

/-- A body that is no block stands on a line of its own. -/
def doWhile (s : Span) (inside test : Part) : Writer := fun c =>
  let first : Doc :=
    match inside.tree.kind with
    | .block => seq [blockOf inside, text " "]
    | _ => seq [newline, nested (inside.within .statement), indent]
  statementLine s c (seq [word "do", first, text "while (", test.whole, text ");\n"])

def withScope (s : Span) (object inside : Part) : Writer := fun c =>
  statementLine s c (seq [word "with", text " (", object.whole, text ")", bodyOf inside])

/-! ### Jumps and others -/

/-- A word with a possible operand. -/
def simple (s : Span) (name : String) (operand : Doc) : Writer := fun c =>
  statementLine s c (seq [word name, operand, text ";\n"])

/-- The label behind `break` or `continue`. -/
def jumpLabel (label : Option String) : Doc :=
  label.elim nothing fun l => seq [text " ", text l]

def labeled (s : Span) (label : String) (inside : Part) : Doc :=
  markedLine s (seq [word label, text ":", bodyOf inside])

end Printer

end CallBridge.Script
