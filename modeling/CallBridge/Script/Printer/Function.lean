import CallBridge.Script.Printer.Expression

/-!
# Layout of patterns, functions, classes and types

Patterns stay on one line. The members of a class take a line each.
-/

namespace CallBridge.Script

namespace Printer

/-! ### Patterns -/

/-- A name that is introduced. -/
def binding (name : String) : Doc := word name

/-- Items of a pattern in brackets. A hole at the end and a rest behind other items take a comma
more. -/
def arrayPattern (items : List Part) : Doc :=
  let closing : Doc :=
    match items.getLast? with
    | some last => onlyIf (last.tree.kind == .hole) (text ",")
    | none => nothing
  seq [text "[", commas (items.map (·.operand Level.comma)), closing, text "]"]

/-- Properties of a pattern, with blanks inside the braces. -/
def objectPattern (items : List Part) : Doc :=
  if items.isEmpty then text "\x7b\x7d"
  else seq [text "\x7b ", commas (items.map (·.operand Level.comma)), text " \x7d"]

/-- The same where nothing is introduced but assigned. Here the braces are tight. -/
def objectTarget (items : List Part) : Doc :=
  seq [text "\x7b", commas (items.map (·.operand Level.comma)), text "\x7d"]

/-- The name that a pattern with a possible default introduces. -/
def boundName? : Tree → Option String
  | .node (.binding name) _ _ => some name
  | .node .withDefault _ (.node (.binding name) _ _ :: _) => some name
  | _ => none

/-- A property is written short if its pattern introduces the name that the key says. -/
def patternProperty (computed : Bool) (k value : Part) : Doc :=
  let v := value.operand Level.comma
  let short :=
    match k.tree.kind with
    | .key name => !computed && boundName? value.tree == some name
    | _ => false
  if short then v else seq [key k computed, text ": ", v]

/-- For a target the tree says whether it was written short. -/
def targetProperty (shorthand computed : Bool) (k value : Part) : Doc :=
  let v := value.operand Level.comma
  if shorthand then v else seq [key k computed, text ": ", v]

/-- A pattern and what it takes if there is no value. -/
def withDefault (pattern value : Part) : Doc :=
  seq [pattern.operand Level.comma, text " = ", value.operand Level.comma]

def rest (pattern : Part) : Doc := seq [text "...", pattern.operand Level.comma]

/-- A pattern and its type. -/
def typed (optional : Bool) (pattern type : Part) : Doc :=
  seq [pattern.operand Level.comma, onlyIf optional (text "?"),
    onlyIf (!type.isAbsent) (seq [text ": ", type.whole])]

/-! ### Types -/

/-- A type and its arguments. -/
def typeName (name : String) (arguments : List Part) : Doc :=
  let angled := seq [text "<", commas (arguments.map (·.whole)), text ">"]
  seq [word name, onlyIf (!arguments.isEmpty) angled]

def typeUnion (items : List Part) : Doc := separated (text " | ") (items.map (·.whole))

/-! ### Functions -/

/-- Directives and statements on lines of their own. A string that stands first without being a
directive is put in parentheses. -/
def bodyLines (items : List Part) : Doc :=
  match items with
  | [] => nothing
  | first :: others =>
    let guarded : Doc :=
      match first.tree with
      | .node .expressionStatement _ [inner] =>
        match inner.unparen.kind with
        | .string value => seq [text "(", chars (quoteString value), text ");\n"]
        | _ => first.within .statement
      | _ => first.within .statement
    seq (guarded :: others.map (·.within .statement))

/-- The body of a function in braces. -/
def body (items : List Part) : Doc := braces items.isEmpty (bodyLines items)

/-- Parameters, the type of the result and the body. -/
def signature (params type inside : Part) : Doc :=
  seq [text "(", params.whole, text ")",
    onlyIf (!type.isAbsent) (seq [text ": ", type.whole]),
    onlyIf (!inside.isAbsent) (seq [text " ", inside.whole])]

/-- Whether a function or class expression stands where a declaration could. -/
def atDeclaration (o : Out) : Bool := o.statementStart == o.size || o.defaultStart == o.size

/-- A function whose word has been written in full, as a declaration or as an expression. -/
def functionWords (form : FunctionForm) (name params type inside : Part) : Doc :=
  seq [spaceBeforeWord, onlyIf form.isAsync (text "async "), text "function",
    onlyIf form.isGenerator (text "* "),
    onlyIf (!name.isAbsent) (seq [spaceBeforeWord, name.whole]),
    signature params type inside]

/-- The value of a method has no word and no name. A declaration takes a line, and an expression
takes parentheses where it could be read as a declaration. -/
def function (form : FunctionForm) (s : Span) (name params type inside : Part) : Writer := fun c =>
  if c.role == .method then signature params type inside
  else
    let words := functionWords form name params type inside
    if form.isDeclaration then statementLine s c (seq [words, newline])
    else fun o => wrap (c.forced || atDeclaration o) words o

/-- Where its result starts is remembered, since an object that stands first there needs
parentheses. -/
def arrow (isAsync : Bool) (params inside : Part) : Writer := fun c =>
  let result : Doc :=
    match inside.tree.kind with
    | .body => inside.whole
    | _ => fun o => inside.within (c.keepIn Level.comma) { o with arrowStart := o.size }
  wrap (Level.assign ≤ c.level || c.forced)
    (seq [onlyIf isAsync (word "async "), text "(", params.whole, text ") => ", result])

/-! ### Classes -/

/-- The members of a class, and statements in braces in front of a member. -/
def memberLine (p : Part) : Doc := seq [indent, p.within .statement]

/-- A class behind its word. Its parent is an expression that binds tight. -/
def classWords (name parent : Part) (members : List Part) : Doc :=
  seq [word "class", onlyIf (!name.isAbsent) (seq [text " ", name.whole]),
    onlyIf (!parent.isAbsent) (seq [text " extends ", parent.operand Level.postfixed]), text " ",
    braces members.isEmpty (seq (members.map memberLine))]

/-- A class is put in parentheses where a function would be. -/
def classLike (isDeclaration : Bool) (s : Span) (name parent : Part) (members : List Part) :
    Writer := fun c =>
  let words := classWords name parent members
  if isDeclaration then statementLine s c (seq [words, newline])
  else fun o => wrap (atDeclaration o) words o

/-- A method on a line of its own. -/
def methodLine (form : MethodForm) (isStatic computed : Bool) (k value : Part) : Doc :=
  seq [onlyIf isStatic (text "static "), method form k value computed, newline]

/-- A field and its value, if it has one. -/
def fieldLine (isStatic computed : Bool) (k value : Part) : Doc :=
  seq [onlyIf isStatic (text "static "), key k computed,
    onlyIf (!value.isAbsent) (seq [text " = ", value.operand Level.comma]), text ";\n"]

/-- Statements that run when the class is made. -/
def staticBlock (items : List Part) : Doc :=
  seq [text "static ", braces items.isEmpty (seq (items.map (·.within .statement))), newline]

end Printer

end CallBridge.Script
