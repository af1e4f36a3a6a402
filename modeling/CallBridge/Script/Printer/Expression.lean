import CallBridge.Script.Printer.Layout

/-!
# Layout of expressions

Parentheses follow from the levels of the operators, except that a function in parentheses of its
own keeps them. Lists of three or more elements and objects of two or more properties take a line
for each.
-/

namespace CallBridge.Script

namespace Printer

/-! ### Names and literals -/

/-- A name has a mark, so that it can be found in the source. -/
def reference (name : String) (s : Span) : Writer := fun _ =>
  seq [spaceBeforeWord, mark s, text name]

/-- Where a number ends is remembered if a point behind it would be read as its own. -/
def number (x : Number.Magnitude) : Doc := fun o =>
  let o := seq [spaceBeforeWord, chars (numberText x)] o
  if takesPoint x then { o with numberEnd := some o.size } else o

/-- A template: pieces as written, substitutions between them. -/
def template (quasis : List Quasi) (values : List Part) : Doc :=
  let piece (q : Quasi) : Doc := chars (breakScript q.raw.toList)
  let hole (p : Part × Quasi) : Doc := seq [text "$\x7b", p.1.whole, text "\x7d", piece p.2]
  seq [text "`", seq (quasis.head?.toList.map piece), seq ((values.zip quasis.tail).map hole),
    text "`"]

/-! ### Lists -/

/-- An item of a list that takes a line for each. -/
def itemLine (first : Bool) (d : Doc) : Doc := seq [onlyIf (!first) (text ","), newline, indent, d]

/-- Items one below the other. -/
def itemLines : List Doc → Doc
  | [] => nothing
  | first :: rest =>
    seq [nested (seq (itemLine true first :: rest.map (itemLine false))), newline, indent]

/-- Elements of an array; a hole at the end needs a comma of its own. -/
def elements (items : List Part) : List Doc :=
  match items.reverse with
  | [] => []
  | last :: before =>
    let closing := onlyIf (last.tree.kind == .hole) (text ",")
    before.reverse.map (·.operand Level.comma) ++ [seq [last.operand Level.comma, closing]]

/-- Three elements take a line each. -/
def array (items : List Part) : Doc :=
  let docs := elements items
  let inside := if 2 < items.length then itemLines docs else commas docs
  seq [text "[", inside, text "]"]

/-- Whether the next thing printed stands where a statement or the body of an arrow begins. -/
def atStart (o : Out) : Bool := o.statementStart == o.size || o.arrowStart == o.size

/-- Two properties take a line each. An object that stands first in a statement is put in
parentheses. -/
def object (items : List Part) : Doc := fun o =>
  let docs := items.map (·.operand Level.comma)
  let inside :=
    match docs with
    | [] => nothing
    | [d] => seq [text " ", d, text " "]
    | _ => itemLines docs
  wrap (atStart o) (seq [text "\x7b", inside, text "\x7d"]) o

/-! ### Properties -/

/-- A key, in brackets if it is computed. -/
def key (k : Part) (computed : Bool) : Doc :=
  let inside := k.operand Level.comma
  if computed || k.tree.kind == .number .infinite then seq [text "[", inside, text "]"] else inside

/-- The words in front of the key of a method. -/
def methodWords (form : MethodForm) (value : Tree) : Doc :=
  let accessor :=
    match form with
    | .method => nothing
    | .getter => text "get "
    | .setter => text "set "
  match value.kind with
  | .function f =>
    seq [accessor, onlyIf f.isAsync (text "async "), onlyIf f.isGenerator (text "*")]
  | _ => accessor

/-- The words of a method, its key, its parameters and its body. -/
def method (form : MethodForm) (k value : Part) (computed : Bool) : Doc :=
  seq [methodWords form value.tree, key k computed,
    value.within { Ctx.statement with role := .method }]

/-- Whether a property is printed as a name alone. -/
def isShorthand (form : PropertyForm) (computed : Bool) (k value : Tree) : Bool :=
  match k.kind, value.unparen.kind with
  | .key name, .reference other =>
    !computed && if name == "__proto__" then form == .shorthand else name == other
  | _, _ => false

/-- A property with a value, or a method of an object. -/
def property (form : PropertyForm) (computed : Bool) (k value : Part) : Doc :=
  match form with
  | .method => method .method k value computed
  | .getter => method .getter k value computed
  | .setter => method .setter k value computed
  | .init | .shorthand =>
    let v := value.operand Level.comma
    if isShorthand form computed k.tree value.tree then v else seq [key k computed, text ": ", v]

/-! ### Members and calls -/

/-- The point in front of a member, apart from a number that would take it. -/
def point (optional : Bool) : Doc := fun o =>
  if optional then text "?." o
  else if o.numberEnd == some o.size then text " ." o
  else text "." o

/-- A member of an object, by its name. -/
def member (object : Part) (name : String) (optional : Bool) : Writer := fun c =>
  seq [object.within (c.keepCall Level.postfixed), point optional, text name]

/-- A member of an object, by an expression. -/
def index (object i : Part) (optional : Bool) : Writer := fun c =>
  seq [object.within (c.keepCall Level.postfixed), onlyIf optional (text "?."), text "[", i.whole,
    text "]"]

/-- What a call is given. -/
def arguments (items : List Part) : Doc :=
  seq [text "(", commas (items.map (·.operand Level.comma)), text ")"]

/-- Whether a call needs parentheses. -/
def wrapsCall (c : Ctx) : Bool := Level.new ≤ c.level || c.noCall

/-- A call binds as tight as a member, but not behind `new`. -/
def call (callee : Part) (items : List Part) (optional : Bool) : Writer := fun c =>
  wrap (wrapsCall c)
    (seq [callee.operand Level.postfixed, onlyIf optional (text "?."), arguments items])

/-- A call inside the callee is put in parentheses, since it would take the arguments. -/
def new (callee : Part) (items : List Part) : Writer := fun c =>
  wrap (Level.member ≤ c.level)
    (seq [word "new", text " ", callee.within { Ctx.operand Level.new with noCall := true },
      arguments items])

def importCall (items : List Part) : Writer := fun c =>
  wrap (wrapsCall c) (seq [word "import", arguments items])

/-- A chain ends where its parentheses do, so it keeps them in front of a member. -/
def chain (element : Part) : Writer := fun c =>
  wrap (Level.postfixed ≤ c.level) (element.within c)

/-! ### Operators -/

/-- A space between signs that would be read as one. -/
def spaceBeforeSign (sign : String) : Doc := fun o =>
  match o.lastUnary with
  | some (last, stop) =>
    let clash := stop == o.size && (last == "+" && (sign == "+" || sign == "++") ||
      last == "-" && (sign == "-" || sign == "--"))
    onlyIf clash (text " ") o
  | none => o

/-- Where a sign ends, so that the next one is not read with it. -/
def rememberSign (sign : String) : Doc := fun o => { o with lastUnary := some (sign, o.size) }

/-- A word stands apart from its operand, a sign does not. -/
def unary (op : UnaryOp) (operand : Part) : Writer := fun c =>
  let sign :=
    if op.isWord then seq [word op.text, text " "]
    else seq [spaceBeforeSign op.text, text op.text, rememberSign op.text]
  wrap (Level.prefixed ≤ c.level) (seq [sign, operand.within (c.withLevel Level.power)])

/-- In front of the target or behind it. -/
def update (op : UpdateOp) (isPrefix : Bool) (target : Part) : Writer := fun c =>
  if isPrefix then
    wrap (Level.prefixed ≤ c.level)
      (seq [spaceBeforeSign op.text, text op.text, target.within (c.withLevel Level.prefixed)])
  else
    wrap (Level.postfixed ≤ c.level)
      (seq [target.within (c.withLevel Level.postfixed), text op.text])

/-- Whether an operand of `??` mixes it with another logical operator. -/
def mixesLogical (t : Tree) : Bool :=
  match t.unparen.kind with
  | .binary .or | .binary .and => true
  | _ => false

/-- Whether an operand may not stand in front of `**` as it is. -/
def isPrefixed (t : Tree) : Bool :=
  match t.unparen.kind with
  | .unary _ | .await => true
  | _ => false

/-- The level of the left operand. -/
def leftLevel (op : BinaryOp) (left : Tree) : Level :=
  match op with
  | .power => if isPrefixed left then Level.call else op.level
  | .coalesce => if mixesLogical left then Level.prefixed else op.level - 1
  | _ => op.level - 1

/-- The level of the right operand. -/
def rightLevel (op : BinaryOp) (right : Tree) : Level :=
  match op with
  | .power => op.level - 1
  | .coalesce => if mixesLogical right then Level.prefixed else op.level
  | _ => op.level

/-- An `in` is put in parentheses in the head of a loop. Inside of parentheses it may stand again.
-/
def binary (op : BinaryOp) (left right : Part) : Writer := fun c =>
  let wrapped := op.level ≤ c.level || (op == .isIn && c.noIn)
  let inner := if wrapped then { c with noIn := false } else c
  wrap wrapped
    (seq [left.within (inner.keepIn (leftLevel op left.tree)), text " ", text op.text, text " ",
      right.within (inner.keepIn (rightLevel op right.tree))])

/-- The branches may be assignments, the test not. -/
def conditional (test yes no : Part) : Writer := fun c =>
  let wrapped := Level.conditional ≤ c.level
  let inner := if wrapped then { c with noIn := false } else c
  wrap wrapped
    (seq [test.within (inner.keepIn Level.conditional), text " ? ", yes.operand Level.yield,
      text " : ", no.within (inner.keepIn Level.yield)])

/-- To an object of targets nothing is assigned at the start of a statement without parentheses. -/
def assign (op : AssignOp) (target value : Part) : Writer := fun c o =>
  let wrapped := Level.assign ≤ c.level || (atStart o && target.tree.kind == .objectTarget)
  wrap wrapped
    (seq [target.operand Level.comma, text " ", text op.text, text " ",
      value.within (c.withLevel Level.comma)]) o

/-- Expressions of which the last one counts. -/
def sequence (items : List Part) : Writer := fun c =>
  let inside := { c with level := Level.lowest, noCall := false, forced := false }
  wrap (Level.comma ≤ c.level) (commas (items.map (·.within inside)))

/-- Binds like a unary operator. -/
def await (value : Part) : Writer := fun c =>
  wrap (Level.prefixed ≤ c.level)
    (seq [word "await", text " ", value.within (c.withLevel Level.power)])

/-- Binds like an assignment. With a star the values of another generator are given. -/
def yield (delegate : Bool) (value : Option Part) : Writer := fun c =>
  let operand := value.elim nothing fun v => seq [text " ", v.operand Level.yield]
  wrap (Level.yield ≤ c.level) (seq [word "yield", onlyIf delegate (text "*"), operand])

/-- A value with its type binds tighter than a comparison. -/
def asType (value type : Part) : Writer := fun c =>
  wrap (14 ≤ c.level) (seq [value.within (c.withLevel Level.power), text " as ", type.whole])

/-- All elements of a value. -/
def spread (value : Part) : Doc := seq [text "...", value.operand Level.comma]

/-- An expression in parentheses. Only a function keeps them. -/
def paren (inside : Part) : Writer := fun c =>
  let forced :=
    match inside.tree.kind with
    | .arrow _ => true
    | .function _ => true
    | _ => false
  inside.within { c with forced }

end Printer

end CallBridge.Script
