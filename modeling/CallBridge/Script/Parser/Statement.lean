import CallBridge.Script.Parser.Expression

/-!
# Statements

Statements of every kind but imports and exports.
-/

namespace CallBridge.Script

namespace Parser

/-- Statements in braces. -/
def block (r : Rules) : Parser Tree := do
  let start ← here
  expectMark "\x7b"
  let items ← statementsUntilBrace r
  expectMark "\x7d"
  finish start .block items

/-- An expression in parentheses that belongs to a statement. -/
def condition (r : Rules) : Parser Tree := do
  expectMark "("
  let test ← fullExpression r
  expectMark ")"
  return test

/-! ### Declarations of variables -/

/-- A pattern and its initializer. Outside the head of a loop a constant must have one. -/
def declarator (r : Rules) (kind : VariableKind) (needsValue : Bool) : Parser Tree := do
  let start ← here
  let pattern ← annotated r start (← r.pattern)
  if ← eatMark "=" then
    let value ← r.assignment
    finish start .declarator [pattern, value]
  else
    if needsValue then
      match pattern.kind with
      | .objectPattern | .arrayPattern => complain .missingDestructuringInitializer start
      | _ => if kind == .const then complain .missingInitializer start
    finish start .declarator [pattern, .absent]

/-- Declarators with commas between. -/
def declarators (r : Rules) (kind : VariableKind) (needsValue : Bool) : Parser (List Tree) := do
  let first ← declarator r kind needsValue
  return first :: (← repeatWhile (eatMark ",") (declarator r kind needsValue))

/-- The kind of variables that the current word declares. -/
def variableKind? : Parser (Option VariableKind) := do
  match (← current).lexeme with
  | .word "var" false => return some .var
  | .word "const" false => return some .const
  | .word "let" false =>
    match (← next).lexeme with
    | .word w escaped =>
      let names := escaped || (w != "in" && w != "of" && w != "instanceof")
      return if names then some .let else none
    | .mark m =>
      let opens := m == "[" || m == "\x7b"
      return if opens then some .let else none
    | _ => return none
  | _ => return none

/-- A declaration that is a statement. Its patterns and constants need values. -/
def variableList (r : Rules) (kind : VariableKind) : Parser Tree := do
  let start ← here
  advance
  let items ← declarators r kind true
  endStatement
  finish start (.variableList kind) items

/-! ### Loops -/

/-- What stands between the parentheses of a `for` before its first separator. -/
inductive ForHead where
  | nothing
  | declared (kind : VariableKind) (start : Nat) (items : List Tree)
  | expression (t : Tree)

/-- An `in` would end the head, so none is read inside of it. -/
def forHead (r : Rules) : Parser ForHead := do
  let start ← here
  if ← atMark ";" then return .nothing
  match ← variableKind? with
  | some kind =>
    advance
    let items ← within (fun c => { c with allowIn := false }) (declarators r kind false)
    return .declared kind start items
  | none =>
    return .expression (← within (fun c => { c with allowIn := false }) (expression r))

/-- The rest of a loop over the values or keys of an object. -/
def forEach (r : Rules) (start : Nat) (kind : Kind) (left : Tree) : Parser Tree := do
  advance
  let object ← if kind == .forIn then fullExpression r else fullAssignment r
  expectMark ")"
  let body ← r.statement
  finish start kind [left, object, body]

/-- The initializer of a counting loop. A constant must have a value there too. -/
def forInit (head : ForHead) : Parser Tree := do
  match head with
  | .nothing => return .absent
  | .expression t => return t
  | .declared kind start items =>
    for item in items do
      match item with
      | .node .declarator s [.node .objectPattern _ _, .node .absent _ _]
      | .node .declarator s [.node .arrayPattern _ _, .node .absent _ _] =>
        complain .missingDestructuringInitializer s.start
      | .node .declarator s [_, .node .absent _ _] =>
        if kind == .const then complain .missingInitializer s.start
      | _ => pure ()
    finish start (.variableList kind) items

/-- Which loop it is shows only behind the first part of the head. -/
def forStatement (r : Rules) : Parser Tree := do
  let start ← here
  advance
  let isAwait ← eatWord "await"
  expectMark "("
  let head ← forHead r
  let left (head : ForHead) : Parser Tree :=
    match head with
    | .declared kind s items => finish s (.variableList kind) items
    | .expression t => assignable t
    | .nothing => unexpected
  if ← atWord "of" then forEach r start (.forOf isAwait) (← left head)
  else if (← atWord "in") && !isAwait then forEach r start .forIn (← left head)
  else
    let init ← forInit head
    expectMark ";"
    let test ← if ← atMark ";" then pure Tree.absent else fullExpression r
    expectMark ";"
    let update ← if ← atMark ")" then pure Tree.absent else fullExpression r
    expectMark ")"
    let body ← r.statement
    finish start .forLoop [init, test, update, body]

def whileStatement (r : Rules) : Parser Tree := do
  let start ← here
  advance
  let test ← condition r
  let body ← r.statement
  finish start .whileLoop [test, body]

/-- The semicolon may be left out, even on the same line. -/
def doStatement (r : Rules) : Parser Tree := do
  let start ← here
  advance
  let body ← r.statement
  expectWord "while"
  let test ← condition r
  let _ ← eatMark ";"
  finish start .doWhile [body, test]

/-! ### Branches -/

/-- An `else` belongs to the `if` that is nearest. -/
def ifStatement (r : Rules) : Parser Tree := do
  let start ← here
  advance
  let test ← condition r
  let yes ← r.statement
  let no ← if ← eatWord "else" then r.statement else pure Tree.absent
  finish start .ifElse [test, yes, no]

/-- The statements of a case go up to the next label. -/
def switchCase (r : Rules) : Parser Tree := do
  let start ← here
  let test ←
    if ← eatWord "default" then pure Tree.absent
    else
      expectWord "case"
      fullExpression r
  expectMark ":"
  let more : Parser Bool := do
    return !((← atWord "case") || (← atWord "default") || (← atMark "\x7d") || (← atEnd))
  let items ← repeatWhile more r.statement
  finish start .case (test :: items)

def switchStatement (r : Rules) : Parser Tree := do
  let start ← here
  advance
  let value ← condition r
  expectMark "\x7b"
  let cases ← repeatWhile (do return !((← atMark "\x7d") || (← atEnd))) (switchCase r)
  expectMark "\x7d"
  finish start .switch (value :: cases)

/-- At least one of the two blocks behind must be there. -/
def tryStatement (r : Rules) : Parser Tree := do
  let start ← here
  advance
  let body ← block r
  let handlerStart ← here
  let handler ←
    if ← eatWord "catch" then
      let param ←
        if ← eatMark "(" then
          let place ← here
          let pattern ← annotated r place (← r.pattern)
          expectMark ")"
          pure pattern
        else pure Tree.absent
      let inside ← block r
      finish handlerStart .handler [param, inside]
    else pure Tree.absent
  let finalizer ← if ← eatWord "finally" then block r else pure Tree.absent
  if handler.isAbsent && finalizer.isAbsent then failExpected "catch"
  finish start .tryCatch [body, handler, finalizer]

/-! ### Jumps -/

/-- Whether a statement may end here. -/
def atStatementEnd : Parser Bool := do
  let t ← current
  return t.lexeme == .mark ";" || t.lexeme == .mark "\x7d" || t.lexeme == .eof || t.afterNewline

/-- Outside of a function this is read on, and reported at the end, unless the dialect has it. -/
def returnStatement (r : Rules) : Parser Tree := do
  let start ← here
  let ctx ← read
  unless ctx.inFunction || ctx.dialect.returnAnywhere do complain .returnOutsideFunction start
  advance
  let value ← if ← atStatementEnd then pure Tree.absent else fullExpression r
  endStatement
  finish start .returning [value]

/-- The value may not be left out. -/
def throwStatement (r : Rules) : Parser Tree := do
  let start ← here
  advance
  let value ← fullExpression r
  endStatement
  finish start .throwing [value]

/-- A label must stand on the same line. -/
def jumpStatement (kind : Option String → Kind) : Parser Tree := do
  let start ← here
  advance
  let label ← if ← atStatementEnd then pure none else some <$> variableName
  endStatement
  finish start (kind label) []

/-! ### All statements -/

/-- An expression and what ends it. -/
def expressionStatement (r : Rules) : Parser Tree := do
  let start ← here
  let value ← fullExpression r
  endStatement
  finish start .expressionStatement [value]

/-- A statement that begins with a word. -/
def wordStatement (r : Rules) (name : String) : Parser Tree := do
  let start ← here
  match name with
  | "function" => functionExpression r true false
  | "class" => classFrom r true false
  | "if" => ifStatement r
  | "for" => forStatement r
  | "while" => whileStatement r
  | "do" => doStatement r
  | "switch" => switchStatement r
  | "try" => tryStatement r
  | "return" => returnStatement r
  | "throw" => throwStatement r
  | "break" => jumpStatement .breaking
  | "continue" => jumpStatement .continuing
  | "debugger" =>
    advance
    endStatement
    finish start .debugger []
  | "with" =>
    advance
    let object ← condition r
    let body ← r.statement
    finish start .withScope [object, body]
  | _ =>
    let t ← next
    if name == "async" && t.lexeme == .word "function" false && !t.afterNewline then
      functionExpression r true false
    else if t.lexeme == .mark ":" && canName (← read) name false then
      advance
      advance
      let body ← r.statement
      finish start (.labeled name) [body]
    else expressionStatement r

/-- The first lexeme decides, except that `let` may be a name. -/
def statementRule (r : Rules) : Parser Tree := do
  match ← variableKind? with
  | some kind => variableList r kind
  | none =>
    let t ← current
    match t.lexeme with
    | .mark "\x7b" => block r
    | .mark ";" =>
      advance
      finish t.span.start .empty []
    | .word name false => wordStatement r name
    | _ => expressionStatement r

/-! ### All rules -/

/-- One more depth of rules. -/
def deepen (r : Rules) : Rules where
  assignment := assignmentRule r
  operandAbove := operandAboveRule r
  unary := unaryRule r
  newCallee := newCalleeRule r
  callChain := callChainRule r
  pattern := patternRule r
  statement := statementRule r
  type := typeRule r

/-- The rules that may call each other to a depth. -/
def rules : Nat → Rules
  | 0 => .tooDeep
  | depth + 1 => deepen (rules depth)

end Parser

end CallBridge.Script
