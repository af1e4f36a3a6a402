import CallBridge.Script.Parser.Pattern

/-!
# Functions and classes

Bodies, functions, arrow functions, methods and class members.
-/

namespace CallBridge.Script

namespace Parser

/-- Statements up to a closing brace or the end of the text. -/
def statementsUntilBrace (r : Rules) : Parser (List Tree) :=
  repeatWhile (do return !((← atMark "\x7d") || (← atEnd))) r.statement

/-- Whether a statement is nothing but a string, and which text the string has. -/
def directiveOf? (t : Token) (stmt : Tree) : Option Tree :=
  match t.lexeme, stmt with
  | .string _ raw, .node .expressionStatement s [.node (.string _) _ _] =>
    some (.node (.directive raw) s [])
  | _, _ => none

/-- The strings in front of the statements of a body. -/
def directives (r : Rules) : Parser (List Tree × Option Tree) := do
  loop (← read).budget
where
  loop : Nat → Parser (List Tree × Option Tree)
    | 0 => do failAt .nestingTooDeep (← here)
    | budget + 1 => do
      let t ← current
      match t.lexeme with
      | .string _ _ =>
        let stmt ← r.statement
        match directiveOf? t stmt with
        | some d =>
          let (ds, first) ← loop budget
          return (d :: ds, first)
        | none => return ([], some stmt)
      | _ => return ([], none)

/-- Directives, then statements as long as `more` holds. -/
def bodyItems (r : Rules) (more : Parser Bool) : Parser (List Tree) := do
  let (ds, first) ← directives r
  let rest ← repeatWhile more r.statement
  return ds ++ first.toList ++ rest

/-- The surroundings inside a function. -/
def functionContext (isAsync isGenerator : Bool) (c : Context) : Context :=
  { c with isAsync, isGenerator, inFunction := true, allowIn := true }

/-- A body in braces. -/
def functionBody (r : Rules) : Parser Tree := do
  let start ← here
  expectMark "\x7b"
  let items ← bodyItems r (do return !((← atMark "\x7d") || (← atEnd)))
  expectMark "\x7d"
  finish start .body items

/-- The type that a function is said to return, where types may be written. -/
def returnType (r : Rules) : Parser Tree := do
  if (← read).dialect.typed && (← eatMark ":") then r.type else return .absent

/-- Parameters and body of a function whose head has been read. -/
def functionRest (r : Rules) (start : Nat) (form : FunctionForm) (name : Tree) : Parser Tree := do
  let (params, type, body) ← within (functionContext form.isAsync form.isGenerator) (do
    let params ← parameters r
    let type ← returnType r
    return (params, type, ← functionBody r))
  finish start (.function form) [name, params, type, body]

/-- A function whose word `function` is the current token. -/
def functionFrom (r : Rules) (start : Nat) (isAsync isDeclaration nameless : Bool) :
    Parser Tree := do
  expectWord "function"
  let isGenerator ← eatMark "*"
  let name ←
    if ← atMark "(" then
      if isDeclaration && !nameless then unexpected else pure Tree.absent
    else if isDeclaration then bindingName
    else within (fun c => { c with isAsync, isGenerator }) bindingName
  functionRest r start ⟨isAsync, isGenerator, isDeclaration⟩ name

/-- A function with a possible `async` in front of it. -/
def functionExpression (r : Rules) (isDeclaration nameless : Bool) : Parser Tree := do
  let start ← here
  let isAsync ← eatWord "async"
  functionFrom r start isAsync isDeclaration nameless

/-! ### Arrow functions -/

/-- The body of an arrow function: a block or an expression. -/
def arrowRest (r : Rules) (start : Nat) (isAsync : Bool) (params : Tree) : Parser Tree := do
  expectMark "=>"
  let allowIn := (← read).allowIn
  let body ←
    if ← atMark "\x7b" then within (functionContext isAsync false) (functionBody r)
    else within (fun c => { functionContext isAsync false c with allowIn }) r.assignment
  finish start (.arrow isAsync) [params, body]

/-- An arrow function with parameters in parentheses. -/
def arrowOfParameters (r : Rules) (start : Nat) (isAsync : Bool) : Parser Tree := do
  let params ← within (fun c => { c with isAsync := isAsync || c.isAsync, allowIn := true })
    (parameters r)
  arrowRest r start isAsync params

/-- An arrow function with a single name for a parameter. -/
def arrowOfName (r : Rules) (start : Nat) (isAsync : Bool) : Parser Tree := do
  let place ← here
  let name ← within (fun c => { c with isAsync := isAsync || c.isAsync }) bindingName
  let params ← finish place .parameters [name]
  arrowRest r start isAsync params

/-! ### Methods and members -/

/-- A method whose key has been read. -/
def methodRest (r : Rules) (isAsync isGenerator : Bool) : Parser Tree := do
  functionRest r (← here) ⟨isAsync, isGenerator, false⟩ .absent

/-- Whether a word in front of a key is a modifier: something other than a value, a separator or
parameters follows. -/
def modifies (word : String) (sameLine : Bool) : Parser Bool := do
  unless ← atWord word do return false
  let t ← next
  if sameLine && t.afterNewline then return false
  match t.lexeme with
  | .mark m => return m == "[" || (m == "*" && word != "get" && word != "set")
  | .eof => return false
  | _ => return true

/-- What stands in front of the key of a method. -/
structure Modifiers where
  isAsync : Bool
  isGenerator : Bool
  form : MethodForm

def modifiers : Parser Modifiers := do
  let isAsync ← modifies "async" true
  if isAsync then advance
  let isGenerator ← eatMark "*"
  if isAsync || isGenerator then return ⟨isAsync, isGenerator, .method⟩
  if ← modifies "get" false then
    advance
    return ⟨false, false, .getter⟩
  if ← modifies "set" false then
    advance
    return ⟨false, false, .setter⟩
  return ⟨false, false, .method⟩

/-- Whether `static` is a modifier rather than a key. -/
def staticFirst : Parser Bool := do
  unless ← atWord "static" do return false
  match (← next).lexeme with
  | .mark m => return m == "[" || m == "*" || m == "\x7b"
  | .eof => return false
  | _ => return true

def classMember (r : Rules) : Parser Tree := do
  let start ← here
  let isStatic ← staticFirst
  if isStatic then advance
  if isStatic && (← atMark "\x7b") then
    advance
    let items ← within (functionContext false false) (statementsUntilBrace r)
    expectMark "\x7d"
    finish start .staticBlock items
  else
    let m ← modifiers
    let (key, computed) ← propertyKey r
    if (← atMark "(") || m.isAsync || m.isGenerator || m.form != .method then
      let value ← methodRest r m.isAsync m.isGenerator
      finish start (.method m.form isStatic computed) [key, value]
    else
      let value ←
        if ← eatMark "=" then within (functionContext false false) r.assignment
        else pure Tree.absent
      endStatement
      finish start (.field isStatic computed) [key, value]

/-- A class whose word `class` is the current token. -/
def classFrom (r : Rules) (isDeclaration nameless : Bool) : Parser Tree := do
  let start ← here
  expectWord "class"
  let name ←
    if (← atMark "\x7b") || (← atWord "extends") then
      if isDeclaration && !nameless then unexpected else pure Tree.absent
    else bindingName
  let parent ← if ← eatWord "extends" then r.callChain else pure Tree.absent
  expectMark "\x7b"
  let skipped : Parser Bool := do
    let _ ← repeatWhile (eatMark ";") (pure ())
    return !((← atMark "\x7d") || (← atEnd))
  let members ← repeatWhile skipped (classMember r)
  expectMark "\x7d"
  finish start (.classLike isDeclaration) (name :: parent :: members)

end Parser

end CallBridge.Script
