import CallBridge.Script.Operators
import CallBridge.Script.Parser.Function

/-!
# Expressions

From literals up to lists with commas. A parenthesis opens the parameters of an arrow function
exactly when an arrow stands behind the parenthesis that closes it, so no expression is read
twice.
-/

namespace CallBridge.Script

namespace Parser

/-- An expression, or several with commas between them. -/
def expression (r : Rules) : Parser Tree := do
  let start ← here
  let first ← r.assignment
  if ← atMark "," then
    let more ← repeatWhile (eatMark ",") r.assignment
    finish start .sequence (first :: more)
  else return first

/-- An expression in which `in` is an operator. -/
def fullExpression (r : Rules) : Parser Tree :=
  within (fun c => { c with allowIn := true }) (expression r)

def fullAssignment (r : Rules) : Parser Tree :=
  within (fun c => { c with allowIn := true }) r.assignment

/-- An expression or a spread of one. -/
def spreadable (r : Rules) : Parser Tree := do
  if ← atMark "..." then
    let start ← here
    advance
    let value ← fullAssignment r
    finish start .spread [value]
  else fullAssignment r

/-- Arguments in parentheses, the opening one read. -/
def callArguments (r : Rules) : Parser (List Tree) := do
  let items ← delimited ")" (spreadable r)
  expectMark ")"
  return items

/-! ### Literals -/

/-- A template whose first piece is the current token. -/
def template (r : Rules) (isTagged : Bool) : Parser Tree := do
  let start ← here
  let piece : Parser (Quasi × Bool) := do
    match (← current).lexeme with
    | .template q _ closes =>
      if q.cooked.isNone && !isTagged then complain .badTemplateEscape start
      advance
      return (q, closes)
    | _ => failExpected "\x7d"
  let (head, closed) ← piece
  let grow (acc : List Quasi × List Tree × Bool) :
      Parser (Option (List Quasi × List Tree × Bool)) := do
    let (quasis, values, closed) := acc
    if closed then return none
    let value ← fullExpression r
    let (q, closed) ← piece
    return some (q :: quasis, value :: values, closed)
  let (quasis, values, _) ← growWhile grow ([head], [], closed)
  finish start (.template quasis.reverse) values.reverse

def arrayItem (r : Rules) : Parser Tree := do
  if (← atMark ",") || (← atMark "]") then return .node .hole Span.none []
  else spreadable r

def arrayLiteral (r : Rules) : Parser Tree := do
  let start ← here
  expectMark "["
  let items ← delimited "]" (arrayItem r)
  expectMark "]"
  finish start .array items

/-- The form of a property that has the form of a method. -/
def propertyForm : MethodForm → PropertyForm
  | .method => .method
  | .getter => .getter
  | .setter => .setter

def objectItem (r : Rules) : Parser Tree := do
  if ← atMark "..." then spreadable r
  else
    let start ← here
    let m ← modifiers
    let t ← current
    let (key, computed) ← propertyKey r
    if (← atMark "(") || m.isAsync || m.isGenerator || m.form != .method then
      let value ← methodRest r m.isAsync m.isGenerator
      finish start (.property (propertyForm m.form) computed) [key, value]
    else if ← eatMark ":" then
      let value ← fullAssignment r
      finish start (.property .init computed) [key, value]
    else
      match t.lexeme with
      | .word name escaped =>
        if canName (← read) name escaped then
          if ← eatMark "=" then
            let value ← fullAssignment r
            finish start .shorthandDefault [key, value]
          else
            finish start (.property .shorthand false)
              [key, .node (.reference name) t.span []]
        else failExpected ":"
      | _ => failExpected ":"

def objectLiteral (r : Rules) : Parser Tree := do
  let start ← here
  expectMark "\x7b"
  let items ← delimited "\x7d" (objectItem r)
  expectMark "\x7d"
  finish start .object items

/-! ### Primary expressions -/

def classExpression (r : Rules) : Parser Tree := classFrom r false true

/-- `import.meta`, or an import call; the word is the current token. -/
def importExpression (r : Rules) : Parser Tree := do
  let start ← here
  advance
  if ← eatMark "." then
    let name ← anyWord
    if name == "meta" then modify fun s => { s with sawModule := true }
    finish start (.metaProperty "import" name) []
  else
    expectMark "("
    let source ← fullAssignment r
    let options ←
      if (← eatMark ",") && !(← atMark ")") then
        let options ← fullAssignment r
        let _ ← eatMark ","
        pure [options]
      else pure []
    expectMark ")"
    finish start .importCall (source :: options)

def parenthesized (r : Rules) : Parser Tree := do
  let start ← here
  expectMark "("
  let inside ← fullExpression r
  expectMark ")"
  finish start .paren [inside]

/-- An expression that begins with a word. -/
def wordExpression (r : Rules) (name : String) (escaped : Bool) : Parser Tree := do
  let start ← here
  let leaf (kind : Kind) : Parser Tree := do
    advance
    finish start kind []
  let named : Parser Tree := do
    if canName (← read) name escaped then leaf (.reference name)
    else unexpected
  if escaped then named
  else match name with
    | "this" => leaf .this
    | "super" => leaf .super
    | "null" => leaf .null
    | "true" => leaf (.boolean true)
    | "false" => leaf (.boolean false)
    | "function" => functionExpression r false true
    | "class" => classExpression r
    | "import" => importExpression r
    | "async" =>
      let t ← next
      if t.lexeme == .word "function" false && !t.afterNewline then functionExpression r false true
      else named
    | _ => named

def primary (r : Rules) : Parser Tree := do
  let t ← current
  let leaf (kind : Kind) : Parser Tree := do
    advance
    finish t.span.start kind []
  match t.lexeme with
  | .word name escaped => wordExpression r name escaped
  | .string value _ => leaf (.string value)
  | .number value _ => leaf (.number value)
  | .bigint digits => leaf (.bigint digits)
  | .template _ true _ => template r false
  | .mark "(" => parenthesized r
  | .mark "[" => arrayLiteral r
  | .mark "\x7b" => objectLiteral r
  | _ => unexpected

/-! ### Members and calls -/

/-- The name behind a point. -/
def memberName (start : Nat) (object : Tree) (optional : Bool) : Parser Tree := do
  match (← current).lexeme with
  | .word name _ =>
    advance
    finish start (.member name optional) [object]
  | .privateName name =>
    advance
    finish start (.privateMember name optional) [object]
  | _ => unexpected

def indexRest (r : Rules) (start : Nat) (object : Tree) (optional : Bool) : Parser Tree := do
  let index ← fullExpression r
  expectMark "]"
  finish start (.index optional) [object, index]

/-- Whether the current token begins a template. -/
def atTemplate : Parser Bool := do
  match (← current).lexeme with
  | .template _ true _ => return true
  | _ => return false

/-- One member, index, template or, if allowed, call behind an expression. The flag says whether
an optional link has been read. -/
def extend (r : Rules) (start : Nat) (calls : Bool) (link : Tree × Bool) :
    Parser (Option (Tree × Bool)) := do
  let (t, optional) := link
  if ← eatMark "." then return some (← memberName start t false, optional)
  else if ← eatMark "[" then return some (← indexRest r start t false, optional)
  else if ← atTemplate then
    let quasi ← template r true
    return some (← finish start .tagged [t, quasi], optional)
  else if calls then
    if ← eatMark "(" then
      let items ← callArguments r
      return some (← finish start (.call false) (t :: items), optional)
    else if ← eatMark "?." then
      if ← eatMark "(" then
        let items ← callArguments r
        return some (← finish start (.call true) (t :: items), true)
      else if ← eatMark "[" then return some (← indexRest r start t true, true)
      else return some (← memberName start t true, true)
    else return none
  else return none

/-- The chain of an expression with optional links; a call at its end is marked as such. -/
def chainOf (t : Tree) : Tree :=
  match t with
  | .node (.call optional) s cs => .node .chain s [.node (.chainCall optional) s cs]
  | t => .node .chain t.span [t]

/-- `new.target`, or a callee with at most one list of arguments; the word is the current token. -/
def newExpression (r : Rules) : Parser Tree := do
  let start ← here
  advance
  if ← eatMark "." then
    let name ← anyWord
    finish start (.metaProperty "new" name) []
  else
    let callee ← r.newCallee
    let items ← if ← eatMark "(" then callArguments r else pure []
    finish start .new (callee :: items)

/-- What members and calls are attached to. -/
def chainHead (r : Rules) : Parser Tree := do
  if ← atWord "new" then newExpression r else primary r

/-- The callee of `new`: members, but no calls. -/
def newCalleeRule (r : Rules) : Parser Tree := do
  let start ← here
  let head ← chainHead r
  let (t, _) ← growWhile (extend r start false) (head, false)
  return t

def callChainRule (r : Rules) : Parser Tree := do
  let start ← here
  let head ← chainHead r
  let (t, optional) ← growWhile (extend r start true) (head, false)
  return if optional then chainOf t else t

/-! ### Operators -/

def updated (r : Rules) : Parser Tree := do
  let start ← here
  let t ← callChainRule r
  let token ← current
  match updateOf? token.lexeme with
  | some op =>
    if token.afterNewline then return t
    let target ← readable t
    advance
    finish start (.update op false) [target]
  | none => return t

/-- Whether what follows `await` on its line must be its operand, where the word could also be a
name. -/
def operandFollows : Parser Bool := do
  let t ← next
  if t.afterNewline then return false
  match t.lexeme with
  | .word w _ => return w != "instanceof" && w != "in" && w != "of"
  | .string _ _ | .number _ _ | .bigint _ => return true
  | _ => return false

/-- Whether `await` is an operator here. -/
def awaitFirst : Parser Bool := do
  unless ← atWord "await" do return false
  if (← read).isAsync then return true else operandFollows

def awaitExpression (r : Rules) : Parser Tree := do
  let start ← here
  let ctx ← read
  unless ctx.isAsync do
    if ctx.dialect.goal == .either && !ctx.inFunction then complainOfScript .awaitOutsideAsync start
    else complain .awaitOutsideAsync start
  advance
  let value ← r.unary
  finish start .await [value]

def unaryRule (r : Rules) : Parser Tree := do
  let start ← here
  let t ← current
  match unaryOf? t.lexeme, updateOf? t.lexeme with
  | some op, _ =>
    advance
    let value ← r.unary
    finish start (.unary op) [value]
  | none, some op =>
    advance
    let target ← readable (← r.unary)
    finish start (.update op true) [target]
  | none, none => if ← awaitFirst then awaitExpression r else updated r

/-- One operator tighter than a level with its right operand. -/
def extendOperand (r : Rules) (start : Nat) (level : Level) (left : Tree) :
    Parser (Option Tree) := do
  let t ← current
  if (← read).dialect.typed && t.lexeme == .word "as" false && !t.afterNewline &&
      level < Level.compare then
    advance
    let type ← r.type
    return some (← finish start .asType [left, type])
  match binaryOf? t.lexeme with
  | some op =>
    if op == .isIn && !(← read).allowIn then return none
    if op.level ≤ level then return none
    advance
    let right ← r.operandAbove (if op == .power then op.level - 1 else op.level)
    return some (← finish start (.binary op) [left, right])
  | none => return none

def operandAboveRule (r : Rules) (level : Level) : Parser Tree := do
  let start ← here
  let left ← r.unary
  growWhile (extendOperand r start level) left

def conditional (r : Rules) : Parser Tree := do
  let start ← here
  let test ← r.operandAbove Level.conditional
  if ← eatMark "?" then
    let yes ← fullAssignment r
    expectMark ":"
    let no ← r.assignment
    finish start .conditional [test, yes, no]
  else return test

def yieldExpression (r : Rules) : Parser Tree := do
  let start ← here
  advance
  let t ← current
  let bare :=
    t.afterNewline ||
      match t.lexeme with
      | .mark m => [")", "]", "\x7d", ",", ";", ":"].contains m
      | .word w _ => w == "in"
      | .eof => true
      | .template _ false _ => true
      | _ => false
  if bare then finish start (.yield false) []
  else
    let delegate ← eatMark "*"
    let value ← r.assignment
    finish start (.yield delegate) [value]

/-- The arrow function that begins here, if one does. -/
def arrowFirst? (r : Rules) : Parser (Option (Parser Tree)) := do
  let start ← here
  let tokens := (← get).tokens
  match tokens with
  | t :: rest =>
    match t.lexeme with
    | .mark "(" =>
      return if parametersFirst tokens then some (arrowOfParameters r start false) else none
    | .word name escaped =>
      if arrowFirst rest && canName (← read) name escaped then
        return some (arrowOfName r start false)
      else if name == "async" && !escaped then
        match rest with
        | u :: after =>
          if u.afterNewline then return none
          else if parametersFirst rest then
            return some (do advance; arrowOfParameters r start true)
          else match u.lexeme with
            | .word _ _ =>
              return if arrowFirst after then some (do advance; arrowOfName r start true) else none
            | _ => return none
        | [] => return none
      else return none
    | _ => return none
  | [] => return none

def assignmentRule (r : Rules) : Parser Tree := do
  match ← arrowFirst? r with
  | some arrow => arrow
  | none =>
    if (← read).isGenerator && (← atWord "yield") then yieldExpression r
    else
      let start ← here
      let left ← conditional r
      match assignOf? (← current).lexeme with
      | some .plain =>
        let target ← assignable left
        advance
        let value ← r.assignment
        finish start (.assign .plain) [target, value]
      | some op =>
        let target ← readable left
        advance
        let value ← r.assignment
        finish start (.assign op) [target, value]
      | none => return left

end Parser

end CallBridge.Script
