import CallBridge.Script.Tree

/-!
# The state of the grammar

A rule of the grammar is a function of its surroundings (`Context`) and of the tokens still to be
read. A failure ends reading; a `complaint` is remembered while reading goes on, and the first one
is what is reported in the end, unless the text could not even be split into tokens. Repetition
is bounded by the number of tokens, which each step of a repetition takes one of.
-/

namespace CallBridge.Script

/-- What kind of file a script stands in. -/
inductive Goal where
  | module
  | script
  /-- A module if it imports or exports. -/
  | either
  deriving DecidableEq, Repr

/-- How a file is to be read. -/
structure Dialect where
  goal : Goal
  /-- Whether types may be written. -/
  typed : Bool
  /-- Whether `return` may stand outside functions. -/
  returnAnywhere : Bool
  deriving DecidableEq, Repr

/-- The surroundings of a rule. -/
structure Context where
  dialect : Dialect
  /-- Whether `in` is an operator here. -/
  allowIn : Bool
  isAsync : Bool
  isGenerator : Bool
  inFunction : Bool
  /-- More than the number of tokens. -/
  budget : Nat

/-- What has been read. The tokens end with the end of the text, which is never taken. -/
structure State where
  tokens : List Token
  /-- The end of the last token taken. -/
  lastStop : Nat
  /-- The first complaint. -/
  complaint : Option Failure
  /-- A complaint that holds only if the file is no module. -/
  scriptComplaint : Option Failure
  /-- Whether an import or export was seen. -/
  sawModule : Bool

/-- A rule of the grammar. -/
abbrev Parser := ReaderT Context (StateT State (Except Failure))

namespace Parser

/-- The token at the end of every text. -/
def endToken : Token := ⟨.eof, Span.none, false⟩

def current : Parser Token := do return (← get).tokens.headD endToken

/-- The token after the current one. -/
def next : Parser Token := do return (← get).tokens.tail.headD endToken

/-- Ends reading, with the first complaint if there is one. A token that is no symbol at all is
the cause of any failure at it. -/
def failAt {α : Type} (problem : Problem) (offset : Nat) : Parser α := do
  match (← current).lexeme, (← get).complaint with
  | .invalid p, _ => throw ⟨p, (← current).span.start⟩
  | _, some first => throw first
  | _, none => throw ⟨problem, offset⟩

def unexpected {α : Type} : Parser α := do failAt .unexpectedToken (← current).span.start

/-- Remembers a failure that does not end reading. -/
def complain (problem : Problem) (offset : Nat) : Parser Unit :=
  modify fun s => { s with complaint := s.complaint <|> some ⟨problem, offset⟩ }

/-- Remembers a failure that holds only outside modules. -/
def complainOfScript (problem : Problem) (offset : Nat) : Parser Unit :=
  modify fun s => { s with scriptComplaint := s.scriptComplaint <|> some ⟨problem, offset⟩ }

/-- Takes the current token; the end of the text stays. -/
def advance : Parser Unit :=
  modify fun s =>
    match s.tokens with
    | t :: u :: rest => { s with tokens := u :: rest, lastStop := t.span.stop }
    | _ => s

/-- The offset of the current token. -/
def here : Parser Nat := do return (← current).span.start

def atMark (m : String) : Parser Bool := do return (← current).lexeme == .mark m

def nextIsMark (m : String) : Parser Bool := do return (← next).lexeme == .mark m

def atWord (w : String) : Parser Bool := do return (← current).lexeme == .word w false

def atEnd : Parser Bool := do return (← current).lexeme == .eof

/-- Takes a mark if it is the current token. -/
def eatMark (m : String) : Parser Bool := do
  if ← atMark m then
    advance
    return true
  else return false

def eatWord (w : String) : Parser Bool := do
  if ← atWord w then
    advance
    return true
  else return false

def failExpected {α : Type} (wanted : String) : Parser α := do
  let t ← current
  failAt (.expected wanted t.lexeme.describe) t.span.start

def expectMark (m : String) : Parser Unit := do
  unless ← eatMark m do failExpected m

def expectWord (w : String) : Parser Unit := do
  unless ← eatWord w do failExpected w

/-- The node of what was read since an offset. -/
def finish (start : Nat) (kind : Kind) (children : List Tree) : Parser Tree := do
  return .node kind ⟨start, (← get).lastStop⟩ children

/-- Runs a rule in changed surroundings. -/
def within {α : Type} (change : Context → Context) (rule : Parser α) : Parser α :=
  withReader change rule

/-! ### Repetition -/

/-- Runs `item` as long as `more` holds. -/
def repeatWhile {α : Type} (more : Parser Bool) (item : Parser α) : Parser (List α) := do
  loop (← read).budget
where
  loop : Nat → Parser (List α)
    | 0 => do failAt .nestingTooDeep (← here)
    | budget + 1 => do
      if ← more then
        let x ← item
        return x :: (← loop budget)
      else return []

/-- Applies `grow` to a value as long as it gives a new one. -/
def growWhile {α : Type} (grow : α → Parser (Option α)) (x : α) : Parser α := do
  loop (← read).budget x
where
  loop : Nat → α → Parser α
    | 0, _ => do failAt .nestingTooDeep (← here)
    | budget + 1, x => do
      match ← grow x with
      | some y => loop budget y
      | none => return x

/-- Items with commas between them up to a closing mark, which is not taken. A comma may stand
behind the last item. -/
def delimited {α : Type} (closing : String) (item : Parser α) : Parser (List α) := do
  let done : Parser Bool := do return (← atMark closing) || (← atEnd)
  if ← done then return []
  let first ← item
  let more : Parser Bool := do
    if ← done then return false
    unless ← atMark "," do
      let t ← current
      failAt (.expectedEither "," closing t.lexeme.describe) t.span.start
    advance
    return !(← atMark closing)
  return first :: (← repeatWhile more item)

/-! ### Words -/

/-- Whether a word may name a variable here. -/
def canName (ctx : Context) (name : String) (escaped : Bool) : Bool :=
  escaped || !(isReserved name || (name == "await" && ctx.isAsync) ||
    (name == "yield" && ctx.isGenerator))

/-- The name of a variable. -/
def variableName : Parser String := do
  match (← current).lexeme with
  | .word name escaped =>
    if canName (← read) name escaped then
      advance
      return name
    else failAt (.reservedWord name) (← here)
  | _ => unexpected

/-- Any word. -/
def anyWord : Parser String := do
  match (← current).lexeme with
  | .word name _ =>
    advance
    return name
  | _ => unexpected

/-- The end of a statement: a semicolon, or a place where one may be left out. -/
def endStatement : Parser Unit := do
  if ← eatMark ";" then return
  let t ← current
  if t.lexeme == .mark "\x7d" || t.lexeme == .eof || t.afterNewline then return
  failAt .missingSemicolon (← get).lastStop

/-! ### Looking ahead -/

/-- The tokens after the parenthesis that closes the given number of open ones. -/
def afterMatching : Nat → List Token → List Token
  | _, [] => []
  | depth, t :: rest =>
    if t.lexeme == .mark "(" then afterMatching (depth + 1) rest
    else if t.lexeme == .mark ")" then
      if depth ≤ 1 then rest else afterMatching (depth - 1) rest
    else afterMatching depth rest

/-- Whether an arrow stands in front of these tokens. -/
def arrowFirst (tokens : List Token) : Bool :=
  match tokens with
  | t :: _ => t.lexeme == .mark "=>" && !t.afterNewline
  | [] => false

/-- Whether the tokens begin with parameters in parentheses and an arrow. -/
def parametersFirst (tokens : List Token) : Bool :=
  match tokens with
  | t :: _ => t.lexeme == .mark "(" && arrowFirst (afterMatching 0 tokens)
  | [] => false

end Parser

/-- The rules that others call again at a greater depth. -/
structure Rules where
  assignment : Parser Tree
  /-- An operand with the operators that bind tighter than a level. -/
  operandAbove : Nat → Parser Tree
  unary : Parser Tree
  /-- The callee of `new`. -/
  newCallee : Parser Tree
  /-- Members and calls behind a primary expression. -/
  callChain : Parser Tree
  pattern : Parser Tree
  statement : Parser Tree
  type : Parser Tree

/-- The rules at a depth that no text reaches. -/
def Rules.tooDeep : Rules :=
  let fail : Parser Tree := do Parser.failAt .nestingTooDeep (← Parser.here)
  ⟨fail, fun _ => fail, fail, fail, fail, fail, fail, fail⟩

end CallBridge.Script
