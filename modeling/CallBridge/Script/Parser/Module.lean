import CallBridge.Script.Lexer
import CallBridge.Script.Parser.Statement

/-!
# Imports, exports and whole scripts

`parseScript` reads a file, `parseExpression` an expression at the front of a text. Both give the
tree or the failure that is reported for the text.
-/

namespace CallBridge.Script

namespace Parser

def seeModule : Parser Unit := modify fun s => { s with sawModule := true }

/-- A name or a string in an import or export list. -/
def moduleName : Parser ModuleName := do
  match (← current).lexeme with
  | .word name _ =>
    advance
    return .name name
  | .string value _ =>
    advance
    return .quoted value
  | _ => unexpected

/-- The string after `from`. -/
def sourceText : Parser Text := do
  match (← current).lexeme with
  | .string value _ =>
    advance
    return value
  | _ => unexpected

/-! ### Imports -/

def importItem : Parser Tree := do
  let start ← here
  let t ← current
  let imported ← moduleName
  if ← eatWord "as" then
    let name ← variableName
    finish start (.importNamed imported name) []
  else
    match imported, t.lexeme with
    | .name name, .word _ escaped =>
      unless canName (← read) name escaped do failAt (.reservedWord name) start
      finish start (.importNamed imported name) []
    | _, _ => failExpected "as"

/-- Specifiers after a default name: a namespace or a list. -/
def importRest : Parser (List Tree) := do
  let start ← here
  if ← eatMark "*" then
    expectWord "as"
    let name ← variableName
    return [← finish start (.importNamespace name) []]
  else
    expectMark "\x7b"
    let items ← delimited "\x7d" importItem
    expectMark "\x7d"
    return items

def importSpecifiers : Parser (List Tree) := do
  let start ← here
  match (← current).lexeme with
  | .word _ _ =>
    let name ← variableName
    let first ← finish start (.importDefault name) []
    if ← eatMark "," then return first :: (← importRest) else return [first]
  | _ => importRest

def importDeclaration : Parser Tree := do
  let start ← here
  seeModule
  advance
  match (← current).lexeme with
  | .string _ _ =>
    let source ← sourceText
    endStatement
    finish start (.importDeclaration source false) []
  | _ =>
    let items ← importSpecifiers
    expectWord "from"
    let source ← sourceText
    endStatement
    finish start (.importDeclaration source true) items

/-! ### Exports -/

def exportItem : Parser Tree := do
  let start ← here
  let name ← moduleName
  let exported ← if ← eatWord "as" then moduleName else pure name
  finish start (.exportNamed name exported) []

def exportList (start : Nat) : Parser Tree := do
  expectMark "\x7b"
  let items ← delimited "\x7d" exportItem
  expectMark "\x7d"
  let source ← if ← eatWord "from" then some <$> sourceText else pure none
  endStatement
  finish start (.exportList source) items

def exportAll (start : Nat) : Parser Tree := do
  expectMark "*"
  let name ← if ← eatWord "as" then some <$> moduleName else pure none
  expectWord "from"
  let source ← sourceText
  endStatement
  finish start (.exportAll source name) []

def exportDefault (r : Rules) (start : Nat) : Parser Tree := do
  advance
  let t ← next
  let isFunction ← atWord "function"
  let isAsync := (← atWord "async") && t.lexeme == .word "function" false && !t.afterNewline
  let value ←
    if isFunction || isAsync then functionExpression r true true
    else if ← atWord "class" then classFrom r true true
    else
      let value ← fullAssignment r
      endStatement
      pure value
  finish start .exportDefault [value]

def exportDeclaration (r : Rules) : Parser Tree := do
  let start ← here
  seeModule
  advance
  if ← atMark "*" then exportAll start
  else if ← atMark "\x7b" then exportList start
  else if ← atWord "default" then exportDefault r start
  else
    let declares : Bool :=
      match (← current).lexeme with
      | .word w false => ["var", "let", "const", "function", "class", "async"].contains w
      | _ => false
    unless declares do unexpected
    let item ← r.statement
    finish start .exportDeclaration [item]

/-- A statement, an import or an export. -/
def topLevelItem (r : Rules) : Parser Tree := do
  if ← atWord "import" then
    let t ← next
    if t.lexeme == .mark "(" || t.lexeme == .mark "." then r.statement else importDeclaration
  else if ← atWord "export" then exportDeclaration r
  else r.statement

/-- Everything up to the end of the text. -/
def program (r : Rules) (hashbang : Option String) (stop : Nat) : Parser Tree := do
  let top : Rules := { r with statement := topLevelItem r }
  let items ← bodyItems top (do return !(← atEnd))
  return .node (.program hashbang) ⟨0, stop⟩ items

/-! ### Outcomes -/

/-- A property that only a pattern may have, left over in an expression. -/
def strayDefault? (t : Tree) : Option Failure :=
  (t.subtrees.find? fun u => u.kind == .shorthandDefault).map fun u =>
    ⟨.invalidShorthandInitializer, u.span.start⟩

/-- How deep rules may call each other: fewer than eight of them stand between two tokens. -/
def depthOf (budget : Nat) : Nat := 8 * budget

/-- Runs a rule over the tokens of a text. The first complaint is reported. -/
def run (dialect : Dialect) (tokens : List Token) (rule : Rules → Parser Tree) :
    Except Failure Tree := do
  let budget := tokens.length + 1
  let ctx : Context := ⟨dialect, true, dialect.goal == .module, false, false, budget⟩
  let init : State := ⟨tokens, 0, none, none, false⟩
  let (t, s) ← StateT.run (ReaderT.run (rule (rules (depthOf budget))) ctx) init
  match s.tokens with
  | ⟨.invalid p, span, _⟩ :: _ => throw ⟨p, span.start⟩
  | _ => pure ()
  if let some f := s.complaint then throw f
  if let some f := strayDefault? t then throw f
  match s.scriptComplaint with
  | some f => if s.sawModule then return t else throw f
  | none => return t

end Parser

/-! ### Files -/

/-- The first line of a file that names its interpreter. -/
def splitHashbang : List Char → Option String × List Char
  | '#' :: '!' :: rest =>
    let (line, rest) := rest.span fun c => !isLineEnd c
    (some (String.ofList ('#' :: '!' :: line)), rest)
  | cs => (none, cs)

/-- A script that has been read. -/
structure Program where
  tree : Tree
  /-- The comments in front of tokens, in the order of the text. -/
  comments : List Comment

/-- Reads a file. -/
def parseScript (dialect : Dialect) (source : String) : Except Failure Program := do
  let cs := source.toList
  let (hashbang, rest) := splitHashbang cs
  let skipped := cs.length - rest.length
  let blank := List.replicate (Text.bytes (cs.take skipped)) ' '
  let (tokens, comments) := tokenize (blank ++ rest)
  let tree ← Parser.run dialect tokens fun r => Parser.program r hashbang (Text.bytes cs)
  return ⟨tree, comments⟩

/-- Reads the expression at the front of a text; what stands behind it is left alone. -/
def parseExpression (source : List Char) : Except Failure Tree :=
  Parser.run ⟨.module, false, false⟩ (tokenize source).1 Parser.expression

/-! ### Dialects -/

/-- The last part of a path that names a file. -/
def fileName? (path : List Char) : Option (List Char) :=
  let parts := (path.splitOn '/').filter fun p => !p.isEmpty && p != ['.']
  match parts.getLast? with
  | some p => if p == ['.', '.'] then none else some p
  | none => none

/-- What stands behind the last point of a file name, unless the name begins with that point. -/
def extension? (name : List Char) : Option String :=
  let (tail, head) := name.reverse.span (· != '.')
  match head with
  | '.' :: stem => if stem.isEmpty then none else some (String.ofList tail.reverse)
  | _ => none

/-- How a file of that name is to be read; without a known extension, as a module. -/
def Dialect.ofFilename (path : String) : Dialect :=
  match (fileName? path.toList).bind extension? with
  | some "js" => ⟨.either, false, false⟩
  | some "cjs" => ⟨.script, false, true⟩
  | some "cts" => ⟨.script, true, true⟩
  | some "ts" => ⟨.module, true, false⟩
  | some "tsx" => ⟨.module, true, false⟩
  | some "mts" => ⟨.module, true, false⟩
  | _ => ⟨.module, false, false⟩

end CallBridge.Script
