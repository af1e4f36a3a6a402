import CallBridge.Number.Binary64
import CallBridge.Script.Problem

/-!
# Tokens

A token is what the grammar of scripts reads as one symbol, with the bytes it spans. A text that
cannot be split further ends in an `invalid` token, so a failure is met where the grammar reaches
it. Comments are kept beside the tokens: those in front of a token belong to it.
-/

namespace CallBridge.Script

/-- A half-open range of byte offsets. -/
structure Span where
  start : Nat
  stop : Nat
  deriving DecidableEq, Repr

/-- The span of nodes that stand for no text. -/
def Span.none : Span := ⟨0, 0⟩

/-- The value of a string literal. When `halves` is set, half a surrogate pair is written as the
replacement character and four hexadecimal digits. -/
structure Text where
  value : String
  halves : Bool
  deriving DecidableEq, Repr

/-- A piece of a template: its text as written, and its value unless an escape has none. -/
structure Quasi where
  raw : String
  cooked : Option Text
  deriving DecidableEq, Repr

inductive Lexeme where
  /-- An identifier or a keyword; a keyword spelt with an escape is no keyword. -/
  | word (name : String) (escaped : Bool)
  | privateName (name : String)
  | mark (text : String)
  | string (value : Text) (raw : String)
  | number (value : Number.Magnitude) (whole : Bool)
  | bigint (digits : String)
  /-- A piece of a template, which may begin the template, end it, or both. -/
  | template (quasi : Quasi) (opens closes : Bool)
  | invalid (problem : Problem)
  | eof
  deriving DecidableEq, Repr

structure Token where
  lexeme : Lexeme
  span : Span
  /-- Whether a line ends between the token before and this one. -/
  afterNewline : Bool
  deriving DecidableEq, Repr

inductive CommentForm where
  | line
  | block
  | lines
  deriving DecidableEq, Repr

/-- A comment in front of a token. -/
structure Comment where
  form : CommentForm
  text : String
  afterNewline : Bool
  beforeNewline : Bool
  /-- The offset of the token it stands in front of. -/
  owner : Nat
  deriving DecidableEq, Repr

/-! ### Words -/

/-- Words that can never name anything. -/
def reservedWords : List String :=
  ["break", "case", "catch", "class", "const", "continue", "debugger", "default", "delete", "do",
    "else", "enum", "export", "extends", "false", "finally", "for", "function", "if", "import",
    "in", "instanceof", "new", "null", "return", "super", "switch", "this", "throw", "true", "try",
    "typeof", "var", "void", "while", "with"]

/-- Words with a meaning of their own in some places, which messages call by their text. -/
def contextualWords : List String :=
  ["await", "yield", "let", "static", "async", "of", "get", "set", "from", "as", "meta", "target",
    "accessor", "assert", "using", "implements", "interface", "package", "private", "protected",
    "public", "abstract", "any", "boolean", "constructor", "declare", "enum", "global", "infer",
    "intrinsic", "is", "keyof", "module", "namespace", "never", "number", "object", "out",
    "override", "readonly", "require", "satisfies", "source", "string", "symbol", "type",
    "undefined", "unique", "unknown", "asserts", "bigint", "defer"]

def isReserved (word : String) : Bool := reservedWords.contains word

def isKeyword (word : String) : Bool := isReserved word || contextualWords.contains word

namespace Lexeme

/-- The name of a lexeme in messages. -/
def describe : Lexeme → String
  | word name escaped => if isKeyword name && !escaped then name else "Identifier"
  | privateName _ => "PrivateIdentifier"
  | mark text => text
  | string _ _ => "string"
  | number _ whole => if whole then "decimal" else "float"
  | bigint _ => "bigint"
  | template _ true true => "NoSubstitutionTemplate"
  | template _ true false => "TemplateHead"
  | template _ false false => "TemplateMiddle"
  | template _ false true => "TemplateTail"
  | invalid _ => "Unknown"
  | eof => "EOF"

end Lexeme

end CallBridge.Script
