/-!
# Why a script cannot be read

A failure is a cause and the byte offset it points to. Each cause has one wording. Causes found
while splitting the text into tokens take precedence over causes found in the order of the tokens.
-/

namespace CallBridge.Script

/-- The cause of a failure. -/
inductive Problem where
  | unterminatedString
  | unterminatedComment
  | invalidCharacter (c : Char)
  | invalidEscape
  | invalidNumberEnd
  | unexpectedToken
  | missingSemicolon
  | expected (wanted found : String)
  | expectedEither (separator closing found : String)
  | missingInitializer
  | missingDestructuringInitializer
  | reservedWord (word : String)
  | cannotAssign
  | invalidShorthandInitializer
  | badTemplateEscape
  | awaitOutsideAsync
  | returnOutsideFunction
  | nestingTooDeep
  deriving DecidableEq, Repr

namespace Problem

/-- The wording of a cause. -/
def message : Problem → String
  | unterminatedString => "Unterminated string"
  | unterminatedComment => "Unterminated multiline comment"
  | invalidCharacter c => "Invalid Character `" ++ c.toString ++ "`"
  | invalidEscape => "Invalid escape sequence"
  | invalidNumberEnd => "Invalid characters after number"
  | unexpectedToken => "Unexpected token"
  | missingSemicolon =>
    "Expected a semicolon or an implicit semicolon after a statement, but found none"
  | expected wanted found => "Expected `" ++ wanted ++ "` but found `" ++ found ++ "`"
  | expectedEither separator closing found =>
    "Expected `" ++ separator ++ "` or `" ++ closing ++ "` but found `" ++ found ++ "`"
  | missingInitializer => "Missing initializer in const declaration"
  | missingDestructuringInitializer => "Missing initializer in destructuring declaration"
  | reservedWord word =>
    "Identifier expected. '" ++ word ++ "' is a reserved word that cannot be used here."
  | cannotAssign => "Cannot assign to this expression"
  | invalidShorthandInitializer => "Invalid assignment in object literal"
  | badTemplateEscape => "Bad escape sequence in untagged template literal"
  | awaitOutsideAsync =>
    "`await` is only allowed within async functions and at the top levels of modules"
  | returnOutsideFunction => "A 'return' statement can only be used within a function body."
  | nestingTooDeep => "Maximum nesting depth exceeded"

end Problem

/-- A cause and the byte offset it points to. -/
structure Failure where
  problem : Problem
  offset : Nat
  deriving DecidableEq, Repr

end CallBridge.Script
