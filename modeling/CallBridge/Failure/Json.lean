import CallBridge.Failure.Basic
import CallBridge.Json.Basic

/-!
# Errors as JSON
-/

namespace CallBridge

open Json

/-- A context is written with all its fields. What is not known is null. -/
def ErrorContext.toValue (c : ErrorContext) : Value :=
  .mk [("filename", .ofOption .string c.filename), ("line", .ofOption .nat c.line),
    ("column", .ofOption .nat c.column), ("sourceCode", .ofOption .string c.sourceCode),
    ("transformedCode", .ofOption .string c.transformedCode),
    ("eventType", .ofOption .string c.eventType),
    ("apiEndpoint", .ofOption .string c.apiEndpoint),
    ("originalError", .ofOption .string c.cause)]

/-- The fields of an error as a caller reads them, whether the user can mend it among them. -/
def BridgeError.fields (e : BridgeError) : List (String × Value) :=
  [("message", .string e.message), ("errorType", .string e.kind.name),
    ("context", e.context.toValue), ("suggestions", .ofList .string e.suggestions),
    ("isUserError", .bool e.isUserError)]

end CallBridge
