import CallBridge.Record.Basic
import CallBridge.Text.Search

/-!
# Errors around a transform

Whatever fails around the engine becomes a `BridgeError`: a message, a kind, what is known of the
place, and suggestions. An error of unknown origin gets its kind from words in its message; one
that has its kind already is passed on unchanged.
-/

namespace CallBridge

open Text

inductive ErrorKind where
  | transform
  | runtime
  | mapping
  | validation
  | network
  | unknown
  deriving DecidableEq, Repr

namespace ErrorKind

def all : List ErrorKind := [transform, runtime, mapping, validation, network, unknown]

def name : ErrorKind → String
  | transform => "TRANSFORM"
  | runtime => "RUNTIME"
  | mapping => "MAPPING"
  | validation => "VALIDATION"
  | network => "NETWORK"
  | unknown => "UNKNOWN"

def display (k : ErrorKind) : String := k.name ++ "_ERROR"

/-- Whether an error of this kind is put right in the user's code. -/
def isUserError : ErrorKind → Bool
  | mapping | validation => true
  | _ => false

def suggestions : ErrorKind → List String
  | transform =>
    ["Check the source for syntax errors",
      "Check for JavaScript features the transformer does not support",
      "Check the TypeScript type definitions"]
  | runtime =>
    ["Check that every variable is defined", "Check that accessed object properties exist",
      "Check that functions are called correctly"]
  | mapping =>
    ["Check that an event mapping is defined for this trigger", "Use a supported event type",
      "Check that the selector is correct"]
  | validation =>
    ["Check parameter types and values", "Check that required fields are filled in",
      "Check the data format"]
  | network =>
    ["Check the network connection", "Check the API endpoint URL",
      "Check that the dev server is running"]
  | unknown => []

/-- The kind that the words of a message hint at. -/
def ofMessage (message : String) : ErrorKind :=
  if mentions message "fetch" then network
  else if mentions message "transform" || mentions message "AST" then transform
  else if mentions message "mapping" || mentions message "event" then mapping
  else if mentions message "TypeError" || mentions message "ReferenceError" then runtime
  else unknown

end ErrorKind

/-- What is known of the place of an error. When it happened is left out: nothing asks for it. -/
structure ErrorContext where
  filename : Option String
  line : Option Nat
  column : Option Nat
  sourceCode : Option String
  transformedCode : Option String
  eventType : Option String
  apiEndpoint : Option String
  /-- The text of the error that this one was made of. -/
  cause : Option String
  deriving DecidableEq, Repr

namespace ErrorContext

def empty : ErrorContext := ⟨none, none, none, none, none, none, none, none⟩

/-- The parts of the context that a message shows. -/
def summary (c : ErrorContext) : List String :=
  let labelled (label : String) (text : Option String) : List String :=
    text.toList.map fun t => label ++ t
  let position : List String :=
    match c.line, c.column with
    | some l, some k => ["Line: " ++ toString l ++ ", Column: " ++ toString k]
    | _, _ => []
  labelled "File: " c.filename ++ position ++ labelled "Event: " c.eventType ++
    labelled "API: " c.apiEndpoint

end ErrorContext

/-- What an error is taken for. -/
structure ErrorClass where
  kind : ErrorKind
  /-- Whether the error is put right in the user's code. -/
  isUserError : Bool
  deriving DecidableEq, Repr

/-- A kind by itself says where its errors are put right. -/
instance : Coe ErrorKind ErrorClass := ⟨fun k => ⟨k, k.isUserError⟩⟩

structure BridgeError where
  message : String
  errorClass : ErrorClass
  context : ErrorContext
  suggestions : List String
  deriving DecidableEq, Repr

namespace BridgeError

def kind (e : BridgeError) : ErrorKind := e.errorClass.kind

def isUserError (e : BridgeError) : Bool := e.errorClass.isUserError

/-- An error with the suggestions of its kind. -/
def ofKind (message : String) (kind : ErrorKind) (context : ErrorContext) : BridgeError :=
  ⟨message, kind, context, kind.suggestions⟩

/-- The text of an error: its kind and message, then what is known of it. -/
def display (e : BridgeError) : String :=
  let context := e.context.summary
  "[" ++ e.kind.display ++ "] " ++ e.message ++
    (if context.isEmpty then "" else "\n  Context: " ++ ", ".intercalate context) ++
    (if e.suggestions.isEmpty then ""
      else "\n  Suggestions:\n    " ++ "\n    ".intercalate e.suggestions)

def ofParseFailure (f : ParseFailure) : BridgeError :=
  ofKind f.message .transform
    { ErrorContext.empty with
      filename := some f.filename
      line := f.line
      column := f.column
      sourceCode := if f.snippet.isEmpty then none else some f.snippet }

def ofTransform (message filename sourceCode : String) (transformedCode : Option String)
    (line column : Option Nat) : BridgeError :=
  ofKind message .transform
    { ErrorContext.empty with
      filename := some filename
      line
      column
      sourceCode := some sourceCode
      transformedCode }

/-- An error of a mapping; its own suggestions, if there are any, replace the usual ones. -/
def ofMapping (message eventType : String) (suggestions : List String) : BridgeError :=
  let e := ofKind message .mapping { ErrorContext.empty with eventType := some eventType }
  if suggestions.isEmpty then e else { e with suggestions }

def ofNetwork (message apiEndpoint : String) (cause : Option String) : BridgeError :=
  ofKind message .network
    { ErrorContext.empty with apiEndpoint := some apiEndpoint, cause }

def ofValidation (message : String) (context : ErrorContext) : BridgeError :=
  ofKind message .validation context

end BridgeError

/-- Where an error comes from. -/
inductive ErrorCause where
  | bridge (e : BridgeError)
  | parse (f : ParseFailure)
  /-- An error of which nothing but its text is known. -/
  | other (message : String)
  deriving DecidableEq, Repr

/-- The error of a cause. What is known of the place counts only where the cause says nothing. -/
def BridgeError.classify (cause : ErrorCause) (context : ErrorContext) : BridgeError :=
  match cause with
  | .bridge e => e
  | .parse f => .ofParseFailure f
  | .other message =>
    .ofKind message (.ofMessage message) { context with cause := some message }

end CallBridge
