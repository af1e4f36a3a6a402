import CallBridge.Config.Basic
import CallBridge.Pattern.Basic
import CallBridge.Source.Location

/-!
# Records

What a transform leaves behind: one record for each call it recognised, and diagnostics for
whatever the caller should look at.
-/

namespace CallBridge

open Pattern Source

/-- Whether a recognised call has a replacement. -/
inductive Outcome where
  | success
  | failure
  deriving DecidableEq, Repr

def Outcome.all : List Outcome := [.success, .failure]

def Outcome.name : Outcome → String
  | success => "success"
  | failure => "failure"

/-- What became of a recognised call. -/
structure CallRecord where
  web : String
  platform : String
  location : Location
  outcome : Outcome
  failureReason : Option String
  /-- Whether the call was replaced, not only recognised. -/
  applied : Bool
  /-- The method of a request. -/
  method : Option String
  deriving DecidableEq, Repr

namespace CallRecord

/-- A call that has one. In development it is not put in place. -/
def success (web platform : String) (location : Location) (applied : Bool) : CallRecord :=
  ⟨web, platform, location, .success, none, applied, none⟩

/-- A call that has none, and why. It is never put in place. -/
def failure (web platform : String) (location : Location) (reason : String) : CallRecord :=
  ⟨web, platform, location, .failure, some reason, false, none⟩

def withMethod (r : CallRecord) (method : Option String) : CallRecord := { r with method }

def succeeded (r : CallRecord) : Bool := r.outcome == .success

end CallRecord

/-- How bad a finding is. -/
inductive Severity where
  | error
  | warning
  | info
  deriving DecidableEq, Repr

namespace Severity

/-- From the worst to the mildest. -/
def all : List Severity := [error, warning, info]

def name : Severity → String
  | error => "error"
  | warning => "warning"
  | info => "info"

end Severity

/-- The kinds of diagnostics. -/
inductive DiagnosticCode where
  | parseFailure
  | unsupportedConstruct
  | validationWarning
  | ambiguousPattern
  | discardedArguments
  deriving DecidableEq, Repr

namespace DiagnosticCode

def all : List DiagnosticCode :=
  [parseFailure, unsupportedConstruct, validationWarning, ambiguousPattern, discardedArguments]

def name : DiagnosticCode → String
  | parseFailure => "PARSE_FAILURE"
  | unsupportedConstruct => "UNSUPPORTED_CONSTRUCT"
  | validationWarning => "VALIDATION_WARNING"
  | ambiguousPattern => "AMBIGUOUS_PATTERN"
  | discardedArguments => "DISCARDED_ARGUMENTS"

end DiagnosticCode

/-- A finding for the caller, with what may be done about it. -/
structure Diagnostic where
  code : DiagnosticCode
  severity : Severity
  message : String
  location : Option Location
  suggestions : List String
  deriving DecidableEq, Repr

/-- What a transform of one file left behind. -/
structure DebugInfo where
  filename : String
  mode : Mode
  events : List CallRecord
  apis : List CallRecord
  errors : List Diagnostic
  deriving DecidableEq, Repr

namespace DebugInfo

/-- Nothing left behind yet. -/
def empty (filename : String) (mode : Mode) : DebugInfo := ⟨filename, mode, [], [], []⟩

/-- Files a record under its kind. -/
def add (i : DebugInfo) (kind : PatternKind) (r : CallRecord) : DebugInfo :=
  match kind with
  | .eventRegistration => { i with events := i.events ++ [r] }
  | .networkFetch => { i with apis := i.apis ++ [r] }

/-- The calls that were recognised and left as they are, those of events first. -/
def failures (i : DebugInfo) : List CallRecord :=
  (i.events ++ i.apis).filter fun r => !r.succeeded

end DebugInfo

/-- Why a source cannot be transformed. -/
structure ParseFailure where
  filename : String
  message : String
  line : Option Nat
  column : Option Nat
  /-- The line that the failure points to. -/
  snippet : String
  deriving DecidableEq, Repr

namespace ParseFailure

/-- Where the source fails, as far as that is known. A column without a line says nothing. -/
def place (f : ParseFailure) : String :=
  match f.line, f.column with
  | some l, some c => " at " ++ toString l ++ ":" ++ toString c
  | some l, none => " at line " ++ toString l
  | none, _ => ""

/-- The failure as one line for the user. -/
def display (f : ParseFailure) : String :=
  "parse failure in " ++ f.filename ++ f.place ++ ": " ++ f.message

end ParseFailure

end CallBridge
