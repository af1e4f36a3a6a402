import CallBridge.Config.Basic
import CallBridge.Json.Decode
import CallBridge.Json.Printer
import CallBridge.Json.Reader

/-!
# Configuration as JSON

Every record of the configuration has a written form (`toValue`) and is read from a document
(`ofDocument?`). What is missing when reading takes its standard value; a configuration read from a
text is checked as well.
-/

namespace CallBridge

open Json

namespace Mode

def toValue (m : Mode) : Value := .string m.name

/-- A mode is read from its name. -/
def ofDocument? : Document → Option Mode := Document.choice? name all

end Mode

namespace PlatformCalls

def toValue (p : PlatformCalls) : Value :=
  .mk [("eventRegistration", .string p.eventRegistration),
    ("apiInvocation", .string p.apiInvocation)]

/-- Each of the two names has its standard value if it is left out. -/
def ofDocument? (d : Document) : Option PlatformCalls := do
  let m ← d.members? ["eventRegistration", "apiInvocation"] []
  let eventRegistration ← m.getD? "eventRegistration" Document.text? standard.eventRegistration
  let apiInvocation ← m.getD? "apiInvocation" Document.text? standard.apiInvocation
  return ⟨eventRegistration, apiInvocation⟩

end PlatformCalls

namespace Config

/-- The fields that a configuration may have. Others are passed over. -/
def fieldNames : List String :=
  ["eventCallees", "selectorQueries", "fetchCallees", "allowedOrigins", "platform"]

def toValue (c : Config) : Value :=
  .mk [("eventCallees", .ofList .string c.eventCallees),
    ("selectorQueries", .ofList .string c.selectorQueries),
    ("fetchCallees", .ofList .string c.fetchCallees),
    ("allowedOrigins", .ofList .string c.allowedOrigins),
    ("platform", c.platform.toValue)]

/-- A list that is left out is the standard one; one that is given replaces it as a whole. -/
def ofDocument? (d : Document) : Option Config := do
  let m ← d.members? fieldNames []
  let names (field : String) (default : List String) : Option (List String) :=
    m.getD? field (Document.list? Document.text?) default
  let eventCallees ← names "eventCallees" standard.eventCallees
  let selectorQueries ← names "selectorQueries" standard.selectorQueries
  let fetchCallees ← names "fetchCallees" standard.fetchCallees
  let allowedOrigins ← names "allowedOrigins" standard.allowedOrigins
  let platform ← m.getD? "platform" PlatformCalls.ofDocument? standard.platform
  return ⟨eventCallees, selectorQueries, fetchCallees, allowedOrigins, platform⟩

/-- Why a text is no configuration. -/
inductive TextProblem where
  /-- Not JSON, or not of the right form. -/
  | unreadable
  | invalid (problem : ConfigProblem)
  deriving DecidableEq, Repr

/-- A configuration that is in order, or its problem. -/
def checked (c : Config) : Except ConfigProblem Config :=
  match c.problem? with
  | some p => .error p
  | none => .ok c

/-- The configuration of a text. -/
def ofText (text : String) : Except TextProblem Config :=
  match (read? text.toList).bind ofDocument? with
  | none => .error .unreadable
  | some c => c.checked.mapError .invalid

end Config

namespace RecorderOptions

def toValue (o : RecorderOptions) : Value :=
  .mk [("traceCapacity", .nat o.traceCapacity),
    ("debugInfoCapacity", .nat o.debugInfoCapacity),
    ("enableTransformTrace", .bool o.enableTransformTrace),
    ("enableErrorDetails", .bool o.enableErrorDetails)]

/-- Capacities are naturals of 64 bits. -/
def ofDocument? (d : Document) : Option RecorderOptions := do
  let m ← d.members?
    ["traceCapacity", "debugInfoCapacity", "enableTransformTrace", "enableErrorDetails"] []
  let capacity (field : String) (default : Nat) : Option Nat :=
    m.getD? field (Document.natBelow? (Nat.pow 2 64)) default
  let traceCapacity ← capacity "traceCapacity" standard.traceCapacity
  let debugInfoCapacity ← capacity "debugInfoCapacity" standard.debugInfoCapacity
  let enableTransformTrace ←
    m.getD? "enableTransformTrace" Document.bool? standard.enableTransformTrace
  let enableErrorDetails ← m.getD? "enableErrorDetails" Document.bool? standard.enableErrorDetails
  return ⟨traceCapacity, debugInfoCapacity, enableTransformTrace, enableErrorDetails⟩

end RecorderOptions

namespace Options

def toValue (o : Options) : Value :=
  .mk [("filename", .ofOption .string o.filename),
    ("targetMode", .ofOption Mode.toValue o.targetMode),
    ("sourceMap", .ofOption .bool o.sourceMap)]

/-- The wish for a source map has two names. -/
def ofDocument? (d : Document) : Option Options := do
  let m ← d.members? ["filename", "targetMode", "sourceMap"] [("wantSourceMap", "sourceMap")]
  let filename ← m.getD? "filename" (Document.option? Document.text?) .none
  let targetMode ← m.getD? "targetMode" (Document.option? Mode.ofDocument?) .none
  let sourceMap ← m.getD? "sourceMap" (Document.option? Document.bool?) .none
  return ⟨filename, targetMode, sourceMap⟩

/-- The options of a text. -/
def ofText? (text : String) : Option Options := (read? text.toList).bind ofDocument?

end Options

end CallBridge
