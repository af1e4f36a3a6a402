import CallBridge.Config.Json
import CallBridge.Record.Recorder

/-!
# Records as JSON

The written forms of what a transform leaves behind. A debug info and a trace carry the time they
were recorded at when they are read; it is left out when they are written, since it says nothing
about the transform.
-/

namespace CallBridge

open Json Source Time

/-- Naturals of 32 bits. -/
def Json.Document.word? : Document → Option Nat := Document.natBelow? (Nat.pow 2 32)

namespace Source.Location

def toValue (l : Location) : Value := .mk [("line", .nat l.line), ("column", .nat l.column)]

/-- Both numbers must be there. -/
def ofDocument? (d : Document) : Option Location := do
  let m ← d.members? ["line", "column"] []
  let line ← m.get? "line" Document.word?
  let column ← m.get? "column" Document.word?
  return ⟨line, column⟩

end Source.Location

def Source.Mapping.toValue (m : Mapping) : Value :=
  .mk [("original", m.origin.toValue), ("generated", m.generated.toValue), ("name", .string m.name)]

/-- A mapping has two places and a name. -/
def Source.Mapping.ofDocument? (d : Document) : Option Mapping := do
  let m ← d.members? ["original", "generated", "name"] []
  let origin ← m.get? "original" Location.ofDocument?
  let generated ← m.get? "generated" Location.ofDocument?
  let name ← m.get? "name" Document.text?
  return ⟨origin, generated, name⟩

namespace CallRecord

def fieldNames : List String :=
  ["webConstruct", "platformConstruct", "sourceLocation", "outcome", "failureReason", "applied",
    "method"]

/-- The method is left out where there is none. -/
def toValue (r : CallRecord) : Value :=
  .mk <|
    [("webConstruct", .string r.web), ("platformConstruct", .string r.platform),
      ("sourceLocation", r.location.toValue), ("outcome", .string r.outcome.name),
      ("failureReason", .ofOption .string r.failureReason), ("applied", .bool r.applied)] ++
      r.method.toList.map fun method => ("method", .string method)

/-- The reason and the method may be left out or null. -/
def ofDocument? (d : Document) : Option CallRecord := do
  let m ← d.members? fieldNames []
  let web ← m.get? "webConstruct" Document.text?
  let platform ← m.get? "platformConstruct" Document.text?
  let location ← m.get? "sourceLocation" Location.ofDocument?
  let outcome ← m.get? "outcome" (Document.choice? Outcome.name Outcome.all)
  let failureReason ← m.option? "failureReason" Document.text?
  let applied ← m.get? "applied" Document.bool?
  let method ← m.option? "method" Document.text?
  return ⟨web, platform, location, outcome, failureReason, applied, method⟩

end CallRecord

namespace Diagnostic

/-- A diagnostic without a place has null there. -/
def toValue (d : Diagnostic) : Value :=
  .mk [("message", .string d.message), ("location", .ofOption Location.toValue d.location),
    ("severity", .string d.severity.name), ("code", .string d.code.name),
    ("suggestions", .ofList .string d.suggestions)]

/-- The suggestions may be left out, if there are none. -/
def ofDocument? (d : Document) : Option Diagnostic := do
  let m ← d.members? ["message", "location", "severity", "code", "suggestions"] []
  let message ← m.get? "message" Document.text?
  let location ← m.option? "location" Location.ofDocument?
  let severity ← m.get? "severity" (Document.choice? Severity.name Severity.all)
  let code ← m.get? "code" (Document.choice? DiagnosticCode.name DiagnosticCode.all)
  let suggestions ← m.getD? "suggestions" (Document.list? Document.text?) []
  return ⟨code, severity, message, location, suggestions⟩

end Diagnostic

/-- An instant in its written form. -/
def Json.Document.instant? (d : Document) : Option Instant := d.text?.bind readInstant?

namespace DebugInfo

def fieldNames : List String :=
  ["filename", "targetMode", "eventMappings", "apiMappings", "errors", "recordedAt"]

def toValue (i : DebugInfo) : Value :=
  .mk [("filename", .string i.filename), ("targetMode", i.mode.toValue),
    ("eventMappings", .ofList CallRecord.toValue i.events),
    ("apiMappings", .ofList CallRecord.toValue i.apis),
    ("errors", .ofList Diagnostic.toValue i.errors)]

/-- The time it was recorded at must be there and be one, and is dropped. -/
def ofDocument? (d : Document) : Option DebugInfo := do
  let m ← d.members? fieldNames []
  let filename ← m.get? "filename" Document.text?
  let mode ← m.get? "targetMode" Mode.ofDocument?
  let events ← m.get? "eventMappings" (Document.list? CallRecord.ofDocument?)
  let apis ← m.get? "apiMappings" (Document.list? CallRecord.ofDocument?)
  let errors ← m.get? "errors" (Document.list? Diagnostic.ofDocument?)
  let _ ← m.get? "recordedAt" Document.instant?
  return ⟨filename, mode, events, apis, errors⟩

end DebugInfo

namespace Trace

def fieldNames : List String :=
  ["filename", "originalText", "generatedText", "sourceMapText", "mappings", "durationMs",
    "recordedAt"]

/-- A trace keeps its time, which tells the recent ones from the others. -/
def ofDocument? (d : Document) : Option Trace := do
  let m ← d.members? fieldNames []
  let filename ← m.get? "filename" Document.text?
  let source ← m.get? "originalText" Document.text?
  let generated ← m.get? "generatedText" Document.text?
  let sourceMap ← m.option? "sourceMapText" Document.text?
  let mappings ← m.get? "mappings" (Document.list? Mapping.ofDocument?)
  let duration ← m.get? "durationMs" Document.real?
  let recordedAt ← m.get? "recordedAt" Document.instant?
  return ⟨filename, source, generated, sourceMap, mappings, duration, recordedAt⟩

end Trace

/-- The average is written with four decimals, as a text. -/
def Statistics.toValue (s : Statistics) : Value :=
  .mk [("totalEventMappings", .nat s.events.total),
    ("successfulEventMappings", .nat s.events.successful),
    ("failedEventMappings", .nat s.events.failed),
    ("totalApiMappings", .nat s.apis.total),
    ("successfulApiMappings", .nat s.apis.successful),
    ("failedApiMappings", .nat s.apis.failed),
    ("totalErrors", .nat s.errors),
    ("totalTransforms", .nat s.transforms),
    ("recentTransforms", .nat s.recentTransforms),
    ("averageTransformSize", .string (s.averageSize.toFixed 4))]

end CallBridge
