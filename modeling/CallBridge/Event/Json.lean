import CallBridge.Event.Basic
import CallBridge.Json.Decode

/-!
# Events as JSON

The type of an event is written under `type`. A web event without detail carries null; what a
platform event lacks is left out.
-/

namespace CallBridge

open Json

namespace WebEvent

def toValue (e : WebEvent) : Value := .mk [("type", .string e.eventType), ("detail", e.detail)]

/-- The detail may be left out; the type may not. -/
def ofDocument? (d : Document) : Option WebEvent := do
  let m ← d.members? ["type", "detail"] []
  let eventType ← m.get? "type" Document.text?
  let detail ← m.getD? "detail" Document.value? .null
  return ⟨eventType, detail⟩

end WebEvent

namespace PlatformEvent

/-- Everything but the type may be left out. Identifiers are texts, records any values. -/
def ofDocument? (d : Document) : Option PlatformEvent := do
  let m ← d.members? ["type", "appId", "recordId", "record", "records"] []
  let eventType ← m.get? "type" Document.text?
  let appId ← m.option? "appId" Document.text?
  let recordId ← m.option? "recordId" Document.text?
  let record ← m.option? "record" Document.value?
  let records ← m.option? "records" Document.value?
  return ⟨eventType, appId, recordId, record, records⟩

end PlatformEvent

end CallBridge
