import CallBridge.Json.Printer
import CallBridge.Mapping.Usage

/-!
# Events

A page raises web events; the platform calls its handlers with platform events. An `EventMapping`
names the platform event that stands for a web trigger and says how the values of one side are
carried to the other.
-/

namespace CallBridge

open Json

/-- An event of a page: its type and what it carries. -/
structure WebEvent where
  eventType : String
  detail : Value
  deriving Repr

/-- The event that the platform hands to a handler. -/
structure PlatformEvent where
  eventType : String
  appId : Option String
  recordId : Option String
  record : Option Value
  records : Option Value
  deriving Repr

namespace WebEvent

/-- A field of the detail; null counts as missing. -/
def field? (e : WebEvent) (name : String) : Option Value :=
  (e.detail.get? name).filter fun v => !v.isNull

end WebEvent

namespace PlatformEvent

/-- The fields that are present besides the type. -/
def presentFields (e : PlatformEvent) : List (String × Value) :=
  let field (name : String) (v : Option Value) := v.toList.map fun v => (name, v)
  field "records" e.records ++ field "record" e.record ++
    field "appId" (e.appId.map .string) ++ field "recordId" (e.recordId.map .string)

/-- The event as an object; absent fields are left out. -/
def toValue (e : PlatformEvent) : Value := .mk (("type", .string e.eventType) :: e.presentFields)

end PlatformEvent

/-- How the values of an event are carried to the other side. -/
structure EventTransform where
  toPlatform : WebEvent → PlatformEvent
  toWeb : PlatformEvent → WebEvent

/-- What raises a web event: its type and, possibly, the element it is raised on. -/
structure WebTrigger where
  eventType : String
  selector : Option String
  deriving DecidableEq, Repr

structure EventMapping where
  platformName : String
  trigger : WebTrigger
  description : String
  transform : EventTransform
  usage : Usage
  /-- The release that brought the event. -/
  introduced : Option String
  deprecated : Bool

namespace EventTransform

/-- Carries type and records over as they are. -/
def passThrough : EventTransform where
  toPlatform e := ⟨e.eventType, none, none, e.field? "record", e.field? "records"⟩
  toWeb e := ⟨e.eventType, e.toValue⟩

end EventTransform

namespace EventMapping

/-- A mapping that carries values over as they are. -/
def ofNames (platformName eventType : String) : EventMapping :=
  ⟨platformName, ⟨eventType, none⟩, "", .passThrough, ⟨"", ""⟩, none, false⟩

end EventMapping

end CallBridge
