import CallBridge.Event.Basic

/-!
# The event catalogue

The screens of the platform and the page events that stand for them. Screens are shown when the
document is loaded, forms are submitted; the element that raises the event tells one screen from
the other. Ids travel as text, whatever they were on the page.
-/

namespace CallBridge

open Json

namespace EventCatalogue

/-! ### Values -/

/-- An id as text. -/
def idText : Value → Option String
  | .string s => some s
  | .number n => some (String.ofList n.write)
  | _ => none

/-- The text of a field. -/
def textField? (e : WebEvent) (name : String) : Option String :=
  (e.field? name).bind Value.string?

def listShown (e : WebEvent) : PlatformEvent :=
  { eventType := "app.record.index.show"
    appId := (e.field? "appId").bind idText
    recordId := none
    record := none
    records := some ((e.field? "records").getD (.array [])) }

/-- The event of a single record on a screen. -/
def recordEvent (screen action : String) (e : WebEvent) : PlatformEvent :=
  { eventType := "app.record." ++ screen ++ "." ++ action
    appId := (e.field? "appId").bind idText
    recordId := (e.field? "recordId").bind idText
    record := e.field? "record"
    records := none }

/-- The page field tells which screen is shown. -/
def recordShown (e : WebEvent) : PlatformEvent :=
  let screen :=
    match textField? e "page" with
    | some "record-create" => "create"
    | some "record-edit" => "edit"
    | _ => "detail"
  recordEvent screen "show" e

/-- The form field tells which form is submitted. -/
def formSubmitted (e : WebEvent) : PlatformEvent :=
  let screen :=
    match textField? e "form" with
    | some "record-edit" => "edit"
    | _ => "create"
  recordEvent screen "submit" e

/-- A web event that carries what is present of a platform event. -/
def carrying (eventType : String) (e : PlatformEvent) : WebEvent :=
  ⟨eventType, .mk e.presentFields⟩

def listTransform : EventTransform := ⟨listShown, carrying "pageload"⟩

def showTransform : EventTransform := ⟨recordShown, carrying "pageload"⟩

def submitTransform : EventTransform := ⟨formSubmitted, carrying "formsubmit"⟩

/-! ### Entries -/

/-- A handler in an example. -/
def handlerText (parameter : String) (lines : List String) : String :=
  "(" ++ parameter ++ ") => \x7b\n" ++ String.join (lines.map fun l => "  " ++ l ++ "\n") ++ "\x7d"

def registration (callee trigger handler : String) : String :=
  callee ++ "('" ++ trigger ++ "', " ++ handler ++ ");"

/-- A screen or form of a single record, which calls `use` with the record. -/
def recordMapping (name eventType selector description use : String)
    (transform : EventTransform) : EventMapping :=
  let query := "document.querySelector('" ++ selector ++ "').addEventListener"
  { platformName := name
    trigger := ⟨eventType, some selector⟩
    description
    transform
    usage :=
      ⟨registration query eventType (handlerText "e" [use ++ "(e.detail.record);"]),
        registration "kintone.events.on" name
          (handlerText "event" [use ++ "(event.record);", "return event;"])⟩
    introduced := none
    deprecated := false }

def listMapping : EventMapping :=
  let log := "console.log('record list shown', records.length);"
  { platformName := "app.record.index.show"
    trigger := ⟨"DOMContentLoaded", some "[data-page=\"record-list\"]"⟩
    description := "Record list screen finished rendering"
    transform := listTransform
    usage :=
      ⟨registration "document.addEventListener" "DOMContentLoaded"
          (handlerText "e" ["const records = e.detail.records;", log]),
        registration "kintone.events.on" "app.record.index.show"
          (handlerText "event" ["const records = event.records;", log, "return event;"])⟩
    introduced := some "2019.02"
    deprecated := false }

/-- All default mappings, in the order they are registered. -/
def all : List EventMapping :=
  [listMapping,
    recordMapping "app.record.detail.show" "DOMContentLoaded" "[data-page=\"record-detail\"]"
      "Record detail screen finished rendering" "render" showTransform,
    recordMapping "app.record.create.show" "DOMContentLoaded" "[data-page=\"record-create\"]"
      "Record create screen finished rendering" "prefill" showTransform,
    recordMapping "app.record.edit.show" "DOMContentLoaded" "[data-page=\"record-edit\"]"
      "Record edit screen finished rendering" "lockFields" showTransform,
    recordMapping "app.record.create.submit" "submit" "[data-form=\"record-create\"]"
      "Record create form submitted" "validate" submitTransform,
    recordMapping "app.record.edit.submit" "submit" "[data-form=\"record-edit\"]"
      "Record edit form submitted" "validate" submitTransform]

end EventCatalogue

end CallBridge
