import CallBridge.Marker.Count
import CallBridge.Record.Basic

/-!
# Checking an output

The texts before and after a transform are compared by the calls that can be counted in them. What
does not fit is reported; nothing is refused.
-/

namespace CallBridge.Marker

/-- A finding of a check has no place: what is compared are two whole texts. -/
def finding (severity : Severity) (message suggestion : String) : Diagnostic :=
  ⟨.validationWarning, severity, message, none, [suggestion]⟩

/-- The interfaces that have no counterpart, with what finds them. -/
def legacyInterfaces : List (String × (String → Bool)) :=
  [("XMLHttpRequest", hasWord "XMLHttpRequest"), ("jQuery", hasWord "jQuery"),
    ("$", fun text => 0 < countFunctions ["$"] text)]

/-- An interface that no mapping can replace. -/
def legacyFinding (name : String) : Diagnostic :=
  finding .warning ("Unsupported API '" ++ name ++ "' found in original code")
    ("Replace '" ++ name ++ "' with web standard alternatives")

/-- The registrations on the platform that can be seen in a text. -/
def countPlatformEvents (config : Config) (text : String) : Nat :=
  countFunctions [config.platform.eventRegistration] text

/-- The requests to the platform that can be seen in a text. -/
def countPlatformApis (config : Config) (text : String) : Nat :=
  countFunctions [config.platform.apiInvocation] text

/-- Findings on an output that should run on the platform. -/
def checkProduction (config : Config) (source generated : String) : List Diagnostic :=
  let platformEvents := countPlatformEvents config generated
  let platformApis := countPlatformApis config generated
  let events := countMethods config.registrationMethods source
  let fetches := countFunctions config.fetchCallees source
  let noCalls :=
    finding .warning "Transformed code does not contain platform API calls"
      "Check that web APIs are mapped to platform APIs"
  let lostEvents :=
    finding .error
      (toString events ++
        " event listener(s) in the original but no platform event registration in the output")
      "Check the event mapping configuration"
  let lostFetches :=
    finding .error
      (toString fetches ++ " fetch call(s) in the original but no platform API call in the output")
      "Check the API mapping configuration"
  (if platformEvents = 0 ∧ platformApis = 0 then [noCalls] else []) ++
    (if 0 < events ∧ platformEvents = 0 then [lostEvents] else []) ++
    (if 0 < fetches ∧ platformApis = 0 then [lostFetches] else []) ++
    ((legacyInterfaces.filter fun i => i.2 source).map fun i => legacyFinding i.1)

/-- Findings on an output that should be the same program. -/
def checkDevelopment (config : Config) (source generated : String) : List Diagnostic :=
  let count (text : String) : Nat :=
    countPlatformEvents config text + countPlatformApis config text
  let gained := count generated - count source
  if gained = 0 then []
  else
    [finding .error ("Development output gained " ++ toString gained ++ " platform call(s)")
      "Development mode must not rewrite calls"]

/-- Which comparison is made follows from the mode. -/
def check (config : Config) (mode : Mode) (source generated : String) : List Diagnostic :=
  match mode with
  | .production => checkProduction config source generated
  | .development => checkDevelopment config source generated

end CallBridge.Marker
