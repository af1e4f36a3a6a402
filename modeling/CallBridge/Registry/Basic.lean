import CallBridge.Api.Basic
import CallBridge.Event.Basic
import CallBridge.Text.Quoted

/-!
# The mapping registry

Mappings are kept in the order they were registered, beside index tables from each key to a place
in that order. A mapping is refused when one of its keys is taken or its path prefix is empty; a
refused mapping leaves the registry as it was.
-/

namespace CallBridge

open Collection Text

/-- Where the mapping of a key stands. -/
abbrev Index (κ : Type) := Ordered κ Nat

structure Registry where
  events : List EventMapping
  apis : List ApiMapping
  eventsByName : Index String
  eventsByTrigger : Index WebTrigger
  /-- The first mapping of each event type. -/
  firstByType : Index String
  apisByName : Index String
  /-- By method and path prefix. -/
  apisByRoute : Index (String × String)
  /-- The first mapping of each path prefix. -/
  firstByPrefix : Index String

/-- Why a mapping is refused. -/
inductive Refusal where
  | duplicateEventName (name : String)
  | duplicateTrigger (trigger : WebTrigger) (existing : String)
  | duplicateApiName (name : String)
  | duplicateRoute (method pathPrefix existing : String)
  | emptyPathPrefix (name : String)
  deriving DecidableEq, Repr

namespace Refusal

/-- A selector that may be missing, as messages show it. -/
def showSelector : Option String → String
  | none => "None"
  | some s => "Some(" ++ quoteVisible s ++ ")"

def message : Refusal → String
  | duplicateEventName name => "platform event \"" ++ name ++ "\" is already registered"
  | duplicateTrigger trigger existing =>
    "web trigger \"" ++ trigger.eventType ++ "\" (selector " ++ showSelector trigger.selector ++
      ") is already mapped to \"" ++ existing ++ "\""
  | duplicateApiName name => "platform API \"" ++ name ++ "\" is already registered"
  | duplicateRoute method pathPrefix existing =>
    "route " ++ method ++ " " ++ pathPrefix ++ " is already mapped to \"" ++ existing ++ "\""
  | emptyPathPrefix name => "API mapping \"" ++ name ++ "\" has an empty path prefix"

end Refusal

/-- Gives a key its place unless it has one. -/
def Index.setFirst {κ : Type} [DecidableEq κ] (index : Index κ) (k : κ) (place : Nat) : Index κ :=
  match index.get? k with
  | some _ => index
  | none => index.set k place

namespace Registry

def empty : Registry := ⟨[], [], [], [], [], [], [], []⟩

def size (r : Registry) : Nat := r.events.length + r.apis.length

def isEmpty (r : Registry) : Bool := r.events.isEmpty && r.apis.isEmpty

/-- The mapping at a place of a table. -/
def entry? {κ α : Type} [DecidableEq κ] (items : List α) (index : Index κ) (k : κ) : Option α :=
  (index.get? k).bind (items[·]?)

/-- Adds an event mapping with a new name and a new trigger. -/
def registerEvent (r : Registry) (m : EventMapping) : Except Refusal Registry :=
  if (r.eventsByName.get? m.platformName).isSome then .error (.duplicateEventName m.platformName)
  else
    match entry? r.events r.eventsByTrigger m.trigger with
    | some existing => .error (.duplicateTrigger m.trigger existing.platformName)
    | none =>
      let place := r.events.length
      .ok { r with
        events := r.events ++ [m]
        eventsByName := r.eventsByName.set m.platformName place
        eventsByTrigger := r.eventsByTrigger.set m.trigger place
        firstByType := r.firstByType.setFirst m.trigger.eventType place }

/-- Adds an API mapping with a new name and a new route under a path prefix. -/
def registerApi (r : Registry) (m : ApiMapping) : Except Refusal Registry :=
  let route := (m.httpMethod, m.pathPrefix)
  if m.pathPrefix.isEmpty then .error (.emptyPathPrefix m.platformName)
  else if (r.apisByName.get? m.platformName).isSome then
    .error (.duplicateApiName m.platformName)
  else
    match entry? r.apis r.apisByRoute route with
    | some existing => .error (.duplicateRoute route.1 route.2 existing.platformName)
    | none =>
      let place := r.apis.length
      .ok { r with
        apis := r.apis ++ [m]
        apisByName := r.apisByName.set m.platformName place
        apisByRoute := r.apisByRoute.set route place
        firstByPrefix := r.firstByPrefix.setFirst m.pathPrefix place }

/-- An entry of either kind. -/
inductive Entry where
  | event (m : EventMapping)
  | api (m : ApiMapping)

def register (r : Registry) : Entry → Except Refusal Registry
  | .event m => r.registerEvent m
  | .api m => r.registerApi m

/-- Registers entries one after the other and leaves out those that are refused. -/
def registerAll (r : Registry) (entries : List Entry) : Registry :=
  entries.foldl (fun r e => ((r.register e).toOption).getD r) r

end Registry

end CallBridge
