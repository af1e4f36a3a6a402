import CallBridge.Pattern.Shape

/-!
# Recognised calls

A recogniser claims calls of one kind and says what it read off them. A matcher runs its
recognisers over a call: none of them, one or several may claim it.
-/

namespace CallBridge.Pattern

/-- What kind of construct a call is. -/
inductive PatternKind where
  | eventRegistration
  | networkFetch
  deriving DecidableEq, Repr

def PatternKind.name : PatternKind → String
  | eventRegistration => "event-registration"
  | networkFetch => "network-fetch"

/-- A handler registered for an event. -/
structure EventCall where
  callee : String
  eventType : String
  selector : Option String
  /-- Which argument is the handler. -/
  handlerIndex : Nat
  /-- How many arguments stand behind the handler. -/
  discarded : Nat
  deriving DecidableEq, Repr

/-- What is known of a request's method. -/
inductive MethodSpec where
  | static (method : String)
  /-- There is one, but it is no literal. -/
  | dynamic
  /-- The options cannot be read. -/
  | unreadable
  deriving DecidableEq, Repr

/-- What is known of a request's body. -/
inductive BodySpec where
  | absent
  /-- A value written by `JSON.stringify`. -/
  | stringified
  | raw
  deriving DecidableEq, Repr

/-- A request to a known URL. -/
structure FetchCall where
  callee : String
  url : String
  method : MethodSpec
  body : BodySpec
  deriving DecidableEq, Repr

inductive CallMatch where
  | event (call : EventCall)
  | fetch (call : FetchCall)
  deriving DecidableEq, Repr

namespace CallMatch

def kind : CallMatch → PatternKind
  | event _ => .eventRegistration
  | fetch _ => .networkFetch

/-- The construct as records name it. -/
def webConstruct : CallMatch → String
  | event call => call.eventType
  | fetch call => call.url

end CallMatch

inductive Classification where
  | irrelevant
  | matched (m : CallMatch)
  /-- The kinds that claim the call. -/
  | ambiguous (kinds : List PatternKind)
  deriving DecidableEq, Repr

structure Recognizer where
  kind : PatternKind
  recognize : Call → Option CallMatch

/-- The recognisers that are asked, in order. -/
abbrev Matcher := List Recognizer

/-- Runs all recognisers over a call. -/
def Matcher.classify (m : Matcher) (c : Call) : Classification :=
  match m.filterMap fun r => (r.recognize c).map fun found => (r.kind, found) with
  | [] => .irrelevant
  | [(_, found)] => .matched found
  | claims => .ambiguous (claims.map Prod.fst)

end CallBridge.Pattern
