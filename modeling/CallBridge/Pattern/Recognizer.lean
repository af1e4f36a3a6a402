import CallBridge.Config.Basic
import CallBridge.Pattern.Basic
import CallBridge.Url.Split

/-!
# Recognisers

Event registrations, on a configured callee or on an element that a query selects, and fetches of
a literal URL on an origin that is allowed.
-/

namespace CallBridge.Pattern

open Script

/-! ### Events -/

/-- The method and the selector of a registration on a selected element. -/
def scopedRegistration? (config : Config) (callee : Tree) : Option (String × String) :=
  match callee.unparen with
  | .node (.member method _) _ [object] =>
    if !config.registrationMethods.contains method then none
    else do
      let query ← Call.ofTree? object.unparen
      let path ← calleePath? query.callee
      if config.selectorQueries.contains path then
        (query.literalArgument? 0).map fun selector => (method, selector)
      else none
  | _ => none

/-- The callee of a registration and the selector it is scoped to. -/
def registration? (config : Config) (callee : Tree) : Option (String × Option String) :=
  match (calleePath? callee).filter config.eventCallees.contains with
  | some path => some (path, none)
  | none => (scopedRegistration? config callee).map fun (method, s) => (method, some s)

def recognizeEvent (config : Config) (c : Call) : Option CallMatch := do
  let (callee, selector) ← registration? config c.callee
  let eventType ← c.literalArgument? 0
  let _ ← c.argument? 1
  some (.event ⟨callee, eventType, selector, 1, c.arguments.length - 2⟩)

/-! ### Fetches -/

/-- An origin as it is compared: in lower case and without slashes at its end. -/
def normalOrigin (origin : String) : List Char :=
  (origin.toList.reverse.dropWhile (· == '/')).reverse.map Char.toLower

/-- The text behind the first colon and two slashes. -/
def authority? : List Char → Option (List Char)
  | [] => none
  | ':' :: '/' :: '/' :: rest => some rest
  | _ :: rest => authority? rest

/-- Whether an origin is that of an allowed one; an origin without a scheme goes by its
authority. -/
def matchesOrigin (allowed origin : List Char) : Bool :=
  allowed == origin ||
    match origin with
    | '/' :: '/' :: authority => authority? allowed == some authority
    | _ => false

/-- Whether a URL is relative or on an allowed origin. -/
def isAllowed (config : Config) (url : String) : Bool :=
  match Url.origin? url.toList with
  | none => true
  | some origin =>
    config.allowedOrigins.any fun o => matchesOrigin (normalOrigin o) (origin.map Char.toLower)

/-- The method of a call; without one, a request reads. -/
def methodOf (c : Call) : MethodSpec :=
  match c.option? "method" with
  | none => .static "GET"
  | some t =>
    match literal? t with
    | some m => .static m.toUpper
    | none => .dynamic

def bodyOf (c : Call) : BodySpec :=
  match c.option? "body" with
  | none => .absent
  | some t => if (stringified? t).isSome then .stringified else .raw

def recognizeFetch (config : Config) (c : Call) : Option CallMatch := do
  let callee ← (calleePath? c.callee).filter config.fetchCallees.contains
  let url ← c.literalArgument? 0
  if !isAllowed config url then none
  match c.options with
  | .opaqueValue => some (.fetch ⟨callee, url, .unreadable, .absent⟩)
  | _ => some (.fetch ⟨callee, url, methodOf c, bodyOf c⟩)

/-! ### The matcher of a configuration -/

def eventRecognizer (config : Config) : Recognizer := ⟨.eventRegistration, recognizeEvent config⟩

def fetchRecognizer (config : Config) : Recognizer := ⟨.networkFetch, recognizeFetch config⟩

def Matcher.ofConfig (config : Config) : Matcher := [eventRecognizer config, fetchRecognizer config]

end CallBridge.Pattern
