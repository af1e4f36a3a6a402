import CallBridge.Text.Word

/-!
# Configuration

Which calls of a page are recognised and which platform calls they become. A valid configuration
keeps the callees of events, of fetches and of the platform apart, so no call has two meanings and
a call that has been replaced is not replaced again.
-/

namespace CallBridge

open Text

/-- Whether calls are replaced or only looked at. -/
inductive Mode where
  | development
  | production
  deriving DecidableEq, Repr

namespace Mode

def all : List Mode := [development, production]

def name : Mode → String
  | development => "development"
  | production => "production"

def replaces : Mode → Bool
  | development => false
  | production => true

end Mode

/-- The platform's own calls. -/
structure PlatformCalls where
  eventRegistration : String
  apiInvocation : String
  deriving DecidableEq, Repr

def PlatformCalls.standard : PlatformCalls := ⟨"kintone.events.on", "kintone.api"⟩

structure Config where
  /-- Dotted names of the calls that register a handler. -/
  eventCallees : List String
  /-- Dotted names of the queries whose argument selects an element. -/
  selectorQueries : List String
  /-- Dotted names of the calls that send a request. -/
  fetchCallees : List String
  /-- Origins whose URLs are treated like paths. -/
  allowedOrigins : List String
  platform : PlatformCalls
  deriving DecidableEq, Repr

/-- The name of a platform call that is missing. -/
inductive PlatformCall where
  | eventRegistration
  | apiInvocation
  deriving DecidableEq, Repr

def PlatformCall.label : PlatformCall → String
  | eventRegistration => "event registration"
  | apiInvocation => "API invocation"

/-- Why a configuration is refused. -/
inductive ConfigProblem where
  | overlappingCallee (name : String)
  | emptyPlatformCall (call : PlatformCall)
  deriving DecidableEq, Repr

def ConfigProblem.message : ConfigProblem → String
  | overlappingCallee name =>
    "callee \"" ++ name ++ "\" is configured as both an event registration and a fetch call"
  | emptyPlatformCall call =>
    "platform call name for " ++ call.label ++ " must not be empty"

def isBlankText (s : String) : Bool := s.toList.all isBlank

/-- The text behind the last point of a name. -/
def lastName (name : String) : String :=
  String.ofList (name.toList.reverse.takeWhile (· != '.')).reverse

namespace Config

def standard : Config :=
  { eventCallees := ["document.addEventListener", "window.addEventListener"]
    selectorQueries := ["document.querySelector"]
    fetchCallees := ["fetch"]
    allowedOrigins := []
    platform := .standard }

/-- The first fault of a configuration: a callee of both kinds, a platform call among the callees,
an empty platform call. -/
def problem? (c : Config) : Option ConfigProblem :=
  let isCallee (name : String) : Bool :=
    c.eventCallees.contains name || c.fetchCallees.contains name
  match c.fetchCallees.find? c.eventCallees.contains with
  | some shared => some (.overlappingCallee shared)
  | none =>
    if isCallee c.platform.eventRegistration then
      some (.overlappingCallee c.platform.eventRegistration)
    else if isCallee c.platform.apiInvocation then
      some (.overlappingCallee c.platform.apiInvocation)
    else if isBlankText c.platform.eventRegistration then
      some (.emptyPlatformCall .eventRegistration)
    else if isBlankText c.platform.apiInvocation then some (.emptyPlatformCall .apiInvocation)
    else none

def isValid (c : Config) : Bool := c.problem?.isNone

/-- The names under which a selected element registers a handler. -/
def registrationMethods (c : Config) : List String := c.eventCallees.map lastName

end Config

/-- How much is recorded. -/
structure RecorderOptions where
  traceCapacity : Nat
  debugInfoCapacity : Nat
  enableTransformTrace : Bool
  enableErrorDetails : Bool
  deriving DecidableEq, Repr

def RecorderOptions.standard : RecorderOptions := ⟨100, 50, true, true⟩

/-- What a caller asks of a transform; everything may be left out. -/
structure Options where
  filename : Option String
  targetMode : Option Mode
  sourceMap : Option Bool
  deriving DecidableEq, Repr

/-- A transform with every option decided. -/
structure Request where
  source : String
  filename : String
  mode : Mode
  wantsSourceMap : Bool
  deriving DecidableEq, Repr

def Request.ofOptions (source : String) (o : Options) : Request :=
  ⟨source, o.filename.getD "unknown.js", o.targetMode.getD .production, o.sourceMap.getD false⟩

end CallBridge
