import CallBridge.Record.Basic
import CallBridge.Registry.Lookup
import CallBridge.Replacement.Basic
import CallBridge.Source.Map

/-!
# The walk over a script

A call is judged by what it is before anything below it has changed; it is replaced after all
calls below it. What the walk leaves behind (`Log`) is in the order of these steps. In development
every recognised call is recorded and the tree stays as it is.
-/

namespace CallBridge.Replacement

open Pattern Script Source

/-- What a walk leaves behind. -/
structure Log where
  records : List (PatternKind × CallRecord)
  diagnostics : List Diagnostic
  mappings : List Mapping

namespace Log

def empty : Log := ⟨[], [], []⟩

instance : Append Log :=
  ⟨fun a b => ⟨a.records ++ b.records, a.diagnostics ++ b.diagnostics, a.mappings ++ b.mappings⟩⟩

def join (logs : List Log) : Log := logs.foldr (· ++ ·) empty

def ofRecord (kind : PatternKind) (r : CallRecord) : Log := ⟨[(kind, r)], [], []⟩

end Log

/-- What a walk goes by. -/
structure Setting where
  registry : Registry
  matcher : Matcher
  platform : PlatformCalls
  mode : Mode
  source : List Char

/-- A replacement decided on before the parts of the call have changed. -/
inductive Plan where
  | event (call : EventCall) (mapping : EventMapping)
  | fetch (call : FetchCall) (method : String) (mapping : ApiMapping)

namespace Plan

def kind : Plan → PatternKind
  | event .. => .eventRegistration
  | fetch .. => .networkFetch

def web : Plan → String
  | event call _ => call.eventType
  | fetch call .. => call.url

def platform : Plan → String
  | event _ mapping => mapping.platformName
  | fetch _ _ mapping => mapping.platformName

def method? : Plan → Option String
  | event .. => none
  | fetch _ method _ => some method

/-- How many arguments have no place in the replacement. -/
def discarded : Plan → Nat
  | event call _ => call.discarded
  | fetch .. => 0

end Plan

/-! ### Judging a call -/

/-- What is decided on a call. -/
inductive Verdict where
  | ignore
  /-- Several kinds claim the call. -/
  | ambiguous (kinds : List PatternKind)
  /-- Nothing on the platform stands for the call. -/
  | unsupported (kind : PatternKind) (web reason : String) (method : Option String)
  | planned (plan : Plan)

def judgeEvent (r : Registry) (call : EventCall) : Verdict :=
  match r.eventByTrigger? call.eventType call.selector with
  | some m => .planned (.event call m)
  | none =>
    .unsupported .eventRegistration call.eventType
      ("no event mapping for '" ++ call.eventType ++ "'") none

def judgeFetch (r : Registry) (call : FetchCall) : Verdict :=
  match call.method with
  | .dynamic => .unsupported .networkFetch call.url "HTTP method is not a literal" none
  | .unreadable =>
    .unsupported .networkFetch call.url "fetch init is not a plain object literal" none
  | .static method =>
    match r.apiByRoute? method call.url with
    | some m => .planned (.fetch call method m)
    | none =>
      .unsupported .networkFetch call.url ("no API mapping for " ++ method ++ " " ++ call.url)
        (some method)

def judge (s : Setting) (c : Call) : Verdict :=
  match s.matcher.classify c with
  | .irrelevant => .ignore
  | .ambiguous kinds => .ambiguous kinds
  | .matched (.event call) => judgeEvent s.registry call
  | .matched (.fetch call) => judgeFetch s.registry call

/-! ### Logs -/

def locate (s : Setting) (c : Call) : Location := locationOf s.source c.span.start

def ambiguousLog (place : Location) (c : Call) (kinds : List PatternKind) : Log :=
  let reason := "call matches several patterns: " ++ ", ".intercalate (kinds.map (·.name))
  let web := (calleePath? c.callee).getD ""
  { records := kinds.head?.toList.map fun kind => (kind, .failure web "" place reason)
    diagnostics := [⟨.ambiguousPattern, .error, reason, some place, []⟩]
    mappings := [] }

def unsupportedLog (place : Location) (kind : PatternKind) (web reason : String)
    (method : Option String) : Log :=
  { records := [(kind, (CallRecord.failure web "" place reason).withMethod method)]
    diagnostics :=
      [⟨.unsupportedConstruct, .warning, reason, some place,
        ["Register a mapping for this construct or rewrite it by hand"]⟩]
    mappings := [] }

/-- The record of a plan that is not carried out. -/
def matchedLog (place : Location) (p : Plan) : Log :=
  .ofRecord p.kind ((CallRecord.success p.web p.platform place false).withMethod p.method?)

def discardedDiagnostics (place : Location) (p : Plan) : List Diagnostic :=
  if p.discarded = 0 then []
  else
    let message :=
      toString p.discarded ++ " argument(s) after the '" ++ p.web ++ "' handler were dropped"
    [⟨.discardedArguments, .warning, message, some place,
      ["Listener options such as once or capture have no platform equivalent"]⟩]

def appliedLog (place : Location) (p : Plan) : Log :=
  let r := (CallRecord.success p.web p.platform place true).withMethod p.method?
  { records := [(p.kind, r)]
    diagnostics := discardedDiagnostics place p
    mappings := [.ofReplacement place p.web p.platform] }

def failedLog (place : Location) (p : Plan) (problem : Problem) : Log :=
  .ofRecord p.kind
    ((CallRecord.failure p.web p.platform place problem.message).withMethod p.method?)

/-! ### Steps -/

/-- What a verdict leaves behind at once, and the plan to carry out later. -/
def prepare (s : Setting) (c : Call) : Log × Option Plan :=
  let place := locate s c
  match judge s c with
  | .ignore => (.empty, none)
  | .ambiguous kinds => (ambiguousLog place c kinds, none)
  | .unsupported kind web reason method =>
    (if s.mode.replaces then unsupportedLog place kind web reason method else .empty, none)
  | .planned p => if s.mode.replaces then (.empty, some p) else (matchedLog place p, none)

/-- The replacement of a call whose parts have been walked over. -/
def Plan.replacement (platform : PlatformCalls) (c : Call) : Plan → Except Problem Tree
  | .event call m => ofEvent platform c call.handlerIndex m.platformName
  | .fetch call method m => ofFetch platform c call.url call.body method m

/-- Carries out a plan on a node whose parts have been walked over. -/
def apply (s : Setting) (t : Tree) (p : Plan) : Tree × Log :=
  match Call.ofTree? t with
  | none => (t, .empty)
  | some c =>
    match p.replacement s.platform c with
    | .ok new => (new, appliedLog (locate s c) p)
    | .error problem => (t, failedLog (locate s c) p problem)

/-- The walk at a node: judged as it was, its parts walked over, then replaced. -/
def step (s : Setting) (k : Kind) (span : Span) (cs : List (Tree × Tree × Log)) : Tree × Log :=
  let unchanged : Tree := .node k span (cs.map Prod.fst)
  let walked : Tree := .node k span (cs.map fun c => c.2.1)
  let below := Log.join (cs.map fun c => c.2.2)
  match Call.ofTree? unchanged with
  | none => (walked, below)
  | some c =>
    let (before, plan) := prepare s c
    match plan with
    | none => (walked, before ++ below)
    | some p =>
      let (t, after) := apply s walked p
      (t, before ++ below ++ after)

/-- The tree with its calls replaced and what the walk leaves behind. -/
def walk (s : Setting) : Tree → Tree × Log := Tree.fold (step s)

/-- The walk over a node from the walks over its parts. -/
theorem walk_node (s : Setting) (k : Kind) (span : Span) (cs : List Tree) :
    walk s (.node k span cs) = step s k span (cs.map fun t => (t, walk s t)) :=
  Tree.fold_node ..

end CallBridge.Replacement
