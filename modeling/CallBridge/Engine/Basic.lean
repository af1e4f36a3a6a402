import CallBridge.Cache
import CallBridge.Record.Session
import CallBridge.Replacement.Walk
import CallBridge.Marker.Check
import CallBridge.Pattern.Recognizer
import CallBridge.Script.Dependencies
import CallBridge.Script.Parser.Module
import CallBridge.Script.Printer.Module

/-!
# The engine

An engine holds what every transform goes by: a registry, a valid configuration and a matcher. A
run reads a source, replaces its calls and prints the result; it depends on nothing but the engine
and the request. What it leaves to be recorded comes with its result.
-/

namespace CallBridge

open Pattern Replacement Source

structure Engine where
  registry : Registry
  config : Config
  matcher : Matcher
  valid : config.isValid

namespace Engine

/-- An engine with a matcher of its own. -/
def withMatcher (registry : Registry) (config : Config) (matcher : Matcher) :
    Except ConfigProblem Engine :=
  match h : config.problem? with
  | some p => .error p
  | none => .ok ⟨registry, config, matcher, by simp [Config.isValid, h]⟩

/-- An engine with the matcher of its configuration. -/
def ofConfig (registry : Registry) (config : Config) : Except ConfigProblem Engine :=
  withMatcher registry config (.ofConfig config)

end Engine

/-! ### Failures -/

/-- A failure of the parser with the line it points to. -/
def parseFailure (r : Request) (f : Script.Failure) : ParseFailure :=
  let source := r.source.toList
  let place := locationOf source f.offset
  { filename := r.filename
    message := f.problem.message
    line := some place.line
    column := some place.column
    snippet := String.ofList (lineText source place.line) }

/-- The session of a request whose source is being read. -/
def parsingSession (r : Request) : Session := (Session.start r.filename r.mode).enter .parsing rfl

/-- What is left of a run whose source cannot be read. -/
def failedInfo (r : Request) (f : ParseFailure) : DebugInfo :=
  ((parsingSession r).enter .failed rfl).failedInfo f

/-! ### Results -/

/-- Records in the order of their locations; those at one location keep theirs. -/
def inOrder (records : List (PatternKind × CallRecord)) : List (PatternKind × CallRecord) :=
  records.mergeSort fun a b => !b.2.location.before a.2.location

/-- What is left of a walk. -/
def walkedInfo (r : Request) (log : Log) : DebugInfo :=
  let s := (parsingSession r).enter .matching rfl
  let s := (s.collect (inOrder log.records) log.diagnostics).enter .generating rfl
  (s.enter .recorded rfl).info

/-- The token of a mark: where it stands in the output and in the source. -/
def tokenOf (source output : List Char) (m : Script.Printer.Mark) : Token :=
  let place := Script.placeAfter (output.take m.place)
  let origin := Script.placeAtByte source m.source
  ⟨place.line, place.column, origin.line, origin.column, true⟩

/-- The source map of an output with the names of the replaced calls. -/
def sourceMapOf (r : Request) (printed : Script.Printed) (mappings : List Mapping) :
    Except MapProblem SourceMap :=
  let tokens := printed.marks.map (tokenOf r.source.toList printed.text.toList)
  SourceMap.build mappings tokens r.filename r.source

/-- What a run gives and what it leaves to be recorded. -/
structure Completion where
  result : TransformResult
  info : DebugInfo
  mappings : List Mapping
  /-- What the check of the output has found. -/
  findings : List Diagnostic
  deriving Repr

namespace Engine

def setting (e : Engine) (r : Request) : Setting :=
  ⟨e.registry, e.matcher, e.config.platform, r.mode, r.source.toList⟩

/-- Completes a run whose source has been read. -/
def complete (e : Engine) (r : Request) (program : Script.Program) : Completion :=
  let (tree, log) := walk (e.setting r) program.tree
  let printed := tree.print program.comments
  let map :=
    if r.wantsSourceMap then (sourceMapOf r printed log.mappings).toOption.map SourceMap.render
    else none
  { result := ⟨printed.text, map, Script.dependencies tree⟩
    info := walkedInfo r log
    mappings := log.mappings
    findings := Marker.check e.config r.mode r.source printed.text }

/-- Runs a request. -/
def run (e : Engine) (r : Request) : Except ParseFailure Completion :=
  match Script.parseScript (.ofFilename r.filename) r.source with
  | .error f => .error (parseFailure r f)
  | .ok program => .ok (e.complete r program)

theorem run_eq_ok_iff {e : Engine} {r : Request} {c : Completion} :
    e.run r = .ok c ↔
      ∃ p, Script.parseScript (.ofFilename r.filename) r.source = .ok p ∧ e.complete r p = c := by
  unfold run
  split <;> simp_all

end Engine

end CallBridge
