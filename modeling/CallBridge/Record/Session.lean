import CallBridge.Record.Basic

/-!
# Sessions

A session collects the records of one transform on its way from parsing to the finished debug
info. Phases follow each other in one order; a parse failure ends a session early and leaves
nothing but its own diagnostic.
-/

namespace CallBridge

open Pattern

inductive Phase where
  | idle
  | parsing
  | matching
  | generating
  | recorded
  | failed
  deriving DecidableEq, Repr

namespace Phase

def all : List Phase := [idle, parsing, matching, generating, recorded, failed]

def name : Phase → String
  | idle => "Idle"
  | parsing => "Parsing"
  | matching => "Matching"
  | generating => "Generating"
  | recorded => "Recorded"
  | failed => "Failed"

/-- Whether a phase may follow another. -/
def precedes : Phase → Phase → Bool
  | idle, parsing => true
  | parsing, matching => true
  | parsing, failed => true
  | matching, generating => true
  | generating, recorded => true
  | _, _ => false

end Phase

/-- A phase that cannot follow the present one. -/
structure IllegalTransition where
  present : Phase
  next : Phase
  deriving DecidableEq, Repr

def IllegalTransition.message (t : IllegalTransition) : String :=
  "illegal session transition " ++ t.present.name ++ " -> " ++ t.next.name

structure Session where
  phase : Phase
  info : DebugInfo
  deriving Repr

namespace Session

def start (filename : String) (mode : Mode) : Session := ⟨.idle, .empty filename mode⟩

/-- Goes on to a phase that may follow. -/
def enter (s : Session) (next : Phase) (_ : s.phase.precedes next) : Session :=
  { s with phase := next }

/-- Goes on to any phase, or says that it cannot follow. -/
def advance (s : Session) (next : Phase) : Except IllegalTransition Session :=
  if h : s.phase.precedes next then .ok (s.enter next h) else .error ⟨s.phase, next⟩

def record (s : Session) (kind : PatternKind) (r : CallRecord) : Session :=
  { s with info := s.info.add kind r }

def diagnostic (s : Session) (d : Diagnostic) : Session :=
  { s with info := { s.info with errors := s.info.errors ++ [d] } }

/-- The diagnostic of a parse failure. -/
def failureDiagnostic (f : ParseFailure) : Diagnostic :=
  let location :=
    match f.line, f.column with
    | some line, some column => some ⟨line, column⟩
    | _, _ => none
  ⟨.parseFailure, .error, f.message, location, ["Fix the syntax error before transforming"]⟩

/-- What is left of a session by a parse failure. -/
def failedInfo (s : Session) (f : ParseFailure) : DebugInfo :=
  { s.info with events := [], apis := [], errors := [failureDiagnostic f] }

/-- Ends a session that could not parse its source. -/
def fail (s : Session) (f : ParseFailure) : Except IllegalTransition DebugInfo := do
  let s ← s.advance .failed
  return s.failedInfo f

/-- Ends a session whose output has been generated. -/
def finish (s : Session) : Except IllegalTransition DebugInfo := do
  let s ← s.advance .recorded
  return s.info

/-- Adds records and diagnostics, each in their order. -/
def collect (s : Session) (records : List (PatternKind × CallRecord))
    (diagnostics : List Diagnostic) : Session :=
  let info := records.foldl (fun i (kind, r) => i.add kind r) s.info
  { s with info := { info with errors := info.errors ++ diagnostics } }

end Session

end CallBridge
