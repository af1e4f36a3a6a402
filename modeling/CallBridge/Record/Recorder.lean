import CallBridge.Collection.Buffer
import CallBridge.Number.Binary64
import CallBridge.Record.Basic
import CallBridge.Source.Map
import CallBridge.Time.Rfc3339

/-!
# The recorder

Debug infos and traces of the last transforms, in two bounded buffers. Findings of a check are
added to the newest debug info. The recorder has no clock of its own: what asks for recent traces
says what time it is.
-/

namespace CallBridge

open Collection Number Source Time

/-- The texts before and after a transform. -/
structure Trace where
  filename : String
  source : String
  generated : String
  sourceMap : Option String
  mappings : List Mapping
  /-- In milliseconds. -/
  duration : Binary64
  recordedAt : Instant
  deriving Repr

/-- What is known of the last transforms. -/
structure Recorder where
  options : RecorderOptions
  infos : Buffer DebugInfo
  traces : Buffer Trace
  deriving Repr

namespace Recorder

def ofOptions (o : RecorderOptions) : Recorder :=
  ⟨o, .empty o.debugInfoCapacity, .empty o.traceCapacity⟩

def standard : Recorder := ofOptions .standard

/-- Records a debug info. The oldest one makes room. -/
def recordInfo (r : Recorder) (i : DebugInfo) : Recorder := { r with infos := (r.infos.push i).1 }

/-- Records a trace, unless traces are switched off. -/
def recordTrace (r : Recorder) (t : Trace) : Recorder :=
  if r.options.enableTransformTrace then { r with traces := (r.traces.push t).1 } else r

/-- Adds findings to the newest debug info. -/
def appendFindings (r : Recorder) (findings : List Diagnostic) : Recorder :=
  { r with infos := r.infos.updateLast fun i => { i with errors := i.errors ++ findings } }

/-- The debug info that was recorded last. -/
def latest? (r : Recorder) : Option DebugInfo := r.infos.last?

/-- The traces of the last seconds. -/
def tracesWithin (r : Recorder) (now : Instant) (seconds : Int) : List Trace :=
  r.traces.items.filter fun t => t.recordedAt.atOrAfter (now.minusSeconds seconds)

/-- The newest trace of a file. -/
def traceOf? (r : Recorder) (filename : String) : Option Trace :=
  r.traces.items.reverse.find? fun t => t.filename == filename

/-- Forgets everything but the options. -/
def clear (r : Recorder) : Recorder :=
  { r with infos := r.infos.clear, traces := r.traces.clear }

/-- The records of all events, in the order of the debug infos. -/
def events (r : Recorder) : List CallRecord := r.infos.items.flatMap (·.events)

def apis (r : Recorder) : List CallRecord := r.infos.items.flatMap (·.apis)

def errors (r : Recorder) : List Diagnostic := r.infos.items.flatMap (·.errors)

end Recorder

/-! ### Statistics -/

/-- How many records there are and how many of them succeeded. -/
structure Tally where
  total : Nat
  successful : Nat
  deriving DecidableEq, Repr

namespace Tally

def ofRecords (rs : List CallRecord) : Tally := ⟨rs.length, rs.countP (·.succeeded)⟩

/-- The rest of the records. -/
def failed (t : Tally) : Nat := t.total - t.successful

theorem successful_le_total (rs : List CallRecord) :
    (ofRecords rs).successful ≤ (ofRecords rs).total := List.countP_le_length

end Tally

/-- What can be counted over the debug infos and traces that are kept. -/
structure Statistics where
  events : Tally
  apis : Tally
  errors : Nat
  transforms : Nat
  recentTransforms : Nat
  /-- The average number of bytes of an output. -/
  averageSize : Binary64
  deriving DecidableEq, Repr

/-- The size of a text in bytes. -/
def byteSize (s : String) : Nat := s.utf8ByteSize

/-- The sum of all. -/
def total (ns : List Nat) : Nat := ns.foldr (fun n m => n + m) 0

/-- The average of naturals; zero without any. -/
def average (ns : List Nat) : Binary64 :=
  if ns.isEmpty then .ofInt 0 else (Binary64.ofInt (total ns)).divNat ns.length

/-- Recent are the transforms of the last hour. -/
def Recorder.statistics (r : Recorder) (now : Instant) : Statistics :=
  { events := .ofRecords r.events
    apis := .ofRecords r.apis
    errors := r.errors.length
    transforms := r.traces.items.length
    recentTransforms := (r.tracesWithin now 3600).length
    averageSize := average (r.traces.items.map fun t => byteSize t.generated) }

end CallBridge
