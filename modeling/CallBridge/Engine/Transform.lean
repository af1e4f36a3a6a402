import CallBridge.Engine.Basic
import CallBridge.Record.Recorder

/-!
# Transforms

A transform is a run whose outcome is recorded. A batch runs its requests independently of each
other; only their recordings follow one another. Main statement: the results of a batch are those
of its requests alone (`batch_results`).
-/

namespace CallBridge

open Number Time

/-- When a run was recorded and how long it took. -/
structure Timing where
  recordedAt : Instant
  /-- In milliseconds. -/
  duration : Binary64
  deriving DecidableEq, Repr

/-- The outcome of a run. -/
abbrev Run := Except ParseFailure Completion

def traceOf (t : Timing) (r : Request) (c : Completion) : Trace :=
  { filename := r.filename
    source := r.source
    generated := c.result.generatedText
    sourceMap := c.result.sourceMap
    mappings := c.mappings
    duration := t.duration
    recordedAt := t.recordedAt }

/-- Records the outcome of a run: its debug info, its trace, and what the check has found. -/
def Recorder.record (rec : Recorder) (t : Timing) (r : Request) : Run → Recorder
  | .error f => rec.recordInfo (failedInfo r f)
  | .ok c => ((rec.recordInfo c.info).recordTrace (traceOf t r c)).appendFindings c.findings

namespace Engine

/-- The result of a request and the recorder behind it. -/
def transform (e : Engine) (rec : Recorder) (t : Timing) (r : Request) :
    Except ParseFailure TransformResult × Recorder :=
  let run := e.run r
  (run.map (·.result), rec.record t r run)

/-- The results of requests and the recorder behind all of them. -/
def transformBatch (e : Engine) (rec : Recorder) (t : Timing) (rs : List Request) :
    List (Except ParseFailure TransformResult) × Recorder :=
  (rs.map fun r => (e.run r).map (·.result), rs.foldl (fun rec r => rec.record t r (e.run r)) rec)

theorem batch_results (e : Engine) (rec : Recorder) (t : Timing) (rs : List Request) :
    (e.transformBatch rec t rs).1 = rs.map fun r => (e.transform rec t r).1 := by
  simp only [transformBatch, transform]

end Engine

end CallBridge
