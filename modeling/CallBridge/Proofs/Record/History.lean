import CallBridge.Proofs.Collection.Latest
import CallBridge.Record.Recorder

/-!
# The history of a recorder

A recorder is used by recording debug infos, traces and findings, and by clearing it. Main
statement: however it was used, its buffers hold no more than its options allow (`bounded_after`).
-/

namespace CallBridge.Recorder

open Collection

/-- What is done to a recorder. -/
inductive Operation where
  | info (i : DebugInfo)
  | trace (t : Trace)
  | findings (ds : List Diagnostic)
  | clear
  deriving Repr

/-- What an operation does to the recorder. -/
def apply (r : Recorder) : Operation → Recorder
  | .info i => r.recordInfo i
  | .trace t => r.recordTrace t
  | .findings ds => r.appendFindings ds
  | .clear => r.clear

/-- A new recorder behind a number of operations. -/
def after (o : RecorderOptions) (ops : List Operation) : Recorder := ops.foldl apply (ofOptions o)

/-- A recorder with given options that holds no more than they allow. -/
structure Bounded (o : RecorderOptions) (r : Recorder) : Prop where
  options : r.options = o
  infoCapacity : r.infos.capacity = o.debugInfoCapacity
  traceCapacity : r.traces.capacity = o.traceCapacity
  infos : r.infos.items.length ≤ r.infos.capacity
  traces : r.traces.items.length ≤ r.traces.capacity

variable {o : RecorderOptions} {r : Recorder}

/-- A new recorder is within its options. -/
theorem bounded_ofOptions (o : RecorderOptions) : Bounded o (ofOptions o) :=
  ⟨rfl, rfl, rfl, Nat.zero_le _, Nat.zero_le _⟩

theorem Bounded.recordInfo (h : Bounded o r) (i : DebugInfo) : Bounded o (r.recordInfo i) where
  options := h.options
  infoCapacity := (Buffer.capacity_push ..).trans h.infoCapacity
  traceCapacity := h.traceCapacity
  infos := by
    change (r.infos.push i).1.items.length ≤ (r.infos.push i).1.capacity
    rw [Buffer.capacity_push]
    exact Buffer.length_push_le _ _ h.infos
  traces := h.traces

/-- If traces are off nothing changes; otherwise the oldest makes room. -/
theorem Bounded.recordTrace (h : Bounded o r) (t : Trace) : Bounded o (r.recordTrace t) := by
  unfold Recorder.recordTrace
  split
  · refine ⟨h.options, h.infoCapacity, (Buffer.capacity_push ..).trans h.traceCapacity, h.infos, ?_⟩
    change (r.traces.push t).1.items.length ≤ (r.traces.push t).1.capacity
    rw [Buffer.capacity_push]
    exact Buffer.length_push_le _ _ h.traces
  · exact h

/-- What is kept afterwards are the latest traces. -/
theorem Bounded.items_traces_recordTrace (h : Bounded o r) (t : Trace) :
    (r.recordTrace t).traces.items =
      if o.enableTransformTrace then (r.traces.items ++ [t]).rtake o.traceCapacity
      else r.traces.items := by
  unfold Recorder.recordTrace
  rw [h.options]
  split
  · change (r.traces.push t).1.items = _
    rw [Buffer.items_push h.traces, h.traceCapacity]
  · rfl

theorem Bounded.appendFindings (h : Bounded o r) (ds : List Diagnostic) :
    Bounded o (r.appendFindings ds) where
  options := h.options
  infoCapacity := (Buffer.capacity_updateLast ..).trans h.infoCapacity
  traceCapacity := h.traceCapacity
  infos := by
    change (r.infos.updateLast _).items.length ≤ (r.infos.updateLast _).capacity
    rw [Buffer.length_updateLast, Buffer.capacity_updateLast]
    exact h.infos
  traces := h.traces

/-- Each operation keeps the recorder within its options. -/
theorem Bounded.apply (h : Bounded o r) (op : Operation) : Bounded o (r.apply op) := by
  cases op with
  | info i => exact h.recordInfo i
  | trace t => exact h.recordTrace t
  | findings ds => exact h.appendFindings ds
  | clear => exact ⟨h.options, h.infoCapacity, h.traceCapacity, Nat.zero_le _, Nat.zero_le _⟩

/-- So does any history, by induction over the operations. -/
theorem Bounded.applyAll (h : Bounded o r) (ops : List Operation) :
    Bounded o (ops.foldl Recorder.apply r) := by
  induction ops generalizing r with
  | nil => exact h
  | cons op rest ih => exact ih (h.apply op)

/-- However a recorder was used, it holds no more than its options allow. -/
theorem bounded_after (o : RecorderOptions) (ops : List Operation) : Bounded o (after o ops) :=
  (bounded_ofOptions o).applyAll ops

/-- Without room for debug infos, none is held. -/
theorem Bounded.infos_eq_nil (h : Bounded o r) (hzero : r.infos.capacity = 0) :
    r.infos.items = [] :=
  List.eq_nil_of_length_eq_zero (Nat.le_zero.1 (hzero ▸ h.infos))

end CallBridge.Recorder
