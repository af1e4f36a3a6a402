import CallBridge.Proofs.Record.Traces
import Mathlib.Algebra.BigOperators.Group.List.Basic
import Mathlib.Algebra.GroupWithZero.Nat

/-!
# Statistics

A recorder holds the last debug infos recorded since it was cleared, as many as fit, each with the
findings appended while it was the latest (`items_infos_after`). Main statement: the statistics
count what is in them and the traces still held, and every record counted has either succeeded or
failed (`statistics_after`).
-/

namespace CallBridge

open Collection

namespace Recorder

/-! ### Debug infos -/

/-- A debug info with the findings appended while it was the latest. -/
structure Recorded where
  info : DebugInfo
  findings : List Diagnostic

namespace Recorded

def add (ds : List Diagnostic) (e : Recorded) : Recorded := { e with findings := e.findings ++ ds }

/-- The debug info as a recorder shows it. -/
def shown (e : Recorded) : DebugInfo := { e.info with errors := e.info.errors ++ e.findings }

theorem shown_add (ds : List Diagnostic) (e : Recorded) :
    (e.add ds).shown = { e.shown with errors := e.shown.errors ++ ds } := by
  rw [shown, shown, add, List.append_assoc]

theorem add_nil (e : Recorded) : e.add [] = e := by
  rw [add, List.append_nil]

end Recorded

def Operation.appended : Operation → List Diagnostic
  | .findings ds => ds
  | _ => []

/-- The findings appended before another debug info is recorded. -/
def findingsBeforeNext : List Operation → List Diagnostic
  | .info _ :: _ => []
  | op :: rest => op.appended ++ findingsBeforeNext rest
  | [] => []

/-- The debug infos that operations record, in order. -/
def recorded : List Operation → List Recorded
  | .info i :: rest => ⟨i, findingsBeforeNext rest⟩ :: recorded rest
  | _ :: rest => recorded rest
  | [] => []

/-- The debug infos recorded since the last clearing. -/
def infosSince (ops : List Operation) : List Recorded :=
  recorded (sinceClear Operation.isClear ops)

/-- The debug infos that a recorder still has. -/
def infosKept (o : RecorderOptions) (ops : List Operation) : List Recorded :=
  (infosSince ops).rtake o.debugInfoCapacity

/-- Findings go past operations up to a debug info. -/
theorem findingsBeforeNext_concat (ops : List Operation) (op : Operation) :
    findingsBeforeNext (ops ++ [op]) =
      findingsBeforeNext ops ++ if recorded ops = [] then op.appended else [] := by
  induction ops with
  | nil =>
    cases op with
    | findings ds => exact List.append_nil ds
    | info | trace | clear => rfl
  | cons first rest ih =>
    cases first with
    | info => rfl
    | findings ds => exact (congrArg (ds ++ ·) ih).trans (List.append_assoc ..).symm
    | trace | clear => exact ih

/-- An operation adds its findings to the debug info recorded last, and its debug info behind it. -/
theorem recorded_concat (ops : List Operation) (op : Operation) :
    recorded (ops ++ [op]) =
      (recorded ops).modifyLast (Recorded.add op.appended) ++ recorded [op] := by
  induction ops with
  | nil => rfl
  | cons first rest ih =>
    cases first with
    | info i =>
      simp only [List.cons_append, recorded, findingsBeforeNext_concat, ih]
      by_cases hnil : recorded rest = []
      · rw [hnil, if_pos rfl]
        rfl
      · rw [if_neg hnil, List.append_nil, modifyLast_cons _ _ hnil, List.cons_append]
    | trace | findings | clear => exact ih

theorem infosSince_concat (ops : List Operation) (op : Operation) :
    infosSince (ops ++ [op]) =
      if op.isClear then []
      else (infosSince ops).modifyLast (Recorded.add op.appended) ++ recorded [op] := by
  rw [infosSince, sinceClear_concat]
  split
  · rfl
  · exact recorded_concat _ op

/-- The debug infos held are the last ones recorded since the last clearing. -/
theorem items_infos_after (o : RecorderOptions) (ops : List Operation) :
    (after o ops).infos.items = (infosKept o ops).map Recorded.shown := by
  induction ops using List.reverseRecOn with
  | nil =>
    rw [infosKept, infosSince, sinceClear, List.rtakeWhile_nil, recorded, List.rtake_nil]
    rfl
  | append_singleton ops op ih =>
    have hbounded := bounded_after o ops
    have hunchanged : (infosSince ops).modifyLast (Recorded.add []) = infosSince ops :=
      modifyLast_eq_self Recorded.add_nil _
    rw [after, List.foldl_concat, infosKept, infosSince_concat]
    change ((after o ops).apply op).infos.items = _
    cases op with
    | info i =>
      change ((after o ops).infos.push i).1.items =
        (((infosSince ops).modifyLast (Recorded.add []) ++ [Recorded.mk i []]).rtake _).map
          Recorded.shown
      have hinfo : (Recorded.mk i []).shown = i := by rw [Recorded.shown, List.append_nil]
      rw [Buffer.items_push hbounded.infos, hbounded.infoCapacity, ih, hunchanged, infosKept,
        map_rtake, rtake_append_rtake, map_rtake, List.map_append, List.map_singleton, hinfo]
    | trace t =>
      change ((after o ops).recordTrace t).infos.items =
        (((infosSince ops).modifyLast (Recorded.add []) ++ []).rtake _).map Recorded.shown
      have hinfos : ((after o ops).recordTrace t).infos = (after o ops).infos := by
        unfold Recorder.recordTrace
        split <;> rfl
      rw [hinfos, ih, hunchanged, List.append_nil, infosKept]
    | findings ds =>
      change ((after o ops).infos.updateLast _).items =
        (((infosSince ops).modifyLast (Recorded.add ds) ++ []).rtake _).map Recorded.shown
      rw [Buffer.items_updateLast, ih, List.append_nil, rtake_modifyLast, infosKept]
      exact (map_modifyLast (Recorded.shown_add ds) _).symm
    | clear =>
      change [] = (([] : List Recorded).rtake _).map Recorded.shown
      rw [List.rtake_nil, List.map_nil]

/-! ### Traces -/

/-- With tracing off, no trace is held. -/
theorem items_traces_after_off (ho : ¬ o.enableTransformTrace) (ops : List Operation) :
    (after o ops).traces.items = [] := by
  induction ops using List.reverseRecOn with
  | nil => rfl
  | append_singleton ops op ih =>
    rw [after, List.foldl_concat]
    change ((after o ops).apply op).traces.items = _
    cases op with
    | info | findings => exact ih
    | trace t =>
      rw [Recorder.apply, (bounded_after o ops).items_traces_recordTrace, if_neg ho]
      exact ih
    | clear => rfl

theorem length_traces_after (o : RecorderOptions) (ops : List Operation) :
    (after o ops).traces.items.length =
      if o.enableTransformTrace then (tracesKept o ops).length else 0 := by
  split
  · next ho => rw [items_traces_after ho, tracesKept]
  · next ho => rw [items_traces_after_off ho, List.length_nil]

end Recorder

/-! ### Counts -/

/-- A record that has not succeeded has failed. -/
theorem Tally.total_eq (rs : List CallRecord) :
    (ofRecords rs).total = (ofRecords rs).successful + rs.countP fun r => !r.succeeded := by
  rw [ofRecords, List.length_eq_countP_add_countP fun r => r.succeeded]
  simp

theorem Tally.failed_ofRecords (rs : List CallRecord) :
    (ofRecords rs).failed = rs.countP fun r => !r.succeeded := by
  have htotal := total_eq rs
  rw [failed]
  omega

theorem DebugInfo.length_failures (i : DebugInfo) :
    i.failures.length =
      (i.events.countP fun r => !r.succeeded) + i.apis.countP fun r => !r.succeeded := by
  rw [failures, ← List.countP_eq_length_filter, List.countP_append]

namespace Recorder

theorem failed_statistics (r : Recorder) (now : Time.Instant) :
    (r.statistics now).events.failed + (r.statistics now).apis.failed =
      (r.infos.items.map fun i => i.failures.length).sum := by
  simp only [statistics, Tally.failed_ofRecords, events, apis, List.countP_flatMap,
    DebugInfo.length_failures, List.sum_map_add]
  rfl

end Recorder

/-- However a recorder was used, its statistics are those of the debug infos and traces that it
still has: events and requests have each succeeded or failed, as many have failed as the debug infos
list failures, and the errors are those recorded with the debug infos and the findings appended
while each was the latest. -/
theorem Recorder.statistics_after (o : RecorderOptions) (ops : List Recorder.Operation)
    (now : Time.Instant) :
    let r := after o ops
    let s := r.statistics now
    let kept := infosKept o ops
    r.infos.items = kept.map Recorded.shown ∧
    (s.events.total = (kept.map fun e => e.info.events.length).sum ∧
      s.events.total = s.events.successful + s.events.failed) ∧
    (s.apis.total = (kept.map fun e => e.info.apis.length).sum ∧
      s.apis.total = s.apis.successful + s.apis.failed) ∧
    s.events.failed + s.apis.failed = (kept.map fun e => e.info.failures.length).sum ∧
    s.errors = (kept.map fun e => e.info.errors.length + e.findings.length).sum ∧
    s.transforms = (if o.enableTransformTrace then (tracesKept o ops).length else 0) ∧
    s.recentTransforms ≤ s.transforms ∧
    s.events.successful ≤ s.events.total ∧ s.apis.successful ≤ s.apis.total := by
  intro r s kept
  have hitems : r.infos.items = kept.map Recorded.shown := items_infos_after o ops
  have hevents : s.events.total = (kept.map fun e => e.info.events.length).sum := by
    change r.events.length = _
    rw [Recorder.events, hitems, List.length_flatMap, List.map_map]
    rfl
  have hapis : s.apis.total = (kept.map fun e => e.info.apis.length).sum := by
    change r.apis.length = _
    rw [Recorder.apis, hitems, List.length_flatMap, List.map_map]
    rfl
  have hfailed : s.events.failed + s.apis.failed =
      (kept.map fun e => e.info.failures.length).sum := by
    rw [failed_statistics, hitems, List.map_map]
    rfl
  have herrors : s.errors = (kept.map fun e => e.info.errors.length + e.findings.length).sum := by
    change r.errors.length = _
    rw [Recorder.errors, hitems, List.length_flatMap, List.map_map]
    simp only [Function.comp_def, Recorded.shown, List.length_append]
  have hparts (rs : List CallRecord) :
      (Tally.ofRecords rs).total =
        (Tally.ofRecords rs).successful + (Tally.ofRecords rs).failed := by
    rw [Tally.failed_ofRecords, Tally.total_eq]
  exact ⟨hitems, ⟨hevents, hparts _⟩, ⟨hapis, hparts _⟩, hfailed, herrors,
    length_traces_after o ops, List.length_filter_le .., Tally.successful_le_total _,
    Tally.successful_le_total _⟩

end CallBridge
