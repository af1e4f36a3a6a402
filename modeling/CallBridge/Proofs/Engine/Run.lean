import CallBridge.Engine.Transform
import CallBridge.Proofs.Collection.Latest
import CallBridge.Proofs.Config.Validity
import CallBridge.Proofs.Replacement.Outline
import CallBridge.Proofs.Script.Given

/-!
# What a run leaves behind

The debug info of a run has the records of its walk, each under its kind, in the order of their
locations, and its diagnostics as they are. Main statement: a count over the records of a kind in
the debug info is one over those in the log (`countP_recordsOf`).
-/

namespace CallBridge

open Collection Pattern Replacement

/-- An engine with the matcher of its configuration walks by that configuration. -/
theorem Engine.setting_of_ofConfig {registry : Registry} {config : Config} {e : Engine}
    (h : Engine.ofConfig registry config = .ok e) (r : Request) :
    e.setting r = settingOf registry config r.mode r.source.toList := by
  unfold ofConfig withMatcher at h
  split at h
  · simp at h
  · obtain rfl := Except.ok.inj h
    rfl

theorem Engine.config_of_ofConfig {registry : Registry} {config : Config} {e : Engine}
    (h : Engine.ofConfig registry config = .ok e) : e.config = config := by
  unfold ofConfig withMatcher at h
  split at h
  · simp at h
  · obtain rfl := Except.ok.inj h
    rfl

theorem Engine.exists_of_isValid (registry : Registry) (config : Config) (h : config.isValid) :
    ∃ e, Engine.ofConfig registry config = .ok e := by
  unfold ofConfig withMatcher
  split
  · next p hp => simp [Config.isValid, hp] at h
  · exact ⟨_, rfl⟩

theorem Engine.exists_standard : ∃ e, Engine.ofConfig .standard .standard = .ok e :=
  exists_of_isValid .standard .standard Config.isValid_standard

theorem Engine.run_error (e : Engine) {r : Request} {f : Script.Failure}
    (h : Script.parseScript (.ofFilename r.filename) r.source = .error f) :
    e.run r = .error (parseFailure r f) := by
  rw [run, h]

/-! ### Records -/

/-- The records under a kind. -/
def DebugInfo.recordsOf (i : DebugInfo) : PatternKind → List CallRecord
  | .eventRegistration => i.events
  | .networkFetch => i.apis

/-- The records of a kind among all records. -/
def ofKind (kind : PatternKind) (records : List (PatternKind × CallRecord)) : List CallRecord :=
  (records.filter fun x => x.1 == kind).map Prod.snd

theorem DebugInfo.recordsOf_add (i : DebugInfo) (kind kind' : PatternKind) (r : CallRecord) :
    (i.add kind r).recordsOf kind' = i.recordsOf kind' ++ ofKind kind' [(kind, r)] := by
  cases kind <;> cases kind' <;> simp [add, recordsOf, ofKind]

theorem ofKind_cons (kind : PatternKind) (x : PatternKind × CallRecord)
    (rest : List (PatternKind × CallRecord)) :
    ofKind kind (x :: rest) = ofKind kind [x] ++ ofKind kind rest := by
  unfold ofKind
  rw [← List.map_append, ← List.filter_append]
  rfl

/-- Records that are filed one after the other stand behind those that were there. -/
theorem DebugInfo.recordsOf_foldl (records : List (PatternKind × CallRecord)) (i : DebugInfo)
    (kind : PatternKind) :
    (records.foldl (fun i (kind, r) => i.add kind r) i).recordsOf kind =
      i.recordsOf kind ++ ofKind kind records := by
  induction records generalizing i with
  | nil => simp [ofKind]
  | cons x rest ih =>
    rw [List.foldl_cons, ih, recordsOf_add, List.append_assoc, ← ofKind_cons]

theorem DebugInfo.errors_foldl (records : List (PatternKind × CallRecord)) (i : DebugInfo) :
    (records.foldl (fun i (kind, r) => i.add kind r) i).errors = i.errors := by
  induction records generalizing i with
  | nil => rfl
  | cons x rest ih =>
    obtain ⟨kind, r⟩ := x
    rw [List.foldl_cons, ih]
    cases kind <;> rfl

theorem recordsOf_walkedInfo (r : Request) (log : Log) (kind : PatternKind) :
    (walkedInfo r log).recordsOf kind = ofKind kind (inOrder log.records) := by
  have hfold := DebugInfo.recordsOf_foldl (inOrder log.records)
    (DebugInfo.empty r.filename r.mode) kind
  have hempty : (DebugInfo.empty r.filename r.mode).recordsOf kind = [] := by
    cases kind <;> rfl
  rw [hempty, List.nil_append] at hfold
  rw [← hfold]
  cases kind <;> rfl

theorem errors_walkedInfo (r : Request) (log : Log) :
    (walkedInfo r log).errors = log.diagnostics := by
  have hfold := DebugInfo.errors_foldl (inOrder log.records) (DebugInfo.empty r.filename r.mode)
  have hcollect : (walkedInfo r log).errors =
      ((inOrder log.records).foldl (fun i (kind, r) => i.add kind r)
        (DebugInfo.empty r.filename r.mode)).errors ++ log.diagnostics := rfl
  rw [hcollect, hfold]
  rfl

/-- A count over the records of a kind is one over the log, whatever their order. -/
theorem countP_recordsOf (r : Request) (log : Log) (kind : PatternKind) (p : CallRecord → Bool) :
    ((walkedInfo r log).recordsOf kind).countP p =
      log.records.countP fun x => x.1 == kind && p x.2 := by
  have hperm : (inOrder log.records).Perm log.records := List.mergeSort_perm _ _
  rw [recordsOf_walkedInfo, ofKind, List.countP_map, List.countP_filter, hperm.countP_eq]
  refine List.countP_congr fun x _ => ?_
  simp [Bool.and_comm]

/-! ### What is recorded -/

/-- The debug info that is recorded of a run: that of its walk with what the check has found. -/
def Completion.recorded (c : Completion) : DebugInfo :=
  { c.info with errors := c.info.errors ++ c.findings }

theorem Recorder.infos_recordTrace (rec : Recorder) (t : Trace) :
    (rec.recordTrace t).infos = rec.infos := by
  unfold recordTrace
  split <;> rfl

/-- The debug info that is recorded of a request, whether or not its source could be read. -/
def recordedInfo (r : Request) : Run → DebugInfo
  | .error f => failedInfo r f
  | .ok c => c.recorded

/-- A run leaves one debug info, with what the check has found in place. -/
theorem infos_record {rec : Recorder} (h : rec.infos.capacity = 0 → rec.infos.items = [])
    (t : Timing) (r : Request) (run : Run) :
    (rec.record t r run).infos = (rec.infos.push (recordedInfo r run)).1 := by
  cases run with
  | error f => rfl
  | ok c =>
    change (((rec.recordInfo c.info).recordTrace (traceOf t r c)).infos).updateLast _ = _
    rw [Recorder.infos_recordTrace]
    exact Buffer.updateLast_push h _ _

end CallBridge
