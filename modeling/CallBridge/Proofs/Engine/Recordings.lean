import CallBridge.Proofs.Engine.Batch

/-!
# What a batch leaves in the recorder

A request leaves one debug info and, if its source could be read, one trace. Main statement:
whatever the order in which the workers of a batch have taken the recorder, it holds what each
request leaves alone, in this order and behind what was there, as much as fits
(`batch_leaves_each_alone`).
-/

namespace CallBridge

open Collection Relation Replacement Script

/-! ### One run -/

variable {o : RecorderOptions} {rec : Recorder}

theorem Recorder.Bounded.record (h : rec.Bounded o) (t : Timing) (r : Request) (run : Run) :
    (rec.record t r run).Bounded o := by
  rw [record_eq_foldl]
  exact h.applyAll _

theorem Recorder.Bounded.items_infos_record (h : rec.Bounded o) (t : Timing) (r : Request)
    (run : Run) :
    (rec.record t r run).infos.items =
      (rec.infos.items ++ [recordedInfo r run]).rtake o.debugInfoCapacity := by
  rw [infos_record h.infos_eq_nil, Buffer.items_push h.infos, h.infoCapacity]

theorem Recorder.Bounded.items_traces_record (h : rec.Bounded o) (t : Timing) (r : Request)
    (run : Run) :
    (rec.record t r run).traces.items =
      if o.enableTransformTrace then
        (rec.traces.items ++ (recordedTrace? t r run).toList).rtake o.traceCapacity
      else rec.traces.items := by
  cases run with
  | error f =>
    have hfits := h.traces
    rw [h.traceCapacity] at hfits
    change rec.traces.items = _
    rw [recordedTrace?, Option.toList_none, List.append_nil, rtake_of_length_le hfits, ite_self]
  | ok c =>
    rw [Recorder.record, recordedTrace?, Option.toList_some]
    exact (h.recordInfo c.info).items_traces_recordTrace _

/-! ### All runs -/

namespace Batch

variable (b : Batch)

/-- The debug info that a request leaves. -/
def info (i : b.Worker) : DebugInfo := recordedInfo (b.request i) (b.run i)

/-- The trace that a request leaves if its source can be read. -/
def trace? (i : b.Worker) : Option Trace := recordedTrace? (b.timing i) (b.request i) (b.run i)

variable {b}

theorem items_infos_recordAll (h : rec.Bounded o) (order : List b.Worker) :
    (recordAll order rec).infos.items =
      (rec.infos.items ++ order.map b.info).rtake o.debugInfoCapacity := by
  induction order generalizing rec with
  | nil =>
    have hfits := h.infos
    rw [h.infoCapacity] at hfits
    rw [List.map_nil, List.append_nil, rtake_of_length_le hfits]
    rfl
  | cons i order ih =>
    rw [recordAll_cons, ih (h.record _ _ _), h.items_infos_record, rtake_append_rtake, List.map_cons,
      List.append_assoc, List.singleton_append]
    rfl

theorem items_traces_recordAll (h : rec.Bounded o) (order : List b.Worker) :
    (recordAll order rec).traces.items =
      if o.enableTransformTrace then
        (rec.traces.items ++ order.filterMap b.trace?).rtake o.traceCapacity
      else rec.traces.items := by
  induction order generalizing rec with
  | nil =>
    have hfits := h.traces
    rw [h.traceCapacity] at hfits
    rw [List.filterMap_nil, List.append_nil, rtake_of_length_le hfits, ite_self]
    rfl
  | cons i order ih =>
    rw [recordAll_cons, ih (h.record _ _ _), h.items_traces_record]
    split
    · have htraces : (i :: order).filterMap b.trace? =
          (b.trace? i).toList ++ order.filterMap b.trace? := by
        rw [List.filterMap_cons]
        cases b.trace? i <;> rfl
      rw [rtake_append_rtake, htraces, List.append_assoc]
      rfl
    · rfl

end Batch

/-! ### What a request leaves -/

/-- A request whose source can be read leaves the diagnostics of its walk and, behind them, what
the check has found in its own output. -/
theorem errors_recordedInfo_ok {e : Engine} {r : Request} {c : Completion}
    (h : e.run r = .ok c) :
    ∃ program, parseScript (.ofFilename r.filename) r.source = .ok program ∧
      (recordedInfo r (.ok c)).errors =
        (walk (e.setting r) program.tree).2.diagnostics ++
          Marker.check e.config r.mode r.source c.result.generatedText := by
  obtain ⟨program, hparse, hcomplete⟩ := Engine.run_eq_ok_iff.1 h
  refine ⟨program, hparse, ?_⟩
  rw [← hcomplete, ← errors_walkedInfo r]
  rfl

/-- A request whose source cannot be read leaves no mappings and one diagnostic. -/
theorem recordedInfo_error (r : Request) (f : ParseFailure) :
    (recordedInfo r (.error f)).events = [] ∧ (recordedInfo r (.error f)).apis = [] ∧
      ∃ d, (recordedInfo r (.error f)).errors = [d] ∧ d.code = .parseFailure :=
  ⟨rfl, rfl, _, rfl, rfl⟩

/-- Workers can take the recorder of a batch in every order, and from every state that they can
reach all of them can finish. When they have, each has the result of its request alone, and the
recorder holds what each request leaves alone, in the order in which it was taken and behind what
was there, as much as fits. -/
theorem batch_leaves_each_alone (b : Batch) (o : RecorderOptions)
    (history : List Recorder.Operation) :
    let before := Recorder.after o history
    (∀ order : List b.Worker, order.Perm (List.finRange b.requests.length) →
      ∃ s, ReflTransGen Batch.Step (b.start before) s ∧ s.Done ∧ s.entered = order) ∧
    ∀ s, ReflTransGen Batch.Step (b.start before) s →
      (∃ t, ReflTransGen Batch.Step s t ∧ t.Done) ∧
      (s.Done →
        s.entered.Perm (List.finRange b.requests.length) ∧
        (∀ i rec t, s.stage i = .finished (b.engine.transform rec t (b.request i)).1) ∧
        s.recorder.infos.items =
          (before.infos.items ++ s.entered.map b.info).rtake o.debugInfoCapacity ∧
        s.recorder.traces.items =
          (if o.enableTransformTrace then
            (before.traces.items ++ s.entered.filterMap b.trace?).rtake o.traceCapacity
          else before.traces.items) ∧
        ∀ i,
          (∀ c, b.run i = .ok c → b.trace? i = some (traceOf (b.timing i) (b.request i) c) ∧
            ∃ program, parseScript (.ofFilename (b.request i).filename) (b.request i).source =
                .ok program ∧
              (b.info i).errors =
                (walk (b.engine.setting (b.request i)) program.tree).2.diagnostics ++
                  Marker.check b.engine.config (b.request i).mode (b.request i).source
                    c.result.generatedText) ∧
          ∀ f, b.run i = .error f → b.trace? i = none ∧ (b.info i).events = [] ∧
            (b.info i).apis = [] ∧ ∃ d, (b.info i).errors = [d] ∧ d.code = .parseFailure) := by
  intro before
  have hbefore : before.Bounded o := Recorder.bounded_after o history
  refine ⟨fun order horder => Batch.exists_done_of_order before horder, fun s hreach => ?_⟩
  have hconsistent := Batch.consistent_of_reachable hreach
  refine ⟨hconsistent.exists_done, fun hdone => ?_⟩
  obtain ⟨horder, hrecorder, hstage⟩ := hconsistent.of_done hdone
  refine ⟨horder, fun i rec t => ?_, ?_, ?_, fun i => ⟨fun c hrun => ?_, fun f hrun => ?_⟩⟩
  · rw [hstage i, Batch.run, Engine.transform]
  · rw [hrecorder]
    exact Batch.items_infos_recordAll hbefore _
  · rw [hrecorder]
    exact Batch.items_traces_recordAll hbefore _
  · rw [Batch.trace?, Batch.info, hrun, recordedTrace?]
    exact ⟨rfl, errors_recordedInfo_ok hrun⟩
  · rw [Batch.trace?, Batch.info, hrun, recordedTrace?]
    exact ⟨rfl, recordedInfo_error _ f⟩

/-- A request that cannot be read and one that can. -/
def unlikeRequests : List Request :=
  [⟨"fetch(", "broken.js", .production, false⟩,
    ⟨"fetch('/api/records');", "page.js", .production, false⟩]

/-- With room for one debug info and one trace, those of the last that left any are there. -/
theorem batch_leaves_each_alone_crowded :
    ∃ e, Engine.ofConfig .standard .standard = .ok e ∧
      let b : Batch := ⟨e, unlikeRequests, fun _ => ⟨⟨0, 0⟩, .zero⟩⟩
      ∃ s, ReflTransGen Batch.Step (b.start (Recorder.after ⟨1, 1, true, true⟩ [])) s ∧ s.Done ∧
        s.entered = ([1, 0] : List (Fin 2)) ∧
        (∃ d, s.recorder.infos.items.map (fun i => (i.filename, i.errors)) =
          [("broken.js", [d])] ∧ d.code = .parseFailure) ∧
        s.recorder.traces.items.map (·.filename) = ["page.js"] := by
  obtain ⟨e, he⟩ := Engine.exists_standard
  refine ⟨e, he, ?_⟩
  intro b
  let broken : b.Worker := (0 : Fin 2)
  let page : b.Worker := (1 : Fin 2)
  obtain ⟨hexists, hreachable⟩ := batch_leaves_each_alone b ⟨1, 1, true, true⟩ []
  have hperm : ([1, 0] : List (Fin 2)).Perm (List.finRange 2) := by decide
  obtain ⟨s, hreach, hdone, hentered⟩ := hexists [page, broken] hperm
  obtain ⟨-, -, hinfos, htraces, heach⟩ := (hreachable s hreach).2 hdone
  obtain ⟨f, hbroken⟩ := exists_error_of_isNone
    (x := parseScript (.ofFilename "broken.js") "fetch(") (by decide +kernel)
  have hf : b.run broken = .error (parseFailure (b.request broken) f) := e.run_error hbroken
  obtain ⟨program, hpage⟩ := exists_ok_of_isSome
    (x := parseScript (.ofFilename "page.js") "fetch('/api/records');") (by decide +kernel)
  have hc : b.run page = .ok (e.complete (b.request page) program) :=
    Engine.run_eq_ok_iff.2 ⟨program, hpage, rfl⟩
  obtain ⟨hnone, -, -, d, herrors, hcode⟩ := (heach broken).2 _ hf
  obtain ⟨hsome, -⟩ := (heach page).1 _ hc
  have hinfo : s.recorder.infos.items = [b.info broken] := by
    rw [hinfos, hentered]
    rfl
  have htrace : s.recorder.traces.items =
      [traceOf (b.timing page) (b.request page) (e.complete (b.request page) program)] := by
    rw [htraces, hentered, List.filterMap_cons_some hsome, List.filterMap_cons_none hnone]
    rfl
  refine ⟨s, hreach, hdone, hentered, ⟨d, ?_, hcode⟩, ?_⟩
  · rw [hinfo, List.map_singleton, herrors, Batch.info, hf]
    rfl
  · rw [htrace]
    rfl

end CallBridge
