import CallBridge.Proofs.Collection.Evicted
import CallBridge.Proofs.Record.History
import CallBridge.Record.Report

/-!
# Traces and their report

A recorder with tracing on holds the last traces recorded since it was cleared, as many as fit
(`items_traces_after`), and no trace is shown with the text that says that there is none
(`render_ne_notFound`). Main statement: a bounded buffer loses nothing but its oldest items, and so
the report on a file shows the latest of its traces among those
(`oldest_lost_and_latest_reported`).
-/

namespace CallBridge.Recorder

open Collection Text

/-! ### What is held -/

namespace Operation

def isClear : Operation → Bool
  | .clear => true
  | _ => false

def trace? : Operation → Option Trace
  | .trace t => some t
  | _ => none

end Operation

/-- The traces recorded since the last clearing. -/
def tracesSince (ops : List Operation) : List Trace :=
  (sinceClear Operation.isClear ops).filterMap Operation.trace?

variable {o : RecorderOptions} {ops : List Operation} {filename : String} {ts : List Trace}
  {t : Trace}

theorem tracesSince_concat (ops : List Operation) (op : Operation) :
    tracesSince (ops ++ [op]) =
      if op.isClear then [] else tracesSince ops ++ op.trace?.toList := by
  rw [tracesSince, sinceClear_concat]
  split
  · rfl
  · rw [List.filterMap_append]
    cases op <;> rfl

/-- With tracing on, the traces held are the last ones recorded since the last clearing. -/
theorem items_traces_after (ho : o.enableTransformTrace) (ops : List Operation) :
    (after o ops).traces.items = (tracesSince ops).rtake o.traceCapacity := by
  induction ops using List.reverseRecOn with
  | nil => exact (List.rtake_nil _).symm
  | append_singleton ops op ih =>
    have hbounded := bounded_after o ops
    rw [after, List.foldl_concat, tracesSince_concat]
    change ((after o ops).apply op).traces.items = _
    cases op with
    | info i => exact ih.trans (congrArg (List.rtake · _) (List.append_nil _).symm)
    | trace t =>
      rw [Recorder.apply, hbounded.items_traces_recordTrace, if_pos ho, ih]
      exact rtake_append_rtake _ _ [t]
    | findings ds => exact ih.trans (congrArg (List.rtake · _) (List.append_nil _).symm)
    | clear => exact (List.rtake_nil _).symm

/-! ### The latest trace of a file -/

/-- A trace of a file behind which there is no other one of that file. -/
def IsLatestOf (filename : String) (ts : List Trace) (t : Trace) : Prop :=
  ∃ earlier later, ts = earlier ++ t :: later ∧ t.filename = filename ∧
    ∀ other ∈ later, other.filename ≠ filename

theorem find?_reverse_eq_some_iff :
    (ts.reverse.find? fun t => t.filename == filename) = some t ↔ IsLatestOf filename ts t := by
  rw [List.find?_eq_some_iff_append]
  constructor
  · rintro ⟨ht, later, earlier, hreverse, hlater⟩
    refine ⟨earlier.reverse, later.reverse, ?_, beq_iff_eq.1 ht, fun other hother => ?_⟩
    · rw [← List.reverse_reverse ts, hreverse]
      simp
    · exact bne_iff_ne.1 (hlater other (List.mem_reverse.1 hother))
  · rintro ⟨earlier, later, rfl, ht, hlater⟩
    refine ⟨beq_iff_eq.2 ht, later.reverse, earlier.reverse, by simp, fun other hother => ?_⟩
    exact bne_iff_ne.2 (hlater other (List.mem_reverse.1 hother))

theorem find?_reverse_eq_none_iff :
    (ts.reverse.find? fun t => t.filename == filename) = none ↔
      ∀ t ∈ ts, t.filename ≠ filename := by
  simp only [List.find?_eq_none, List.mem_reverse, beq_iff_eq, ne_eq]

/-! ### Reports -/

/-- Cutting blanks at the end of a report leaves its first character if that is not blank. -/
theorem head?_reportText {line : String} {c : Char} (hline : line.toList.head? = some c)
    (hc : isBlank c = false) (lines : List String) :
    (reportText (line :: lines)).toList.head? = some c := by
  obtain ⟨cs, hcs⟩ := List.head?_eq_some_iff.1 hline
  obtain ⟨text, htext⟩ : ∃ text,
      ((line :: lines).flatMap fun l => l.toList ++ ['\n']) = c :: text := by
    rw [List.flatMap_cons, hcs]
    exact ⟨_, rfl⟩
  rw [reportText, htext, String.toList_ofList]
  have hfront : (c :: text).rdropWhile isBlank <+: c :: text := List.rdropWhile_prefix ..
  have hne : (c :: text).rdropWhile isBlank ≠ [] := fun hnil => by
    have hblank := List.rdropWhile_eq_nil_iff.1 hnil c (List.mem_cons_self ..)
    exact Bool.false_ne_true (hc.symm.trans hblank)
  obtain ⟨first, rest, hfirst⟩ := List.exists_cons_of_ne_nil hne
  rw [hfirst] at hfront
  change ((c :: text).rdropWhile isBlank).head? = some c
  rw [hfirst, (List.cons_prefix_cons.1 hfront).1]
  rfl

/-- No trace is shown with the text that there is none. -/
theorem render_ne_notFound (t : Trace) (filename : String) :
    t.render ≠ "No transform trace found for " ++ filename := by
  obtain ⟨lines, hlines⟩ : ∃ lines,
      t.render = reportText (("Transform Report: " ++ t.filename) :: lines) := ⟨_, rfl⟩
  have hrender : t.render.toList.head? = some 'T' := by
    rw [hlines]
    exact head?_reportText (by simp [String.toList_append]) (by decide) _
  have hnotFound : ("No transform trace found for " ++ filename).toList.head? = some 'N' := by
    simp [String.toList_append]
  intro heq
  rw [heq, hnotFound] at hrender
  exact absurd hrender (by decide)

/-- The traces that a recorder with tracing on still has. -/
def tracesKept (o : RecorderOptions) (ops : List Operation) : List Trace :=
  (tracesSince ops).rtake o.traceCapacity

theorem transformReport_after (ho : o.enableTransformTrace) (ops : List Operation)
    (filename : String) :
    (after o ops).transformReport filename =
      ((tracesKept o ops).reverse.find? fun t => t.filename == filename).elim
        ("No transform trace found for " ++ filename) Trace.render := by
  have hon : (after o ops).options.enableTransformTrace = true := by
    rw [(bounded_after o ops).options]
    exact ho
  rw [transformReport, hon, Bool.not_true, if_neg Bool.false_ne_true, traceOf?,
    items_traces_after ho, ← tracesKept]
  cases (tracesKept o ops).reverse.find? fun t => t.filename == filename <;> rfl

/-- A bounded buffer loses nothing but its oldest items: what its pushes have returned since the last
clearing and what it holds are all that was pushed since then, and it holds the last of them, as many
as fit; without room every push returns its item. So, with tracing on, the report on a file shows the
latest of its traces among the last ones recorded since the last clearing, and says that there is none
exactly when there is none. -/
theorem oldest_lost_and_latest_reported :
    (∀ (α : Type) (capacity : ℕ) (ops : List (Buffer.Operation α)),
      let use := Buffer.used capacity ops
      let pushed := Buffer.pushedSince ops
      (0 < capacity → use.returned.reduceOption ++ use.buffer.items = pushed) ∧
      use.buffer.items <:+ pushed ∧ use.buffer.items.length = min capacity pushed.length ∧
      (capacity = 0 → use.returned = pushed.map some ∧ use.buffer.items = [])) ∧
    ∀ (o : RecorderOptions) (ops : List Operation) (filename : String), o.enableTransformTrace →
      let report := (after o ops).transformReport filename
      (∀ t, IsLatestOf filename (tracesKept o ops) t → report = t.render) ∧
      (report = "No transform trace found for " ++ filename ↔
        ∀ t ∈ tracesKept o ops, t.filename ≠ filename) := by
  constructor
  · intro α capacity ops use pushed
    have h : Buffer.Accounts capacity pushed use := Buffer.accounts_used capacity ops
    refine ⟨h.all, ?_, ?_, fun hzero => ⟨h.none_kept hzero, ?_⟩⟩
    · rw [h.held]
      exact rtake_suffix ..
    · rw [h.held, List.rtake, List.length_drop]
      omega
    · rw [h.held, hzero, List.rtake_zero]
  · intro o ops filename ho report
    have hreport : report = _ := transformReport_after ho ops filename
    refine ⟨fun t ht => ?_, fun heq => ?_, fun hnone => ?_⟩
    · rw [hreport, find?_reverse_eq_some_iff.2 ht, Option.elim_some]
    · refine find?_reverse_eq_none_iff.1 (Option.eq_none_iff_forall_ne_some.2 fun t ht => ?_)
      rw [hreport, ht, Option.elim_some] at heq
      exact render_ne_notFound t filename heq
    · rw [hreport, find?_reverse_eq_none_iff.2 hnone]
      rfl

/-- A trace of a file at the start of time. -/
def traceUnder (filename source : String) : Trace :=
  ⟨filename, source, source, none, [], .ofInt 0, ⟨0, 0⟩⟩

/-- Three traces behind a clearing, of which two fit, and one in front of it. -/
def crowdedOperations : List Operation :=
  [.trace (traceUnder "c.js" "lost();"), .clear, .trace (traceUnder "a.js" "first();"),
    .findings [], .trace (traceUnder "a.js" "second();"), .trace (traceUnder "b.js" "third();")]

theorem oldest_lost_and_latest_reported_crowded :
    let pushes : List (Buffer.Operation ℕ) := [.push 1, .clear, .push 2, .push 3, .push 4]
    let o : RecorderOptions := ⟨2, 1, true, true⟩
    let report (filename : String) := (after o crowdedOperations).transformReport filename
    (0 < 2 ∧ (Buffer.used 2 pushes).returned = [none, none, some 2] ∧
      (Buffer.used 2 pushes).returned.reduceOption ++ (Buffer.used 2 pushes).buffer.items =
        [2, 3, 4]) ∧
    (Buffer.used 0 pushes).returned = [some 2, some 3, some 4] ∧
    o.enableTransformTrace = true ∧
    IsLatestOf "a.js" (tracesKept o crowdedOperations) (traceUnder "a.js" "second();") ∧
    report "a.js" = (traceUnder "a.js" "second();").render ∧
    report "c.js" = "No transform trace found for c.js" := by
  intro pushes o report
  obtain ⟨hbuffers, hreports⟩ := oldest_lost_and_latest_reported
  have hkept : tracesKept o crowdedOperations =
      [traceUnder "a.js" "second();", traceUnder "b.js" "third();"] := rfl
  have hlatest :
      IsLatestOf "a.js" (tracesKept o crowdedOperations) (traceUnder "a.js" "second();") :=
    ⟨[], _, hkept, rfl, by simp [traceUnder]⟩
  have hnone : ∀ t ∈ tracesKept o crowdedOperations, t.filename ≠ "c.js" := by
    rw [hkept]
    simp [traceUnder]
  refine ⟨⟨by decide, rfl, (hbuffers ℕ 2 pushes).1 (by decide)⟩,
    ((hbuffers ℕ 0 pushes).2.2.2 rfl).1, rfl, hlatest, ?_, ?_⟩
  · exact (hreports o crowdedOperations "a.js" rfl).1 _ hlatest
  · exact (hreports o crowdedOperations "c.js" rfl).2.2 hnone

end CallBridge.Recorder
