import CallBridge.Proofs.Engine.Run
import CallBridge.Proofs.Record.History
import Mathlib.Algebra.Order.BigOperators.Group.Finset
import Mathlib.Data.List.FinRange
import Mathlib.Logic.Relation

/-!
# Batches

The requests of a batch are run by workers of their own, in any order and at the same time. What a
worker records it records while it holds the recorder, which one worker at a time can do. Main
statements: when all have finished, the recorder is as if one worker had recorded after the other
(`Consistent.of_done`); from every state that can be reached all can finish
(`Consistent.exists_done`), and they can take the recorder in every order (`exists_done_of_order`).
-/

namespace CallBridge

open Collection Relation

/-! ### What is recorded of a run -/

/-- What a worker does to the recorder while it holds it. -/
def recordings (t : Timing) (r : Request) : Run → List Recorder.Operation
  | .error f => [.info (failedInfo r f)]
  | .ok c => [.info c.info, .trace (traceOf t r c), .findings c.findings]

theorem record_eq_foldl (rec : Recorder) (t : Timing) (r : Request) (run : Run) :
    rec.record t r run = (recordings t r run).foldl Recorder.apply rec := by
  cases run <;> rfl

theorem length_recordings_le (t : Timing) (r : Request) (run : Run) :
    (recordings t r run).length ≤ 3 := by
  cases run with
  | error f => exact Nat.le_add_left 1 2
  | ok c => exact Nat.le_refl 3

/-- The trace of a run, if its source could be read. -/
def recordedTrace? (t : Timing) (r : Request) : Run → Option Trace
  | .error _ => none
  | .ok c => some (traceOf t r c)

/-! ### Workers -/

/-- The requests of a batch and when their runs are recorded. -/
structure Batch where
  engine : Engine
  requests : List Request
  timing : Fin requests.length → Timing

/-- How far a worker is. -/
inductive Stage where
  | waiting
  /-- The request was run, nothing was recorded. -/
  | ran (run : Run)
  /-- The worker holds the recorder and has operations left. -/
  | recording (run : Run) (left : List Recorder.Operation)
  | finished (result : Except ParseFailure TransformResult)

/-- How many steps a worker has left at most. -/
def Stage.weight : Stage → ℕ
  | .waiting => 6
  | .ran _ => 5
  | .recording _ left => left.length + 1
  | .finished _ => 0

namespace Batch

/-- A worker for each request. -/
abbrev Worker (b : Batch) := Fin b.requests.length

variable (b : Batch)

def request (i : b.Worker) : Request := b.requests[i]

def run (i : b.Worker) : Run := b.engine.run (b.request i)

/-- The workers of a batch and the recorder they share. -/
structure State where
  stage : b.Worker → Stage
  recorder : Recorder
  holder : Option b.Worker
  /-- The workers that have taken the recorder, in this order. -/
  entered : List b.Worker

/-- No worker has begun. -/
def start (rec : Recorder) : b.State := ⟨fun _ => .waiting, rec, none, []⟩

variable {b}

/-- A worker goes on to a stage. -/
def State.goOn (s : b.State) (i : b.Worker) (stage : Stage) : b.State :=
  { s with stage := Function.update s.stage i stage }

/-- What can happen next: a worker runs its request, takes the recorder if no other one holds it,
records, or gives the recorder back. -/
inductive Step : b.State → b.State → Prop where
  | run {s : b.State} (i : b.Worker) (h : s.stage i = .waiting) : Step s (s.goOn i (.ran (b.run i)))
  | take {s : b.State} (i : b.Worker) {run : Run} (h : s.stage i = .ran run)
      (hfree : s.holder = none) :
      Step s { s.goOn i (.recording run (recordings (b.timing i) (b.request i) run)) with
        holder := some i
        entered := s.entered ++ [i] }
  | record {s : b.State} (i : b.Worker) {run : Run} {op : Recorder.Operation}
      {left : List Recorder.Operation} (h : s.stage i = .recording run (op :: left)) :
      Step s { s.goOn i (.recording run left) with recorder := s.recorder.apply op }
  | give {s : b.State} (i : b.Worker) {run : Run} (h : s.stage i = .recording run []) :
      Step s { s.goOn i (.finished (run.map (·.result))) with holder := none }

def State.Done (s : b.State) : Prop := ∀ i, ∃ result, s.stage i = .finished result

/-- The recorder after some workers recorded, one after the other. -/
def recordAll (order : List b.Worker) (rec : Recorder) : Recorder :=
  order.foldl (fun rec i => rec.record (b.timing i) (b.request i) (b.run i)) rec

theorem recordAll_cons (i : b.Worker) (order : List b.Worker) (rec : Recorder) :
    recordAll (i :: order) rec =
      recordAll order (rec.record (b.timing i) (b.request i) (b.run i)) := by
  rw [recordAll, List.foldl_cons, recordAll]

theorem recordAll_append (order : List b.Worker) (i : b.Worker) (rec : Recorder) :
    recordAll (order ++ [i]) rec =
      (recordings (b.timing i) (b.request i) (b.run i)).foldl Recorder.apply
        (recordAll order rec) := by
  rw [recordAll, List.foldl_append, List.foldl_cons, List.foldl_nil, ← recordAll, record_eq_foldl]

/-! ### What every state keeps -/

theorem State.stage_goOn_self (s : b.State) (i : b.Worker) (stage : Stage) :
    (s.goOn i stage).stage i = stage := Function.update_self ..

theorem State.stage_goOn_of_ne (s : b.State) {i j : b.Worker} (h : j ≠ i) (stage : Stage) :
    (s.goOn i stage).stage j = s.stage j := Function.update_of_ne h ..

/-- What the stage of a worker says of the worker and of what is shared. -/
def Fits (rec : Recorder) (s : b.State) (i : b.Worker) : Stage → Prop
  | .waiting => i ∉ s.entered ∧ s.holder ≠ some i
  | .ran run => run = b.run i ∧ i ∉ s.entered ∧ s.holder ≠ some i
  | .recording run left =>
    run = b.run i ∧ s.holder = some i ∧
      ∃ before done, s.entered = before ++ [i] ∧
        recordings (b.timing i) (b.request i) run = done ++ left ∧
          s.recorder = done.foldl Recorder.apply (recordAll before rec)
  | .finished result =>
    result = (b.run i).map (·.result) ∧ i ∈ s.entered ∧ s.holder ≠ some i

/-- Every worker fits its stage, and the recorder holds what those that have taken it have recorded;
only the one that holds it may have something left. -/
structure Consistent (rec : Recorder) (s : b.State) : Prop where
  fits : ∀ i, Fits rec s i (s.stage i)
  free : s.holder = none → s.recorder = recordAll s.entered rec
  nodup : s.entered.Nodup

variable {rec : Recorder} {s t : b.State} {i : b.Worker} {run : Run}

theorem consistent_start (rec : Recorder) : Consistent rec (b.start rec) where
  fits _ := ⟨List.not_mem_nil, nofun⟩
  free _ := rfl
  nodup := .nil

/-- A worker that does not hold the recorder fits its stage whatever the others do. -/
theorem Fits.of_not_holding {stage : Stage} (h : Fits rec s i stage) (hs : s.holder ≠ some i)
    (ht : t.holder ≠ some i) (hentered : i ∈ t.entered ↔ i ∈ s.entered) : Fits rec t i stage := by
  cases stage with
  | waiting => exact ⟨mt hentered.1 h.1, ht⟩
  | ran run => exact ⟨h.1, mt hentered.1 h.2.1, ht⟩
  | recording run left => exact absurd h.2.1 hs
  | finished result => exact ⟨h.1, hentered.2 h.2.1, ht⟩

/-- A step of one worker leaves the others as they are. -/
theorem Consistent.fits_goOn (h : Consistent rec s) {stage : Stage}
    (ht : t.stage = (s.goOn i stage).stage) (hi : Fits rec t i stage)
    (hs : ∀ j ≠ i, s.holder ≠ some j) (hholder : ∀ j ≠ i, t.holder ≠ some j)
    (hentered : ∀ j ≠ i, (j ∈ t.entered ↔ j ∈ s.entered)) :
    ∀ j, Fits rec t j (t.stage j) := by
  intro j
  rw [ht]
  by_cases hji : j = i
  · subst hji
    rw [s.stage_goOn_self]
    exact hi
  · rw [s.stage_goOn_of_ne hji]
    exact (h.fits j).of_not_holding (hs j hji) (hholder j hji) (hentered j hji)

theorem Consistent.ran (h : Consistent rec s) (hi : s.stage i = .waiting) :
    Consistent rec (s.goOn i (.ran (b.run i))) where
  fits j := by
    by_cases hji : j = i
    · subst hji
      have hwaiting := h.fits j
      rw [hi] at hwaiting
      rw [s.stage_goOn_self]
      exact ⟨rfl, hwaiting⟩
    · rw [s.stage_goOn_of_ne hji]
      exact h.fits j
  free := h.free
  nodup := h.nodup

theorem Consistent.taken (h : Consistent rec s) (hi : s.stage i = .ran run)
    (hfree : s.holder = none) :
    Consistent rec { s.goOn i (.recording run (recordings (b.timing i) (b.request i) run)) with
      holder := some i
      entered := s.entered ++ [i] } := by
  have hran := h.fits i
  rw [hi] at hran
  refine ⟨h.fits_goOn rfl ?_ ?_ ?_ ?_, nofun, ?_⟩
  · exact ⟨hran.1, rfl, s.entered, [], rfl, rfl, h.free hfree⟩
  · intro j _
    rw [hfree]
    exact nofun
  · intro j hji hholder
    exact hji (Option.some.inj hholder).symm
  · intro j hji
    simp [hji]
  · rw [← List.concat_eq_append, List.nodup_concat]
    exact ⟨hran.2.1, h.nodup⟩

theorem Consistent.recorded (h : Consistent rec s) {op : Recorder.Operation}
    {left : List Recorder.Operation} (hi : s.stage i = .recording run (op :: left)) :
    Consistent rec { s.goOn i (.recording run left) with recorder := s.recorder.apply op } := by
  have hrecording := h.fits i
  rw [hi] at hrecording
  obtain ⟨hrun, hholder, before, done, hentered, hops, hrecorder⟩ := hrecording
  have hother : ∀ j ≠ i, s.holder ≠ some j := fun j hji hj =>
    hji (Option.some.inj (hj.symm.trans hholder))
  refine ⟨h.fits_goOn rfl ?_ hother hother fun j _ => Iff.rfl, fun hfree => ?_, h.nodup⟩
  · refine ⟨hrun, hholder, before, done ++ [op], hentered, ?_, ?_⟩
    · rw [hops, List.append_assoc, List.singleton_append]
    · change s.recorder.apply op = _
      rw [hrecorder, List.foldl_append]
      rfl
  · exact absurd (hholder.symm.trans hfree) nofun

theorem Consistent.given (h : Consistent rec s) (hi : s.stage i = .recording run []) :
    Consistent rec { s.goOn i (.finished (run.map (·.result))) with holder := none } := by
  have hrecording := h.fits i
  rw [hi] at hrecording
  obtain ⟨hrun, hholder, before, done, hentered, hops, hrecorder⟩ := hrecording
  have hother : ∀ j ≠ i, s.holder ≠ some j := fun j hji hj =>
    hji (Option.some.inj (hj.symm.trans hholder))
  refine ⟨h.fits_goOn rfl ?_ hother ?_ fun j _ => Iff.rfl, fun _ => ?_, h.nodup⟩
  · refine ⟨by rw [hrun], ?_, nofun⟩
    change i ∈ s.entered
    rw [hentered]
    exact List.mem_append_right _ (List.mem_singleton_self i)
  · exact fun _ _ => nofun
  · change s.recorder = recordAll s.entered rec
    rw [hentered, recordAll_append, ← hrun, hops, List.append_nil, hrecorder]

theorem Consistent.step (h : Consistent rec s) (hstep : Step s t) : Consistent rec t := by
  cases hstep with
  | run i hi => exact h.ran hi
  | take i hi hfree => exact h.taken hi hfree
  | record i hi => exact h.recorded hi
  | give i hi => exact h.given hi

/-- Every state that can be reached is consistent. -/
theorem consistent_of_reachable (h : ReflTransGen Step (b.start rec) s) : Consistent rec s := by
  induction h with
  | refl => exact consistent_start rec
  | tail _ hstep ih => exact ih.step hstep

/-- When every worker has finished, each has its own result and has taken the recorder once. -/
theorem Consistent.of_done (h : Consistent rec s) (hdone : s.Done) :
    s.entered.Perm (List.finRange b.requests.length) ∧ s.recorder = recordAll s.entered rec ∧
      ∀ i, s.stage i = .finished ((b.run i).map (·.result)) := by
  have hfinished : ∀ i, s.stage i = .finished ((b.run i).map (·.result)) ∧ i ∈ s.entered ∧
      s.holder ≠ some i := fun i => by
    obtain ⟨result, hresult⟩ := hdone i
    have hfits := h.fits i
    rw [hresult] at hfits
    exact ⟨hfits.1 ▸ hresult, hfits.2⟩
  refine ⟨?_, h.free ?_, fun i => (hfinished i).1⟩
  · rw [List.perm_ext_iff_of_nodup h.nodup (List.nodup_finRange _)]
    exact fun i => iff_of_true (hfinished i).2.1 (List.mem_finRange i)
  · cases hholder : s.holder with
    | none => rfl
    | some i => exact absurd hholder (hfinished i).2.2

/-! ### Every batch can be completed -/

/-- How many steps the workers have left at most. -/
def State.weight (s : b.State) : ℕ := ∑ i, (s.stage i).weight

theorem State.weight_goOn_lt (s : b.State) {t : b.State} {i : b.Worker} {stage : Stage}
    (h : stage.weight < (s.stage i).weight) (ht : t.stage = (s.goOn i stage).stage) :
    t.weight < s.weight := by
  refine Finset.sum_lt_sum (fun j _ => ?_) ⟨i, Finset.mem_univ i, ?_⟩
  · rw [ht]
    by_cases hji : j = i
    · subst hji
      rw [s.stage_goOn_self]
      exact h.le
    · rw [s.stage_goOn_of_ne hji]
  · rw [ht, s.stage_goOn_self]
    exact h

theorem Step.weight_lt (h : Step s t) : t.weight < s.weight := by
  cases h with
  | run i hi => exact s.weight_goOn_lt (by rw [hi]; exact Nat.lt_succ_self 5) rfl
  | take i hi hfree =>
    refine s.weight_goOn_lt ?_ rfl
    rw [hi, Stage.weight, Stage.weight]
    exact Nat.succ_lt_succ (Nat.lt_succ_of_le (length_recordings_le ..))
  | record i hi => exact s.weight_goOn_lt (by rw [hi]; exact Nat.lt_succ_self _) rfl
  | give i hi => exact s.weight_goOn_lt (by rw [hi]; exact Nat.zero_lt_succ _) rfl

/-- As long as a worker has not finished, something can happen. -/
theorem Consistent.exists_step (h : Consistent rec s) (hdone : ¬s.Done) : ∃ t, Step s t := by
  obtain ⟨i, hi⟩ := not_forall.1 hdone
  cases hholder : s.holder with
  | some j =>
    -- the worker that holds the recorder goes on
    have hfits := h.fits j
    cases hstage : s.stage j with
    | waiting => exact absurd hholder (hstage ▸ hfits).2
    | ran run => exact absurd hholder (hstage ▸ hfits).2.2
    | finished result => exact absurd hholder (hstage ▸ hfits).2.2
    | recording run left =>
      cases left with
      | nil => exact ⟨_, .give j hstage⟩
      | cons op left => exact ⟨_, .record j hstage⟩
  | none =>
    have hfits := h.fits i
    cases hstage : s.stage i with
    | waiting => exact ⟨_, .run i hstage⟩
    | ran run => exact ⟨_, .take i hstage hholder⟩
    | recording run left => exact absurd ((hstage ▸ hfits).2.1.symm.trans hholder) nofun
    | finished result => exact absurd ⟨result, hstage⟩ hi

/-- From every state that can be reached, all workers can finish. -/
theorem Consistent.exists_done (h : Consistent rec s) :
    ∃ t, ReflTransGen Step s t ∧ t.Done := by
  induction hweight : s.weight using Nat.strong_induction_on generalizing s with
  | _ weight ih =>
    by_cases hdone : s.Done
    · exact ⟨s, .refl, hdone⟩
    · obtain ⟨next, hstep⟩ := h.exists_step hdone
      obtain ⟨t, hreach, ht⟩ := ih _ (hweight ▸ hstep.weight_lt) (h.step hstep) rfl
      exact ⟨t, .head hstep hreach, ht⟩

/-! ### Every order is possible -/

theorem exists_recorded {left : List Recorder.Operation} (h : s.stage i = .recording run left) :
    ∃ t, ReflTransGen Step s t ∧ t.stage i = .recording run [] ∧
      (∀ j ≠ i, t.stage j = s.stage j) ∧ t.entered = s.entered := by
  induction left generalizing s with
  | nil => exact ⟨s, .refl, h, fun _ _ => rfl, rfl⟩
  | cons op left ih =>
    obtain ⟨t, hreach, hi, hothers, hentered⟩ :=
      ih (s := { s.goOn i (.recording run left) with recorder := s.recorder.apply op })
        (s.stage_goOn_self i _)
    refine ⟨t, .head (.record i h) hreach, hi, fun j hji => ?_, hentered⟩
    rw [hothers j hji]
    exact s.stage_goOn_of_ne hji _

/-- A worker that has not begun can do all of its work while the others wait. -/
theorem exists_worked (h : s.stage i = .waiting) (hfree : s.holder = none) :
    ∃ t, ReflTransGen Step s t ∧ (∃ result, t.stage i = .finished result) ∧
      (∀ j ≠ i, t.stage j = s.stage j) ∧ t.holder = none ∧ t.entered = s.entered ++ [i] := by
  have hran := s.stage_goOn_self i (.ran (b.run i))
  have htook := (s.goOn i (.ran (b.run i))).stage_goOn_self i
    (.recording (b.run i) (recordings (b.timing i) (b.request i) (b.run i)))
  obtain ⟨t, hreach, hi, hothers, hentered⟩ := exists_recorded
    (s := { (s.goOn i (.ran (b.run i))).goOn i
        (.recording (b.run i) (recordings (b.timing i) (b.request i) (b.run i))) with
      holder := some i
      entered := s.entered ++ [i] }) htook
  refine ⟨{ t.goOn i (.finished ((b.run i).map (·.result))) with holder := none }, ?_,
    ⟨_, t.stage_goOn_self i _⟩, fun j hji => ?_, rfl, hentered⟩
  · exact .head (.run i h) (.head (.take i hran hfree) (hreach.tail (.give i hi)))
  · have hsame := hothers j hji
    rw [State.stage_goOn_of_ne _ hji, s.stage_goOn_of_ne hji] at hsame
    exact (t.stage_goOn_of_ne hji _).trans hsame

theorem exists_worked_all {order : List b.Worker} (hnodup : order.Nodup)
    (h : ∀ i ∈ order, s.stage i = .waiting) (hfree : s.holder = none) :
    ∃ t, ReflTransGen Step s t ∧ (∀ i ∈ order, ∃ result, t.stage i = .finished result) ∧
      (∀ j ∉ order, t.stage j = s.stage j) ∧ t.entered = s.entered ++ order := by
  induction order generalizing s with
  | nil => exact ⟨s, .refl, nofun, fun _ _ => rfl, (List.append_nil _).symm⟩
  | cons i order ih =>
    obtain ⟨hi, hnodup⟩ := List.nodup_cons.1 hnodup
    obtain ⟨next, hnext, hresult, hothers, hfree', hentered⟩ :=
      exists_worked (h i List.mem_cons_self) hfree
    have hwaiting : ∀ j ∈ order, next.stage j = .waiting := fun j hj =>
      (hothers j (ne_of_mem_of_not_mem hj hi)).trans (h j (List.mem_cons_of_mem i hj))
    obtain ⟨t, hreach, hfinished, hrest, hentered'⟩ := ih hnodup hwaiting hfree'
    refine ⟨t, hnext.trans hreach, List.forall_mem_cons.2 ⟨?_, hfinished⟩, fun j hj => ?_, ?_⟩
    · rw [hrest i hi]
      exact hresult
    · obtain ⟨hji, hj⟩ := List.ne_and_not_mem_of_not_mem_cons hj
      rw [hrest j hj, hothers j hji]
    · rw [hentered', hentered, List.append_assoc, List.singleton_append]

/-- The workers can take the recorder in every order. -/
theorem exists_done_of_order (rec : Recorder) {order : List b.Worker}
    (h : order.Perm (List.finRange b.requests.length)) :
    ∃ s, ReflTransGen Step (b.start rec) s ∧ s.Done ∧ s.entered = order := by
  obtain ⟨s, hreach, hfinished, -, hentered⟩ := exists_worked_all (s := b.start rec)
    (h.nodup_iff.2 (List.nodup_finRange _)) (fun _ _ => rfl) rfl
  exact ⟨s, hreach, fun i => hfinished i (h.mem_iff.2 (List.mem_finRange i)), hentered⟩

end Batch

/-- A batch gives what workers give that take the recorder in the order of the requests. -/
theorem Engine.exists_done_transformBatch (e : Engine) (rec : Recorder) (t : Timing)
    (rs : List Request) :
    ∃ s : Batch.State ⟨e, rs, fun _ => t⟩, ReflTransGen Batch.Step (Batch.start _ rec) s ∧
      (e.transformBatch rec t rs).2 = s.recorder ∧
      ∀ i, (e.transformBatch rec t rs).1[i.val]?.map Stage.finished = some (s.stage i) := by
  obtain ⟨s, hreach, hdone, hentered⟩ :=
    Batch.exists_done_of_order (b := ⟨e, rs, fun _ => t⟩) rec (.refl _)
  obtain ⟨-, hrecorder, hstage⟩ := (Batch.consistent_of_reachable hreach).of_done hdone
  refine ⟨s, hreach, ?_, fun i => ?_⟩
  · rw [hrecorder, hentered, Engine.transformBatch]
    conv_lhs => rw [← List.map_get_finRange rs, List.foldl_map]
    simp only [Batch.recordAll, Batch.run, Batch.request, List.get_eq_getElem, Fin.getElem_fin]
  · rw [hstage, Batch.run, Batch.request, Fin.getElem_fin, Engine.batch_results,
      List.getElem?_map, List.getElem?_eq_getElem i.isLt, Option.map_some, Option.map_some,
      Engine.transform]

end CallBridge
