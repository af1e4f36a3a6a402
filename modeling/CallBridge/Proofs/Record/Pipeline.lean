import CallBridge.Record.Session
import Mathlib.Data.List.Chain

/-!
# The course of a session

A session goes on from phase to phase, takes records and diagnostics, and is ended. What may
follow what leaves one way to each phase (`follow_concat_iff`), and a session goes through its
operations exactly when its phases follow each other (`foldlM_apply_bind_eq_ok_iff`). Main
statement: a session is finished, or ended by a parse failure, exactly when it has gone that way,
and what it leaves is what it took, or nothing but the failure (`follows_pipeline`).
-/

namespace CallBridge

open Pattern

/-! ### Ways through the phases -/

namespace Phase

/-- The phases up to one, each of which may follow the one in front of it. -/
def pathTo : Phase → List Phase
  | idle => [idle]
  | parsing => [idle, parsing]
  | matching => [idle, parsing, matching]
  | generating => [idle, parsing, matching, generating]
  | recorded => [idle, parsing, matching, generating, recorded]
  | failed => [idle, parsing, failed]

/-- Each phase of a list may follow the one in front of it. -/
def Follow (phases : List Phase) : Prop := phases.IsChain fun p q => p.precedes q

theorem pathTo_of_precedes {p q : Phase} (h : p.precedes q) : pathTo q = pathTo p ++ [q] := by
  cases p <;> cases q <;> simp_all [precedes, pathTo]

theorem follow_pathTo (p : Phase) : Follow (pathTo p) := by
  unfold Follow
  cases p <;> decide

theorem follow_concat (phases : List Phase) (p q : Phase) :
    Follow (phases ++ [p] ++ [q]) ↔ Follow (phases ++ [p]) ∧ p.precedes q := by
  simp only [Follow, List.isChain_append]
  simp [and_comm]

/-- There is one way from the start to a phase. -/
theorem follow_concat_iff {phases : List Phase} {p : Phase} :
    Follow (idle :: phases ++ [p]) ↔ idle :: phases ++ [p] = pathTo p := by
  refine ⟨fun h => ?_, fun h => h ▸ follow_pathTo p⟩
  -- from the end, since a phase settles the one in front of it, but not the one behind it
  induction phases using List.reverseRecOn generalizing p with
  | nil =>
    obtain ⟨-, hstart⟩ := (follow_concat [] idle p).1 h
    exact (pathTo_of_precedes hstart).symm
  | append_singleton phases q ih =>
    rw [← List.cons_append] at h ⊢
    obtain ⟨hfront, hlast⟩ := (follow_concat (idle :: phases) q p).1 h
    rw [pathTo_of_precedes hlast, ← ih hfront]

end Phase

namespace Session

/-! ### Use -/

/-- What is done to a session before it ends. -/
inductive Operation where
  | advance (next : Phase)
  | record (kind : PatternKind) (r : CallRecord)
  | diagnostic (d : Diagnostic)
  deriving DecidableEq, Repr

namespace Operation

def phase? : Operation → Option Phase
  | advance next => some next
  | _ => none

def recordOf? (kind : PatternKind) : Operation → Option CallRecord
  | record k r => if k = kind then some r else none
  | _ => none

def diagnostic? : Operation → Option Diagnostic
  | diagnostic d => some d
  | _ => none

end Operation

/-- How a session is ended. -/
inductive Ending where
  | finish
  | fail (f : ParseFailure)
  deriving DecidableEq, Repr

/-- The phase that an ending goes on to. -/
def Ending.phase : Ending → Phase
  | finish => .recorded
  | fail _ => .failed

def close (s : Session) : Ending → Except IllegalTransition DebugInfo
  | .finish => s.finish
  | .fail f => s.fail f

/-- A session with the phases that it has passed through. -/
structure Course where
  session : Session
  phases : List Phase
  deriving Repr

namespace Course

def start (filename : String) (mode : Mode) : Course := ⟨.start filename mode, [.idle]⟩

def apply (c : Course) : Operation → Except IllegalTransition Course
  | .advance next => do
    let s ← c.session.advance next
    return ⟨s, c.phases ++ [s.phase]⟩
  | .record kind r => return { c with session := c.session.record kind r }
  | .diagnostic d => return { c with session := c.session.diagnostic d }

/-- Carries an operation out, whether its phase may follow or not. -/
def behind (c : Course) : Operation → Course
  | .advance next => ⟨{ c.session with phase := next }, c.phases ++ [next]⟩
  | .record kind r => { c with session := c.session.record kind r }
  | .diagnostic d => { c with session := c.session.diagnostic d }

end Course

/-- What a new session leaves when it is ended behind a number of operations, with the phases that
it has passed through. -/
def run (filename : String) (mode : Mode) (ops : List Operation) (e : Ending) :
    Except IllegalTransition (DebugInfo × List Phase) := do
  let c ← ops.foldlM Course.apply (.start filename mode)
  let info ← c.session.close e
  return (info, c.phases ++ [e.phase])

/-! ### What a session goes through -/

/-- The phases that operations go on to. -/
def advancedTo (ops : List Operation) : List Phase := ops.filterMap Operation.phase?

variable {α : Type} {a : α} {c : Course} {op : Operation} {ops : List Operation} {p : Phase}

/-- What goes on behind a phase gives something exactly when the phase may follow. -/
theorem advance_bind_eq_ok_iff {s : Session} {f : Session → Except IllegalTransition α} :
    s.advance p >>= f = .ok a ↔ s.phase.precedes p ∧ f { s with phase := p } = .ok a := by
  unfold advance
  split
  · next hp => exact (and_iff_right hp).symm
  · next hp =>
    refine iff_of_false (fun h => ?_) fun h => hp h.1
    cases h

theorem apply_bind_eq_ok_iff {f : Course → Except IllegalTransition α} :
    c.apply op >>= f = .ok a ↔
      (∀ next ∈ op.phase?, c.session.phase.precedes next) ∧ f (c.behind op) = .ok a := by
  cases op with
  | advance next =>
    have hphase : (∀ p ∈ Operation.phase? (.advance next), c.session.phase.precedes p) ↔
        c.session.phase.precedes next := by simp [Operation.phase?]
    rw [Course.apply, bind_assoc, advance_bind_eq_ok_iff, hphase]
    rfl
  | record kind r => exact (and_iff_right nofun).symm
  | diagnostic d => exact (and_iff_right nofun).symm

/-- The phases of operations follow each other, with any phases behind them, when the first one may
follow and so do the others. -/
theorem follow_advancedTo_cons (rest : List Phase) :
    Phase.Follow (c.session.phase :: (advancedTo (op :: ops) ++ rest)) ↔
      (∀ next ∈ op.phase?, c.session.phase.precedes next) ∧
        Phase.Follow ((c.behind op).session.phase :: (advancedTo ops ++ rest)) := by
  cases op with
  | advance next =>
    refine List.isChain_cons_cons.trans (and_congr_left fun _ => ?_)
    exact ⟨fun h p hp => Option.some.inj hp ▸ h, fun h => h next rfl⟩
  | record kind r => exact (and_iff_right nofun).symm
  | diagnostic d => exact (and_iff_right nofun).symm

/-- A session goes through operations and on to a phase exactly when all the phases follow each
other. -/
theorem foldlM_apply_bind_eq_ok_iff {f : Course → Except IllegalTransition α} {g : Course → α}
    (hf : ∀ c a, f c = .ok a ↔ c.session.phase.precedes p ∧ a = g c) :
    ops.foldlM Course.apply c >>= f = .ok a ↔
      Phase.Follow (c.session.phase :: (advancedTo ops ++ [p])) ∧ a = g (ops.foldl .behind c) := by
  induction ops generalizing c with
  | nil => simpa [Phase.Follow, advancedTo] using hf c a
  | cons op ops ih =>
    rw [List.foldlM_cons, bind_assoc, apply_bind_eq_ok_iff, ih, follow_advancedTo_cons, and_assoc,
      List.foldl_cons]

/-! ### What is left of a session -/

/-- What an ending leaves of a debug info. -/
def Ending.left : Ending → DebugInfo → DebugInfo
  | finish, i => i
  | fail f, i => { i with events := [], apis := [], errors := [failureDiagnostic f] }

theorem close_bind_eq_ok_iff {s : Session} {e : Ending}
    {f : DebugInfo → Except IllegalTransition α} :
    s.close e >>= f = .ok a ↔ s.phase.precedes e.phase ∧ f (e.left s.info) = .ok a := by
  have hclose : s.close e = s.advance e.phase >>= fun s => .ok (e.left s.info) := by
    cases e <;> rfl
  rw [hclose, bind_assoc, advance_bind_eq_ok_iff]
  rfl

/-- The records of a kind, in their order. -/
def recordsOf (kind : PatternKind) (ops : List Operation) : List CallRecord :=
  ops.filterMap (Operation.recordOf? kind)

/-- The diagnostics, in their order. -/
def diagnosticsOf (ops : List Operation) : List Diagnostic := ops.filterMap Operation.diagnostic?

theorem filterMap_cons_eq_append {α β : Type} (f : α → Option β) (x : α) (l : List α) :
    (x :: l).filterMap f = (f x).toList ++ l.filterMap f := by
  rw [List.filterMap_eq_flatMap_toList, List.flatMap_cons, List.filterMap_eq_flatMap_toList]

/-- What an operation brings stands behind what a session had. -/
theorem info_behind :
    (c.behind op).session.info =
      { c.session.info with
        events := c.session.info.events ++ (op.recordOf? .eventRegistration).toList
        apis := c.session.info.apis ++ (op.recordOf? .networkFetch).toList
        errors := c.session.info.errors ++ op.diagnostic?.toList } := by
  cases op with
  | advance next => simp [Course.behind, Operation.recordOf?, Operation.diagnostic?]
  | record kind r =>
    cases kind <;>
      simp [Course.behind, record, DebugInfo.add, Operation.recordOf?, Operation.diagnostic?]
  | diagnostic d => simp [Course.behind, diagnostic, Operation.recordOf?, Operation.diagnostic?]

theorem phases_behind : (c.behind op).phases = c.phases ++ op.phase?.toList := by
  cases op <;> simp [Course.behind, Operation.phase?]

theorem info_foldl_behind :
    (ops.foldl .behind c).session.info =
      { c.session.info with
        events := c.session.info.events ++ recordsOf .eventRegistration ops
        apis := c.session.info.apis ++ recordsOf .networkFetch ops
        errors := c.session.info.errors ++ diagnosticsOf ops } := by
  induction ops generalizing c with
  | nil => simp [recordsOf, diagnosticsOf]
  | cons op ops ih =>
    rw [List.foldl_cons, ih, info_behind]
    simp only [recordsOf, diagnosticsOf, filterMap_cons_eq_append, List.append_assoc]

theorem phases_foldl_behind : (ops.foldl .behind c).phases = c.phases ++ advancedTo ops := by
  induction ops generalizing c with
  | nil => simp [advancedTo]
  | cons op ops ih =>
    rw [List.foldl_cons, ih, phases_behind]
    simp only [advancedTo, filterMap_cons_eq_append, List.append_assoc]

/-- A session goes to its end exactly when its phases are the way there. What it leaves is what it
took, less what its ending drops. -/
theorem run_eq_ok_iff {filename : String} {mode : Mode} {e : Ending} {info : DebugInfo}
    {phases : List Phase} :
    run filename mode ops e = .ok (info, phases) ↔
      .idle :: advancedTo ops ++ [e.phase] = e.phase.pathTo ∧
        info = e.left ⟨filename, mode, recordsOf .eventRegistration ops,
          recordsOf .networkFetch ops, diagnosticsOf ops⟩ ∧
        phases = .idle :: advancedTo ops ++ [e.phase] := by
  have hend (c : Course) (a : DebugInfo × List Phase) :
      (c.session.close e >>= fun info => .ok (info, c.phases ++ [e.phase])) = .ok a ↔
        c.session.phase.precedes e.phase ∧
          a = (e.left c.session.info, c.phases ++ [e.phase]) := by
    rw [close_bind_eq_ok_iff, Except.ok.injEq, eq_comm (a := a)]
  rw [← Phase.follow_concat_iff]
  refine (foldlM_apply_bind_eq_ok_iff hend).trans (and_congr_right fun _ => ?_)
  rw [info_foldl_behind, phases_foldl_behind, Prod.mk.injEq]
  rfl

/-! ### What a session leaves -/

/-- The diagnostic says what is known of a parse failure. -/
structure Reports (f : ParseFailure) (d : Diagnostic) : Prop where
  code : d.code = .parseFailure
  severity : d.severity = .error
  message : d.message = f.message
  /-- The place is given when the line and the column are known. -/
  location : ∀ l, d.location = some l ↔ f.line = some l.line ∧ f.column = some l.column
  suggestions : d.suggestions = ["Fix the syntax error before transforming"]

theorem reports_iff {f : ParseFailure} {d : Diagnostic} :
    Reports f d ↔ d = failureDiagnostic f := by
  have hplace (l : Source.Location) : (failureDiagnostic f).location = some l ↔
      f.line = some l.line ∧ f.column = some l.column := by
    unfold failureDiagnostic
    obtain ⟨line, column⟩ := l
    cases f.line <;> cases f.column <;> simp
  constructor
  · rintro ⟨hcode, hseverity, hmessage, hlocation, hsuggestions⟩
    have hloc : d.location = (failureDiagnostic f).location :=
      Option.ext fun l => (hlocation l).trans (hplace l).symm
    cases d
    simp only at hcode hseverity hmessage hloc hsuggestions
    subst hcode hseverity hmessage hloc hsuggestions
    rfl
  · rintro rfl
    exact ⟨rfl, rfl, rfl, hplace, rfl⟩

/-- A session is finished exactly when it has been parsed, matched and generated, and leaves the
records that it took, each in the list of its kind, and its diagnostics, all in their order. A parse
failure ends a session exactly when it was being parsed, and leaves nothing but one report of the
failure. -/
theorem follows_pipeline (filename : String) (mode : Mode) (ops : List Operation) :
    (∀ info phases, run filename mode ops .finish = .ok (info, phases) ↔
      advancedTo ops = [.parsing, .matching, .generating] ∧
        phases = [.idle, .parsing, .matching, .generating, .recorded] ∧
        info = ⟨filename, mode, recordsOf .eventRegistration ops, recordsOf .networkFetch ops,
          diagnosticsOf ops⟩) ∧
      ∀ f info phases, run filename mode ops (.fail f) = .ok (info, phases) ↔
        advancedTo ops = [.parsing] ∧ phases = [.idle, .parsing, .failed] ∧
          ∃ d, info = ⟨filename, mode, [], [], [d]⟩ ∧ Reports f d := by
  have hway (e : Ending) (way : List Phase) (hpath : e.phase.pathTo = .idle :: way ++ [e.phase]) :
      .idle :: advancedTo ops ++ [e.phase] = e.phase.pathTo ↔ advancedTo ops = way := by
    rw [hpath, List.cons_append, List.cons_append, List.cons_inj_right, List.append_left_inj]
  constructor
  · intro info phases
    rw [run_eq_ok_iff, hway .finish [.parsing, .matching, .generating] rfl]
    refine and_congr_right fun hops => ?_
    rw [hops, and_comm]
    rfl
  · intro f info phases
    rw [run_eq_ok_iff, hway (.fail f) [.parsing] rfl]
    refine and_congr_right fun hops => ?_
    rw [hops, and_comm]
    simp only [reports_iff, exists_eq_right]
    rfl

-- what was taken is dropped by a failure
example (d : Diagnostic) (r : CallRecord) (f : ParseFailure) :
    run "a.js" .production [.diagnostic d, .advance .parsing, .record .networkFetch r] (.fail f) =
      .ok (⟨"a.js", .production, [], [], [failureDiagnostic f]⟩, [.idle, .parsing, .failed]) := rfl

end Session

end CallBridge
