import CallBridge.Proofs.Engine.Discarded
import CallBridge.Proofs.Replacement.Standing
import Mathlib.Data.List.Forall2

/-!
# Accounts of a run

A run in production accounts for the calls of its source: a call that some recogniser claims has
one record, a matched call that nothing on the platform stands for has one diagnostic besides, and
a record of a replaced call has one position in the trace. Main statement: this correspondence, and
the order of the records (`run_accounts`).
-/

namespace CallBridge

open Pattern Replacement Script Source

/-! ### Lists -/

/-- What comes from the members that pass a test comes from all, the others giving nothing. -/
theorem flatMap_filter {α β : Type} (p : α → Bool) (f : α → List β) (l : List α) :
    (l.filter p).flatMap f = l.flatMap fun a => if p a then f a else [] := by
  induction l with
  | nil => rfl
  | cons a rest ih =>
    rw [List.filter_cons, List.flatMap_cons, ← ih]
    cases p a with
    | true => rfl
    | false => rfl

/-- Members that give one thing each stand opposite to what they give. -/
theorem forall₂_flatMap {α β : Type} {R : α → β → Prop} {f : α → List β} {l : List α}
    (h : ∀ a ∈ l, ∃ b, f a = [b] ∧ R a b) : List.Forall₂ R l (l.flatMap f) := by
  induction l with
  | nil => exact .nil
  | cons a rest ih =>
    obtain ⟨b, hb, hab⟩ := h a (List.mem_cons_self ..)
    rw [List.flatMap_cons, hb]
    exact .cons hab (ih fun a' ha' => h a' (List.mem_cons_of_mem _ ha'))

/-! ### The records of a run -/

/-- The records under both kinds, each with its kind. -/
def DebugInfo.records (i : DebugInfo) : List (PatternKind × CallRecord) :=
  i.events.map (Prod.mk .eventRegistration) ++ i.apis.map (Prod.mk .networkFetch)

theorem map_ofKind (kind : PatternKind) (records : List (PatternKind × CallRecord)) :
    (ofKind kind records).map (Prod.mk kind) = records.filter fun x => x.1 == kind := by
  rw [ofKind, List.map_map]
  refine (List.map_congr_left fun x hx => ?_).trans (List.map_id _)
  obtain rfl := beq_iff_eq.1 (List.mem_filter.1 hx).2
  rfl

/-- No record of a walk is lost or made on its way to the debug info. -/
theorem records_walkedInfo (r : Request) (log : Log) :
    (walkedInfo r log).records.Perm log.records := by
  have hevents := recordsOf_walkedInfo r log .eventRegistration
  have hapis := recordsOf_walkedInfo r log .networkFetch
  have hother : (fun x : PatternKind × CallRecord => x.1 == .networkFetch) =
      fun x => !(x.1 == .eventRegistration) := by
    funext ⟨kind, _⟩
    cases kind <;> rfl
  simp only [DebugInfo.recordsOf] at hevents hapis
  rw [DebugInfo.records, hevents, hapis, map_ofKind, map_ofKind, hother]
  exact (List.filter_append_perm _ _).trans (List.mergeSort_perm _ _)

/-- The order of the text. -/
def InOrder (a b : CallRecord) : Prop := b.location.before a.location = false

theorem Source.Location.before_trans {a b c : Location} (hab : b.before a = false)
    (hbc : c.before b = false) : c.before a = false := by
  simp only [Location.before, Bool.or_eq_false_iff, Bool.and_eq_false_iff,
    decide_eq_false_iff_not, beq_eq_false_iff_ne] at hab hbc ⊢
  omega

theorem Source.Location.before_total (a b : Location) :
    b.before a = false ∨ a.before b = false := by
  simp only [Location.before, Bool.or_eq_false_iff, Bool.and_eq_false_iff,
    decide_eq_false_iff_not, beq_eq_false_iff_ne]
  omega

/-- The records of a kind are in the order of the text. -/
theorem inOrder_recordsOf (r : Request) (log : Log) (kind : PatternKind) :
    ((walkedInfo r log).recordsOf kind).Pairwise InOrder := by
  have hsorted : (inOrder log.records).Pairwise fun a b => InOrder a.2 b.2 := by
    refine (List.pairwise_mergeSort ?_ ?_ log.records).imp ?_
    · intro a b c hab hbc
      rw [Bool.not_eq_true'] at hab hbc ⊢
      exact Location.before_trans hab hbc
    · intro a b
      rw [Bool.or_eq_true, Bool.not_eq_true', Bool.not_eq_true']
      exact Location.before_total _ _
    · intro a b h
      rwa [Bool.not_eq_true'] at h
  rw [recordsOf_walkedInfo, ofKind, List.pairwise_map]
  exact hsorted.filter _

/-! ### The account of a call -/

@[simp] theorem CallRecord.succeeded_success (web platform : String) (place : Location)
    (applied : Bool) : (success web platform place applied).succeeded = true := rfl

@[simp] theorem CallRecord.succeeded_failure (web platform : String) (place : Location)
    (reason : String) : (failure web platform place reason).succeeded = false := rfl

@[simp] theorem CallRecord.succeeded_withMethod (r : CallRecord) (method : Option String) :
    (r.withMethod method).succeeded = r.succeeded := rfl

section Account

variable (s : Setting)

/-- A record that is one of a call: where the call starts, of what was found there, and under the
platform's name when it succeeded. -/
structure Accounts (c : Call) (x : PatternKind × CallRecord) : Prop where
  location : x.2.location = locate s c
  found : ∀ m, s.matcher.classify c = .matched m →
    x.1 = m.kind ∧ x.2.web = m.webConstruct ∧ x.2.method = m.method?
  platform : x.2.succeeded → platformName? s c = some x.2.platform

/-- The position of a record in a trace. -/
def positionOf (r : CallRecord) : Mapping :=
  ⟨r.location, r.location, r.web ++ "->" ++ r.platform⟩

variable {s}

/-- A plan has one record, whatever has become of it. -/
theorem accounts_planned {c : Call} {m : CallMatch} {name : String} {p : Plan} {r : CallRecord}
    (h : s.matcher.classify c = .matched m) (hname : platformName? s c = some name)
    (hfits : p.Fits m name) (hplace : r.location = locate s c) (hweb : r.web = p.web)
    (hplatform : r.platform = p.platform) (hmethod : r.method = p.method?) :
    Accounts s c (p.kind, r) ∧ r.platform = name := by
  have hr : r.platform = name := hplatform.trans hfits.platform
  refine ⟨⟨hplace, fun m' hm' => ?_, fun _ => ?_⟩, hr⟩
  · obtain rfl := Classification.matched.inj (h.symm.trans hm')
    exact ⟨hfits.kind, hweb.trans hfits.web, hmethod.trans hfits.method⟩
  · rw [hname, hr]

variable (hmode : s.mode = .production) (c : Call)

include hmode

/-- A mapped call has one record, under the platform's name whether it succeeded or not. -/
theorem accounts_mapped {name : String} (h : platformName? s c = some name) :
    ∃ x, (callLog s c).records = [x] ∧ Accounts s c x ∧ x.2.platform = name := by
  rcases callLog_production s hmode c with ⟨hc, -⟩ | ⟨kind, others, hc, -⟩ |
    ⟨m, reason, -, hname, -⟩ | ⟨m, name', p, hc, hname, hfits, hlog⟩
  · simp [platformName?, hc] at h
  · simp [platformName?, hc] at h
  · rw [hname] at h
    cases h
  · obtain rfl := Option.some.inj (hname.symm.trans h)
    rcases hlog with hlog | ⟨problem, hlog⟩
    all_goals
      rw [hlog]
      exact ⟨_, rfl, accounts_planned hc hname hfits rfl rfl rfl rfl⟩

/-- A claimed call that is not mapped has one record, of a failure. -/
theorem accounts_failed (h : isUnsupported s c || isAmbiguous s c) :
    ∃ x, (callLog s c).records = [x] ∧ Accounts s c x ∧ x.2.succeeded = false := by
  rcases callLog_production s hmode c with ⟨hc, -⟩ | ⟨kind, others, hc, hlog⟩ |
    ⟨m, reason, hc, -, hlog⟩ | ⟨m, name, p, hc, hname, -⟩
  · simp [isUnsupported, isAmbiguous, hc] at h
  · rw [hlog]
    refine ⟨_, rfl, ⟨rfl, fun m hm => ?_, nofun⟩, rfl⟩
    rw [hc] at hm
    cases hm
  · rw [hlog]
    refine ⟨_, rfl, ⟨rfl, fun m' hm' => ?_, nofun⟩, rfl⟩
    obtain rfl := Classification.matched.inj (hc.symm.trans hm')
    exact ⟨rfl, rfl, rfl⟩
  · simp [isUnsupported, isAmbiguous, hc, hname] at h

/-- A claimed call has one record. -/
theorem accounts_callLog (h : isRecognized s c) :
    ∃ x, (callLog s c).records = [x] ∧ Accounts s c x := by
  rw [isRecognized_eq, Bool.or_assoc, Bool.or_eq_true] at h
  rcases h with h | h
  · obtain ⟨name, hname⟩ := Option.isSome_iff_exists.1 h
    obtain ⟨x, hx, haccounts, -⟩ := accounts_mapped hmode c hname
    exact ⟨x, hx, haccounts⟩
  · obtain ⟨x, hx, haccounts, -⟩ := accounts_failed hmode c h
    exact ⟨x, hx, haccounts⟩

/-- A call that nobody claims has no record. -/
theorem records_of_not_recognized (h : isRecognized s c = false) : (callLog s c).records = [] := by
  rcases callLog_production s hmode c with ⟨-, hlog⟩ | ⟨kind, others, hc, -⟩ |
    ⟨m, reason, hc, -⟩ | ⟨m, name, p, hc, -⟩
  · rw [hlog]
    rfl
  all_goals simp [isRecognized, hc] at h

/-- A call has a diagnostic of an unsupported construct if it is one, and one only. -/
theorem unsupported_callLog :
    ((callLog s c).diagnostics.filter fun d => d.code == .unsupportedConstruct).map (·.location) =
      if isUnsupported s c then [some (locate s c)] else [] := by
  have hdiscarded (p : Plan) :
      ((discardedDiagnostics (locate s c) p).filter fun d => d.code == .unsupportedConstruct) =
        [] := by
    unfold discardedDiagnostics
    split <;> rfl
  rcases callLog_production s hmode c with ⟨hc, hlog⟩ | ⟨kind, others, hc, hlog⟩ |
    ⟨m, reason, hc, hname, hlog⟩ | ⟨m, name, p, hc, hname, -, hlog | ⟨problem, hlog⟩⟩
  · simp [hlog, isUnsupported, hc, Log.empty]
  · simp [hlog, isUnsupported, hc, ambiguousLog]
  · simp [hlog, isUnsupported, hc, hname, unsupportedLog]
  · simp [hlog, isUnsupported, hc, hname, appliedLog, hdiscarded]
  · simp [hlog, isUnsupported, hc, hname, failedLog, Log.ofRecord]

/-- A call has the positions of its applied records. -/
theorem mappings_callLog :
    (callLog s c).mappings =
      ((callLog s c).records.filter fun x => x.2.applied).map fun x => positionOf x.2 := by
  rcases callLog_production s hmode c with ⟨-, hlog⟩ | ⟨kind, others, -, hlog⟩ |
    ⟨m, reason, -, -, hlog⟩ | ⟨m, name, p, -, -, -, hlog | ⟨problem, hlog⟩⟩
  all_goals
    rw [hlog]
    rfl

end Account

/-! ### The accounts of a run -/

namespace Engine

variable (e : Engine) (r : Request) (program : Program)

/-- The records of a run are those that its walk leaves behind at each call. -/
theorem records_complete :
    (e.complete r program).info.records.Perm
      ((callsOf program.tree).flatMap fun c => (callLog (e.setting r) c).records) :=
  (records_walkedInfo r _).trans (walk_perm_calls _ .records program.tree)

/-- So are its positions. -/
theorem mappings_complete :
    (e.complete r program).mappings.Perm
      ((callsOf program.tree).flatMap fun c => (callLog (e.setting r) c).mappings) :=
  walk_perm_calls _ .mappings program.tree

/-- Its diagnostics of a code that the check never gives are those of the walk. -/
theorem diagnostics_complete {code : DiagnosticCode} (hcode : code ≠ .validationWarning) :
    ((e.complete r program).recorded.errors.filter fun d => d.code == code).Perm
      ((callsOf program.tree).flatMap fun c =>
        (callLog (e.setting r) c).diagnostics.filter fun d => d.code == code) := by
  have hfindings :
      ((e.complete r program).findings.filter fun d => d.code == code) = [] := by
    rw [List.filter_eq_nil_iff]
    intro d hd hd'
    exact hcode ((beq_iff_eq.1 hd').symm.trans (code_of_check hd))
  have herrors : (e.complete r program).recorded.errors =
      (walk (e.setting r) program.tree).2.diagnostics ++ (e.complete r program).findings := by
    rw [← errors_walkedInfo r]
    rfl
  rw [herrors, List.filter_append, hfindings, List.append_nil, ← List.filter_flatMap]
  exact (walk_perm_calls _ .diagnostics program.tree).filter _

section Production

variable (hmode : (e.setting r).mode = .production)

include hmode

/-- Each claimed call has one record, and there are no others. -/
theorem accounts_complete :
    ∃ records, (e.complete r program).info.records.Perm records ∧
      List.Forall₂ (Accounts (e.setting r))
        ((callsOf program.tree).filter (isRecognized (e.setting r))) records := by
  refine ⟨_, ?_, forall₂_flatMap fun c hc => accounts_callLog hmode c (List.mem_filter.1 hc).2⟩
  rw [flatMap_filter]
  refine (e.records_complete r program).trans (List.Perm.of_eq (List.flatMap_congr fun c _ => ?_))
  cases h : isRecognized (e.setting r) c with
  | true => rfl
  | false => exact records_of_not_recognized hmode c h

/-- Each call that nothing stands for has one diagnostic that says so, and there are no others. -/
theorem unsupported_complete :
    (((e.complete r program).recorded.errors.filter
        fun d => d.code == .unsupportedConstruct).map (·.location)).Perm
      (((callsOf program.tree).filter (isUnsupported (e.setting r))).map
        fun c => some (locate (e.setting r) c)) := by
  have hcode : DiagnosticCode.unsupportedConstruct ≠ .validationWarning := nofun
  refine ((e.diagnostics_complete r program hcode).map _).trans (List.Perm.of_eq ?_)
  rw [List.map_flatMap, List.map_eq_flatMap (l := List.filter _ _), flatMap_filter]
  exact List.flatMap_congr fun c _ => unsupported_callLog hmode c

/-- Each applied record has one position, and there are no others. -/
theorem positions_complete :
    (e.complete r program).mappings.Perm
      (((e.complete r program).info.records.filter fun x => x.2.applied).map
        fun x => positionOf x.2) := by
  have hrecords := ((e.records_complete r program).filter fun x => x.2.applied).map
    fun x => positionOf x.2
  refine ((e.mappings_complete r program).trans (List.Perm.of_eq ?_)).trans hrecords.symm
  rw [List.filter_flatMap, List.map_flatMap]
  exact List.flatMap_congr fun c _ => mappings_callLog hmode c

end Production

end Engine

/-- A run in production over a source that parses ends, and accounts for the calls of the source:
those that are claimed have one record each, in the order of the text; those that nothing on the
platform stands for have one diagnostic each; the records of replaced calls have one position
each. -/
theorem run_accounts (e : Engine) {r : Request} (hr : r.mode = .production) {program : Program}
    (hparse : parseScript (.ofFilename r.filename) r.source = .ok program) :
    let s := e.setting r
    let calls := callsOf program.tree
    ∃ c, e.run r = .ok c ∧
      (∃ records, c.info.records.Perm records ∧
        List.Forall₂ (Accounts s) (calls.filter (isRecognized s)) records) ∧
      c.info.events.Pairwise InOrder ∧ c.info.apis.Pairwise InOrder ∧
      ((c.recorded.errors.filter fun d => d.code == .unsupportedConstruct).map (·.location)).Perm
        ((calls.filter (isUnsupported s)).map fun call => some (locate s call)) ∧
      ∀ timing, (traceOf timing r c).mappings.Perm
        ((c.info.records.filter fun x => x.2.applied).map fun x => positionOf x.2) := by
  intro s calls
  have hmode : s.mode = .production := hr
  refine ⟨e.complete r program, Engine.run_eq_ok_iff.2 ⟨program, hparse, rfl⟩,
    e.accounts_complete r program hmode, ?_, ?_, e.unsupported_complete r program hmode,
    fun _ => e.positions_complete r program hmode⟩
  · exact inOrder_recordsOf r _ .eventRegistration
  · exact inOrder_recordsOf r _ .networkFetch

/-- A request in a handler, one whose method is not known, and one behind an optional link. -/
def mixedRequest : Request :=
  ⟨"document.addEventListener('DOMContentLoaded', () => fetch('/api/records'));\n" ++
    "fetch('/api/records', \x7bmethod: m\x7d);\nfetch?.('/api/records');", "page.js", .production,
    false⟩

theorem run_accounts_mixed :
    ∃ e program c, Engine.ofConfig .standard .standard = .ok e ∧
      mixedRequest.mode = .production ∧
      parseScript (.ofFilename mixedRequest.filename) mixedRequest.source = .ok program ∧
      e.run mixedRequest = .ok c ∧ c.info.records.length = 3 ∧
      (c.recorded.errors.filter fun d => d.code == .unsupportedConstruct).map (·.location) =
        [some ⟨2, 0⟩] := by
  obtain ⟨e, he⟩ := Engine.exists_standard
  obtain ⟨program, hparse, hboth⟩ := exists_program_of_any
    (.ofFilename mixedRequest.filename) mixedRequest.source
    (toList_append_eq String.toList_ofList String.toList_ofList)
    (p := fun cs program =>
      let s := settingOf .standard .standard .production cs
      decide (((callsOf program.tree).filter (isRecognized s)).length = 3 ∧
        (((callsOf program.tree).filter (isUnsupported s)).map fun call => some (locate s call)) =
          [some ⟨2, 0⟩])) (by decide +kernel)
  obtain ⟨hthree, hplace⟩ := of_decide_eq_true hboth
  have hs := Engine.setting_of_ofConfig he mixedRequest
  have hmode : mixedRequest.mode = .production := rfl
  obtain ⟨c, hrun, ⟨records, hperm, haccounts⟩, -, -, hunsupported, -⟩ :=
    run_accounts e hmode hparse
  rw [hs] at haccounts hunsupported
  refine ⟨e, program, c, he, hmode, hparse, hrun, ?_, ?_⟩
  · rw [hperm.length_eq, ← haccounts.length_eq]
    exact hthree
  · rw [hmode, hplace] at hunsupported
    exact List.perm_singleton.1 hunsupported

end CallBridge
