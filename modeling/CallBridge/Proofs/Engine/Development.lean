import CallBridge.Proofs.Engine.Accounting
import CallBridge.Proofs.Pattern.Ambiguity

/-!
# Runs in development

A run in development leaves the tree as it is and records what a run in production over the same
source would find: the mapped calls, as successes that are not applied, and the calls with several
claims. What a run in production records besides are failures of calls that nothing on the platform
stands for. Main statement: this comparison of the two runs (`development_run`).
-/

namespace CallBridge

open Pattern Replacement Script Source

namespace Replacement

/-- The same setting, with the calls left in place. -/
def Setting.inDevelopment (s : Setting) : Setting := { s with mode := .development }

variable (s : Setting)

/-- No plan is carried out in development, so the tree stays. -/
theorem output_inDevelopment (t : Tree) : output s.inDevelopment t = t := by
  induction t with
  | node k span cs ih =>
    rcases walk_cases s.inDevelopment k span cs with ⟨c, p, new, -, hfate, -⟩ | ⟨-, hout⟩
    · obtain ⟨hprepare, -⟩ := (fate_eq_replaced_iff _).1 hfate
      obtain ⟨hreplaces, -⟩ := (prepare_eq_some_iff _).1 hprepare
      cases hreplaces
    · have hsame : cs.map (output s.inDevelopment) = cs :=
        (List.map_congr_left ih).trans (List.map_id _)
      rw [hout, hsame]

/-- A call is judged alike in both modes, so what is left behind in development is, by where the
call stands, nothing, what is left behind in production too, or the record of a match. -/
theorem callLog_inDevelopment (c : Call) :
    (s.matcher.classify c = .irrelevant ∧ callLog s.inDevelopment c = .empty) ∨
    (∃ kind others, s.matcher.classify c = .ambiguous (kind :: others) ∧
      callLog s.inDevelopment c = ambiguousLog (locate s c) c (kind :: others) ∧
      callLog s c = ambiguousLog (locate s c) c (kind :: others)) ∨
    (∃ m, s.matcher.classify c = .matched m ∧ platformName? s c = none ∧
      callLog s.inDevelopment c = .empty) ∨
    ∃ m name p, s.matcher.classify c = .matched m ∧ platformName? s c = some name ∧
      judge s c = .planned p ∧ callLog s.inDevelopment c = matchedLog (locate s c) p := by
  have hjudge : judge s.inDevelopment c = judge s c := rfl
  rcases judge_cases s c with ⟨hc, h⟩ | ⟨kinds, hc, h⟩ | ⟨m, reason, hc, hname, h⟩ |
    ⟨m, name, p, hc, hname, -, h⟩
  · exact Or.inl ⟨hc, callLog_of_ignored (hjudge.trans h)⟩
  · obtain ⟨kind, others, rfl⟩ := Matcher.kinds_of_classify hc
    exact Or.inr (Or.inl ⟨kind, others, hc, callLog_of_ambiguous (hjudge.trans h),
      callLog_of_ambiguous h⟩)
  · exact Or.inr (Or.inr (Or.inl ⟨m, hc, hname, callLog_of_unsupported (hjudge.trans h)⟩))
  · exact Or.inr (Or.inr (Or.inr ⟨m, name, p, hc, hname, h,
      callLog_of_matched rfl (hjudge.trans h)⟩))

/-- What is left behind in development is not applied and has no positions. -/
theorem callLog_inDevelopment_unapplied (c : Call) :
    (∀ x ∈ (callLog s.inDevelopment c).records, x.2.applied = false) ∧
      (callLog s.inDevelopment c).mappings = [] := by
  rcases callLog_inDevelopment s c with ⟨-, hlog⟩ | ⟨kind, others, -, hlog, -⟩ |
    ⟨m, -, -, hlog⟩ | ⟨m, name, p, -, -, -, hlog⟩
  all_goals
    rw [hlog]
    refine ⟨fun x hx => ?_, rfl⟩
  · cases hx
  · rw [List.mem_singleton.1 hx]
    rfl
  · cases hx
  · rw [List.mem_singleton.1 hx]
    rfl

end Replacement

/-! ### What two runs agree on -/

/-- What a record says of its call, whatever has become of it. -/
def subjectOf (x : PatternKind × CallRecord) :
    PatternKind × String × String × Location × Option String :=
  (x.1, x.2.web, x.2.platform, x.2.location, x.2.method)

section Calls

variable {s : Setting} (c : Call)

/-- In development a call with several claims fails, and no other. -/
theorem failures_inDevelopment :
    ((callLog s.inDevelopment c).records.filter fun x => !x.2.succeeded) =
      if isAmbiguous s c then (callLog s c).records else [] := by
  rcases callLog_inDevelopment s c with ⟨hc, hlog⟩ | ⟨kind, others, hc, hlog, hlog'⟩ |
    ⟨m, hc, -, hlog⟩ | ⟨m, name, p, hc, -, -, hlog⟩
  · simp [hlog, isAmbiguous, hc, Log.empty]
  · simp [hlog, hlog', isAmbiguous, hc, ambiguousLog]
  · simp [hlog, isAmbiguous, hc, Log.empty]
  · simp [hlog, isAmbiguous, hc, matchedLog, Log.ofRecord]

variable (hmode : s.mode = .production)

include hmode

/-- In development a mapped call succeeds, and no other, with the subject that its record has in
production. -/
theorem successes_inDevelopment :
    ((callLog s.inDevelopment c).records.filter fun x => x.2.succeeded).map subjectOf =
      if isMapped s c then (callLog s c).records.map subjectOf else [] := by
  rcases callLog_inDevelopment s c with ⟨hc, hlog⟩ | ⟨kind, others, hc, hlog, -⟩ |
    ⟨m, hc, hname, hlog⟩ | ⟨m, name, p, hc, hname, hjudge, hlog⟩
  · simp [hlog, isMapped, platformName?, hc, Log.empty]
  · simp [hlog, isMapped, platformName?, hc, ambiguousLog]
  · simp [hlog, isMapped, hname, Log.empty]
  · have hmapped : isMapped s c = true := by rw [isMapped, hname]; rfl
    rw [hlog, hmapped, if_pos rfl]
    rcases callLog_of_planned hmode hjudge with hlog' | ⟨problem, hlog'⟩
    all_goals
      rw [hlog']
      rfl

/-- The record of a call is one of a mapped call, of one that nothing stands for, or of one with
several claims. -/
theorem records_split :
    (callLog s c).records =
      (if isMapped s c then (callLog s c).records else []) ++
        (if isUnsupported s c then (callLog s c).records else []) ++
          if isAmbiguous s c then (callLog s c).records else [] := by
  rcases callLog_production s hmode c with ⟨-, hlog⟩ | ⟨kind, others, hc, -⟩ |
    ⟨m, reason, hc, hname, -⟩ | ⟨m, name, p, hc, hname, -⟩
  · simp [hlog, Log.empty]
  · simp [isMapped, isUnsupported, isAmbiguous, platformName?, hc]
  · simp [isMapped, isUnsupported, isAmbiguous, hc, hname]
  · simp [isMapped, isUnsupported, isAmbiguous, hc, hname]

end Calls

/-! ### The two runs -/

/-- A run that has left its program as it is and applied nothing. -/
structure Untouched (s : Setting) (program : Program) (c : Completion) : Prop where
  tree : (walk s program.tree).1 = program.tree
  text : c.result.generatedText = (program.tree.print program.comments).text
  mappings : c.mappings = []
  unapplied : ∀ x ∈ c.info.records, x.2.applied = false

/-- Records by where their calls stand: those of mapped calls, which name what the calls are mapped
to, those of calls that nothing on the platform stands for, and those of calls with several claims,
which are failures. -/
structure Parted (s : Setting) (calls : List Call)
    (records mapped unsupported ambiguous : List (PatternKind × CallRecord)) : Prop where
  all : records.Perm (mapped ++ unsupported ++ ambiguous)
  mapped : List.Forall₂ (fun c x => Accounts s c x ∧ platformName? s c = some x.2.platform)
    (calls.filter (isMapped s)) mapped
  unsupported : List.Forall₂ (fun c x => Accounts s c x ∧ x.2.succeeded = false)
    (calls.filter (isUnsupported s)) unsupported
  ambiguous : List.Forall₂ (fun c x => Accounts s c x ∧ x.2.succeeded = false)
    (calls.filter (isAmbiguous s)) ambiguous

/-- The records that a walk leaves behind at some calls of a tree. -/
def recordsWhere (s : Setting) (p : Call → Bool) (t : Tree) : List (PatternKind × CallRecord) :=
  ((callsOf t).filter p).flatMap fun c => (callLog s c).records

namespace Engine

variable {e : Engine} {r : Request} (program : Program)

theorem untouched_complete (hmode : r.mode = .development) :
    Untouched (e.setting r) program (e.complete r program) := by
  have hsetting : (e.setting r).inDevelopment = e.setting r := by
    rw [Setting.inDevelopment, ← hmode]
    rfl
  have htree : (walk (e.setting r) program.tree).1 = program.tree := by
    rw [← hsetting]
    exact output_inDevelopment _ program.tree
  have hunapplied (c : Call) : (∀ x ∈ (callLog (e.setting r) c).records, x.2.applied = false) ∧
      (callLog (e.setting r) c).mappings = [] := by
    rw [← hsetting]
    exact callLog_inDevelopment_unapplied _ c
  refine ⟨htree, ?_, ?_, fun x hx => ?_⟩
  · have htext : (e.complete r program).result.generatedText =
        ((walk (e.setting r) program.tree).1.print program.comments).text := rfl
    rw [htext, htree]
  · have hnone : ((callsOf program.tree).flatMap fun c => (callLog (e.setting r) c).mappings) =
        [] := List.flatMap_eq_nil_iff.2 fun c _ => (hunapplied c).2
    have hmappings := e.mappings_complete r program
    rw [hnone] at hmappings
    exact hmappings.eq_nil
  · obtain ⟨c, -, hxc⟩ := List.mem_flatMap.1 ((e.records_complete r program).mem_iff.1 hx)
    exact (hunapplied c).1 x hxc

theorem parted_complete (hmode : (e.setting r).mode = .production) :
    Parted (e.setting r) (callsOf program.tree) (e.complete r program).info.records
      (recordsWhere (e.setting r) (isMapped (e.setting r)) program.tree)
      (recordsWhere (e.setting r) (isUnsupported (e.setting r)) program.tree)
      (recordsWhere (e.setting r) (isAmbiguous (e.setting r)) program.tree) where
  all := by
    simp only [recordsWhere, flatMap_filter]
    refine (e.records_complete r program).trans (List.Perm.trans (List.Perm.of_eq ?_)
      ((List.flatMap_append_perm _ _ _).symm.trans
        ((List.flatMap_append_perm _ _ _).symm.append_right _)))
    exact List.flatMap_congr fun c _ => records_split c hmode
  mapped := by
    refine forall₂_flatMap fun c hc => ?_
    obtain ⟨name, hname⟩ := Option.isSome_iff_exists.1 (List.mem_filter.1 hc).2
    obtain ⟨x, hx, haccounts, hplatform⟩ := accounts_mapped hmode c hname
    exact ⟨x, hx, haccounts, by rw [hname, hplatform]⟩
  unsupported := by
    refine forall₂_flatMap fun c hc => accounts_failed hmode c ?_
    rw [(List.mem_filter.1 hc).2, Bool.true_or]
  ambiguous := by
    refine forall₂_flatMap fun c hc => accounts_failed hmode c ?_
    rw [(List.mem_filter.1 hc).2, Bool.or_true]

/-- An engine with the matcher of its configuration meets no call with several claims. -/
theorem isAmbiguous_eq_false (h : e.matcher = .ofConfig e.config) (c : Call) :
    isAmbiguous (e.setting r) c = false := by
  unfold isAmbiguous
  split
  · next kinds hkinds =>
    have hclassify : (Matcher.ofConfig e.config).classify c = .ambiguous kinds := by
      rw [← h]
      exact hkinds
    obtain ⟨-, ⟨path, -, hevent, hfetch⟩, -⟩ := classify_eq_ambiguous_iff.1 hclassify
    exact absurd hevent ((Config.isValid_iff.1 e.valid).1 path hfetch)
  · rfl

end Engine

/-- The two runs over a source that parses. In development the tree stays as it is, nothing is
applied and nothing has a position. The records in production are those of the mapped calls, those
of calls that nothing on the platform stands for, and those of calls with several claims. In
development the mapped calls succeed, with the same subjects, the calls with several claims fail
with the same records, and there are no other records. An engine with the matcher of its
configuration meets no call with several claims. -/
theorem development_run (e : Engine) (r : Request) {program : Program}
    (hparse : parseScript (.ofFilename r.filename) r.source = .ok program) :
    let inDevelopment : Request := { r with mode := .development }
    let inProduction : Request := { r with mode := .production }
    let s := e.setting inProduction
    ∃ dev prod mapped unsupported ambiguous,
      e.run inDevelopment = .ok dev ∧ e.run inProduction = .ok prod ∧
      Untouched (e.setting inDevelopment) program dev ∧
      Parted s (callsOf program.tree) prod.info.records mapped unsupported ambiguous ∧
      ((dev.info.records.filter fun x => x.2.succeeded).map subjectOf).Perm
        (mapped.map subjectOf) ∧
      (dev.info.records.filter fun x => !x.2.succeeded).Perm ambiguous ∧
      (e.matcher = .ofConfig e.config → ambiguous = []) := by
  intro inDevelopment inProduction s
  have hmode : s.mode = .production := rfl
  have hdev : (e.complete inDevelopment program).info.records.Perm
      ((callsOf program.tree).flatMap fun c => (callLog s.inDevelopment c).records) :=
    e.records_complete inDevelopment program
  refine ⟨e.complete inDevelopment program, e.complete inProduction program,
    recordsWhere s (isMapped s) program.tree, recordsWhere s (isUnsupported s) program.tree,
    recordsWhere s (isAmbiguous s) program.tree,
    Engine.run_eq_ok_iff.2 ⟨program, hparse, rfl⟩, Engine.run_eq_ok_iff.2 ⟨program, hparse, rfl⟩,
    Engine.untouched_complete program rfl, Engine.parted_complete program hmode, ?_, ?_, ?_⟩
  · refine ((hdev.filter _).map _).trans (List.Perm.of_eq ?_)
    rw [recordsWhere, List.filter_flatMap, List.map_flatMap, List.map_flatMap, flatMap_filter]
    exact List.flatMap_congr fun c _ => successes_inDevelopment c hmode
  · refine (hdev.filter _).trans (List.Perm.of_eq ?_)
    rw [recordsWhere, List.filter_flatMap, flatMap_filter]
    exact List.flatMap_congr fun c _ => failures_inDevelopment c
  · intro hmatcher
    have hnone : (callsOf program.tree).filter (isAmbiguous s) = [] := by
      rw [List.filter_eq_nil_iff]
      intro c _
      rw [Engine.isAmbiguous_eq_false hmatcher c]
      exact Bool.false_ne_true
    rw [recordsWhere, hnone, List.flatMap_nil]

/-- A mapped registration around a request without a mapping, and a request whose method is not
known. -/
def partlyMapped : Request :=
  ⟨"document.addEventListener('DOMContentLoaded', () => fetch('/missing'));\n" ++
    "fetch('/api/records', \x7bmethod: m\x7d);", "page.js", .development, false⟩

theorem development_run_partlyMapped :
    ∃ e program dev prod, Engine.ofConfig .standard .standard = .ok e ∧
      parseScript (.ofFilename partlyMapped.filename) partlyMapped.source = .ok program ∧
      e.run { partlyMapped with mode := .development } = .ok dev ∧
      e.run { partlyMapped with mode := .production } = .ok prod ∧
      dev.result.generatedText = (program.tree.print program.comments).text ∧
      (dev.info.records.filter fun x => x.2.succeeded).length = 1 ∧
      prod.info.records.length = 3 := by
  obtain ⟨e, he⟩ := Engine.exists_standard
  obtain ⟨program, hparse, hcounts⟩ := exists_program_of_any
    (.ofFilename partlyMapped.filename) partlyMapped.source
    (toList_append_eq String.toList_ofList String.toList_ofList)
    (p := fun cs program =>
      let s := settingOf .standard .standard .production cs
      let calls := callsOf program.tree
      decide ((calls.filter (isMapped s)).length = 1 ∧
        (calls.filter (isUnsupported s)).length = 2 ∧
        (calls.filter (isAmbiguous s)).length = 0)) (by decide +kernel)
  obtain ⟨hmapped, hunsupported, hambiguous⟩ := of_decide_eq_true hcounts
  have hs := Engine.setting_of_ofConfig he { partlyMapped with mode := .production }
  obtain ⟨dev, prod, mapped, unsupported, ambiguous, hdev, hprod, huntouched, hparted, hsuccesses,
    -, -⟩ := development_run e partlyMapped hparse
  rw [hs] at hparted
  have hone : mapped.length = 1 := hparted.mapped.length_eq.symm.trans hmapped
  have htwo : unsupported.length = 2 := hparted.unsupported.length_eq.symm.trans hunsupported
  have hzero : ambiguous.length = 0 := hparted.ambiguous.length_eq.symm.trans hambiguous
  refine ⟨e, program, dev, prod, he, hparse, hdev, hprod, huntouched.text, ?_, ?_⟩
  · have hlength := hsuccesses.length_eq
    rw [List.length_map, List.length_map, hone] at hlength
    exact hlength
  · rw [hparted.all.length_eq, List.length_append, List.length_append, hone, htwo, hzero]

end CallBridge
