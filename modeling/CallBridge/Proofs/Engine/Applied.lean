import CallBridge.Proofs.Engine.Run
import CallBridge.Proofs.Replacement.Settled
import CallBridge.Proofs.Replacement.Survivors

/-!
# Applied records and platform calls

A run records every replaced call as applied, also one that stands in a part that a call around it
leaves out. Main statement: under the standard configuration and registry the platform calls in an
output are the surviving replaced calls and the calls of handlers that are platform calls themselves
(`platform_calls_standard`).
-/

namespace CallBridge.Replacement

open Pattern Script Source

variable (s : Setting)

/-- Whether a node is a call that a plan of a kind replaces. -/
def rewrittenAs (kind : PatternKind) (t : Tree) : Bool :=
  (rewrite? s t).any fun found => found.2.kind == kind

/-- Whether a node is replaced and its handler is itself of a name. -/
def wrapsNamed (name : String) (t : Tree) : Bool :=
  (rewrite? s t).any fun found => found.2.handlerNamed name found.1

/-- A record of a call that has been replaced. -/
def isApplied (r : CallRecord) : Bool := r.succeeded && r.applied

/-! ### Counting -/

theorem countP_flatMap_of_one {α β : Type} {p : β → Bool} {q : α → Bool} {f : α → List β}
    {l : List α} (h : ∀ a ∈ l, (f a).countP p = if q a then 1 else 0) :
    (l.flatMap f).countP p = l.countP q := by
  induction l with
  | nil => rfl
  | cons a rest ih =>
    rw [List.flatMap_cons, List.countP_append, List.countP_cons, h a (List.mem_cons_self ..),
      ih fun b hb => h b (List.mem_cons_of_mem _ hb), Nat.add_comm]

theorem sum_map_of_two {α : Type} {p q : α → Bool} {w : α → Nat} {l : List α}
    (h : ∀ a ∈ l, w a = (if p a then 1 else 0) + if q a then 1 else 0) :
    (l.map w).sum = l.countP p + l.countP q := by
  induction l with
  | nil => rfl
  | cons a rest ih =>
    rw [List.map_cons, List.sum_cons, List.countP_cons, List.countP_cons,
      h a (List.mem_cons_self ..), ih fun b hb => h b (List.mem_cons_of_mem _ hb)]
    omega

/-! ### Applied records -/

/-- A node leaves behind one applied record if it is replaced, and none otherwise. -/
theorem countP_ownLog (hmode : s.mode = .production) (kind : PatternKind) (t : Tree) :
    (ownLog s t).records.countP (fun x => x.1 == kind && isApplied x.2) =
      if rewrittenAs s kind t then 1 else 0 := by
  unfold ownLog rewrittenAs rewrite?
  cases Call.ofTree? t with
  | none => rfl
  | some c =>
    rw [Option.bind_some]
    have hprepare : (prepare s c).1.records.countP (fun x => x.1 == kind && isApplied x.2) = 0 :=
      List.countP_eq_zero.2 fun x hx => by simp [isApplied, (prepare_log hmode c).1 x hx]
    simp only [LogPart.records.append, List.countP_append, hprepare, Nat.zero_add]
    unfold fateLog
    cases fate s c with
    | kept => rfl
    | replaced p new =>
      simp [appliedLog, isApplied, CallRecord.succeeded, CallRecord.success, CallRecord.withMethod,
        List.countP_singleton]
    | failed p problem =>
      simp [failedLog, Log.ofRecord, isApplied, CallRecord.failure, CallRecord.withMethod]

/-- The applied records of a kind are as many as the calls that are replaced. -/
theorem countP_applied (hmode : s.mode = .production) (r : Request) (kind : PatternKind)
    (t : Tree) :
    ((walkedInfo r (walk s t).2).recordsOf kind).countP isApplied =
      t.subtrees.countP (rewrittenAs s kind) := by
  rw [countP_recordsOf, (walk_perm s .records t).countP_eq]
  exact countP_flatMap_of_one fun u _ => countP_ownLog s hmode kind u

/-! ### Platform calls -/

/-- Where the source has no call of a name, a surviving node stands for one as a replaced call of
that name and for one as the wrapper of a handler of that name. -/
theorem weight_of_no_call {name : String} {kind : PatternKind} {t u : Tree}
    (hkind : ∀ p : Plan, p.platformCall s.platform = name ↔ p.kind = kind)
    (hno : callsTo name t = 0) (hu : u ∈ t.subtrees) :
    weight s name u =
      (if rewrittenAs s kind u then 1 else 0) + if wrapsNamed s name u then 1 else 0 := by
  unfold weight rewrittenAs wrapsNamed
  cases rewrite? s u with
  | some found =>
    simp only [Option.any_some, beq_iff_eq, hkind]
  | none =>
    have hzero : (Call.ofTree? u).any (isCallTo name) = false := by
      cases hc : Call.ofTree? u with
      | none => rfl
      | some c => exact (callsWhere_eq_zero_iff (isCallTo name)).1 hno u hu c hc
    rw [hzero]
    rfl

/-- The platform calls of an output under the standard configuration and registry. -/
theorem callsTo_output_standard {source : List Char} {name : String} {kind : PatternKind}
    {t : Tree} (hname : name ≠ "JSON.parse")
    (hkind : ∀ p : Plan, p.platformCall Config.standard.platform = name ↔ p.kind = kind)
    (hno : callsTo name t = 0) :
    callsTo name (output (settingOf .standard .standard .production source) t) =
      (survivors (settingOf .standard .standard .production source) t).countP
          (rewrittenAs (settingOf .standard .standard .production source) kind) +
        (survivors (settingOf .standard .standard .production source) t).countP
          (wrapsNamed (settingOf .standard .standard .production source) name) := by
  have hbody : ∀ m ∈ Registry.standard.apis, CarriesOnce m := fun m hm =>
    ApiCatalogue.carriesOnce_of_mem_all (Registry.mem_apis_standard hm)
  rw [callsTo_output clear_standard.dotted clear_standard.apart (List.mem_cons_self ..) hbody hname]
  refine sum_map_of_two fun u hu => ?_
  exact weight_of_no_call _ hkind hno ((survivors_sublist _ t).subset hu)

/-- Every run in production over a source without platform calls. Its output has the surviving
replaced calls and, besides them, the calls of wrapped handlers that are platform calls themselves;
its records count every replaced call as applied, whether it survives or not. -/
theorem platform_calls_standard {e : Engine} (he : Engine.ofConfig .standard .standard = .ok e)
    {r : Request} (hr : r.mode = .production) (program : Program)
    (hevents : callsTo "kintone.events.on" program.tree = 0)
    (hapis : callsTo "kintone.api" program.tree = 0) :
    let s := e.setting r
    let info := (e.complete r program).info
    (callsTo "kintone.events.on" (walk s program.tree).1 =
      (survivors s program.tree).countP (rewrittenAs s .eventRegistration) +
        (survivors s program.tree).countP (wrapsNamed s "kintone.events.on")) ∧
    (callsTo "kintone.api" (walk s program.tree).1 =
      (survivors s program.tree).countP (rewrittenAs s .networkFetch) +
        (survivors s program.tree).countP (wrapsNamed s "kintone.api")) ∧
    info.events.countP isApplied =
      program.tree.subtrees.countP (rewrittenAs s .eventRegistration) ∧
    info.apis.countP isApplied = program.tree.subtrees.countP (rewrittenAs s .networkFetch) ∧
    (survivors s program.tree).Sublist program.tree.subtrees := by
  intro s info
  have hs : s = settingOf .standard .standard .production r.source.toList := by
    rw [← hr]
    exact Engine.setting_of_ofConfig he r
  have hmode : s.mode = .production := by rw [hs]; rfl
  refine ⟨?_, ?_, ?_, ?_, survivors_sublist s program.tree⟩
  · rw [hs]
    refine callsTo_output_standard (by decide) (fun p => ?_) hevents
    cases p <;> simp [Plan.platformCall, Plan.kind, Config.standard, PlatformCalls.standard]
  · rw [hs]
    refine callsTo_output_standard (by decide) (fun p => ?_) hapis
    cases p <;> simp [Plan.platformCall, Plan.kind, Config.standard, PlatformCalls.standard]
  · exact countP_applied s hmode r .eventRegistration program.tree
  · exact countP_applied s hmode r .networkFetch program.tree

/-- A registration with a request in a place that the platform call has none for. -/
def nestedRequest : Request :=
  ⟨"document.addEventListener('DOMContentLoaded', h, fetch('/api/records'));", "page.js",
    .production, false⟩

/-- No call of the platform is in the source, and none is left of the request that is replaced. -/
theorem parseScript_nestedRequest :
    let s := settingOf .standard .standard .production nestedRequest.source.toList
    ∃ program,
      parseScript (.ofFilename nestedRequest.filename) nestedRequest.source = .ok program ∧
      callsTo "kintone.events.on" program.tree = 0 ∧ callsTo "kintone.api" program.tree = 0 ∧
      callsTo "kintone.api" (walk s program.tree).1 = 0 ∧
      program.tree.subtrees.countP (rewrittenAs s .networkFetch) = 1 := by
  intro s
  obtain ⟨program, hparse, hcalls⟩ := exists_program_of_any
    (.ofFilename nestedRequest.filename) nestedRequest.source String.toList_ofList
    (p := fun cs program =>
      let s := settingOf .standard .standard .production cs
      decide (callsTo "kintone.events.on" program.tree = 0 ∧
        callsTo "kintone.api" program.tree = 0 ∧
        callsTo "kintone.api" (walk s program.tree).1 = 0 ∧
        program.tree.subtrees.countP (rewrittenAs s .networkFetch) = 1)) (by decide +kernel)
  exact ⟨program, hparse, of_decide_eq_true hcalls⟩

theorem platform_calls_standard_nested :
    ∃ e program, Engine.ofConfig .standard .standard = .ok e ∧
      parseScript (.ofFilename nestedRequest.filename) nestedRequest.source = .ok program ∧
      callsTo "kintone.events.on" program.tree = 0 ∧ callsTo "kintone.api" program.tree = 0 ∧
      callsTo "kintone.api" (walk (e.setting nestedRequest) program.tree).1 =
        (survivors (e.setting nestedRequest) program.tree).countP
            (rewrittenAs (e.setting nestedRequest) .networkFetch) +
          (survivors (e.setting nestedRequest) program.tree).countP
            (wrapsNamed (e.setting nestedRequest) "kintone.api") := by
  obtain ⟨e, he⟩ := Engine.exists_standard
  obtain ⟨program, hparse, hevents, hapis, -, -⟩ := parseScript_nestedRequest
  exact ⟨e, program, he, hparse, hevents, hapis,
    (platform_calls_standard he rfl program hevents hapis).2.1⟩

/-- The request is recorded as applied, and the output has no call for it. -/
theorem dropped_request_recorded :
    ∃ e program, Engine.ofConfig .standard .standard = .ok e ∧
      parseScript (.ofFilename nestedRequest.filename) nestedRequest.source = .ok program ∧
      callsTo "kintone.events.on" program.tree = 0 ∧ callsTo "kintone.api" program.tree = 0 ∧
      callsTo "kintone.api" (walk (e.setting nestedRequest) program.tree).1 = 0 ∧
      (e.complete nestedRequest program).info.apis.countP isApplied = 1 := by
  obtain ⟨e, he⟩ := Engine.exists_standard
  obtain ⟨program, hparse, hevents, hapis, hlost, hone⟩ := parseScript_nestedRequest
  have hs : e.setting nestedRequest =
      settingOf .standard .standard .production nestedRequest.source.toList :=
    Engine.setting_of_ofConfig he nestedRequest
  refine ⟨e, program, he, hparse, hevents, hapis, by rw [hs]; exact hlost, ?_⟩
  rw [← hone, ← hs]
  exact countP_applied _ rfl nestedRequest .networkFetch program.tree

end CallBridge.Replacement
