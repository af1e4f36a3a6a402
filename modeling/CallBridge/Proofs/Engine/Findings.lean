import CallBridge.Proofs.Engine.Placements
import CallBridge.Proofs.Marker.Reported
import CallBridge.Proofs.Replacement.Shaped
import CallBridge.Proofs.Script.Printing.Paths
import CallBridge.Proofs.Script.Shape.Scripts

/-!
# Findings in production

The check looks for calls of the platform in the text of an output, where the walk has put them into
its tree. It finds a call that is printed, unless a point is right in front of it; and so a call
behind the points of a spread is missed. Main statement: a call that the walk has built keeps the
check from reporting that there is none of its kind, wherever it is visible (`findings_of_visible`).
-/

namespace CallBridge

open Pattern Replacement Script Script.Printer Source

/-! ### Built calls -/

/-- The calls that a walk builds for calls of a tree, with the kinds of these. -/
def built (s : Setting) (t : Tree) : List (PatternKind × Tree) :=
  t.subtrees.filterMap fun u => (rewrite? s u).map fun x => (x.2.kind, output s u)

theorem mem_built {s : Setting} {t new : Tree} {kind : PatternKind} :
    (kind, new) ∈ built s t ↔
      ∃ u ∈ t.subtrees, ∃ c p, Call.ofTree? u = some c ∧ fate s c = .replaced p new ∧
        p.kind = kind := by
  simp only [built, List.mem_filterMap, Option.map_eq_some_iff, Prod.exists, Prod.mk.injEq]
  refine exists_congr fun u => and_congr_right fun _ => ?_
  refine exists_congr fun c => exists_congr fun p => ?_
  constructor
  · rintro ⟨hrewrite, rfl, rfl⟩
    obtain ⟨hc, new, hfate⟩ := (rewrite?_eq_some_iff s).1 hrewrite
    exact ⟨hc, by rw [output_of_fate hc hfate, hfate], rfl⟩
  · rintro ⟨hc, hfate, rfl⟩
    exact ⟨(rewrite?_eq_some_iff s).2 ⟨hc, new, hfate⟩, rfl, output_of_fate hc hfate⟩

section Standard

variable {registry : Registry} {source : List Char} {t : Tree} {c : Call} {p : Plan} {new : Tree}

/-- A call that is built is found under the name that it has on the platform. -/
theorem found_of_fate (hc : Call.ofTree? t = some c)
    (h : fate (settingOf registry .standard .production source) c = .replaced p new) :
    Found (Counted (p.platformCall .standard).toList) new := by
  have hfetch : "JSON.stringify" ∉ Config.standard.fetchCallees := by decide
  have hevent : "JSON.stringify" ∉ Config.standard.eventCallees := by decide
  have hfirst : "kintone".toList ≠ [] := by decide
  have hjudge := ((prepare_eq_some_iff _).1 ((fate_eq_replaced_iff _).1 h).1).2
  rw [← output_of_fate hc h]
  cases p with
  | event e m =>
    obtain ⟨handler, hhandler⟩ := handler_of_judge hjudge
    have hname : (Plan.event e m).platformCall .standard = "kintone.events.on" := rfl
    have htext : "kintone.events.on".toList = pathText "kintone" ["events", "on"] := by decide
    rw [output_registration rfl hevent hfetch hc hjudge hhandler, hname, htext]
    exact found_of_path hfirst _ _ _ _
  | fetch f method m =>
    obtain ⟨body, hbody⟩ := bodyExpression?_bodyOf c
    rw [← (request_of_judge hjudge).2] at hbody
    have hname : (Plan.fetch f method m).platformCall .standard = "kintone.api" := rfl
    have htext : "kintone.api".toList = pathText "kintone" ["api"] := by decide
    rw [output_request rfl hevent hfetch hc hjudge hbody, hname, htext]
    exact found_of_path hfirst _ _ _ _

/-- A built call that is visible in the output is counted in its text. -/
theorem countFunctions_pos (ht : WellShaped t) {u : Tree} (hc : Call.ofTree? u = some c)
    (h : fate (settingOf registry .standard .production source) c = .replaced p new)
    (hmem : new ∈ visible (output (settingOf registry .standard .production source) t) none)
    (comments : List Comment) :
    0 < Marker.countFunctions [p.platformCall .standard]
      ((output (settingOf registry .standard .production source) t).print comments).text := by
  have hshaped : WellShaped (output (settingOf registry .standard .production source) t) :=
    wellShaped_output rfl (by decide) (by decide) ht
  have hname : (p.platformCall .standard).toList ∈
      Marker.markerNames [p.platformCall .standard] := by
    have hnames : ∀ name ∈ ["kintone.events.on", "kintone.api"],
        name.toList ∈ Marker.markerNames [name] := by decide
    exact hnames _ (by cases p <;> simp [Plan.platformCall, PlatformCalls.standard])
  exact countCalls_print_pos (found_of_fate hc h) hshaped hmem comments hname

/-- A call of the platform that is counted leaves nothing of its kind to be missed. -/
theorem not_reported {original generated : String}
    (h : 0 < Marker.countFunctions [p.platformCall .standard] generated) :
    let found := Marker.checkProduction .standard original generated
    Marker.noCalls ∉ found ∧
      (p.kind = .eventRegistration → ∀ n, Marker.lostEvents n ∉ found) ∧
      (p.kind = .networkFetch → ∀ n, Marker.lostFetches n ∉ found) := by
  cases p with
  | event _ _ =>
    have hcount : 0 < Marker.countPlatformEvents .standard generated := h
    refine ⟨fun hmem => ?_, fun _ n hmem => ?_, nofun⟩
    · exact hcount.ne' (Marker.noCalls_mem_checkProduction_iff.1 hmem).1
    · exact hcount.ne' (Marker.count_of_lostEvents hmem)
  | fetch _ _ _ =>
    have hcount : 0 < Marker.countPlatformApis .standard generated := h
    refine ⟨fun hmem => ?_, nofun, fun _ n hmem => ?_⟩
    · exact hcount.ne' (Marker.noCalls_mem_checkProduction_iff.1 hmem).2
    · exact hcount.ne' (Marker.count_of_lostFetches hmem)

end Standard

/-! ### Findings -/

/-- Under the standard configuration, a call that is built in the place of a call and has no points
directly in front of it keeps the check from reporting that there is no call of the platform, and
none of its kind. -/
theorem findings_of_visible {registry : Registry} {e : Engine}
    (he : Engine.ofConfig registry .standard = .ok e) {r : Request} (hr : r.mode = .production)
    {program : Program} (hparse : parseScript (.ofFilename r.filename) r.source = .ok program) :
    ∃ c, e.run r = .ok c ∧
      ∀ kind new, (kind, new) ∈ built (e.setting r) program.tree →
        new ∈ visible (walk (e.setting r) program.tree).1 none →
        Marker.noCalls ∉ c.findings ∧
        (kind = .eventRegistration → ∀ n, Marker.lostEvents n ∉ c.findings) ∧
        (kind = .networkFetch → ∀ n, Marker.lostFetches n ∉ c.findings) := by
  refine ⟨e.complete r program, Engine.run_eq_ok_iff.2 ⟨program, hparse, rfl⟩, ?_⟩
  intro kind new hbuilt hvisible
  obtain ⟨u, -, c, p, hc, hfate, rfl⟩ := mem_built.1 hbuilt
  have hs := Engine.setting_of_ofConfig he r
  rw [hr] at hs
  have hpos : 0 < Marker.countFunctions [p.platformCall .standard]
      (e.complete r program).result.generatedText := by
    rw [hs] at hfate
    have hcount := countFunctions_pos (wellShaped_of_parseScript hparse) hc hfate (hs ▸ hvisible)
      program.comments
    rw [← hs] at hcount
    exact hcount
  have hfindings : (e.complete r program).findings =
      Marker.check e.config r.mode r.source (e.complete r program).result.generatedText := rfl
  rw [hfindings, Engine.config_of_ofConfig he, hr]
  exact not_reported hpos

/-- A request behind the points of a spread, and one in an array behind them. -/
def spreadRequests : Request :=
  ⟨"f(...fetch('/api/records'), ...[fetch('/api/record')]);", "page.js", .production, false⟩

theorem findings_of_visible_inArray :
    ∃ e program c new, Engine.ofConfig .standard .standard = .ok e ∧
      parseScript (.ofFilename spreadRequests.filename) spreadRequests.source = .ok program ∧
      e.run spreadRequests = .ok c ∧
      (.networkFetch, new) ∈ built (e.setting spreadRequests) program.tree ∧
      new ∈ visible (walk (e.setting spreadRequests) program.tree).1 none ∧
      Marker.noCalls ∉ c.findings ∧ ∀ n, Marker.lostFetches n ∉ c.findings := by
  obtain ⟨e, he⟩ := Engine.exists_standard
  obtain ⟨program, hparse, hvisible⟩ := exists_program_of_any
    (.ofFilename spreadRequests.filename) spreadRequests.source String.toList_ofList
    (p := fun cs program =>
      let s := settingOf .standard .standard .production cs
      (built s program.tree).any fun b =>
        decide (b.1 = .networkFetch ∧ b.2 ∈ visible (walk s program.tree).1 none))
    (by decide +kernel)
  obtain ⟨⟨kind, new⟩, hbuilt, hnew⟩ := List.any_eq_true.1 hvisible
  obtain ⟨rfl, hmem⟩ := of_decide_eq_true hnew
  have hs : e.setting spreadRequests =
      settingOf .standard .standard .production spreadRequests.source.toList :=
    Engine.setting_of_ofConfig he spreadRequests
  rw [← hs] at hbuilt hmem
  obtain ⟨c, hrun, hfindings⟩ := findings_of_visible he (r := spreadRequests) rfl hparse
  obtain ⟨hcalls, -, hfetches⟩ := hfindings _ new hbuilt hmem
  exact ⟨e, program, c, new, he, hparse, hrun, hbuilt, hmem, hcalls, hfetches rfl⟩

/-- A request behind the points of a spread, and one that stays as it is. -/
def hiddenRequest : Request :=
  ⟨"f(...fetch('/api/records'));\nfetch(url);", "page.js", .production, false⟩

/-- The output has a call of the platform, but it is reported to have none, and to have lost one. -/
theorem hidden_request_reported :
    ∃ e program c new, Engine.ofConfig .standard .standard = .ok e ∧
      parseScript (.ofFilename hiddenRequest.filename) hiddenRequest.source = .ok program ∧
      e.run hiddenRequest = .ok c ∧
      (.networkFetch, new) ∈ built (e.setting hiddenRequest) program.tree ∧
      new ∈ (walk (e.setting hiddenRequest) program.tree).1.subtrees ∧
      Marker.noCalls ∈ c.findings ∧ Marker.lostFetches 1 ∈ c.findings := by
  obtain ⟨e, he⟩ := Engine.exists_standard
  have hsource : hiddenRequest.source.toList = _ := String.toList_ofList
  obtain ⟨program, hparse, hreported⟩ := exists_ok_of_any
    (x := parseScript (.ofFilename hiddenRequest.filename) hiddenRequest.source)
    (p := fun program =>
      let s := settingOf .standard .standard .production hiddenRequest.source.toList
      let found := standardText hiddenRequest program
      decide (Marker.countPlatformEvents .standard found = 0 ∧
        Marker.countPlatformApis .standard found = 0) &&
        (built s program.tree).any fun b =>
          decide (b.1 = .networkFetch ∧ b.2 ∈ (walk s program.tree).1.subtrees))
    (by
    simp only [parseScript_of_toList hsource, standardText, Marker.countPlatformEvents,
      Marker.countPlatformApis, Marker.countFunctions, Tree.print, String.toList_ofList, hsource]
    decide +kernel)
  obtain ⟨hfound, hbuilt⟩ := Bool.and_eq_true_iff.1 hreported
  obtain ⟨⟨kind, new⟩, hbuilt, hnew⟩ := List.any_eq_true.1 hbuilt
  obtain ⟨rfl, hmem⟩ := of_decide_eq_true hnew
  have hs : e.setting hiddenRequest =
      settingOf .standard .standard .production hiddenRequest.source.toList :=
    Engine.setting_of_ofConfig he hiddenRequest
  rw [← hs] at hbuilt hmem
  have hfindings : (e.complete hiddenRequest program).findings =
      Marker.check .standard .production hiddenRequest.source
        (standardText hiddenRequest program) := by
    rw [← generatedText_eq_standardText he rfl, ← Engine.config_of_ofConfig he]
    rfl
  have hzero := of_decide_eq_true hfound
  refine ⟨e, program, _, new, he, hparse, Engine.run_eq_ok_iff.2 ⟨program, hparse, rfl⟩, hbuilt,
    hmem, ?_, ?_⟩
  · rw [hfindings]
    exact Marker.noCalls_mem_checkProduction_iff.2 hzero
  · rw [hfindings, Marker.lostFetches_mem_check_iff]
    exact ⟨⟨rfl, hzero.2⟩, by decide, by decide +kernel⟩

end CallBridge
