import CallBridge.Proofs.Engine.Run

/-!
# Reports of what is left out

A replacement has no place for some parts of a call. A run reports a registration with arguments
behind its handler (`reports_iff`) and nothing else: what a request leaves out goes unreported
unless such a registration starts at the same place. Main statement: on which runs all that is left
out is reported (`reports_all_iff`).
-/

namespace CallBridge

open Pattern Replacement Script Source

/-- A call that is replaced leaves something out besides its callee, its first argument and the
method: an argument behind the handler or the options, an option that is neither the method nor the
body, an argument of `JSON.stringify` behind the value. -/
def LeavesOut (c : Call) : Plan → Prop
  | .event e _ => e.handlerIndex + 1 < c.arguments.length
  | .fetch f _ _ =>
    2 < c.arguments.length ∨
      (∃ es, c.options = .entries es ∧ ∃ entry ∈ es, entry.1 ≠ "method" ∧ entry.1 ≠ "body") ∨
      (f.body = .stringified ∧ ∃ body call, c.option? "body" = some body ∧
        Call.ofTree? body.unparen = some call ∧ 1 < call.arguments.length)

/-- The recorded debug info says that something was left out at a place. -/
def Reports (i : DebugInfo) (place : Location) : Prop :=
  ∃ d ∈ i.errors, d.code = .discardedArguments ∧ d.location = some place

/-! ### Diagnostics of a walk -/

section Walk

variable (s : Setting)

/-- What is left behind at once says nothing about what is left out. -/
theorem code_of_prepare {c : Call} {d : Diagnostic} (h : d ∈ (prepare s c).1.diagnostics) :
    d.code ≠ .discardedArguments := by
  unfold prepare at h
  simp only at h
  split at h
  · cases h
  · obtain rfl := List.mem_singleton.1 h
    exact nofun
  · split at h
    · obtain rfl := List.mem_singleton.1 h
      exact nofun
    · cases h
  · split at h <;> cases h

theorem mem_discardedDiagnostics {place : Location} {p : Plan} {d : Diagnostic}
    (h : d ∈ discardedDiagnostics place p) : p.discarded ≠ 0 ∧ d.location = some place := by
  unfold discardedDiagnostics at h
  split at h
  · cases h
  · next hp =>
    obtain rfl := List.mem_singleton.1 h
    exact ⟨hp, rfl⟩

/-- A plan that leaves arguments out says so when it is carried out. -/
theorem exists_discardedDiagnostics (place : Location) {p : Plan} (h : p.discarded ≠ 0) :
    ∃ d ∈ discardedDiagnostics place p, d.code = .discardedArguments ∧ d.location = some place := by
  unfold discardedDiagnostics
  rw [if_neg h]
  exact ⟨_, List.mem_singleton_self _, rfl, rfl⟩

/-- A walk says that something was left out where it has carried out a plan that leaves arguments
out. -/
theorem walk_discarded_iff (t : Tree) (place : Location) :
    (∃ d ∈ (walk s t).2.diagnostics, d.code = .discardedArguments ∧ d.location = some place) ↔
      ∃ c p, (c, p) ∈ rewrites s t ∧ p.discarded ≠ 0 ∧ locate s c = place := by
  constructor
  · rintro ⟨d, hd, hcode, hplace⟩
    obtain ⟨u, hu, hdu⟩ := List.mem_flatMap.1 ((walk_perm s .diagnostics t).mem_iff.1 hd)
    unfold ownLog at hdu
    cases hc : Call.ofTree? u with
    | none =>
      rw [hc] at hdu
      cases hdu
    | some c =>
      rw [hc] at hdu
      simp only [LogPart.diagnostics.append, List.mem_append] at hdu
      rcases hdu with hdu | hdu
      · exact absurd hcode (code_of_prepare s hdu)
      · unfold fateLog at hdu
        cases hfate : fate s c with
        | kept => rw [hfate] at hdu; cases hdu
        | replaced p new =>
          rw [hfate] at hdu
          obtain ⟨hdiscarded, hlocation⟩ := mem_discardedDiagnostics hdu
          refine ⟨c, p, (mem_rewrites s).2 ⟨u, hu, (rewrite?_eq_some_iff s).2 ⟨hc, new, hfate⟩⟩,
            hdiscarded, ?_⟩
          exact Option.some.inj (hlocation.symm.trans hplace)
        | failed p problem => rw [hfate] at hdu; cases hdu
  · rintro ⟨c, p, hmem, hdiscarded, rfl⟩
    obtain ⟨u, hu, hrewrite⟩ := (mem_rewrites s).1 hmem
    obtain ⟨hc, new, hfate⟩ := (rewrite?_eq_some_iff s).1 hrewrite
    obtain ⟨d, hd, hcode, hplace⟩ := exists_discardedDiagnostics (locate s c) hdiscarded
    refine ⟨d, (walk_perm s .diagnostics t).mem_iff.2 (List.mem_flatMap.2 ⟨u, hu, ?_⟩), hcode,
      hplace⟩
    have hown : (ownLog s u).diagnostics =
        (prepare s c).1.diagnostics ++ discardedDiagnostics (locate s c) p := by
      simp only [ownLog, hc, LogPart.diagnostics.append, fateLog, hfate, appliedLog]
    rw [hown]
    exact List.mem_append_right _ hd

end Walk

/-- The check of an output finds nothing about what was left out. -/
theorem code_of_check {config : Config} {mode : Mode} {source generated : String} {d : Diagnostic}
    (h : d ∈ Marker.check config mode source generated) : d.code = .validationWarning := by
  cases mode with
  | development =>
    unfold Marker.check Marker.checkDevelopment at h
    simp only at h
    split at h
    · cases h
    · obtain rfl := List.mem_singleton.1 h
      rfl
  | production =>
    have hone : ∀ {p : Prop} [Decidable p] {x : Diagnostic}, d ∈ (if p then [x] else []) →
        d = x := by
      intro p _ x hx
      split at hx
      · exact List.mem_singleton.1 hx
      · cases hx
    simp only [Marker.check, Marker.checkProduction, List.mem_append] at h
    rcases h with ((h | h) | h) | h
    · rw [hone h]; rfl
    · rw [hone h]; rfl
    · rw [hone h]; rfl
    · obtain ⟨i, -, rfl⟩ := List.mem_map.1 h
      rfl

/-! ### Reports of a run -/

section Run

variable {registry : Registry} {config : Config} {e : Engine}
  (he : Engine.ofConfig registry config = .ok e) (r : Request) (program : Program)

include he

/-- A plan leaves arguments out when it is for a registration with more than two. -/
theorem discarded_ne_zero_iff {c : Call} {p : Plan}
    (h : (c, p) ∈ rewrites (e.setting r) program.tree) :
    p.discarded ≠ 0 ↔ (∃ ev m, p = .event ev m) ∧ 2 < c.arguments.length := by
  have hjudge := judge_of_mem_rewrites _ h
  rw [Engine.setting_of_ofConfig he r] at hjudge
  cases p with
  | event ev m =>
    obtain ⟨-, hdiscarded⟩ := registration_of_judge hjudge
    have hcount : (Plan.event ev m).discarded = c.arguments.length - 2 := hdiscarded
    rw [hcount]
    constructor
    · intro hne
      exact ⟨⟨ev, m, rfl⟩, by omega⟩
    · rintro ⟨-, hlength⟩
      omega
  | fetch f method m =>
    constructor
    · intro hne
      exact absurd rfl hne
    · rintro ⟨⟨ev, m', hp⟩, -⟩
      cases hp

/-- A run reports a registration with arguments behind its handler, and nothing else. -/
theorem reports_iff (place : Location) :
    Reports (e.complete r program).recorded place ↔
      ∃ c ev m, (c, Plan.event ev m) ∈ rewrites (e.setting r) program.tree ∧
        2 < c.arguments.length ∧ locate (e.setting r) c = place := by
  have herrors : (e.complete r program).recorded.errors =
      (walk (e.setting r) program.tree).2.diagnostics ++ (e.complete r program).findings := by
    have hinfo := errors_walkedInfo r (walk (e.setting r) program.tree).2
    rw [← hinfo]
    rfl
  have hwalk : Reports (e.complete r program).recorded place ↔
      ∃ d ∈ (walk (e.setting r) program.tree).2.diagnostics,
        d.code = .discardedArguments ∧ d.location = some place := by
    unfold Reports
    rw [herrors]
    constructor
    · rintro ⟨d, hd, hcode, hplace⟩
      rcases List.mem_append.1 hd with hd | hd
      · exact ⟨d, hd, hcode, hplace⟩
      · rw [code_of_check hd] at hcode
        cases hcode
    · rintro ⟨d, hd, hcode, hplace⟩
      exact ⟨d, List.mem_append_left _ hd, hcode, hplace⟩
  rw [hwalk, walk_discarded_iff]
  constructor
  · rintro ⟨c, p, hmem, hdiscarded, hplace⟩
    obtain ⟨⟨ev, m, rfl⟩, hlength⟩ := (discarded_ne_zero_iff he r program hmem).1 hdiscarded
    exact ⟨c, ev, m, hmem, hlength, hplace⟩
  · rintro ⟨c, ev, m, hmem, hlength, hplace⟩
    exact ⟨c, _, hmem, (discarded_ne_zero_iff he r program hmem).2 ⟨⟨ev, m, rfl⟩, hlength⟩, hplace⟩

/-- A run reports all that it leaves out exactly when every request that leaves something out starts
where a registration with arguments behind its handler starts; what a registration leaves out is
always reported. -/
theorem reports_all_iff :
    (∀ place, Reports (e.complete r program).recorded place ↔
      ∃ c ev m, (c, Plan.event ev m) ∈ rewrites (e.setting r) program.tree ∧
        2 < c.arguments.length ∧ locate (e.setting r) c = place) ∧
    ((∀ c p, (c, p) ∈ rewrites (e.setting r) program.tree → LeavesOut c p →
        Reports (e.complete r program).recorded (locate (e.setting r) c)) ↔
      ∀ c f method m, (c, Plan.fetch f method m) ∈ rewrites (e.setting r) program.tree →
        LeavesOut c (.fetch f method m) →
        ∃ c' ev m', (c', Plan.event ev m') ∈ rewrites (e.setting r) program.tree ∧
          2 < c'.arguments.length ∧ locate (e.setting r) c' = locate (e.setting r) c) := by
  refine ⟨reports_iff he r program, fun h c f method m hmem hlost => ?_, fun h c p hmem hlost => ?_⟩
  · exact (reports_iff he r program _).1 (h c _ hmem hlost)
  · refine (reports_iff he r program _).2 ?_
    cases p with
    | event ev m =>
      have hjudge := judge_of_mem_rewrites _ hmem
      rw [Engine.setting_of_ofConfig he r] at hjudge
      have hlength : ev.handlerIndex + 1 < c.arguments.length := hlost
      rw [(registration_of_judge hjudge).1] at hlength
      exact ⟨c, ev, m, hmem, hlength, rfl⟩
    | fetch f method m => exact h c f method m hmem hlost

end Run

/-- A registration with listener options, which have no place on the platform. -/
def optionsRequest : Request :=
  ⟨"document.addEventListener('DOMContentLoaded', h, {once: true});", "page.js", .production,
    false⟩

theorem reports_all_iff_options :
    ∃ e program, Engine.ofConfig .standard .standard = .ok e ∧
      parseScript (.ofFilename optionsRequest.filename) optionsRequest.source = .ok program ∧
      Reports (e.complete optionsRequest program).recorded ⟨1, 0⟩ := by
  obtain ⟨e, he⟩ := Engine.exists_standard
  obtain ⟨program, hparse, hany⟩ := exists_program_of_any
    (.ofFilename optionsRequest.filename) optionsRequest.source String.toList_ofList
    (p := fun cs program =>
      let s := settingOf .standard .standard .production cs
      (rewrites s program.tree).any fun x => x.2.kind == .eventRegistration &&
        decide (2 < x.1.arguments.length) && decide (locate s x.1 = ⟨1, 0⟩)) (by decide +kernel)
  have hs := Engine.setting_of_ofConfig he optionsRequest
  obtain ⟨⟨c, p⟩, hmem, hc⟩ := List.any_eq_true.1 hany
  simp only [Bool.and_eq_true, beq_iff_eq, decide_eq_true_eq] at hc
  obtain ⟨⟨hkind, hlength⟩, hplace⟩ := hc
  refine ⟨e, program, he, hparse, ((reports_all_iff he optionsRequest program).1 _).2 ?_⟩
  rw [hs]
  cases p with
  | event ev m => exact ⟨c, ev, m, hmem, hlength, hplace⟩
  | fetch f method m => cases hkind

/-- A request with an option that has no place on the platform. -/
def headersRequest : Request :=
  ⟨"fetch('/api/records', {headers: h});", "page.js", .production, false⟩

/-- Whether options have one that is neither the method nor the body. -/
def hasOther : Pattern.Options → Bool
  | .entries es => es.any fun entry => entry.1 != "method" && entry.1 != "body"
  | _ => false

/-- The option is left out, and nothing says so. -/
theorem headers_unreported :
    ∃ e program c p, Engine.ofConfig .standard .standard = .ok e ∧
      parseScript (.ofFilename headersRequest.filename) headersRequest.source = .ok program ∧
      (c, p) ∈ rewrites (e.setting headersRequest) program.tree ∧ LeavesOut c p ∧
      ¬ Reports (e.complete headersRequest program).recorded
        (locate (e.setting headersRequest) c) := by
  obtain ⟨e, he⟩ := Engine.exists_standard
  obtain ⟨program, hparse, hboth⟩ := exists_program_of_any
    (.ofFilename headersRequest.filename) headersRequest.source String.toList_ofList
    (p := fun cs program =>
      let s := settingOf .standard .standard .production cs
      ((rewrites s program.tree).any fun x => hasOther x.1.options) &&
        (rewrites s program.tree).all fun x => x.2.kind == .networkFetch) (by decide +kernel)
  have hs := Engine.setting_of_ofConfig he headersRequest
  obtain ⟨hany, hall⟩ := Bool.and_eq_true_iff.1 hboth
  obtain ⟨⟨c, p⟩, hmem, hc⟩ := List.any_eq_true.1 hany
  have hfetch := List.all_eq_true.1 hall
  refine ⟨e, program, c, p, he, hparse, by rw [hs]; exact hmem, ?_, ?_⟩
  · cases p with
    | event ev m => cases hfetch _ hmem
    | fetch f method m =>
      simp only at hc
      unfold hasOther at hc
      split at hc
      · next es hes =>
        obtain ⟨entry, hentry, hkeys⟩ := List.any_eq_true.1 hc
        simp only [Bool.and_eq_true, bne_iff_ne, ne_eq] at hkeys
        exact Or.inr (Or.inl ⟨es, hes, entry, hentry, hkeys⟩)
      · cases hc
  · rw [reports_iff he headersRequest program]
    rintro ⟨c', ev, m, hmem', -⟩
    rw [hs] at hmem'
    cases hfetch _ hmem'

end CallBridge
