import CallBridge.Proofs.Config.Validity
import CallBridge.Proofs.Pattern.Recognition

/-!
# Calls of two kinds

A call is claimed twice only when one dotted name is a callee of events and of fetches: a
registration on a selected element has a call in its callee, so no fetch claims it. Main statement:
a valid configuration, which keeps its callees apart, leaves no call with two meanings
(`classify_ne_ambiguous`).
-/

namespace CallBridge.Pattern

open Script

variable {config : Config} {c : Call}

/-- A fetch has a dotted name that is a callee of fetches. -/
theorem recognizeFetch_eq_none
    (h : ∀ path ∈ config.fetchCallees, calleePath? c.callee ≠ some path) :
    recognizeFetch config c = none := by
  by_contra hne
  obtain ⟨m, hm⟩ := Option.ne_none_iff_exists'.1 hne
  obtain ⟨path, _, hpath, hmem, -⟩ := recognizeFetch_eq_some_iff.1 hm
  exact h path hmem hpath

/-- No fetch claims a call whose callee is a member of a selected element. -/
theorem recognizeFetch_of_scoped (h : (scopedRegistration? config c.callee).isSome) :
    recognizeFetch config c = none := by
  obtain ⟨r, hr⟩ := Option.isSome_iff_exists.1 h
  refine recognizeFetch_eq_none fun path _ hpath => ?_
  rw [calleePath?_of_scopedRegistration hr] at hpath
  cases hpath

/-- When a call has two meanings, whether the configuration is valid or not: its dotted name is a
callee of both kinds, and its arguments are those of both. -/
theorem classify_eq_ambiguous_iff {kinds : List PatternKind} :
    (Matcher.ofConfig config).classify c = .ambiguous kinds ↔
      kinds = [.eventRegistration, .networkFetch] ∧
      (∃ path, calleePath? c.callee = some path ∧ path ∈ config.eventCallees ∧
        path ∈ config.fetchCallees) ∧
      (∃ url, c.literalArgument? 0 = some url ∧ isAllowed config url) ∧
      (c.argument? 1).isSome := by
  rw [classify_ofConfig]
  constructor
  · intro h
    cases he : recognizeEvent config c with
    | none => cases hf : recognizeFetch config c <;> simp [he, hf] at h
    | some m =>
      cases hf : recognizeFetch config c with
      | none => simp [he, hf] at h
      | some m' =>
        simp only [he, hf, Classification.ambiguous.injEq] at h
        obtain ⟨callee, selector, _, handler, hregistration, -, hhandler, -⟩ :=
          recognizeEvent_eq_some_iff.1 he
        obtain ⟨path, url, hpath, hfetch, hurl, hallowed, -⟩ := recognizeFetch_eq_some_iff.1 hf
        rcases registration?_eq_some hregistration with ⟨hcallee, hevent⟩ | ⟨r, hr⟩
        · obtain rfl := Option.some.inj (hpath.symm.trans hcallee)
          exact ⟨h.symm, ⟨path, hpath, hevent, hfetch⟩, ⟨url, hurl, hallowed⟩,
            by rw [hhandler]; rfl⟩
        · rw [recognizeFetch_of_scoped (Option.isSome_iff_exists.2 ⟨r, hr⟩)] at hf
          cases hf
  · rintro ⟨rfl, ⟨path, hpath, hevent, hfetch⟩, ⟨url, hurl, hallowed⟩, hhandler⟩
    have he : (recognizeEvent config c).isSome :=
      isSome_recognizeEvent_iff.2 ⟨isSome_registration?_iff.2 (Or.inl ⟨path, hevent, hpath⟩),
        by rw [hurl]; rfl, hhandler⟩
    obtain ⟨m, hm⟩ := Option.isSome_iff_exists.1 he
    rw [hm, recognizeFetch_eq_some_iff.2 ⟨path, url, hpath, hfetch, hurl, hallowed, rfl⟩]

/-- Under a valid configuration no call has two meanings. What names a callee of events and what
registers on a selected element, whatever its arguments are, is claimed by no fetch. -/
theorem classify_ne_ambiguous (hvalid : config.isValid) (c : Call) :
    (∀ kinds, (Matcher.ofConfig config).classify c ≠ .ambiguous kinds) ∧
    (∀ path ∈ config.eventCallees, calleePath? c.callee = some path →
      recognizeFetch config c = none) ∧
    ((scopedRegistration? config c.callee).isSome → recognizeFetch config c = none) := by
  have hapart : ∀ name ∈ config.fetchCallees, name ∉ config.eventCallees :=
    (Config.isValid_iff.1 hvalid).1
  refine ⟨fun kinds h => ?_, fun path hevent hpath => ?_, recognizeFetch_of_scoped⟩
  · obtain ⟨-, ⟨path, -, hevent, hfetch⟩, -⟩ := classify_eq_ambiguous_iff.1 h
    exact hapart path hfetch hevent
  · refine recognizeFetch_eq_none fun path' hfetch hpath' => ?_
    obtain rfl := Option.some.inj (hpath.symm.trans hpath')
    exact hapart path hfetch hevent

/-- A configuration in which an element registers a handler under the name of a fetch. -/
def fetchingConfig : Config :=
  { Config.standard with eventCallees := ["window.fetch"] }

/-- The registration of a handler on a selected element, under that name. -/
def fetchingCall : Call :=
  let leaf (k : Kind) : Tree := .node k Span.none []
  let query : Tree := .node (.call false) Span.none
    [.node (.member "querySelector" false) Span.none [leaf (.reference "document")],
      leaf (.string ⟨"#list", false⟩)]
  ⟨Span.none, .node (.member "fetch" false) Span.none [query],
    [leaf (.string ⟨"/api/records", false⟩), leaf (.reference "h")]⟩

theorem classify_ne_ambiguous_fetching :
    fetchingConfig.isValid ∧
      (Matcher.ofConfig fetchingConfig).classify fetchingCall =
        .matched (.event ⟨"fetch", "/api/records", some "#list", 1, 0⟩) ∧
      (∀ kinds, (Matcher.ofConfig fetchingConfig).classify fetchingCall ≠ .ambiguous kinds) ∧
      recognizeFetch fetchingConfig fetchingCall = none := by
  have hvalid : fetchingConfig.isValid := by decide +kernel
  have hscoped : (scopedRegistration? fetchingConfig fetchingCall.callee).isSome := by
    decide +kernel
  obtain ⟨hclassify, -, hfetch⟩ := classify_ne_ambiguous hvalid fetchingCall
  exact ⟨hvalid, by decide +kernel, hclassify, hfetch hscoped⟩

end CallBridge.Pattern
