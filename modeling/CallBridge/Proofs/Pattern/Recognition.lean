import CallBridge.Proofs.Pattern.Outline

/-!
# What is recognised

Each recogniser claims a call exactly when its callee is one of the configured ones and its
arguments can be read (`recognizeEvent_eq_some_iff`, `recognizeFetch_eq_some_iff`). A call that a
matcher of a configuration takes for something is claimed by the recogniser of that kind.
-/

namespace CallBridge.Pattern

open Script

variable {config : Config} {c : Call}

/-! ### Events -/

/-- A registration on a selected element has a call in its callee, hence no dotted name. -/
theorem calleePath?_of_scopedRegistration {t : Tree} {r : String × String}
    (h : scopedRegistration? config t = some r) : calleePath? t = none := by
  rw [← calleePath?_unparen]
  unfold scopedRegistration? at h
  split at h
  · next method optional span object heq =>
    rw [heq, calleePath?_member]
    split at h
    · simp at h
    · obtain ⟨query, hquery, -⟩ := Option.bind_eq_some_iff.1 h
      rw [← calleePath?_unparen object, calleePath?_of_call hquery]
      rfl
  · simp at h

/-- A registration names a configured callee, or selects an element and has no dotted name. -/
theorem registration?_eq_some {t : Tree} {callee : String} {selector : Option String}
    (h : registration? config t = some (callee, selector)) :
    (calleePath? t = some callee ∧ callee ∈ config.eventCallees) ∨
      ∃ r, scopedRegistration? config t = some r := by
  unfold registration? at h
  split at h
  · next path hpath =>
    obtain ⟨rfl, -⟩ := Prod.mk.inj (Option.some.inj h)
    obtain ⟨hp, hmem⟩ := Option.filter_eq_some_iff.1 hpath
    exact Or.inl ⟨hp, List.contains_iff_mem.1 hmem⟩
  · obtain ⟨r, hr, -⟩ := Option.map_eq_some_iff.1 h
    exact Or.inr ⟨r, hr⟩

theorem isSome_registration?_iff {t : Tree} :
    (registration? config t).isSome ↔
      (∃ path ∈ config.eventCallees, calleePath? t = some path) ∨
        (scopedRegistration? config t).isSome := by
  constructor
  · intro h
    obtain ⟨⟨callee, selector⟩, hr⟩ := Option.isSome_iff_exists.1 h
    rcases registration?_eq_some hr with ⟨hp, hmem⟩ | ⟨r, hr⟩
    · exact Or.inl ⟨callee, hmem, hp⟩
    · exact Or.inr (Option.isSome_iff_exists.2 ⟨r, hr⟩)
  · rintro (⟨path, hmem, hp⟩ | h)
    · have hf : (calleePath? t).filter config.eventCallees.contains = some path :=
        Option.filter_eq_some_iff.2 ⟨hp, List.contains_iff_mem.2 hmem⟩
      rw [registration?, hf]
      rfl
    · rw [registration?]
      split
      · rfl
      · rwa [Option.isSome_map]

theorem recognizeEvent_eq_some_iff {m : CallMatch} :
    recognizeEvent config c = some m ↔
      ∃ callee selector eventType handler,
        registration? config c.callee = some (callee, selector) ∧
          c.literalArgument? 0 = some eventType ∧ c.argument? 1 = some handler ∧
          m = .event ⟨callee, eventType, selector, 1, c.arguments.length - 2⟩ := by
  unfold recognizeEvent
  constructor
  · intro h
    obtain ⟨⟨callee, selector⟩, hr, h⟩ := Option.bind_eq_some_iff.1 h
    obtain ⟨eventType, ht, h⟩ := Option.bind_eq_some_iff.1 h
    obtain ⟨handler, ha, h⟩ := Option.bind_eq_some_iff.1 h
    exact ⟨callee, selector, eventType, handler, hr, ht, ha, (Option.some.inj h).symm⟩
  · rintro ⟨callee, selector, eventType, handler, hr, ht, ha, rfl⟩
    rw [hr, ht, ha]
    rfl

/-- What makes a call a registration: its callee, a literal type and a handler. -/
theorem isSome_recognizeEvent_iff :
    (recognizeEvent config c).isSome ↔
      (registration? config c.callee).isSome ∧ (c.literalArgument? 0).isSome ∧
        (c.argument? 1).isSome := by
  constructor
  · intro h
    obtain ⟨m, hm⟩ := Option.isSome_iff_exists.1 h
    obtain ⟨_, _, _, _, hr, ht, ha, -⟩ := recognizeEvent_eq_some_iff.1 hm
    rw [hr, ht, ha]
    exact ⟨rfl, rfl, rfl⟩
  · rintro ⟨hr, ht, ha⟩
    obtain ⟨⟨callee, selector⟩, hr⟩ := Option.isSome_iff_exists.1 hr
    obtain ⟨eventType, ht⟩ := Option.isSome_iff_exists.1 ht
    obtain ⟨handler, ha⟩ := Option.isSome_iff_exists.1 ha
    rw [recognizeEvent_eq_some_iff.2 ⟨callee, selector, eventType, handler, hr, ht, ha, rfl⟩]
    rfl

/-! ### Fetches -/

/-- What is known of a request once its callee and its URL are. -/
def requestOf (c : Call) (callee url : String) : FetchCall :=
  match c.options with
  | .opaqueValue => ⟨callee, url, .unreadable, .absent⟩
  | _ => ⟨callee, url, methodOf c, bodyOf c⟩

theorem recognizeFetch_eq_some_iff {m : CallMatch} :
    recognizeFetch config c = some m ↔
      ∃ path url, calleePath? c.callee = some path ∧ path ∈ config.fetchCallees ∧
        c.literalArgument? 0 = some url ∧ isAllowed config url ∧
        m = .fetch (requestOf c path url) := by
  unfold recognizeFetch
  constructor
  · intro h
    obtain ⟨path, hp, h⟩ := Option.bind_eq_some_iff.1 h
    obtain ⟨hp, hmem⟩ := Option.filter_eq_some_iff.1 hp
    obtain ⟨url, hu, h⟩ := Option.bind_eq_some_iff.1 h
    cases ha : isAllowed config url with
    | false => simp [ha] at h
    | true =>
      refine ⟨path, url, hp, List.contains_iff_mem.1 hmem, hu, ha, ?_⟩
      simp only [ha, Bool.not_true, Bool.false_eq_true, ↓reduceIte] at h
      unfold requestOf
      split at h <;> simp_all
  · rintro ⟨path, url, hp, hmem, hu, ha, rfl⟩
    have hf : (calleePath? c.callee).filter config.fetchCallees.contains = some path :=
      Option.filter_eq_some_iff.2 ⟨hp, List.contains_iff_mem.2 hmem⟩
    rw [hf, hu]
    simp only [Option.bind_eq_bind, Option.bind_some, ha, Bool.not_true, Bool.false_eq_true,
      ↓reduceIte]
    unfold requestOf
    cases c.options <;> rfl

/-! ### Classification -/

/-- One claim is a match, two are one too many. -/
theorem classify_ofConfig (config : Config) (c : Call) :
    (Matcher.ofConfig config).classify c =
      match recognizeEvent config c, recognizeFetch config c with
      | none, none => .irrelevant
      | some m, none => .matched m
      | none, some m => .matched m
      | some _, some _ => .ambiguous [.eventRegistration, .networkFetch] := by
  cases he : recognizeEvent config c <;> cases hf : recognizeFetch config c <;>
    simp [Matcher.classify, Matcher.ofConfig, eventRecognizer, fetchRecognizer, he, hf]

theorem classify_ofConfig_eq_irrelevant_iff :
    (Matcher.ofConfig config).classify c = .irrelevant ↔
      recognizeEvent config c = none ∧ recognizeFetch config c = none := by
  rw [classify_ofConfig]
  cases recognizeEvent config c <;> cases recognizeFetch config c <;> simp

theorem recognizeEvent_of_classify {e : EventCall}
    (h : (Matcher.ofConfig config).classify c = .matched (.event e)) :
    recognizeEvent config c = some (.event e) := by
  rw [classify_ofConfig] at h
  split at h
  · simp at h
  · next m he _ => rw [he, Classification.matched.inj h]
  · next m _ hf =>
    obtain ⟨_, _, -, -, -, -, rfl⟩ := recognizeFetch_eq_some_iff.1 hf
    simp at h
  · simp at h

theorem recognizeFetch_of_classify {f : FetchCall}
    (h : (Matcher.ofConfig config).classify c = .matched (.fetch f)) :
    recognizeFetch config c = some (.fetch f) := by
  rw [classify_ofConfig] at h
  split at h
  · simp at h
  · next m he _ =>
    obtain ⟨_, _, _, _, -, -, -, rfl⟩ := recognizeEvent_eq_some_iff.1 he
    simp at h
  · next m _ hf => rw [hf, Classification.matched.inj h]
  · simp at h

/-- The dotted name of a call that is taken for something is a configured callee. -/
theorem mem_callees_of_classify {m : CallMatch} {path : String}
    (h : (Matcher.ofConfig config).classify c = .matched m)
    (hp : calleePath? c.callee = some path) :
    path ∈ config.eventCallees ∨ path ∈ config.fetchCallees := by
  cases m with
  | event e =>
    obtain ⟨callee, selector, _, _, hr, -⟩ :=
      recognizeEvent_eq_some_iff.1 (recognizeEvent_of_classify h)
    rcases registration?_eq_some hr with ⟨hp', hmem⟩ | ⟨r, hr⟩
    · obtain rfl := Option.some.inj (hp.symm.trans hp')
      exact Or.inl hmem
    · rw [calleePath?_of_scopedRegistration hr] at hp
      cases hp
  | fetch f =>
    obtain ⟨path', url, hp', hmem, -⟩ :=
      recognizeFetch_eq_some_iff.1 (recognizeFetch_of_classify h)
    obtain rfl := Option.some.inj (hp.symm.trans hp')
    exact Or.inr hmem

end CallBridge.Pattern
