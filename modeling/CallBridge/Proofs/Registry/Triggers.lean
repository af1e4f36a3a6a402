import CallBridge.Proofs.Registry.Tables

/-!
# Finding an event by its own trigger

A trigger with a selector is looked up as it is before the first mapping of its type is; a trigger
without a selector is not. Main statement: a registered mapping is what its own trigger finds exactly
when it has a selector or is the first of its type, and otherwise the first of its type is found in
its place (`eventByTrigger?_own_iff`).
-/

namespace CallBridge.Registry

variable {r start : Registry} {m : EventMapping}

/-- Where no two items have the same key, a scan for the key of an item ends at the item. -/
theorem find?_key_of_mem {α κ : Type} [DecidableEq κ] {items : List α} {key : α → κ}
    (h : (items.map key).Nodup) {a : α} (ha : a ∈ items) :
    (items.find? fun b => key b = key a) = some a := by
  induction items with
  | nil => cases ha
  | cons b rest ih =>
    rw [List.map_cons, List.nodup_cons] at h
    rcases List.mem_cons.1 ha with rfl | hrest
    · exact List.find?_cons_of_pos (decide_eq_true rfl)
    · have hne : key b ≠ key a := fun heq => h.1 (heq ▸ List.mem_map_of_mem hrest)
      rw [List.find?_cons_of_neg (by simpa using hne)]
      exact ih h.2 hrest

/-- Without a selector, the first mapping of the type is found. -/
theorem Coherent.eventByTrigger?_none (h : r.Coherent) (eventType : String) :
    r.eventByTrigger? eventType none =
      r.events.find? fun found => found.trigger.eventType = eventType :=
  h.firstByType.entry?_eq_find? eventType

/-- With a selector, the mapping of exactly that trigger is found, or else the first of the type. -/
theorem Coherent.eventByTrigger?_some (h : r.Coherent) (eventType selector : String) :
    r.eventByTrigger? eventType (some selector) =
      ((r.events.find? fun found => found.trigger = ⟨eventType, some selector⟩) <|>
        r.events.find? fun found => found.trigger.eventType = eventType) := by
  rw [← h.eventsByTrigger.entry?_eq_find?, ← h.firstByType.entry?_eq_find?]
  rfl

/-- A mapping with a selector is found by its trigger. -/
theorem Coherent.eventByTrigger?_of_selector (h : r.Coherent) (hm : m ∈ r.events)
    (hselector : m.trigger.selector.isSome) :
    r.eventByTrigger? m.trigger.eventType m.trigger.selector = some m := by
  obtain ⟨selector, hs⟩ := Option.isSome_iff_exists.1 hselector
  have htrigger : m.trigger = ⟨m.trigger.eventType, some selector⟩ := by rw [← hs]
  rw [hs, h.eventByTrigger?_some, ← htrigger, find?_key_of_mem h.triggers hm]
  rfl

/-- A registered mapping is what its own trigger finds exactly when it has a selector or is the first
of its type. Some mapping of the type is always found. -/
theorem eventByTrigger?_own_iff (hstart : start = empty ∨ start = standard) (es : List Entry)
    (hm : m ∈ (start.registerAll es).events) :
    let r := start.registerAll es
    (r.eventByTrigger? m.trigger.eventType m.trigger.selector = some m ↔
      m.trigger.selector.isSome ∨
        (r.events.find? fun found => found.trigger.eventType = m.trigger.eventType) = some m) ∧
    ∃ found ∈ r.events, found.trigger.eventType = m.trigger.eventType ∧
      r.eventByTrigger? m.trigger.eventType m.trigger.selector = some found := by
  intro r
  have h : r.Coherent := coherent_registerAll hstart es
  cases hs : m.trigger.selector with
  | some selector =>
    have hfound := h.eventByTrigger?_of_selector hm (by rw [hs]; rfl)
    rw [hs] at hfound
    exact ⟨iff_of_true hfound (Or.inl rfl), m, hm, rfl, hfound⟩
  | none =>
    rw [h.eventByTrigger?_none]
    refine ⟨by simp, ?_⟩
    cases hfind : r.events.find? fun found => found.trigger.eventType = m.trigger.eventType with
    | some found =>
      exact ⟨found, List.mem_of_find?_eq_some hfind, by simpa using List.find?_some hfind, rfl⟩
    | none => exact absurd (decide_eq_true rfl) (List.find?_eq_none.1 hfind m hm)

/-! ### A mapping that its trigger does not find -/

/-- A mapping of the page being loaded, with a selector. -/
def scopedLoad : EventMapping :=
  { EventMapping.ofNames "first" "load" with trigger := ⟨"load", some "#one"⟩ }

/-- A mapping of the page being loaded, without a selector. -/
def plainLoad : EventMapping := .ofNames "plain" "load"

theorem eventByTrigger?_own_scoped :
    (empty = empty ∨ empty = standard) ∧
      scopedLoad ∈ (empty.registerAll [.event scopedLoad, .event plainLoad]).events ∧
      (empty.registerAll [.event scopedLoad, .event plainLoad]).eventByTrigger? "load" "#one" =
        some scopedLoad := by
  have hm : scopedLoad ∈ (empty.registerAll [.event scopedLoad, .event plainLoad]).events :=
    List.mem_cons_self ..
  exact ⟨Or.inl rfl, hm, (eventByTrigger?_own_iff (Or.inl rfl) _ hm).1.2 (Or.inl rfl)⟩

/-- Both mappings are registered, and the trigger of the second one finds the first. -/
theorem plainLoad_not_found :
    plainLoad ∈ (empty.registerAll [.event scopedLoad, .event plainLoad]).events ∧
      ((empty.registerAll [.event scopedLoad, .event plainLoad]).eventByTrigger?
        plainLoad.trigger.eventType plainLoad.trigger.selector).map (·.platformName) =
          some "first" ∧
      (empty.registerAll [.event scopedLoad, .event plainLoad]).eventByTrigger?
        plainLoad.trigger.eventType plainLoad.trigger.selector ≠ some plainLoad := by
  have hmem : plainLoad ∈ (empty.registerAll [.event scopedLoad, .event plainLoad]).events :=
    List.mem_cons_of_mem _ (List.mem_singleton_self _)
  have hfirst : ((empty.registerAll [.event scopedLoad, .event plainLoad]).eventByTrigger?
      plainLoad.trigger.eventType plainLoad.trigger.selector).map (·.platformName) =
        some "first" := by decide +kernel
  refine ⟨hmem, hfirst, fun hplain => ?_⟩
  rw [hplain] at hfirst
  exact absurd hfirst (by decide)

end CallBridge.Registry
