import CallBridge.Registry.Lookup

/-!
# A registry as a list of entries

A registry keeps its mappings in two lists and finds them through six tables of places. `Coherent`
says what the tables hold: of every key the place that a scan of the list from its front ends at. On
the other side stands a plain list that takes up an entry when its keys are free (`takeUp`). Main
statement: whatever is registered, accepted or refused, the registry holds what the plain list holds,
its tables are coherent, and it refuses what the plain list does not take up
(`registerAll_refines`).
-/

namespace CallBridge

open Collection

/-! ### Tables -/

section Table

variable {α κ : Type} [DecidableEq κ] {items : List α} {key : α → κ} {index : Index κ}

/-- A table gives every key the place of the first item that has it, and no place to any other. -/
def Index.Scans (index : Index κ) (items : List α) (key : α → κ) : Prop :=
  ∀ k, index.get? k = items.findIdx? fun a => key a = k

theorem Index.scans_nil : Index.Scans ([] : Index κ) ([] : List α) key := fun _ => rfl

theorem Index.Scans.get?_eq_none_iff (h : index.Scans items key) {k : κ} :
    index.get? k = none ↔ ∀ a ∈ items, key a ≠ k := by
  rw [h k, List.findIdx?_eq_none_iff]
  simp

theorem Index.Scans.isSome_get?_iff (h : index.Scans items key) {k : κ} :
    (index.get? k).isSome ↔ ∃ a ∈ items, key a = k := by
  rw [Option.isSome_iff_ne_none, Ne, h.get?_eq_none_iff]
  simp

/-- What is found through a table is what a scan of the list finds. -/
theorem Index.Scans.entry?_eq_find? (h : index.Scans items key) (k : κ) :
    Registry.entry? items index k = items.find? fun a => key a = k := by
  rw [Registry.entry?, h k, List.find?_eq_bind_findIdx?_getElem?]

/-- A further item takes the place behind the list, unless its key has one. -/
theorem Index.Scans.setFirst (h : index.Scans items key) (a : α) :
    (index.setFirst (key a) items.length).Scans (items ++ [a]) key := by
  intro k
  have hcons : ([a].findIdx? fun b => key b = k) = if k = key a then some 0 else none := by
    by_cases hk : k = key a
    · simp [hk]
    · simp [hk, Ne.symm hk]
  rw [List.findIdx?_append, ← h k, hcons, Index.setFirst]
  cases hfound : index.get? (key a) with
  | some place =>
    simp only
    by_cases hk : k = key a
    · rw [hk, hfound]
      rfl
    · simp [hk]
  | none =>
    simp only
    rw [Ordered.get?_set]
    by_cases hk : k = key a
    · simp [hk, hfound]
    · simp [hk]

/-- A key that no item has may be set as well. -/
theorem Index.Scans.set (h : index.Scans items key) {a : α} (hnew : ∀ b ∈ items, key b ≠ key a) :
    Index.Scans (Ordered.set (key a) items.length index) (items ++ [a]) key := by
  have hfirst := h.setFirst a
  rwa [Index.setFirst, h.get?_eq_none_iff.2 hnew] at hfirst

omit [DecidableEq κ] in
/-- A list whose items have different keys stays so with an item of a new key. -/
theorem nodup_map_append_singleton (h : (items.map key).Nodup) {a : α}
    (hnew : ∀ b ∈ items, key b ≠ key a) : ((items ++ [a]).map key).Nodup := by
  rw [List.map_append, List.map_singleton, List.nodup_append]
  refine ⟨h, List.pairwise_singleton _ _, ?_⟩
  rintro k hk _ hk' rfl
  obtain ⟨b, hb, hkb⟩ := List.mem_map.1 hk
  exact hnew b hb (hkb.trans (List.mem_singleton.1 hk'))

end Table

/-! ### The plain list -/

/-- The route of a mapping: its method and its path prefix. -/
def ApiMapping.route (m : ApiMapping) : String × String := (m.httpMethod, m.pathPrefix)

namespace Registry

/-- The mapping of an event entry. -/
def Entry.event? : Entry → Option EventMapping
  | .event m => some m
  | .api _ => none

/-- The mapping of an API entry. -/
def Entry.api? : Entry → Option ApiMapping
  | .event _ => none
  | .api m => some m

/-- Whether an entry wants a key that another one holds. -/
def Entry.clashes : Entry → Entry → Bool
  | .event m, .event held => held.platformName = m.platformName ∨ held.trigger = m.trigger
  | .api m, .api held => held.platformName = m.platformName ∨ held.route = m.route
  | _, _ => false

/-- Whether an entry has no path prefix where it needs one. -/
def Entry.lacksPrefix : Entry → Bool
  | .event _ => false
  | .api m => m.pathPrefix.isEmpty

/-- Whether a list has no room for an entry. -/
def Entry.isRefused (held : List Entry) (e : Entry) : Bool := e.lacksPrefix || held.any e.clashes

/-- Takes up an entry unless there is no room for it. -/
def takeUp (held : List Entry) (e : Entry) : List Entry :=
  if e.isRefused held then held else held ++ [e]

theorem takeUp_of_refused {held : List Entry} {e : Entry} (h : e.isRefused held) :
    takeUp held e = held := if_pos h

theorem takeUp_of_room {held : List Entry} {e : Entry} (h : ¬ e.isRefused held) :
    takeUp held e = held ++ [e] := if_neg h

/-- What a registry holds, as a list of entries. -/
def entries (r : Registry) : List Entry := r.events.map .event ++ r.apis.map .api

/-- A registry holds the mappings of a plain list, those of each kind in the same order. -/
structure Holds (r : Registry) (held : List Entry) : Prop where
  events : r.events = held.filterMap Entry.event?
  apis : r.apis = held.filterMap Entry.api?

variable {r r' : Registry} {held : List Entry} {e : Entry}

theorem holds_entries (r : Registry) : r.Holds r.entries := by
  constructor <;> simp [entries, List.filterMap_map, Function.comp_def, Entry.event?, Entry.api?]

theorem mem_filterMap_event? {m : EventMapping} :
    m ∈ held.filterMap Entry.event? ↔ .event m ∈ held := by
  rw [List.mem_filterMap]
  constructor
  · rintro ⟨e, he, hm⟩
    cases e with
    | event m' =>
      obtain rfl := Option.some.inj hm
      exact he
    | api m' => cases hm
  · intro h
    exact ⟨_, h, rfl⟩

theorem mem_filterMap_api? {m : ApiMapping} :
    m ∈ held.filterMap Entry.api? ↔ .api m ∈ held := by
  rw [List.mem_filterMap]
  constructor
  · rintro ⟨e, he, hm⟩
    cases e with
    | event m' => cases hm
    | api m' =>
      obtain rfl := Option.some.inj hm
      exact he
  · intro h
    exact ⟨_, h, rfl⟩

/-- There is no room for an event whose name or trigger is taken. -/
theorem Holds.isRefused_event_iff (h : r.Holds held) {m : EventMapping} :
    Entry.isRefused held (.event m) ↔
      ∃ found ∈ r.events, found.platformName = m.platformName ∨ found.trigger = m.trigger := by
  simp only [Entry.isRefused, Entry.lacksPrefix, Bool.false_or, List.any_eq_true, h.events,
    mem_filterMap_event?]
  constructor
  · rintro ⟨e, he, hclash⟩
    cases e with
    | event found => exact ⟨found, he, of_decide_eq_true hclash⟩
    | api found => cases hclash
  · rintro ⟨found, hfound, hkey⟩
    exact ⟨_, hfound, decide_eq_true hkey⟩

/-- There is no room for an API without a path prefix or whose name or route is taken. -/
theorem Holds.isRefused_api_iff (h : r.Holds held) {m : ApiMapping} :
    Entry.isRefused held (.api m) ↔ m.pathPrefix.isEmpty ∨
      ∃ found ∈ r.apis, found.platformName = m.platformName ∨ found.route = m.route := by
  simp only [Entry.isRefused, Entry.lacksPrefix, Bool.or_eq_true, List.any_eq_true, h.apis,
    mem_filterMap_api?]
  refine or_congr Iff.rfl ?_
  constructor
  · rintro ⟨e, he, hclash⟩
    cases e with
    | event found => cases hclash
    | api found => exact ⟨found, he, of_decide_eq_true hclash⟩
  · rintro ⟨found, hfound, hkey⟩
    exact ⟨_, hfound, decide_eq_true hkey⟩

/-! ### Coherent registries -/

/-- A registry in which no key is held twice and every table says what a scan of the mappings in the
order of registration says. -/
structure Coherent (r : Registry) : Prop where
  eventNames : (r.events.map (·.platformName)).Nodup
  triggers : (r.events.map (·.trigger)).Nodup
  apiNames : (r.apis.map (·.platformName)).Nodup
  routes : (r.apis.map (·.route)).Nodup
  eventsByName : r.eventsByName.Scans r.events (·.platformName)
  eventsByTrigger : r.eventsByTrigger.Scans r.events (·.trigger)
  firstByType : r.firstByType.Scans r.events (·.trigger.eventType)
  apisByName : r.apisByName.Scans r.apis (·.platformName)
  apisByRoute : r.apisByRoute.Scans r.apis (·.route)
  firstByPrefix : r.firstByPrefix.Scans r.apis (·.pathPrefix)

theorem coherent_empty : empty.Coherent where
  eventNames := List.nodup_nil
  triggers := List.nodup_nil
  apiNames := List.nodup_nil
  routes := List.nodup_nil
  eventsByName := Index.scans_nil
  eventsByTrigger := Index.scans_nil
  firstByType := Index.scans_nil
  apisByName := Index.scans_nil
  apisByRoute := Index.scans_nil
  firstByPrefix := Index.scans_nil

/-- What registering an event comes to: a mapping with a taken name or trigger is refused, any other
stands behind the mappings there are, and the tables stay coherent. -/
theorem Coherent.registerEvent_cases (h : r.Coherent) (m : EventMapping) :
    ((∃ refusal, r.registerEvent m = .error refusal) ∧
      ∃ found ∈ r.events, found.platformName = m.platformName ∨ found.trigger = m.trigger) ∨
    ((∃ r', r.registerEvent m = .ok r' ∧ r'.Coherent ∧ r'.events = r.events ++ [m] ∧
        r'.apis = r.apis) ∧
      ∀ found ∈ r.events, found.platformName ≠ m.platformName ∧ found.trigger ≠ m.trigger) := by
  rw [registerEvent]
  by_cases hname : (r.eventsByName.get? m.platformName).isSome
  · obtain ⟨found, hfound, hkey⟩ := h.eventsByName.isSome_get?_iff.1 hname
    rw [if_pos hname]
    exact Or.inl ⟨⟨_, rfl⟩, found, hfound, Or.inl hkey⟩
  · have hnew : ∀ found ∈ r.events, found.platformName ≠ m.platformName := fun found hfound hkey =>
      hname (h.eventsByName.isSome_get?_iff.2 ⟨found, hfound, hkey⟩)
    rw [if_neg hname, h.eventsByTrigger.entry?_eq_find?]
    cases hfind : r.events.find? fun found => found.trigger = m.trigger with
    | some found =>
      have hkey : found.trigger = m.trigger := by simpa using List.find?_some hfind
      exact Or.inl ⟨⟨_, rfl⟩, found, List.mem_of_find?_eq_some hfind, Or.inr hkey⟩
    | none =>
      have hfree : ∀ found ∈ r.events, found.trigger ≠ m.trigger := by
        simpa using List.find?_eq_none.1 hfind
      refine Or.inr ⟨⟨_, rfl, ?_, rfl, rfl⟩, fun found hfound =>
        ⟨hnew found hfound, hfree found hfound⟩⟩
      exact { h with
        eventNames := nodup_map_append_singleton h.eventNames hnew
        triggers := nodup_map_append_singleton h.triggers hfree
        eventsByName := h.eventsByName.set hnew
        eventsByTrigger := h.eventsByTrigger.set hfree
        firstByType := h.firstByType.setFirst m }

/-- What registering an API comes to: a mapping without a path prefix or with a taken name or route
is refused, any other stands behind the mappings there are, and the tables stay coherent. -/
theorem Coherent.registerApi_cases (h : r.Coherent) (m : ApiMapping) :
    ((∃ refusal, r.registerApi m = .error refusal) ∧
      (m.pathPrefix.isEmpty ∨
        ∃ found ∈ r.apis, found.platformName = m.platformName ∨ found.route = m.route)) ∨
    ((∃ r', r.registerApi m = .ok r' ∧ r'.Coherent ∧ r'.apis = r.apis ++ [m] ∧
        r'.events = r.events) ∧ ¬ m.pathPrefix.isEmpty ∧
      ∀ found ∈ r.apis, found.platformName ≠ m.platformName ∧ found.route ≠ m.route) := by
  simp only [registerApi]
  by_cases hnone : m.pathPrefix.isEmpty
  · rw [if_pos hnone]
    exact Or.inl ⟨⟨_, rfl⟩, Or.inl hnone⟩
  rw [if_neg hnone]
  by_cases hname : (r.apisByName.get? m.platformName).isSome
  · obtain ⟨found, hfound, hkey⟩ := h.apisByName.isSome_get?_iff.1 hname
    rw [if_pos hname]
    exact Or.inl ⟨⟨_, rfl⟩, Or.inr ⟨found, hfound, Or.inl hkey⟩⟩
  · have hnew : ∀ found ∈ r.apis, found.platformName ≠ m.platformName := fun found hfound hkey =>
      hname (h.apisByName.isSome_get?_iff.2 ⟨found, hfound, hkey⟩)
    rw [if_neg hname, h.apisByRoute.entry?_eq_find?]
    cases hfind : r.apis.find? fun found => found.route = (m.httpMethod, m.pathPrefix) with
    | some found =>
      have hkey : found.route = m.route := of_decide_eq_true (List.find?_some
        (p := fun found : ApiMapping => decide (found.route = m.route)) hfind)
      exact Or.inl ⟨⟨_, rfl⟩, Or.inr ⟨found, List.mem_of_find?_eq_some hfind, Or.inr hkey⟩⟩
    | none =>
      have hfree : ∀ found ∈ r.apis, found.route ≠ m.route := fun found hfound hroute =>
        List.find?_eq_none.1 hfind found hfound (decide_eq_true hroute)
      refine Or.inr ⟨⟨_, rfl, ?_, rfl, rfl⟩, hnone,
        fun found hfound => ⟨hnew found hfound, hfree found hfound⟩⟩
      exact { h with
        apiNames := nodup_map_append_singleton h.apiNames hnew
        routes := nodup_map_append_singleton h.routes hfree
        apisByName := h.apisByName.set hnew
        apisByRoute := h.apisByRoute.set hfree
        firstByPrefix := h.firstByPrefix.setFirst m }

/-- One step of the registry beside one step of the plain list: both take the entry up, or the
registry refuses it and the list stays as it is. -/
theorem Coherent.register_cases (h : r.Coherent) (hheld : r.Holds held) (e : Entry) :
    (e.isRefused held ∧ ∃ refusal, r.register e = .error refusal) ∨
    (¬ e.isRefused held ∧
      ∃ r', r.register e = .ok r' ∧ r'.Coherent ∧ r'.Holds (held ++ [e])) := by
  cases e with
  | event m =>
    rcases h.registerEvent_cases m with ⟨hrefused, hkey⟩ | ⟨⟨r', hr', hr'c, hevents, hapis⟩, hfree⟩
    · exact Or.inl ⟨hheld.isRefused_event_iff.2 hkey, hrefused⟩
    · refine Or.inr ⟨fun hrefused => ?_, r', hr', hr'c, ?_, ?_⟩
      · obtain ⟨found, hfound, hkey⟩ := hheld.isRefused_event_iff.1 hrefused
        exact hkey.elim (hfree found hfound).1 (hfree found hfound).2
      · rw [hevents, hheld.events, List.filterMap_append]
        rfl
      · rw [hapis, hheld.apis, List.filterMap_append]
        exact (List.append_nil _).symm
  | api m =>
    rcases h.registerApi_cases m with
      ⟨hrefused, hkey⟩ | ⟨⟨r', hr', hr'c, hapis, hevents⟩, hnone, hfree⟩
    · exact Or.inl ⟨hheld.isRefused_api_iff.2 hkey, hrefused⟩
    · refine Or.inr ⟨fun hrefused => ?_, r', hr', hr'c, ?_, ?_⟩
      · rcases hheld.isRefused_api_iff.1 hrefused with hempty | ⟨found, hfound, hkey⟩
        · exact hnone hempty
        · exact hkey.elim (hfree found hfound).1 (hfree found hfound).2
      · rw [hevents, hheld.events, List.filterMap_append]
        exact (List.append_nil _).symm
      · rw [hapis, hheld.apis, List.filterMap_append]
        rfl

/-- A refused entry leaves the rest of a run as it would be without it. -/
theorem registerAll_cons_of_refused {refusal : Refusal} (h : r.register e = .error refusal)
    (rest : List Entry) : r.registerAll (e :: rest) = r.registerAll rest := by
  rw [registerAll, List.foldl_cons, h]
  rfl

/-- A run of the registry beside a run of the plain list. -/
theorem Coherent.registerAll (h : r.Coherent) (hheld : r.Holds held) (es : List Entry) :
    (r.registerAll es).Coherent ∧ (r.registerAll es).Holds (es.foldl takeUp held) := by
  induction es generalizing r held with
  | nil => exact ⟨h, hheld⟩
  | cons e rest ih =>
    rw [List.foldl_cons]
    rcases h.register_cases hheld e with ⟨hrefused, refusal, herror⟩ | ⟨hroom, r', hok, hr', hheld'⟩
    · rw [registerAll_cons_of_refused herror, takeUp_of_refused hrefused]
      exact ih h hheld
    · have hstep : r.registerAll (e :: rest) = r'.registerAll rest := by
        rw [Registry.registerAll, List.foldl_cons, hok]
        rfl
      rw [hstep, takeUp_of_room hroom]
      exact ih hr' hheld'

theorem coherent_standard : standard.Coherent :=
  (coherent_empty.registerAll (holds_entries empty) _).1

theorem coherent_of_start {start : Registry} (h : start = empty ∨ start = standard) :
    start.Coherent := by
  rcases h with rfl | rfl
  · exact coherent_empty
  · exact coherent_standard

/-- However a registry is filled, its tables say what a scan says. -/
theorem coherent_registerAll {start : Registry} (h : start = empty ∨ start = standard)
    (es : List Entry) : (start.registerAll es).Coherent :=
  ((coherent_of_start h).registerAll (holds_entries start) es).1

/-- A registry that entries are registered with, one after the other, holds what a plain list has
taken up of them in the order of registration, with no key twice and with tables that say what a
scan of it says. It refuses an entry exactly when the list has no room for it, and a refused entry
changes nothing. -/
theorem registerAll_refines {start : Registry} (hstart : start = empty ∨ start = standard)
    (es : List Entry) :
    let r := start.registerAll es
    let held := es.foldl takeUp start.entries
    r.Coherent ∧ r.Holds held ∧
      (∀ e, (∃ refusal, r.register e = .error refusal) ↔ e.isRefused held) ∧
      (∀ e, e.isRefused held → ∀ rest, r.registerAll (e :: rest) = r.registerAll rest) := by
  intro r held
  obtain ⟨hr, hheld⟩ := (coherent_of_start hstart).registerAll (holds_entries start) es
  refine ⟨hr, hheld, fun e => ?_, fun e hrefused rest => ?_⟩
  · rcases hr.register_cases hheld e with ⟨hrefused, herror⟩ | ⟨hroom, r', hok, -⟩
    · exact iff_of_true herror hrefused
    · refine iff_of_false ?_ hroom
      rintro ⟨refusal, herror⟩
      rw [hok] at herror
      cases herror
  · rcases hr.register_cases hheld e with ⟨-, refusal, herror⟩ | ⟨hroom, -⟩
    · exact registerAll_cons_of_refused herror rest
    · exact absurd hrefused hroom

/-- A mapping of a route that is otherwise of no interest. -/
def routeEntry (name method pathPrefix : String) : Entry :=
  .api (.ofRoute name method pathPrefix "/k" (ApiCatalogue.reading "/k"))

/-- A route, a prefix of nothing but slashes, a route under the name of the first, an event, and an
event of the same trigger. -/
def repeatedEntries : List Entry :=
  [routeEntry "a" "GET" "/x", routeEntry "b" "GET" "//", routeEntry "a" "PUT" "y/",
    .event (.ofNames "e" "load"), .event (.ofNames "f" "load")]

theorem registerAll_refines_repeated :
    (empty = empty ∨ empty = standard) ∧
      (empty.registerAll repeatedEntries).Coherent ∧
      (empty.registerAll repeatedEntries).Holds
        [routeEntry "a" "GET" "/x", .event (.ofNames "e" "load")] ∧
      ∀ e ∈ repeatedEntries,
        ∃ refusal, (empty.registerAll repeatedEntries).register e = .error refusal := by
  have hheld : repeatedEntries.foldl takeUp empty.entries =
      [routeEntry "a" "GET" "/x", .event (.ofNames "e" "load")] := by
    have hroute : takeUp empty.entries (routeEntry "a" "GET" "/x") = [routeEntry "a" "GET" "/x"] :=
      takeUp_of_room (by decide +kernel)
    have hslashes : takeUp [routeEntry "a" "GET" "/x"] (routeEntry "b" "GET" "//") =
        [routeEntry "a" "GET" "/x"] := takeUp_of_refused (by decide +kernel)
    have hname : takeUp [routeEntry "a" "GET" "/x"] (routeEntry "a" "PUT" "y/") =
        [routeEntry "a" "GET" "/x"] := takeUp_of_refused (by decide +kernel)
    have hevent : takeUp [routeEntry "a" "GET" "/x"] (.event (.ofNames "e" "load")) =
        [routeEntry "a" "GET" "/x", .event (.ofNames "e" "load")] :=
      takeUp_of_room (by decide +kernel)
    have htrigger : takeUp [routeEntry "a" "GET" "/x", .event (.ofNames "e" "load")]
        (.event (.ofNames "f" "load")) =
          [routeEntry "a" "GET" "/x", .event (.ofNames "e" "load")] :=
      takeUp_of_refused (by decide +kernel)
    rw [repeatedEntries, List.foldl_cons, hroute, List.foldl_cons, hslashes, List.foldl_cons, hname,
      List.foldl_cons, hevent, List.foldl_cons, htrigger, List.foldl_nil]
  have hstart : empty = empty ∨ empty = standard := Or.inl rfl
  obtain ⟨hcoherent, hholds, hrefused, -⟩ := registerAll_refines hstart repeatedEntries
  rw [hheld] at hholds hrefused
  have hall : ∀ e ∈ repeatedEntries,
      e.isRefused [routeEntry "a" "GET" "/x", .event (.ofNames "e" "load")] := by decide +kernel
  exact ⟨hstart, hcoherent, hholds, fun e he => (hrefused e).2 (hall e he)⟩

end Registry

end CallBridge
