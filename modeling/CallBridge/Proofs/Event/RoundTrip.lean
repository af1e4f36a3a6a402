import CallBridge.Event.Catalogue
import CallBridge.Proofs.Json.Fields

/-!
# Events there and back

On the page a platform event is the fields that it has. What is read off these fields again are the
ids and the records of the event; its type is not among them. Main statement: a default mapping
loses the type of exactly the screens that the page has to tell, and nothing else (`roundTrip_iff`).
-/

namespace CallBridge

open Json

namespace PlatformEvent

/-! ### Fields of an event -/

/-- The value of a field, if the event has it. -/
def present? (e : PlatformEvent) (name : String) : Option Value := Fields.get? name e.presentFields

theorem get?_field (name other : String) (v : Option Value) :
    Fields.get? name (v.toList.map fun v => (other, v)) = if name = other then v else none := by
  cases v with
  | none => exact (ite_self none).symm
  | some v => exact Fields.get?_cons ..

theorem present?_eq (e : PlatformEvent) (name : String) :
    e.present? name =
      (((if name = "records" then e.records else none).or
        (if name = "record" then e.record else none)).or
        (if name = "appId" then e.appId.map .string else none)).or
        (if name = "recordId" then e.recordId.map .string else none) := by
  simp only [present?, presentFields, Fields.get?_append, get?_field]

/-- The names of the fields, none of them twice. -/
theorem names_presentFields (e : PlatformEvent) :
    (e.presentFields.map Prod.fst).Sublist ["records", "record", "appId", "recordId"] := by
  have hfield : ∀ (name : String) (v : Option Value),
      ((v.toList.map fun v => (name, v)).map Prod.fst).Sublist [name] := by
    rintro name (_ | v)
    · exact List.nil_sublist _
    · exact List.Sublist.refl _
  simp only [presentFields, List.map_append]
  exact (((hfield "records" _).append (hfield "record" _)).append (hfield "appId" _)).append
    (hfield "recordId" _)

/-- An event as it comes from a page: null stands for a missing record. -/
structure FromPage (e : PlatformEvent) : Prop where
  record : (e.record.filter fun v => !v.isNull) = e.record
  records : (e.records.filter fun v => !v.isNull) = e.records

end PlatformEvent

/-! ### Fields on the page -/

namespace WebEvent

theorem field?_mk (eventType : String) {entries : List (String × Value)}
    (h : (entries.map Prod.fst).Nodup) (name : String) :
    (WebEvent.mk eventType (.mk entries)).field? name =
      (Fields.get? name entries).filter fun v => !v.isNull := by
  rw [field?, Value.mk, Value.get?, Fields.get?_ofList h]

theorem filter_field? (e : WebEvent) (name : String) :
    ((e.field? name).filter fun v => !v.isNull) = e.field? name := by
  rw [field?, Option.filter_filter]
  simp only [Bool.and_self]

end WebEvent

namespace EventCatalogue

theorem field?_carrying (eventType : String) (e : PlatformEvent) (name : String) :
    (carrying eventType e).field? name = (e.present? name).filter fun v => !v.isNull :=
  WebEvent.field?_mk eventType (e.names_presentFields.nodup (by decide)) name

/-- An id is carried as its text. -/
theorem idText_carried (id : Option String) :
    ((id.map Value.string).filter fun v => !v.isNull).bind idText = id := by
  cases id <;> rfl

variable {e : PlatformEvent} {screen action : String}

theorem listShown_carrying (h : e.FromPage) (eventType : String) :
    listShown (carrying eventType e) =
      ⟨"app.record.index.show", e.appId, none, none, some (e.records.getD (.array []))⟩ := by
  simp [listShown, field?_carrying, PlatformEvent.present?_eq, idText_carried, h.records]

theorem recordEvent_carrying (h : e.FromPage) (eventType : String) :
    recordEvent screen action (carrying eventType e) =
      ⟨"app.record." ++ screen ++ "." ++ action, e.appId, e.recordId, e.record, none⟩ := by
  simp [recordEvent, field?_carrying, PlatformEvent.present?_eq, idText_carried, h.record]

/-- Which screen is shown is not carried. -/
theorem recordShown_carrying (eventType : String) (e : PlatformEvent) :
    recordShown (carrying eventType e) = recordEvent "detail" "show" (carrying eventType e) := by
  have hpage : textField? (carrying eventType e) "page" = none := by
    simp [textField?, field?_carrying, PlatformEvent.present?_eq]
  rw [recordShown, hpage]

/-- Which form is submitted is not carried. -/
theorem formSubmitted_carrying (eventType : String) (e : PlatformEvent) :
    formSubmitted (carrying eventType e) = recordEvent "create" "submit" (carrying eventType e) := by
  have hform : textField? (carrying eventType e) "form" = none := by
    simp [textField?, field?_carrying, PlatformEvent.present?_eq]
  rw [formSubmitted, hform]

/-! ### There and back -/

theorem fromPage_listShown (e : WebEvent) : (listShown e).FromPage where
  record := rfl
  records := by
    cases h : e.field? "records" with
    | none => simp [listShown, h, Value.isNull]
    | some v =>
      have hv := e.filter_field? "records"
      rw [h] at hv
      simpa [listShown, h] using hv

theorem fromPage_recordEvent (screen action : String) (e : WebEvent) :
    (recordEvent screen action e).FromPage where
  record := e.filter_field? "record"
  records := rfl

theorem recordEvent_recordEvent (screen' action' eventType : String) (e : WebEvent) :
    recordEvent screen' action' (carrying eventType (recordEvent screen action e)) =
      { recordEvent screen action e with
        eventType := "app.record." ++ screen' ++ "." ++ action' } := by
  rw [recordEvent_carrying (fromPage_recordEvent screen action e)]
  rfl

theorem roundTrip_listShown (e : WebEvent) (eventType : String) :
    listShown (carrying eventType (listShown e)) = listShown e := by
  rw [listShown_carrying (fromPage_listShown e)]
  rfl

theorem roundTrip_recordShown (e : WebEvent) (eventType : String) :
    recordShown (carrying eventType (recordShown e)) =
      { recordShown e with eventType := "app.record.detail.show" } := by
  rw [recordShown_carrying, recordShown, recordEvent_recordEvent]
  rfl

theorem roundTrip_formSubmitted (e : WebEvent) (eventType : String) :
    formSubmitted (carrying eventType (formSubmitted e)) =
      { formSubmitted e with eventType := "app.record.create.submit" } := by
  rw [formSubmitted_carrying, formSubmitted, recordEvent_recordEvent]
  rfl

end EventCatalogue

namespace EventTransform

theorem field?_toValue (e : PlatformEvent) {name : String} (h : name ≠ "type") :
    (WebEvent.mk e.eventType e.toValue).field? name =
      (e.present? name).filter fun v => !v.isNull := by
  have hnodup : ((("type", Value.string e.eventType) :: e.presentFields).map Prod.fst).Nodup :=
    (e.names_presentFields.cons_cons "type").nodup (by decide)
  rw [PlatformEvent.toValue, WebEvent.field?_mk e.eventType hnodup, Fields.get?_cons, if_neg h]
  rfl

theorem toPlatform_toWeb_passThrough {e : PlatformEvent} (h : e.FromPage) :
    passThrough.toPlatform (passThrough.toWeb e) =
      ⟨e.eventType, none, none, e.record, e.records⟩ := by
  simp [passThrough, field?_toValue, PlatformEvent.present?_eq, h.record, h.records]

theorem roundTrip_passThrough (e : WebEvent) :
    passThrough.toPlatform (passThrough.toWeb (passThrough.toPlatform e)) =
      passThrough.toPlatform e :=
  toPlatform_toWeb_passThrough ⟨e.filter_field? "record", e.filter_field? "records"⟩

end EventTransform

/-! ### All mappings -/

namespace EventMapping

/-- An event on the platform. -/
def there (m : EventMapping) (e : WebEvent) : PlatformEvent := m.transform.toPlatform e

/-- An event that has been carried to the page and to the platform again. -/
def again (m : EventMapping) (e : WebEvent) : PlatformEvent :=
  m.transform.toPlatform (m.transform.toWeb (m.there e))

/-- Whether a mapping carries values over as they are. -/
def IsPlain (m : EventMapping) : Prop := ∃ platformName eventType, m = .ofNames platformName eventType

end EventMapping

namespace EventCatalogue

/-- The events of a screen or form that the page has to tell. -/
def toldByPage : List String :=
  ["app.record.create.show", "app.record.edit.show", "app.record.edit.submit"]

/-- A screen is shown for looking at a record unless the page tells another one. -/
theorem recordShown_told_iff (e : WebEvent) :
    (recordShown e).eventType = "app.record.detail.show" ↔
      (recordShown e).eventType ∉ toldByPage := by
  unfold recordShown
  split <;> simp only [recordEvent] <;> decide

/-- A form is submitted for a new record unless the page tells another one. -/
theorem formSubmitted_told_iff (e : WebEvent) :
    (formSubmitted e).eventType = "app.record.create.submit" ↔
      (formSubmitted e).eventType ∉ toldByPage := by
  unfold formSubmitted
  split <;> simp only [recordEvent] <;> decide

/-- Every default mapping carries the list of records, a record that is shown or one that is
submitted. -/
theorem transform_of_mem_all {m : EventMapping} (h : m ∈ all) :
    m.transform = listTransform ∨ m.transform = showTransform ∨ m.transform = submitTransform := by
  simp only [all, List.mem_cons, List.not_mem_nil, or_false] at h
  rcases h with rfl | rfl | rfl | rfl | rfl | rfl
  · exact Or.inl rfl
  · exact Or.inr (Or.inl rfl)
  · exact Or.inr (Or.inl rfl)
  · exact Or.inr (Or.inl rfl)
  · exact Or.inr (Or.inr rfl)
  · exact Or.inr (Or.inr rfl)

end EventCatalogue

namespace EventMapping

/-- What comes back of an event besides its type. -/
structure KeepsFields (m : EventMapping) (e : WebEvent) : Prop where
  appId : (m.again e).appId = (m.there e).appId
  recordId : (m.again e).recordId = (m.there e).recordId
  record : (m.again e).record = (m.there e).record
  records : (m.again e).records = (m.there e).records

theorem IsPlain.again_eq {m : EventMapping} (h : m.IsPlain) (e : WebEvent) :
    m.again e = m.there e := by
  obtain ⟨platformName, eventType, rfl⟩ := h
  exact EventTransform.roundTrip_passThrough e

theorem keepsFields_of_eq {m : EventMapping} {e : WebEvent} (h : m.again e = m.there e) :
    m.KeepsFields e :=
  ⟨congrArg _ h, congrArg _ h, congrArg _ h, congrArg _ h⟩

/-- A default mapping brings an event back as one of the screen or form that is taken where the page
tells none. -/
theorem exists_again_eq {m : EventMapping} (hm : m ∈ EventCatalogue.all) (e : WebEvent) :
    ∃ home, m.again e = { m.there e with eventType := home } ∧
      ((m.there e).eventType = home ↔ (m.there e).eventType ∉ EventCatalogue.toldByPage) := by
  unfold again there
  rcases EventCatalogue.transform_of_mem_all hm with hlist | hshow | hsubmit
  · rw [hlist]
    have hnot : "app.record.index.show" ∉ EventCatalogue.toldByPage := by decide
    exact ⟨_, EventCatalogue.roundTrip_listShown e "pageload", iff_of_true rfl hnot⟩
  · rw [hshow]
    exact ⟨"app.record.detail.show", EventCatalogue.roundTrip_recordShown e "pageload",
      EventCatalogue.recordShown_told_iff e⟩
  · rw [hsubmit]
    exact ⟨"app.record.create.submit", EventCatalogue.roundTrip_formSubmitted e "formsubmit",
      EventCatalogue.formSubmitted_told_iff e⟩

/-- Every event under a default mapping or a plain one. Carried to the page and to the platform
again it has its ids and its records. It is the same event unless its screen or form is one that
the page has to tell, since the field that tells it is not carried. -/
theorem roundTrip_iff {m : EventMapping} (hm : m ∈ EventCatalogue.all ∨ m.IsPlain) (e : WebEvent) :
    m.KeepsFields e ∧
      (m.again e = m.there e ↔
        m.IsPlain ∨ (m.there e).eventType ∉ EventCatalogue.toldByPage) := by
  rcases hm with hm | hplain
  · obtain ⟨home, hagain, htold⟩ := exists_again_eq hm e
    have hfields : m.KeepsFields e := by constructor <;> rw [hagain]
    refine ⟨hfields, ?_⟩
    constructor
    · intro heq
      have htype : home = (m.there e).eventType := congrArg PlatformEvent.eventType (hagain ▸ heq)
      exact Or.inr (htold.1 htype.symm)
    · rintro (hplain | hnot)
      · exact hplain.again_eq e
      · rw [hagain, ← htold.2 hnot]
  · have heq := hplain.again_eq e
    exact ⟨keepsFields_of_eq heq, iff_of_true heq (Or.inl hplain)⟩

/-- A form for a new record, with ids as numbers and a record that is null. -/
def submittedForm : WebEvent :=
  ⟨"submit", .mk [("form", .string "record-create"), ("appId", .nat 7), ("recordId", .nat 12),
    ("record", .null)]⟩

def submitMapping : EventMapping :=
  EventCatalogue.recordMapping "app.record.edit.submit" "submit" "[data-form=\"record-edit\"]"
    "Record edit form submitted" "validate" EventCatalogue.submitTransform

theorem roundTrip_iff_submitted :
    submitMapping ∈ EventCatalogue.all ∧ submitMapping.KeepsFields submittedForm ∧
      (submitMapping.there submittedForm).appId = some "7" ∧
      submitMapping.again submittedForm = submitMapping.there submittedForm := by
  have hm : submitMapping ∈ EventCatalogue.all := by simp [EventCatalogue.all, submitMapping]
  obtain ⟨hfields, hiff⟩ := roundTrip_iff (Or.inl hm) submittedForm
  exact ⟨hm, hfields, by decide +kernel, hiff.2 (Or.inr (by decide +kernel))⟩

/-- The screen of a new record. -/
def createdPage : WebEvent := ⟨"DOMContentLoaded", .mk [("page", .string "record-create")]⟩

def createMapping : EventMapping :=
  EventCatalogue.recordMapping "app.record.create.show" "DOMContentLoaded"
    "[data-page=\"record-create\"]" "Record create screen finished rendering" "prefill"
    EventCatalogue.showTransform

/-- The screen of a new record comes back as that of an old one. -/
theorem createScreen_becomes_detail :
    createMapping ∈ EventCatalogue.all ∧
      (createMapping.there createdPage).eventType = "app.record.create.show" ∧
      (createMapping.again createdPage).eventType = "app.record.detail.show" ∧
      createMapping.again createdPage ≠ createMapping.there createdPage := by
  have htypes : (createMapping.there createdPage).eventType = "app.record.create.show" ∧
      (createMapping.again createdPage).eventType = "app.record.detail.show" := by decide +kernel
  refine ⟨by simp [EventCatalogue.all, createMapping], htypes.1, htypes.2, fun heq => ?_⟩
  have hsame := congrArg PlatformEvent.eventType heq
  rw [htypes.1, htypes.2] at hsame
  exact absurd hsame (by decide)

end EventMapping

end CallBridge
