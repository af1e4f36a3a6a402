import CallBridge.Config.Json
import CallBridge.Proofs.Json.Fields
import CallBridge.Proofs.Json.Reading
import CallBridge.Proofs.Json.Records

/-!
# Configurations as texts

A text may give some fields of a configuration and leave out others, at both levels (`Given`); what
it leaves out is filled in from the standard (`filled`). The text may be any spelling of an object
that holds what is given (`HeldBy`), with its fields in any order and fields that no configuration
has among them. A configuration is written with all its fields, in whatever order (`IsWritten`).
Main statement: `configuration_roundTrip`.
-/

namespace CallBridge

open Json

variable {d : Document} {v : Value}

/-! ### What a text gives -/

/-- A document that is a text. -/
def IsText (s : String) (d : Document) : Prop := d = .string (some s)

/-- A document that is a list of texts. -/
def IsTexts (ss : List String) (d : Document) : Prop :=
  d = .array (ss.map fun s => .string (some s))

/-- The fields of the platform calls that a text gives. -/
structure PlatformCalls.Given where
  eventRegistration : Option String
  apiInvocation : Option String

/-- The fields of a configuration that a text gives. -/
structure Config.Given where
  eventCallees : Option (List String)
  selectorQueries : Option (List String)
  fetchCallees : Option (List String)
  allowedOrigins : Option (List String)
  platform : Option PlatformCalls.Given

namespace PlatformCalls.Given

/-- What is given, and the standard for the rest. -/
def filled (g : Given) : PlatformCalls :=
  ⟨g.eventRegistration.getD standard.eventRegistration, g.apiInvocation.getD standard.apiInvocation⟩

/-- An object that holds what is given, and maybe other fields. -/
def HeldBy (g : Given) (d : Document) : Prop :=
  ∃ entries, d = .ofEntries entries ∧
    Holds "eventRegistration" IsText entries g.eventRegistration ∧
    Holds "apiInvocation" IsText entries g.apiInvocation

end PlatformCalls.Given

namespace Config.Given

/-- What is given, and the standard for the rest. -/
def filled (g : Given) : Config :=
  ⟨g.eventCallees.getD standard.eventCallees, g.selectorQueries.getD standard.selectorQueries,
    g.fetchCallees.getD standard.fetchCallees, g.allowedOrigins.getD standard.allowedOrigins,
    (g.platform.map PlatformCalls.Given.filled).getD standard.platform⟩

/-- An object that holds what is given, and maybe other fields. -/
def HeldBy (g : Given) (d : Document) : Prop :=
  ∃ entries, d = .ofEntries entries ∧
    Holds "eventCallees" IsTexts entries g.eventCallees ∧
    Holds "selectorQueries" IsTexts entries g.selectorQueries ∧
    Holds "fetchCallees" IsTexts entries g.fetchCallees ∧
    Holds "allowedOrigins" IsTexts entries g.allowedOrigins ∧
    Holds "platform" PlatformCalls.Given.HeldBy entries g.platform

end Config.Given

/-! ### Reading what is given -/

theorem IsText.text?_eq {s : String} (h : IsText s d) : d.text? = some s := by
  rw [h]
  rfl

theorem IsTexts.list?_eq {ss : List String} (h : IsTexts ss d) :
    d.list? Document.text? = some ss := by
  have htexts : (ss.map fun s => Document.string (some s)).mapM Document.text? = some ss := by
    clear h
    induction ss with
    | nil => rfl
    | cons s rest ih =>
      rw [List.map_cons, List.mapM_cons, ih]
      rfl
  rw [h]
  exact htexts

theorem PlatformCalls.ofDocument?_of_heldBy {g : Given} (h : g.HeldBy d) :
    ofDocument? d = some g.filled := by
  obtain ⟨entries, rfl, hevent, hapi⟩ := h
  have hmembers : (Document.ofEntries entries).members? ["eventRegistration", "apiInvocation"] [] =
      some _ := members?_ofEntries (fun _ _ => rfl) (by
    simp only [List.forall_mem_cons]
    exact ⟨hevent.count_le_one, hapi.count_le_one, nofun⟩)
  have hread {name : String} {given : Option String}
      (hname : name ∈ ["eventRegistration", "apiInvocation"])
      (h : Holds name IsText entries given) (default : String) :=
    getD?_of_holds hname h IsText.text?_eq default
  rw [ofDocument?, hmembers]
  simp only [Option.bind_eq_bind, Option.bind_some, hread (by decide) hevent,
    hread (by decide) hapi, Option.map_id']
  rfl

theorem Config.ofDocument?_of_heldBy {g : Given} (h : g.HeldBy d) :
    ofDocument? d = some g.filled := by
  obtain ⟨entries, rfl, hevents, hqueries, hfetches, horigins, hplatform⟩ := h
  have hmembers : (Document.ofEntries entries).members? fieldNames [] = some _ :=
    members?_ofEntries (fun _ _ => rfl) (by
      simp only [fieldNames, List.forall_mem_cons]
      exact ⟨hevents.count_le_one, hqueries.count_le_one, hfetches.count_le_one,
        horigins.count_le_one, hplatform.count_le_one, nofun⟩)
  have hread {name : String} {given : Option (List String)} (hname : name ∈ fieldNames)
      (h : Holds name IsTexts entries given) (default : List String) :=
    getD?_of_holds hname h IsTexts.list?_eq default
  have hcalls := getD?_of_holds (by decide : "platform" ∈ fieldNames) hplatform
    PlatformCalls.ofDocument?_of_heldBy standard.platform
  rw [ofDocument?, hmembers]
  simp only [Option.bind_eq_bind, Option.bind_some, hread (by decide) hevents,
    hread (by decide) hqueries, hread (by decide) hfetches, hread (by decide) horigins, hcalls,
    Option.map_id']
  rfl

theorem Config.ofText_of_spelling {g : Given} {text : String} (h : g.HeldBy d)
    (htext : Spelling (.document d) text.toList) :
    ofText text =
      match g.filled.problem? with
      | none => .ok g.filled
      | some p => .error (.invalid p) := by
  rw [ofText, read?_of_spelling htext, Option.bind_some, ofDocument?_of_heldBy h]
  simp only [checked]
  cases g.filled.problem? <;> rfl

/-! ### Written configurations -/

namespace PlatformCalls

/-- All fields, in the order in which they are declared. -/
def fields (p : PlatformCalls) : List (String × Value) :=
  [("eventRegistration", .string p.eventRegistration), ("apiInvocation", .string p.apiInvocation)]

/-- An object with all fields, in any order. -/
def IsWritten (p : PlatformCalls) (v : Value) : Prop :=
  ∃ fields, fields.Perm p.fields ∧ v = .object fields

end PlatformCalls

namespace Config

/-- All fields, in the order in which they are declared, around the platform calls. -/
def fields (c : Config) (platform : Value) : List (String × Value) :=
  [("eventCallees", .ofList .string c.eventCallees),
    ("selectorQueries", .ofList .string c.selectorQueries),
    ("fetchCallees", .ofList .string c.fetchCallees),
    ("allowedOrigins", .ofList .string c.allowedOrigins),
    ("platform", platform)]

/-- An object with all fields, in any order. -/
def IsWritten (c : Config) (v : Value) : Prop :=
  ∃ platform fields, c.platform.IsWritten platform ∧ fields.Perm (c.fields platform) ∧
    v = .object fields

/-- Everything given. -/
def given (c : Config) : Given :=
  ⟨some c.eventCallees, some c.selectorQueries, some c.fetchCallees, some c.allowedOrigins,
    some ⟨some c.platform.eventRegistration, some c.platform.apiInvocation⟩⟩

end Config

/-- A record whose fields have whole numbers has them in any order. -/
theorem integral_of_perm {fields written : List (String × Value)} (hperm : written.Perm fields)
    (h : IntegralFields fields) : (Value.object written).Integral :=
  integralFields_iff.2 fun f hf => integralFields_iff.1 h f (hperm.mem_iff.1 hf)

theorem PlatformCalls.isWritten_toValue (p : PlatformCalls) : p.IsWritten p.toValue :=
  ⟨_, Fields.perm_ofList (by decide : ["eventRegistration", "apiInvocation"].Nodup), rfl⟩

theorem Config.isWritten_toValue (c : Config) : c.IsWritten c.toValue :=
  ⟨_, _, c.platform.isWritten_toValue, Fields.perm_ofList (by decide : fieldNames.Nodup), rfl⟩

theorem PlatformCalls.IsWritten.integral {p : PlatformCalls} (h : p.IsWritten v) : v.Integral := by
  obtain ⟨fields, hperm, rfl⟩ := h
  exact integral_of_perm hperm ⟨trivial, trivial, trivial⟩

theorem Config.IsWritten.integral {c : Config} (h : c.IsWritten v) : v.Integral := by
  obtain ⟨platform, fields, hplatform, hperm, rfl⟩ := h
  exact integral_of_perm hperm ⟨integralItems_strings _, integralItems_strings _,
    integralItems_strings _, integralItems_strings _, hplatform.integral, trivial⟩

theorem isText_string (s : String) : IsText s (.ofValue (.string s)) := rfl

theorem isTexts_ofList (ss : List String) : IsTexts ss (.ofValue (.ofList .string ss)) := by
  rw [Value.ofList, Document.ofValue, Document.ofItems_eq_map, List.map_map]
  rfl

theorem PlatformCalls.IsWritten.heldBy {p : PlatformCalls} (h : p.IsWritten v) :
    Given.HeldBy ⟨some p.eventRegistration, some p.apiInvocation⟩ (.ofValue v) := by
  obtain ⟨fields, hperm, rfl⟩ := h
  have hnodup : ["eventRegistration", "apiInvocation"].Nodup := by decide
  have hholds {name s : String} (hmem : (name, .string s) ∈ p.fields) :
      Holds name IsText (Document.fieldsOf fields) (some s) :=
    holds_of_perm hperm hnodup hmem (isText_string s)
  exact ⟨_, Document.ofValue_object fields, hholds (by simp [PlatformCalls.fields]),
    hholds (by simp [PlatformCalls.fields])⟩

theorem Config.IsWritten.heldBy {c : Config} (h : c.IsWritten v) :
    c.given.HeldBy (.ofValue v) := by
  obtain ⟨platform, fields, hplatform, hperm, rfl⟩ := h
  have hnodup : fieldNames.Nodup := by decide
  have hholds {name : String} {ss : List String}
      (hmem : (name, .ofList .string ss) ∈ c.fields platform) :
      Holds name IsTexts (Document.fieldsOf fields) (some ss) :=
    holds_of_perm hperm hnodup hmem (isTexts_ofList ss)
  have hcalls : Holds "platform" PlatformCalls.Given.HeldBy (Document.fieldsOf fields) _ :=
    holds_of_perm hperm hnodup (by simp [Config.fields]) hplatform.heldBy
  exact ⟨_, Document.ofValue_object fields, hholds (by simp [Config.fields]),
    hholds (by simp [Config.fields]), hholds (by simp [Config.fields]),
    hholds (by simp [Config.fields]), hcalls⟩

/-! ### Written options -/

namespace Options

/-- All fields, in the order in which they are declared. What is left out is null. -/
def fields (o : Options) : List (String × Value) :=
  [("filename", .ofOption .string o.filename), ("targetMode", .ofOption Mode.toValue o.targetMode),
    ("sourceMap", .ofOption .bool o.sourceMap)]

/-- An object with all fields, in any order. -/
def IsWritten (o : Options) (v : Value) : Prop :=
  ∃ fields, fields.Perm o.fields ∧ v = .object fields

end Options

/-- A document that is what may be null, or null. -/
def IsOption {α : Type} (write : α → Value) (x : Option α) (d : Document) : Prop :=
  d = .ofValue (.ofOption write x)

/-- What may be null is read back where the reader of the rest knows no null. -/
theorem IsOption.option?_eq {α : Type} {write : α → Value} {x : Option α}
    (read : Document → Option α) (hnull : read .null = none)
    (hread : ∀ a, read (.ofValue (write a)) = some a) (h : IsOption write x d) :
    d.option? read = some x := by
  rw [h]
  cases x with
  | none => rfl
  | some a =>
    rw [Value.ofOption]
    unfold Document.option?
    split
    · next hwritten => cases hnull.symm.trans (hwritten ▸ hread a)
    · rw [hread a, Option.map_some]

theorem Mode.ofDocument?_toValue (m : Mode) : ofDocument? (.ofValue m.toValue) = some m := by
  cases m <;> rfl

section

variable {o : Options} {fields : List (String × Value)}

theorem Options.holds_of_perm (hperm : fields.Perm o.fields) {α : Type} {name : String}
    {write : α → Value} {x : Option α} (h : (name, .ofOption write x) ∈ o.fields) :
    Holds name (IsOption write) (Document.fieldsOf fields) (some x) :=
  Json.holds_of_perm hperm (by decide : ["filename", "targetMode", "sourceMap"].Nodup) h rfl

/-- Options are written under their own names. -/
theorem Options.lookup_alias_of_perm (hperm : fields.Perm o.fields) :
    ∀ e ∈ Document.fieldsOf fields, [("wantSourceMap", "sourceMap")].lookup e.1 = .none := by
  intro e he
  have hname : e.1 ∈ fields.map Prod.fst :=
    Document.map_fst_fieldsOf fields ▸ List.mem_map_of_mem he
  have hnone : ∀ name ∈ ["filename", "targetMode", "sourceMap"],
      [("wantSourceMap", "sourceMap")].lookup name = .none := by decide
  exact hnone e.1 ((hperm.map Prod.fst).mem_iff.1 hname)

end

theorem Options.IsWritten.ofDocument?_eq {o : Options} (h : o.IsWritten v) :
    ofDocument? (.ofValue v) = some o := by
  obtain ⟨fields, hperm, rfl⟩ := h
  have hfilename := holds_of_perm hperm
    (by simp [Options.fields] : ("filename", Value.ofOption .string o.filename) ∈ o.fields)
  have hmode := holds_of_perm hperm
    (by simp [Options.fields] : ("targetMode", Value.ofOption Mode.toValue o.targetMode) ∈ o.fields)
  have hsourceMap := holds_of_perm hperm
    (by simp [Options.fields] : ("sourceMap", Value.ofOption .bool o.sourceMap) ∈ o.fields)
  have hmembers : (Document.ofEntries (Document.fieldsOf fields)).members?
      ["filename", "targetMode", "sourceMap"] [("wantSourceMap", "sourceMap")] = some _ :=
    members?_ofEntries (lookup_alias_of_perm hperm) (by
      simp only [List.forall_mem_cons]
      exact ⟨hfilename.count_le_one, hmode.count_le_one, hsourceMap.count_le_one, nofun⟩)
  have hread {α : Type} {name : String} {write : α → Value} {x : Option α}
      (hname : name ∈ ["filename", "targetMode", "sourceMap"])
      (h : Holds name (IsOption write) (Document.fieldsOf fields) (some x))
      (read : Document → Option α) (hnull : read .null = .none)
      (hback : ∀ a, read (.ofValue (write a)) = some a) :=
    getD?_of_holds hname h (IsOption.option?_eq read hnull hback) .none
  rw [Document.ofValue_object, ofDocument?, hmembers]
  simp only [Option.bind_eq_bind, Option.bind_some,
    hread (by decide) hfilename Document.text? rfl fun _ => rfl,
    hread (by decide) hmode Mode.ofDocument? rfl Mode.ofDocument?_toValue,
    hread (by decide) hsourceMap Document.bool? rfl fun _ => rfl]
  rfl

theorem Options.isWritten_toValue (o : Options) : o.IsWritten o.toValue :=
  ⟨_, Fields.perm_ofList (by decide : ["filename", "targetMode", "sourceMap"].Nodup), rfl⟩

theorem Options.IsWritten.integral {o : Options} (h : o.IsWritten v) : v.Integral := by
  obtain ⟨fields, hperm, rfl⟩ := h
  refine integral_of_perm hperm ⟨?_, ?_, ?_, trivial⟩
  · cases o.filename <;> trivial
  · cases o.targetMode <;> trivial
  · cases o.sourceMap <;> trivial

/-! ### Round trips -/

/-- A valid configuration is read back from its text, with its fields in any order. Any text of an
object is read as what it gives, with the standard for the rest, or is refused for the fault that
this configuration has. Options are read back from their text. -/
theorem configuration_roundTrip :
    (∀ c : Config, c.IsWritten c.toValue ∧
      (c.isValid → ∀ v, c.IsWritten v → Config.ofText v.render = .ok c)) ∧
    (∀ (g : Config.Given) (d : Document) (text : String), g.HeldBy d →
      Spelling (.document d) text.toList →
      Config.ofText text =
        match g.filled.problem? with
        | none => .ok g.filled
        | some p => .error (.invalid p)) ∧
    ∀ o : Options, o.IsWritten o.toValue ∧
      ∀ v, o.IsWritten v → Options.ofText? v.render = some o := by
  refine ⟨fun c => ⟨c.isWritten_toValue, fun hvalid v hv => ?_⟩,
    fun g d text h htext => Config.ofText_of_spelling h htext,
    fun o => ⟨o.isWritten_toValue, fun v hv => ?_⟩⟩
  · have hfilled : c.given.filled = c := rfl
    have hproblem : c.problem? = none := Option.isNone_iff_eq_none.1 hvalid
    have hread := Config.ofText_of_spelling hv.heldBy (spelling_render v hv.integral)
    rwa [hfilled, hproblem] at hread
  · rw [Options.ofText?, read?_of_spelling (spelling_render v hv.integral)]
    exact hv.ofDocument?_eq

/-- A configuration with names that have to be escaped. -/
def quotedConfig : Config := { Config.standard with fetchCallees := ["fetch", "say \"\\\x01\n\""] }

/-- A few fields, at both levels, among others that no configuration has. -/
def partialValue : Value :=
  .object [("plugins", .array [.null, .nat 2]),
    ("platform", .object [("apiInvocation", .string "app.api"), ("version", .nat 2)]),
    ("fetchCallees", .ofList .string ["fetch", "http.get"])]

def partialGiven : Config.Given :=
  ⟨none, none, some ["fetch", "http.get"], none, some ⟨none, some "app.api"⟩⟩

/-- A callee of fetches that is one of events by default. -/
def sharedValue : Value := .object [("fetchCallees", .ofList .string ["window.addEventListener"])]

def sharedGiven : Config.Given := ⟨none, none, some ["window.addEventListener"], none, none⟩

theorem configuration_roundTrip_partial :
    quotedConfig.isValid ∧ Config.ofText quotedConfig.toValue.render = .ok quotedConfig ∧
    partialGiven.HeldBy (.ofValue partialValue) ∧
    Config.ofText (String.ofList (' ' :: (partialValue.write ++ ['\n']))) =
      .ok { Config.standard with
        fetchCallees := ["fetch", "http.get"], platform := ⟨"kintone.events.on", "app.api"⟩ } ∧
    sharedGiven.HeldBy (.ofValue sharedValue) ∧
    Config.ofText sharedValue.render =
      .error (.invalid (.overlappingCallee "window.addEventListener")) ∧
    Options.ofText? (Options.toValue ⟨some "a.js", none, some true⟩).render =
      some ⟨some "a.js", none, some true⟩ := by
  obtain ⟨hconfigs, htexts, hoptions⟩ := configuration_roundTrip
  have hvalid : quotedConfig.isValid := by decide +kernel
  have hcalls : PlatformCalls.Given.HeldBy ⟨none, some "app.api"⟩
      (.ofValue (.object [("apiInvocation", .string "app.api"), ("version", .nat 2)])) :=
    ⟨_, Document.ofValue_object _, .absent (by decide),
      holds_of_mem (by decide) (List.mem_cons_self ..) rfl⟩
  have hpartial : partialGiven.HeldBy (.ofValue partialValue) :=
    ⟨_, Document.ofValue_object _, .absent (by decide), .absent (by decide),
      holds_of_mem (by decide) (by simp) (isTexts_ofList _), .absent (by decide),
      holds_of_mem (by decide) (by simp) hcalls⟩
  have hshared : sharedGiven.HeldBy (.ofValue sharedValue) :=
    ⟨_, Document.ofValue_object _, .absent (by decide), .absent (by decide),
      holds_of_mem (by decide) (List.mem_cons_self ..) (isTexts_ofList _), .absent (by decide),
      .absent (by decide)⟩
  have htwo : (Value.nat 2).Integral := ⟨2, rfl, by decide, by decide⟩
  have hintegral : partialValue.Integral :=
    ⟨⟨trivial, htwo, trivial⟩, ⟨trivial, htwo, trivial⟩, integralItems_strings _, trivial⟩
  have hspace : IsBlanks [' '] := by simp [IsBlanks, isJsonBlank]
  have hend : IsBlanks ['\n'] := by simp [IsBlanks, isJsonBlank]
  have hspelled : Spelling (.document (.ofValue partialValue))
      (String.ofList (' ' :: (partialValue.write ++ ['\n']))).toList := by
    rw [String.toList_ofList]
    exact .blanks hspace (spelling_write partialValue hintegral) hend
  have hread := htexts _ _ _ hpartial hspelled
  have hshort : sharedValue.Integral := ⟨integralItems_strings _, trivial⟩
  have hrefused := htexts _ _ _ hshared (spelling_render sharedValue hshort)
  have hproblem : partialGiven.filled.problem? = none := by decide +kernel
  have hfault : sharedGiven.filled.problem? =
      some (.overlappingCallee "window.addEventListener") := by decide +kernel
  rw [hproblem] at hread
  rw [hfault] at hrefused
  exact ⟨hvalid, (hconfigs quotedConfig).2 hvalid _ (hconfigs quotedConfig).1, hpartial, hread,
    hshared, hrefused, (hoptions _).2 _ (hoptions _).1⟩

end CallBridge
