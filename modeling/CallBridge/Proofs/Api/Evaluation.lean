import CallBridge.Proofs.Api.Body
import CallBridge.Proofs.Api.Query
import CallBridge.Proofs.Json.Fields

/-!
# Requests with a body put in later

A request whose body is not known yet carries it as a parameter. Once the body is known, the
parameters make an object: they are read from the left, and what comes later wins. The parameter of
a body that is spread stands under a key of its own, which a query can use as well. Main statement:
the object is the one that is sent when the body is known from the start, exactly when the body is
nested under a key, or the query leaves the reserved key alone, or the body makes up for what is
lost (`deferred_means_known_iff`).
-/

namespace CallBridge

open Collection Json

/-! ### The object that parameters make -/

/-- Puts what a parameter stands for among fields: its value, the body under its key, or the fields
of the body. -/
def Param.putIn (body : Fields) (key : String) (fields : Fields) : Param → Fields
  | .json v => Fields.put key v fields
  | .body => Fields.put key (.object body) fields
  | .spread => Fields.merge body fields

/-- The object that the parameters of a request make with an object for the body. -/
def PlatformRequest.objectWith (r : PlatformRequest) (body : Fields) : Fields :=
  r.params.foldl (fun fields e => e.2.putIn body e.1 fields) []

/-- What the entry of a key says of a field. -/
def Param.field? (body : Fields) (key name : String) : Param → Option Value
  | .json v => if name = key then some v else none
  | .body => if name = key then some (.object body) else none
  | .spread => Fields.get? name body

/-- What parameters say of a field: the last one that says anything. -/
def lastField? (body : Fields) (name : String) : Ordered String Param → Option Value
  | [] => none
  | (key, p) :: rest => (lastField? body name rest).or (p.field? body key name)

variable {body : Fields} {ps : Ordered String Param} {out : PlatformRequest}

theorem Param.get?_putIn (hbody : (body.map Prod.fst).Nodup) (key name : String) (fields : Fields)
    (p : Param) :
    Fields.get? name (p.putIn body key fields) =
      (p.field? body key name).or (Fields.get? name fields) := by
  cases p with
  | json v =>
    rw [putIn, field?, Fields.get?_put]
    split <;> rfl
  | body =>
    rw [putIn, field?, Fields.get?_put]
    split <;> rfl
  | spread => exact Fields.get?_merge hbody fields name

/-- A field of the object is what the last parameter that knows of it says. -/
theorem PlatformRequest.get?_objectWith (hbody : (body.map Prod.fst).Nodup) (name : String)
    (r : PlatformRequest) :
    Fields.get? name (r.objectWith body) = lastField? body name r.params := by
  have hfold : ∀ (ps : Ordered String Param) (fields : Fields),
      Fields.get? name (ps.foldl (fun fields e => e.2.putIn body e.1 fields) fields) =
        (lastField? body name ps).or (Fields.get? name fields) := by
    intro ps
    induction ps with
    | nil => exact fun fields => rfl
    | cons e rest ih =>
      intro fields
      rw [List.foldl_cons, ih, Param.get?_putIn hbody, lastField?, Option.or_assoc]
  rw [objectWith, hfold]
  exact Option.or_none

/-! ### Known parameters -/

/-- Parameters under different keys, each with a value. -/
structure Known (ps : Ordered String Param) : Prop where
  values : ∀ e ∈ ps, carriesBody e = false
  keys : (Ordered.keys ps).Nodup

theorem exists_json_of_value {key : String} {p : Param} (h : carriesBody (key, p) = false) :
    ∃ v, p = .json v := by
  cases p with
  | json v => exact ⟨v, rfl⟩
  | body => cases h
  | spread => cases h

theorem known_nil : Known [] := ⟨fun _ he => absurd he List.not_mem_nil, List.Pairwise.nil⟩

theorem Known.set (h : Known ps) (key : String) (v : Value) :
    Known (Ordered.set key (.json v) ps) where
  values e he := by
    rcases Ordered.mem_set he with rfl | he
    · rfl
    · exact h.values e he
  keys := Ordered.nodup_keys_set h.keys key _

/-- The first of known parameters has a value, and the others are known. -/
theorem Known.cons {key : String} {p : Param} (h : Known ((key, p) :: ps)) :
    (∃ v, p = .json v) ∧ key ∉ Ordered.keys ps ∧ Known ps := by
  have hvalue : carriesBody (key, p) = false := h.values _ (List.mem_cons_self ..)
  obtain ⟨hkey, hkeys⟩ := List.nodup_cons.1 h.keys
  refine ⟨?_, hkey, fun e he => h.values e (List.mem_cons_of_mem _ he), hkeys⟩
  exact exists_json_of_value hvalue

theorem Known.exists_json (h : Known ps) {name : String} {p : Param}
    (hp : Ordered.get? name ps = some p) : ∃ v, p = .json v :=
  exists_json_of_value (h.values _ (Ordered.mem_of_get? hp))

/-- Known parameters say of a field what they hold. -/
theorem Known.lastField?_eq (h : Known ps) (body : Fields) (name : String) :
    (lastField? body name ps).map Param.json = Ordered.get? name ps := by
  induction ps with
  | nil => rfl
  | cons e rest ih =>
    obtain ⟨key, p⟩ := e
    obtain ⟨⟨v, rfl⟩, hkey, hrest⟩ := h.cons
    have hfield := ih hrest
    rw [lastField?, Ordered.get?, Param.field?]
    by_cases hname : name = key
    · rw [Ordered.get?_eq_none_iff.2 (hname ▸ hkey), Option.map_eq_none_iff] at hfield
      rw [if_pos hname, if_pos hname, hfield]
      rfl
    · rw [if_neg hname, if_neg hname, Option.or_none, hfield]

theorem Known.lastField?_of_get? (h : Known ps) (body : Fields) {name : String} {v : Value}
    (hv : Ordered.get? name ps = some (.json v)) : lastField? body name ps = some v := by
  rw [← h.lastField?_eq body name, Option.map_eq_some_iff] at hv
  obtain ⟨w, hw, heq⟩ := hv
  rw [hw, Param.json.inj heq]

theorem Known.behind (h : Known ps) (key : String) : Known (Ordered.behind key ps) := by
  induction ps with
  | nil => exact known_nil
  | cons e rest ih =>
    obtain ⟨k, p⟩ := e
    obtain ⟨-, -, hrest⟩ := h.cons
    rw [Ordered.behind]
    split
    · exact hrest
    · exact ih hrest

/-! ### Bodies among known parameters -/

/-- A nested body is its object under the same key. -/
theorem lastField?_set_body (key name : String) (ps : Ordered String Param) :
    lastField? body name (Ordered.set key .body ps) =
      lastField? body name (Ordered.set key (.json (.object body)) ps) := by
  induction ps with
  | nil => rfl
  | cons e rest ih =>
    obtain ⟨k, p⟩ := e
    rw [Ordered.set, Ordered.set]
    split
    · rfl
    · rw [lastField?, lastField?, ih]

/-- A spread body hides the parameters before its place, and is hidden by those behind it. What the
reserved key held is gone. -/
theorem Known.lastField?_set_spread (h : Known ps) (body : Fields) (name : String) :
    lastField? body name (Ordered.set spreadKey .spread ps) =
      (lastField? body name (Ordered.behind spreadKey ps)).or
        ((Fields.get? name body).or
          (if name = spreadKey then none else lastField? body name ps)) := by
  induction ps with
  | nil =>
    have hnone : (if name = spreadKey then none else lastField? body name []) = none := ite_self _
    rw [hnone, Option.or_none]
    rfl
  | cons e rest ih =>
    obtain ⟨key, p⟩ := e
    obtain ⟨⟨v, rfl⟩, -, hrest⟩ := h.cons
    rw [Ordered.set, Ordered.behind]
    by_cases hkey : spreadKey = key
    · -- the rest is what stands behind; the value under the reserved key is replaced
      subst hkey
      rw [if_pos rfl, if_pos rfl, lastField?, lastField?, Param.field?, Param.field?]
      by_cases hname : name = spreadKey
      · rw [if_pos hname, Option.or_none]
      · rw [if_neg hname, if_neg hname, Option.or_none]
        cases lastField? body name rest with
        | none => rw [Option.or_none]
        | some w => rfl
    · rw [if_neg hkey, if_neg hkey, lastField?, ih hrest, lastField?, Option.or_assoc,
        Option.or_assoc]
      by_cases hname : name = spreadKey
      · have hother : name ≠ key := fun heq => hkey (hname ▸ heq)
        rw [if_pos hname, if_pos hname, Param.field?, if_neg hother]
        rfl
      · rw [if_neg hname, if_neg hname]

/-- The fields of a known body win over the parameters that are there. -/
theorem param?_spreadBody_known (hbody : (body.map Prod.fst).Nodup) (out : PlatformRequest)
    (name : String) :
    (ApiCatalogue.spreadBody out (some (.json (.object body)))).param? name =
      ((Fields.get? name body).map Param.json).or (out.param? name) := by
  change (body.foldl (fun out f => out.set f.1 (.json f.2)) out).param? name = _
  induction body generalizing out with
  | nil => rfl
  | cons f rest ih =>
    obtain ⟨key, v⟩ := f
    rw [List.map_cons, List.nodup_cons] at hbody
    rw [List.foldl_cons, ih hbody.2, PlatformRequest.param?_set, Fields.get?_cons]
    split
    · next hname =>
      rw [hname, Fields.get?_eq_none_of_notMem hbody.1]
      rfl
    · rfl

/-! ### Mappings -/

/-- A request with a body put in later makes what is sent under a known body. -/
def MeansKnown (m : ApiMapping) (url method : String) (body : Fields) : Prop :=
  ∀ name,
    (m.transform.request ⟨url, method, some (.json (.object body))⟩).param? name =
      (Fields.get? name
        ((m.transform.request ⟨url, method, some .deferred⟩).objectWith body)).map Param.json

/-- A body that makes up for the reserved key: it has a field of that name, and no field that a
parameter behind the key holds a different value of. -/
def Covers (body : Fields) (ps : Ordered String Param) : Prop :=
  (Fields.get? spreadKey body).isSome ∧
    ∀ name v w, Ordered.get? name (Ordered.behind spreadKey ps) = some (.json v) →
      Fields.get? name body = some w → v = w

/-- Exactly when the reserved key is free or the body makes up for it, the fields of a body win over
all parameters wherever they are spread. -/
theorem Known.agrees_iff (h : Known ps) (body : Fields) :
    (∀ name, (Fields.get? name body).or (lastField? body name ps) =
      (lastField? body name (Ordered.behind spreadKey ps)).or
        ((Fields.get? name body).or
          (if name = spreadKey then none else lastField? body name ps))) ↔
      Ordered.get? spreadKey ps = none ∨ Covers body ps := by
  have hbehind : ∀ {name v}, lastField? body name (Ordered.behind spreadKey ps) = some v →
      name ≠ spreadKey ∧ lastField? body name ps = some v := fun {name v} hv => by
    have hget : Ordered.get? name (Ordered.behind spreadKey ps) = some (.json v) := by
      rw [← (h.behind spreadKey).lastField?_eq body name, hv]
      rfl
    obtain ⟨hne, hps⟩ := Ordered.get?_behind h.keys hget
    exact ⟨hne, h.lastField?_of_get? body hps⟩
  constructor
  · intro hall
    cases hreserved : Ordered.get? spreadKey ps with
    | none => exact Or.inl rfl
    | some p =>
      refine Or.inr ⟨?_, fun name v w hv hw => ?_⟩
      · -- what the reserved key held shows up unless the body has that field
        obtain ⟨v, rfl⟩ := h.exists_json hreserved
        have hsk := hall spreadKey
        rw [h.lastField?_of_get? body hreserved, if_pos rfl, Option.or_none] at hsk
        cases hb : Fields.get? spreadKey body with
        | some w => rfl
        | none =>
          rw [hb, Option.or_none] at hsk
          exact absurd rfl (hbehind hsk.symm).1
      · have hname := hall name
        rw [(h.behind spreadKey).lastField?_of_get? body hv, hw] at hname
        exact (Option.some.inj hname).symm
  · intro hfree name
    by_cases hname : name = spreadKey
    · cases ht : lastField? body name (Ordered.behind spreadKey ps) with
      | some v => exact absurd hname (hbehind ht).1
      | none =>
        rw [if_pos hname, Option.or_none, Option.none_or, hname]
        rcases hfree with hfree | hcovers
        · rw [← h.lastField?_eq body, Option.map_eq_none_iff] at hfree
          rw [hfree, Option.or_none]
        · obtain ⟨w, hw⟩ := Option.isSome_iff_exists.1 hcovers.1
          rw [hw, Option.some_or]
    · rw [if_neg hname]
      cases ht : lastField? body name (Ordered.behind spreadKey ps) with
      | none => rfl
      | some v =>
        rw [(hbehind ht).2, Option.some_or]
        cases hb : Fields.get? name body with
        | none => rfl
        | some w =>
          have hget : Ordered.get? name (Ordered.behind spreadKey ps) = some (.json v) := by
            rw [← (h.behind spreadKey).lastField?_eq body name, ht]
            rfl
          rcases hfree with hfree | hcovers
          · rw [Ordered.behind_eq_nil (Ordered.get?_eq_none_iff.1 hfree)] at hget
            cases hget
          · rw [hcovers.2 name v w hget hb, Option.some_or]

/-- A mapping that sends a body under a key. -/
structure NestsBody (m : ApiMapping) : Prop where
  known : ∀ url method, Known (m.transform.request ⟨url, method, none⟩).params
  nests : ∃ key, ∀ url method body,
    m.transform.request ⟨url, method, some body⟩ =
      (m.transform.request ⟨url, method, none⟩).set key body.toParam

/-- A mapping that sends the fields of a body among the parameters. -/
structure SpreadsBody (m : ApiMapping) : Prop where
  known : ∀ url method, Known (m.transform.request ⟨url, method, none⟩).params
  spreads : ∀ url method body,
    m.transform.request ⟨url, method, some body⟩ =
      ApiCatalogue.spreadBody (m.transform.request ⟨url, method, none⟩) (some body)

variable {m : ApiMapping}

theorem NestsBody.meansKnown (h : NestsBody m) (url method : String)
    (hbody : (body.map Prod.fst).Nodup) : MeansKnown m url method body := by
  intro name
  obtain ⟨key, hkey⟩ := h.nests
  have hset := (h.known url method).set key (.object body)
  rw [PlatformRequest.get?_objectWith hbody, hkey, hkey]
  change _ = (lastField? body name (Ordered.set key .body _)).map Param.json
  rw [lastField?_set_body]
  exact (hset.lastField?_eq body name).symm

theorem SpreadsBody.meansKnown_iff (h : SpreadsBody m) (url method : String)
    (hbody : (body.map Prod.fst).Nodup) :
    MeansKnown m url method body ↔
      (m.transform.request ⟨url, method, none⟩).param? spreadKey = none ∨
        Covers body (m.transform.request ⟨url, method, none⟩).params := by
  have hknown := h.known url method
  refine Iff.trans (forall_congr' fun name => ?_) (hknown.agrees_iff body)
  rw [h.spreads, h.spreads, param?_spreadBody_known hbody, PlatformRequest.get?_objectWith hbody,
    PlatformRequest.param?, ← hknown.lastField?_eq body name, ← Option.map_or]
  change _ = (lastField? body name (Ordered.set _ _ _)).map _ ↔ _
  rw [hknown.lastField?_set_spread]
  exact (Option.map_injective fun _ _ => Param.json.inj).eq_iff

/-- A spread body stands under no key of its own. -/
theorem SpreadsBody.param?_ne_body (h : SpreadsBody m) (url method key : String) :
    (m.transform.request ⟨url, method, some .deferred⟩).param? key ≠ some .body := by
  intro hbody
  rw [h.spreads] at hbody
  change ((m.transform.request ⟨url, method, none⟩).set spreadKey .spread).param? key = _ at hbody
  rw [PlatformRequest.param?_set] at hbody
  split at hbody
  · cases hbody
  · obtain ⟨v, hv⟩ := (h.known url method).exists_json hbody
    cases hv

/-! ### The catalogue -/

namespace ApiCatalogue

theorem known_withQuery (path : String) (r : WebRequest) : Known (withQuery path r).params where
  values := carriesBody_withQuery path r
  keys := by
    rw [keys_withQuery]
    exact Url.nodup_keys_parameters _

theorem spreadsBody_reading {path : String} (h : m.transform.request = reading path) :
    SpreadsBody m where
  known url method := by
    rw [h]
    exact known_withQuery path _
  spreads url method body := by
    rw [h]
    rfl

theorem nestsBody_writing (h : m.transform.request = writing) : NestsBody m where
  known url method := by
    rw [h]
    exact known_withQuery recordPath _
  nests := by
    rw [h]
    exact ⟨"record", fun url method body => rfl⟩

theorem mem_keys_of_jsonParam? {key : String} {v : Value} (h : out.jsonParam? key = some v) :
    key ∈ Ordered.keys out.params := by
  unfold PlatformRequest.jsonParam? PlatformRequest.param? at h
  split at h
  · next w hw => exact Ordered.isSome_get?_iff.1 (hw ▸ rfl)
  · cases h

/-- A list of ids stands where the query has the ids. -/
theorem deleting_eq (url method : String) :
    deleting ⟨url, method, none⟩ = withQuery recordsPath ⟨url, method, none⟩ ∨
      ∃ ids, (withQuery recordsPath ⟨url, method, none⟩).jsonParam? "ids" = some ids ∧
        deleting ⟨url, method, none⟩ =
          (withQuery recordsPath ⟨url, method, none⟩).set "ids" (.json (asList ids)) := by
  unfold deleting
  dsimp only [spreadBody]
  split
  · next ids hids => exact Or.inr ⟨ids, hids, rfl⟩
  · exact Or.inl rfl

theorem known_deleting (url method : String) : Known (deleting ⟨url, method, none⟩).params := by
  rcases deleting_eq url method with h | ⟨ids, -, h⟩
  · rw [h]
    exact known_withQuery recordsPath _
  · rw [h]
    exact (known_withQuery recordsPath _).set "ids" _

theorem spreadsBody_deleting (h : m.transform.request = deleting) : SpreadsBody m where
  known url method := by
    rw [h]
    exact known_deleting url method
  spreads url method body := by
    rw [h]
    rfl

theorem nestsBody_or_spreadsBody (hm : m ∈ all) : NestsBody m ∨ SpreadsBody m := by
  simp only [all, List.mem_cons, List.not_mem_nil, or_false] at hm
  rcases hm with rfl | rfl | rfl | rfl | rfl
  · exact Or.inr (spreadsBody_reading rfl)
  · exact Or.inr (spreadsBody_reading rfl)
  · exact Or.inl (nestsBody_writing rfl)
  · exact Or.inl (nestsBody_writing rfl)
  · exact Or.inr (spreadsBody_deleting rfl)

/-- A request without a body has the keys of the query. -/
theorem keys_of_mem_all (hm : m ∈ all) (url method : String) :
    Ordered.keys (m.transform.request ⟨url, method, none⟩).params =
      Ordered.keys (Url.parameters url.toList) := by
  have hdeleting : Ordered.keys (deleting ⟨url, method, none⟩).params =
      Ordered.keys (Url.parameters url.toList) := by
    rw [← keys_withQuery recordsPath ⟨url, method, none⟩]
    rcases deleting_eq url method with h | ⟨ids, hids, h⟩
    · rw [h]
    · rw [h]
      exact (Ordered.keys_set ..).trans (if_pos (mem_keys_of_jsonParam? hids))
  simp only [all, List.mem_cons, List.not_mem_nil, or_false] at hm
  rcases hm with rfl | rfl | rfl | rfl | rfl
  · exact keys_withQuery recordsPath _
  · exact keys_withQuery recordPath _
  · exact keys_withQuery recordPath _
  · exact keys_withQuery recordPath _
  · exact hdeleting

/-- A body that is put in later means what it means when it is known, exactly when the mapping nests
it, or the query leaves the reserved key alone, or the body covers what is lost under that key. -/
theorem deferred_means_known_iff (hm : m ∈ all) (url method : String)
    (hbody : (body.map Prod.fst).Nodup) :
    MeansKnown m url method body ↔
      (∃ key, (m.transform.request ⟨url, method, some .deferred⟩).param? key = some .body) ∨
        spreadKey ∉ Ordered.keys (Url.parameters url.toList) ∨
          Covers body (m.transform.request ⟨url, method, none⟩).params := by
  rcases nestsBody_or_spreadsBody hm with hnests | hspreads
  · obtain ⟨key, hkey⟩ := hnests.nests
    have hparam : (m.transform.request ⟨url, method, some .deferred⟩).param? key = some .body := by
      rw [hkey, PlatformRequest.param?_set, if_pos rfl]
      rfl
    exact iff_of_true (hnests.meansKnown url method hbody) (Or.inl ⟨key, hparam⟩)
  · have hno : ¬∃ key, (m.transform.request ⟨url, method, some .deferred⟩).param? key =
        some .body := fun ⟨key, hkey⟩ => hspreads.param?_ne_body url method key hkey
    rw [hspreads.meansKnown_iff url method hbody, or_iff_right hno, PlatformRequest.param?,
      Ordered.get?_eq_none_iff, keys_of_mem_all hm]

/-- Ids in the query and in the body of a deleting request. -/
theorem deferred_means_known_ids :
    ∃ m ∈ all, m.platformName = "record.delete" ∧
      (([("app", .nat 7), ("ids", .array [.nat 8])] : Fields).map Prod.fst).Nodup ∧
        MeansKnown m "/api/record?app=1&ids=5" "DELETE"
          [("app", .nat 7), ("ids", .array [.nat 8])] := by
  have hnodup : (([("app", .nat 7), ("ids", .array [.nat 8])] : Fields).map Prod.fst).Nodup := by
    decide
  have hfree : spreadKey ∉ Ordered.keys (Url.parameters "/api/record?app=1&ids=5".toList) := by
    decide +kernel
  have hmem : all[4] ∈ all := List.getElem_mem _
  exact ⟨_, hmem, rfl, hnodup,
    (deferred_means_known_iff hmem _ _ hnodup).2 (Or.inr (Or.inl hfree))⟩

/-- A query that uses the reserved key: what it holds is lost, and the parameter behind it hides the
field of a body that is put in later. -/
theorem reservedKey_lost :
    ∃ m ∈ all, m.platformName = "records.get" ∧
      ¬MeansKnown m "/api/records?...=x&app=1" "GET" [("app", .nat 7)] := by
  have hmem : all[0] ∈ all := List.getElem_mem _
  refine ⟨_, hmem, rfl, fun h => ?_⟩
  have hknown : ((reading recordsPath ⟨"/api/records?...=x&app=1", "GET",
      some (.json (.object [("app", .nat 7)]))⟩).jsonParam? "app").bind Value.nat? = some 7 := by
    decide +kernel
  have hlater : (Fields.get? "app" ((reading recordsPath ⟨"/api/records?...=x&app=1", "GET",
      some .deferred⟩).objectWith [("app", .nat 7)])).bind Value.nat? = some 1 := by
    decide +kernel
  have happ := h "app"
  change (reading recordsPath ⟨"/api/records?...=x&app=1", "GET", _⟩).param? "app" =
    (Fields.get? "app" ((reading recordsPath _).objectWith _)).map Param.json at happ
  rw [PlatformRequest.jsonParam?, happ] at hknown
  obtain ⟨v, hv, hone⟩ := Option.bind_eq_some_iff.1 hlater
  rw [hv, Option.map_some, Option.bind_some, hone] at hknown
  exact absurd hknown (by decide)

end ApiCatalogue

end CallBridge
