import CallBridge.Proofs.Collection.Ordered
import CallBridge.Proofs.Pattern.Recognition
import CallBridge.Proofs.Replacement.Outline

/-!
# Options as they are evaluated

When an object literal is evaluated, its properties give their keys values one after the other, so
of the properties of one key the last one counts (`evaluated?_eq_some_iff`). The options of a call
are read from the front. Main statement: a fetch is classified and replaced by the method and the
body that evaluating its options leaves exactly when the first and the last property of these keys
say the same (`options_evaluated_iff`).
-/

namespace CallBridge.Pattern

open Collection Replacement Script

/-! ### Entries of one key -/

section Entries

variable {α β : Type} {key : String} {es : List (String × α)} {v : α}

/-- The first entry of a key has this value. -/
def IsFirst (key : String) (es : List (String × α)) (v : α) : Prop :=
  ∃ before after, es = before ++ (key, v) :: after ∧ key ∉ before.map Prod.fst

/-- The last entry of a key has this value. -/
def IsLast (key : String) (es : List (String × α)) (v : α) : Prop :=
  ∃ before after, es = before ++ (key, v) :: after ∧ key ∉ after.map Prod.fst

/-- The first and the last entry of a key have values that a reading tells apart. -/
def Overwritten (read : α → β) (key : String) (es : List (String × α)) : Prop :=
  ∃ v w, IsFirst key es v ∧ IsLast key es w ∧ read v ≠ read w

/-- What is left under a key when the entries are set one after the other, as the properties of a
literal are when it is evaluated. -/
def evaluated? (key : String) (es : List (String × α)) : Option α :=
  Ordered.get? key (Ordered.ofList es)

theorem lookup_eq_some_iff : es.lookup key = some v ↔ IsFirst key es v := by
  rw [List.lookup_eq_some_iff]
  refine exists_congr fun before => exists_congr fun after => and_congr_right fun _ => ?_
  rw [List.mem_map, not_exists]
  exact ⟨fun h e he => bne_iff_ne.1 (h e he.1) he.2.symm,
    fun h e he => bne_iff_ne.2 fun heq => h e ⟨he, heq.symm⟩⟩

theorem lookup_eq_none_iff : es.lookup key = none ↔ key ∉ es.map Prod.fst := by
  rw [← Ordered.get?_eq_lookup]
  exact Ordered.get?_eq_none_iff

/-- Evaluation leaves the last value of a key. -/
theorem evaluated?_eq_some_iff : evaluated? key es = some v ↔ IsLast key es v :=
  Ordered.get?_ofList_eq_some_iff

theorem evaluated?_eq_none_iff : evaluated? key es = none ↔ key ∉ es.map Prod.fst := by
  rw [evaluated?, Ordered.get?_ofList, Ordered.get?_eq_lookup, lookup_eq_none_iff, List.map_reverse,
    List.mem_reverse]

/-- A key has no entry, or it has a first and a last one. -/
theorem missing_or_given (key : String) (es : List (String × α)) :
    (es.lookup key = none ∧ evaluated? key es = none) ∨
      ∃ v w, es.lookup key = some v ∧ evaluated? key es = some w := by
  cases hfirst : es.lookup key with
  | none => exact Or.inl ⟨rfl, evaluated?_eq_none_iff.2 (lookup_eq_none_iff.1 hfirst)⟩
  | some v =>
    cases hlast : evaluated? key es with
    | none => rw [lookup_eq_none_iff.2 (evaluated?_eq_none_iff.1 hlast)] at hfirst; cases hfirst
    | some w => exact Or.inr ⟨v, w, rfl, rfl⟩

theorem overwritten_iff {read : α → β} {w : α} (hfirst : es.lookup key = some v)
    (hlast : evaluated? key es = some w) : Overwritten read key es ↔ read v ≠ read w := by
  constructor
  · rintro ⟨v', w', hv, hw, hne⟩
    obtain rfl := Option.some.inj (hfirst.symm.trans (lookup_eq_some_iff.2 hv))
    obtain rfl := Option.some.inj (hlast.symm.trans (evaluated?_eq_some_iff.2 hw))
    exact hne
  · exact fun hne => ⟨v, w, lookup_eq_some_iff.1 hfirst, evaluated?_eq_some_iff.1 hlast, hne⟩

theorem not_overwritten_of_missing {read : α → β} (h : es.lookup key = none) :
    ¬ Overwritten read key es := by
  rintro ⟨v, w, hv, -⟩
  rw [lookup_eq_some_iff.2 hv] at h
  cases h

/-- What is read of the first value of a key is what is read of the last, unless the reading tells
them apart. -/
theorem map_lookup_eq_iff (read : α → β) :
    (es.lookup key).map read = (evaluated? key es).map read ↔ ¬ Overwritten read key es := by
  rcases missing_or_given key es with ⟨hfirst, hlast⟩ | ⟨v, w, hfirst, hlast⟩
  · rw [hfirst, hlast]
    exact iff_of_true rfl (not_overwritten_of_missing hfirst)
  · rw [overwritten_iff hfirst hlast, hfirst, hlast, not_not]
    exact Option.some_inj

/-- The same with something to read where there is no value. -/
theorem getD_lookup_eq_iff (read : α → β) (absent : β) :
    ((es.lookup key).map read).getD absent = ((evaluated? key es).map read).getD absent ↔
      ¬ Overwritten read key es := by
  rcases missing_or_given key es with ⟨hfirst, hlast⟩ | ⟨v, w, hfirst, hlast⟩
  · rw [hfirst, hlast]
    exact iff_of_true rfl (not_overwritten_of_missing hfirst)
  · rw [overwritten_iff hfirst hlast, hfirst, hlast, not_not]
    exact Iff.rfl

end Entries

/-! ### Literals -/

/-- A key in one of the two static spellings. -/
inductive IsKey : Tree → String → Prop where
  | plain {name : String} {s : Span} {cs : List Tree} : IsKey (.node (.key name) s cs) name
  | quoted {name : Text} {s : Span} {cs : List Tree} : IsKey (.node (.string name) s cs) name.value

/-- A property with a static key and a value of its own. -/
inductive IsEntry : Tree → String × Tree → Prop where
  | intro {form : PropertyForm} {s : Span} {key value : Tree} {name : String}
      (hform : form ≠ .getter ∧ form ≠ .setter) (hkey : IsKey key name) :
      IsEntry (.node (.property form false) s [key, value]) (name, value)

/-- The second argument of a call is an object literal with these properties, none of which sets the
prototype. -/
structure Call.HasLiteral (c : Call) (es : List (String × Tree)) : Prop where
  literal : ∃ t s properties, c.arguments[1]? = some t ∧ t.unparen = .node .object s properties ∧
    List.Forall₂ IsEntry properties es
  noPrototype : "__proto__" ∉ es.map Prod.fst

variable {c : Call} {es : List (String × Tree)}

theorem keyName?_of_isKey {t : Tree} {name : String} (h : IsKey t name) :
    keyName? t = some name := by
  cases h <;> rfl

theorem entry?_of_isEntry {t : Tree} {e : String × Tree} (h : IsEntry t e) : entry? t = some e := by
  obtain @⟨form, _, key, value, name, hform, hkey⟩ := h
  have hentry : (keyName? key).map (fun name => (name, value)) = some (name, value) := by
    rw [keyName?_of_isKey hkey, Option.map_some]
  cases form with
  | getter => exact absurd rfl hform.1
  | setter => exact absurd rfl hform.2
  | _ => exact hentry

theorem mapM_of_isEntry {properties : List Tree} (h : List.Forall₂ IsEntry properties es) :
    properties.mapM entry? = some es := by
  induction h with
  | nil => rfl
  | cons hentry _ ih =>
    rw [List.mapM_cons, entry?_of_isEntry hentry, ih]
    rfl

theorem plain?_of_unparen {t : Tree} {s : Span} {cs : List Tree}
    (h : t.unparen = .node .object s cs) : plain? t = some t := by
  refine if_neg fun hspread => ?_
  obtain ⟨k, s', cs'⟩ := t
  obtain rfl : k = .spread := beq_iff_eq.1 hspread
  have hkind (u : Tree) : Kind.spread = .paren → cs' ≠ [u] := fun hk => nomatch hk
  rw [Tree.unparen_node hkind] at h
  cases h

theorem Call.HasLiteral.options_eq (h : c.HasLiteral es) : c.options = .entries es := by
  obtain ⟨t, s, properties, ht, hobject, hentries⟩ := h.literal
  rw [Call.options, ht]
  dsimp only
  rw [plain?_of_unparen hobject, Option.map_some, hobject]
  dsimp only
  rw [mapM_of_isEntry hentries]

/-! ### What options say -/

/-- The method that a value names. -/
def methodGiven (t : Tree) : MethodSpec := (literal? t).elim .dynamic fun m => .static m.toUpper

/-- How a value is a body. -/
def bodyGiven (t : Tree) : BodySpec := if (stringified? t).isSome then .stringified else .raw

theorem methodOf_eq (c : Call) :
    methodOf c = ((c.option? "method").map methodGiven).getD (.static "GET") := by
  rw [methodOf]
  cases c.option? "method" with
  | none => rfl
  | some t =>
    dsimp only [Option.map_some, Option.getD_some, methodGiven]
    cases literal? t <;> rfl

theorem bodyOf_eq (c : Call) : bodyOf c = ((c.option? "body").map bodyGiven).getD .absent := by
  rw [bodyOf]
  cases c.option? "body" <;> rfl

theorem methodOf_and_bodyOf {config : Config} {f : FetchCall} (h : c.HasLiteral es)
    (hc : (Matcher.ofConfig config).classify c = .matched (.fetch f)) :
    f.method = methodOf c ∧ f.body = bodyOf c := by
  obtain ⟨path, url, -, -, -, -, hf⟩ :=
    recognizeFetch_eq_some_iff.1 (recognizeFetch_of_classify hc)
  obtain rfl := CallMatch.fetch.inj hf
  rw [requestOf, h.options_eq]
  exact ⟨rfl, rfl⟩

/-- What a call is read to carry under a key is what evaluating its options leaves there, unless the
key is given again with another value; likewise for the method and the body that a fetch is
classified by and for the body that its replacement carries on. -/
theorem options_evaluated_iff (h : c.HasLiteral es) :
    (∀ key, c.option? key = evaluated? key es ↔ ¬ Overwritten id key es) ∧
    (∀ key, c.option? key = none ↔ key ∉ es.map Prod.fst) ∧
    ∀ config f, (Matcher.ofConfig config).classify c = .matched (.fetch f) →
      (f.method = ((evaluated? "method" es).map methodGiven).getD (.static "GET") ↔
        ¬ Overwritten methodGiven "method" es) ∧
      (f.body = ((evaluated? "body" es).map bodyGiven).getD .absent ↔
        ¬ Overwritten bodyGiven "body" es) ∧
      (bodyExpression? c f.body = .ok ((evaluated? "body" es).map bodyCarried) ↔
        ¬ Overwritten bodyCarried "body" es) := by
  have hoption : ∀ key, c.option? key = es.lookup key := fun key => by
    rw [Call.option?, h.options_eq]
  refine ⟨fun key => ?_, fun key => ?_, fun config f hc => ?_⟩
  · rw [hoption, ← map_lookup_eq_iff, Option.map_id_fun, id_eq, id_eq]
  · rw [hoption, lookup_eq_none_iff]
  obtain ⟨hmethod, hbody⟩ := methodOf_and_bodyOf h hc
  refine ⟨?_, ?_, ?_⟩
  · rw [hmethod, methodOf_eq, hoption, getD_lookup_eq_iff]
  · rw [hbody, bodyOf_eq, hoption, getD_lookup_eq_iff]
  · rw [hbody, bodyExpression?_bodyOf_eq, hoption, ← map_lookup_eq_iff]
    exact ⟨Except.ok.inj, congrArg Except.ok⟩

/-- A fetch with options of these properties, the keys without quotes. -/
def fetchWith (es : List (String × Tree)) : Call :=
  ⟨.none, referenceNode "fetch", [stringNode "/api/record",
    bare .object (es.map fun e => propertyNode (bare (.key e.1) []) e.2)]⟩

theorem hasLiteral_fetchWith (hkey : "__proto__" ∉ es.map Prod.fst) :
    (fetchWith es).HasLiteral es where
  literal := by
    refine ⟨_, .none, es.map fun e => propertyNode (bare (.key e.1) []) e.2, rfl, ?_, ?_⟩
    · exact Tree.unparen_node fun _ hk _ => nomatch hk
    · rw [List.forall₂_map_left_iff]
      exact List.forall₂_same.2 fun e _ => .intro ⟨nofun, nofun⟩ .plain
  noPrototype := hkey

/-- Options that give the method again as it was. -/
def repeating : List (String × Tree) :=
  [("method", stringNode "DELETE"), ("body", referenceNode "ids"), ("method", stringNode "DELETE")]

theorem options_evaluated_repeating :
    (fetchWith repeating).HasLiteral repeating ∧
      (Matcher.ofConfig Config.standard).classify (fetchWith repeating) =
        .matched (.fetch ⟨"fetch", "/api/record", .static "DELETE", .raw⟩) ∧
      (fetchWith repeating).option? "method" = evaluated? "method" repeating ∧
      bodyExpression? (fetchWith repeating) .raw = .ok (some (referenceNode "ids")) := by
  have hliteral : (fetchWith repeating).HasLiteral repeating := hasLiteral_fetchWith (by decide)
  have hclassify : (Matcher.ofConfig Config.standard).classify (fetchWith repeating) =
      .matched (.fetch ⟨"fetch", "/api/record", .static "DELETE", .raw⟩) := by decide +kernel
  obtain ⟨hoption, -, hfetch⟩ := options_evaluated_iff hliteral
  obtain ⟨-, -, hcarried⟩ := hfetch _ _ hclassify
  have hmethod : ¬ Overwritten id "method" repeating := by
    rw [overwritten_iff (v := stringNode "DELETE") (w := stringNode "DELETE") rfl rfl]
    exact not_not.2 rfl
  have hbody : ¬ Overwritten bodyCarried "body" repeating := by
    rw [overwritten_iff (v := referenceNode "ids") (w := referenceNode "ids") rfl rfl]
    exact not_not.2 rfl
  exact ⟨hliteral, hclassify, (hoption "method").2 hmethod, hcarried.2 hbody⟩

/-- Options whose second method takes the place of the first. -/
def overwriting : List (String × Tree) :=
  [("method", stringNode "POST"), ("method", stringNode "DELETE")]

/-- The request is made with the second method, and the fetch is taken for one with the first. -/
theorem overwritten_method_kept :
    (fetchWith overwriting).HasLiteral overwriting ∧
      evaluated? "method" overwriting = some (stringNode "DELETE") ∧
      (fetchWith overwriting).option? "method" = some (stringNode "POST") ∧
      (Matcher.ofConfig Config.standard).classify (fetchWith overwriting) =
        .matched (.fetch ⟨"fetch", "/api/record", .static "POST", .absent⟩) :=
  ⟨hasLiteral_fetchWith (by decide), rfl, rfl, by decide +kernel⟩

end CallBridge.Pattern
