import CallBridge.Json.Decode
import CallBridge.Json.Document
import Mathlib.Data.List.Nodup

/-!
# Fields of a record

A record written as an object may hold its fields in any order, leave some of them out and have
others that nobody asks for. Whether it holds what is given for a name is told by `Holds`. Main
statements: a record without repeated names is read as its known fields (`members?_ofEntries`), and
a field with a default is read as what is given for it, or else as the default (`getD?_of_holds`).
-/

namespace CallBridge.Json

variable {α β : Type} {name : String} {names : List String} {entries : List (String × Document)}

/-- An object with the given fields, in this order. -/
def Document.ofEntries (entries : List (String × Document)) : Document :=
  .object (entries.map fun e => (some e.1, e.2))

/-- Whether fields hold what is given under a name: one field of that name that is of the form of
what is given, or no such field where nothing is given. -/
inductive Holds (name : String) (form : α → Document → Prop) :
    List (String × Document) → Option α → Prop where
  | absent {entries : List (String × Document)} (h : name ∉ entries.map Prod.fst) :
      Holds name form entries none
  | present {a : α} {d : Document} {before after : List (String × Document)} (hform : form a d)
      (honly : name ∉ (before ++ after).map Prod.fst) :
      Holds name form (before ++ (name, d) :: after) (some a)

variable {form : α → Document → Prop} {given : Option α}

theorem Holds.count_le_one (h : Holds name form entries given) :
    (entries.map Prod.fst).count name ≤ 1 := by
  cases h with
  | absent h => exact Nat.le_trans (Nat.le_of_eq (List.count_eq_zero.2 h)) (Nat.zero_le 1)
  | @present a d before after hform honly =>
    have hone : ((before ++ (name, d) :: after).map Prod.fst).count name = 0 + 1 := by
      rw [List.map_append, List.map_cons, List.perm_middle.count_eq, ← List.map_append,
        List.count_cons_self, List.count_eq_zero.2 honly]
    exact Nat.le_of_eq hone

theorem Holds.lookup_eq (h : Holds name form entries given) :
    (given = none ∧ entries.lookup name = none) ∨
      ∃ a d, given = some a ∧ form a d ∧ entries.lookup name = some d := by
  cases h with
  | absent h =>
    refine .inl ⟨rfl, List.lookup_eq_none_iff.2 fun e he => ?_⟩
    exact bne_iff_ne.2 fun heq => h (heq ▸ List.mem_map_of_mem he)
  | @present a d before after hform honly =>
    have hfront : ∀ e ∈ before, name != e.1 := fun e he =>
      bne_iff_ne.2 fun heq => honly (heq ▸ List.mem_map_of_mem (List.mem_append_left _ he))
    exact .inr ⟨a, d, rfl, hform, List.lookup_eq_some_iff.2 ⟨before, after, rfl, hfront⟩⟩

/-- Fields that nobody asks for make no difference to a name that is asked for. -/
theorem lookup_filter_contains (hname : name ∈ names) (entries : List (String × Document)) :
    (entries.filter fun e => names.contains e.1).lookup name = entries.lookup name := by
  induction entries with
  | nil => rfl
  | cons e rest ih =>
    obtain ⟨k, d⟩ := e
    rw [List.filter_cons]
    split
    · rw [List.lookup_cons, List.lookup_cons, ih]
    · next hk =>
      have hne : name ≠ k := fun heq => hk (List.contains_iff_mem.2 (heq ▸ hname))
      rw [ih, List.lookup_cons, beq_eq_false_iff_ne.2 hne]

theorem mapM_ofEntries {aliases : List (String × String)}
    (haliases : ∀ e ∈ entries, aliases.lookup e.1 = none) :
    (entries.map fun e => (some e.1, e.2)).mapM (fun (k, d) =>
      k.map fun k => ((aliases.lookup k).getD k, d)) = some entries := by
  induction entries with
  | nil => rfl
  | cons e rest ih =>
    obtain ⟨he, hrest⟩ := List.forall_mem_cons.1 haliases
    simp only [List.map_cons, List.mapM_cons, ih hrest, Option.map_some, he]
    rfl

theorem nodup_known (honce : ∀ name ∈ names, (entries.map Prod.fst).count name ≤ 1) :
    ((entries.filter fun e => names.contains e.1).map Prod.fst).Nodup := by
  have hnames : (entries.filter fun e => names.contains e.1).map Prod.fst =
      (entries.map Prod.fst).filter names.contains := by
    rw [List.filter_map]
    rfl
  rw [hnames, List.nodup_iff_count_le_one]
  intro name
  by_cases hname : names.contains name
  · rw [List.count_filter hname]
    exact honce name (List.contains_iff_mem.1 hname)
  · rw [List.count_eq_zero.2 fun h => hname (List.mem_filter.1 h).2]
    exact Nat.zero_le 1

/-- An object in which no field that is asked for comes twice is read as these fields. -/
theorem members?_ofEntries {aliases : List (String × String)}
    (haliases : ∀ e ∈ entries, aliases.lookup e.1 = none)
    (honce : ∀ name ∈ names, (entries.map Prod.fst).count name ≤ 1) :
    (Document.ofEntries entries).members? names aliases =
      some ⟨true, entries.filter fun e => names.contains e.1⟩ := by
  rw [Document.ofEntries, Document.members?, mapM_ofEntries haliases]
  simp only [Option.bind_eq_bind, Option.bind_some, if_pos (nodup_known honce)]

/-- A field is read as what is given for it, or else as the default. -/
theorem getD?_of_holds (hname : name ∈ names) (h : Holds name form entries given)
    {read : Document → Option β} {value : α → β}
    (hread : ∀ {a d}, form a d → read d = some (value a)) (default : β) :
    (Members.mk true (entries.filter fun e => names.contains e.1)).getD? name read default =
      some ((given.map value).getD default) := by
  have hlookup := lookup_filter_contains hname entries
  rcases h.lookup_eq with ⟨rfl, hnone⟩ | ⟨a, d, rfl, hform, hsome⟩
  · exact Members.getD?_of_missing (hlookup.trans hnone) read default
  · rw [Members.getD?_of_present (hlookup.trans hsome), hread hform]
    rfl

/-! ### Written records -/

theorem Document.ofItems_eq_map (vs : List Value) : ofItems vs = vs.map ofValue := by
  induction vs with
  | nil => rfl
  | cons v rest ih => rw [ofItems, ih, List.map_cons]

/-- The fields of an object, each with its document. -/
def Document.fieldsOf (fields : List (String × Value)) : List (String × Document) :=
  fields.map fun f => (f.1, ofValue f.2)

theorem Document.map_fst_fieldsOf (fields : List (String × Value)) :
    (fieldsOf fields).map Prod.fst = fields.map Prod.fst := by
  rw [fieldsOf, List.map_map]
  rfl

theorem Document.ofValue_object (fields : List (String × Value)) :
    ofValue (.object fields) = .ofEntries (fieldsOf fields) := by
  have hfields : ofFields fields = (fieldsOf fields).map fun e => (some e.1, e.2) := by
    induction fields with
    | nil => rfl
    | cons f rest ih =>
      rw [ofFields, ih]
      rfl
  rw [ofValue, hfields, ofEntries]

/-- A written record whose names are different holds each of its fields. -/
theorem holds_of_mem {a : α} {v : Value} {fields : List (String × Value)}
    (hnodup : (fields.map Prod.fst).Nodup) (h : (name, v) ∈ fields)
    (hform : form a (.ofValue v)) : Holds name form (Document.fieldsOf fields) (some a) := by
  obtain ⟨before, after, rfl⟩ := List.append_of_mem h
  have hfields : Document.fieldsOf (before ++ (name, v) :: after) =
      Document.fieldsOf before ++ (name, .ofValue v) :: Document.fieldsOf after := by
    rw [Document.fieldsOf, List.map_append, List.map_cons]
    rfl
  rw [List.map_append, List.map_cons, List.nodup_middle, List.nodup_cons] at hnodup
  rw [hfields]
  refine .present hform ?_
  rw [List.map_append, Document.map_fst_fieldsOf, Document.map_fst_fieldsOf]
  exact hnodup.1

/-- The order in which its fields are written makes no difference to what a record holds. -/
theorem holds_of_perm {a : α} {v : Value} {fields written : List (String × Value)}
    (hperm : written.Perm fields) (hnodup : (fields.map Prod.fst).Nodup) (h : (name, v) ∈ fields)
    (hform : form a (.ofValue v)) : Holds name form (Document.fieldsOf written) (some a) :=
  holds_of_mem ((hperm.map Prod.fst).nodup_iff.2 hnodup) (hperm.mem_iff.2 h) hform

end CallBridge.Json
