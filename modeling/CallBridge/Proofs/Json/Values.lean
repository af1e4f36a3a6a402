import CallBridge.Json.Document
import CallBridge.Proofs.Json.Fields
import Mathlib.Data.String.Basic

/-!
# Values and their documents

The fields of an object stand in the order of their names at every place of a value that has been
read (`sorted_of_valueWithin`). Main statement: the document of such a value has that value, with
any limit on the nesting that leaves room for it (`valueWithin_ofValue`).
-/

namespace CallBridge.Json

/-! ### Fields in order -/

namespace Fields

/-- Whether fields stand in the order of their names, each name once. -/
def Ascending (fields : Fields) : Prop := fields.Pairwise fun f g => f.1 < g.1

variable {name : String} {v w : Value} {fields before after : Fields}

/-- Putting a field adds that field and nothing else. -/
theorem mem_put {f : String × Value} (h : f ∈ put name v fields) : f = (name, v) ∨ f ∈ fields := by
  induction fields with
  | nil => exact Or.inl (List.mem_singleton.1 h)
  | cons g rest ih =>
    obtain ⟨k, w⟩ := g
    rw [put] at h
    split at h
    · exact (List.mem_cons.1 h).imp_right (List.mem_cons_of_mem _)
    · split at h
      · exact List.mem_cons.1 h
      · rcases List.mem_cons.1 h with rfl | h
        · exact Or.inr (List.mem_cons_self ..)
        · exact (ih h).imp_right (List.mem_cons_of_mem _)

/-- A field goes where its name belongs. -/
theorem Ascending.put (h : Ascending fields) (name : String) (v : Value) :
    Ascending (put name v fields) := by
  induction fields with
  | nil => exact List.pairwise_singleton _ _
  | cons f rest ih =>
    obtain ⟨k, w⟩ := f
    obtain ⟨hk, hrest⟩ := List.pairwise_cons.1 h
    rw [Fields.put]
    split
    · next heq => exact List.pairwise_cons.2 ⟨fun g hg => heq ▸ hk g hg, hrest⟩
    · next hne =>
      split
      · next hlt =>
        refine List.pairwise_cons.2 ⟨fun g hg => ?_, h⟩
        rcases List.mem_cons.1 hg with rfl | hg
        · exact hlt
        · exact hlt.trans (hk g hg)
      · next hnot =>
        refine List.pairwise_cons.2 ⟨fun g hg => ?_, ih hrest⟩
        rcases mem_put hg with rfl | hg
        · exact lt_of_le_of_ne (not_lt.1 hnot) (Ne.symm hne)
        · exact hk g hg

/-- A field that is there is replaced at its place. -/
theorem put_replace (h : Ascending (before ++ (name, w) :: after)) (v : Value) :
    put name v (before ++ (name, w) :: after) = before ++ (name, v) :: after := by
  induction before with
  | nil => rw [List.nil_append, put, if_pos rfl, List.nil_append]
  | cons f rest ih =>
    obtain ⟨k, u⟩ := f
    obtain ⟨hk, hrest⟩ := List.pairwise_cons.1 h
    have hlt : k < name := hk _ (List.mem_append_right _ (List.mem_cons_self ..))
    rw [List.cons_append, put, if_neg hlt.ne', if_neg hlt.asymm, ih hrest, List.cons_append]

/-- A new value does not move a field. -/
theorem Ascending.replace (h : Ascending (before ++ (name, w) :: after)) (v : Value) :
    Ascending (before ++ (name, v) :: after) :=
  put_replace h v ▸ h.put name v

/-- In fields in order, the field of a name is the one that can be cut out under that name. -/
theorem Ascending.get?_eq_some_iff (h : Ascending fields) :
    get? name fields = some v ↔ ∃ before after, fields = before ++ (name, v) :: after := by
  rw [get?, List.lookup_eq_some_iff]
  constructor
  · rintro ⟨before, after, heq, -⟩
    exact ⟨before, after, heq⟩
  · rintro ⟨before, after, rfl⟩
    refine ⟨before, after, rfl, fun f hf => ?_⟩
    have hlt : f.1 < name := (List.pairwise_append.1 h).2.2 f hf _ (List.mem_cons_self ..)
    exact bne_iff_ne.2 hlt.ne'

/-- A field behind all others is put at the end. -/
theorem put_last (h : ∀ f ∈ fields, f.1 < name) (v : Value) :
    put name v fields = fields ++ [(name, v)] := by
  induction fields with
  | nil => rfl
  | cons f rest ih =>
    obtain ⟨k, u⟩ := f
    obtain ⟨hlt, hrest⟩ := List.forall_mem_cons.1 h
    rw [put, if_neg hlt.ne', if_neg hlt.asymm, ih hrest, List.cons_append]

/-- Fields that stand in order behind others are added at the end, one after the other. -/
theorem merge_of_ascending (h : Ascending (before ++ fields)) :
    merge fields before = before ++ fields := by
  induction fields generalizing before with
  | nil => exact (List.append_nil before).symm
  | cons f rest ih =>
    have hlast : put f.1 f.2 before = before ++ [f] :=
      put_last (fun g hg => (List.pairwise_append.1 h).2.2 g hg f (List.mem_cons_self ..)) f.2
    rw [List.append_cons] at h
    rw [merge, List.foldl_cons, hlast, ← merge, ih h, ← List.append_cons]

/-- Fields that stand in order make the object that they are. -/
theorem ofList_of_ascending (h : Ascending fields) : ofList fields = fields := by
  have hmerge : merge fields [] = [] ++ fields := merge_of_ascending h
  rwa [List.nil_append] at hmerge

/-- Merged fields are in order again. -/
theorem Ascending.merge (h : Ascending fields) (added : Fields) :
    Ascending (merge added fields) := by
  induction added generalizing fields with
  | nil => exact h
  | cons f rest ih => exact ih (h.put f.1 f.2)

/-- However the entries were listed. -/
theorem ascending_ofList (entries : List (String × Value)) : Ascending (ofList entries) :=
  Ascending.merge .nil entries

theorem mem_merge {added : Fields} {f : String × Value} (h : f ∈ merge added fields) :
    f ∈ fields ∨ f ∈ added := by
  induction added generalizing fields with
  | nil => exact Or.inl h
  | cons g rest ih =>
    rcases ih h with hf | hf
    · rcases mem_put hf with rfl | hf
      · exact Or.inr (List.mem_cons_self ..)
      · exact Or.inl hf
    · exact Or.inr (List.mem_cons_of_mem _ hf)

theorem mem_ofList {entries : List (String × Value)} {f : String × Value}
    (h : f ∈ ofList entries) : f ∈ entries :=
  (mem_merge h).resolve_left List.not_mem_nil

end Fields

/-! ### Values in order -/

mutual

/-- Whether the fields of every object in a value stand in the order of their names. -/
def Value.Sorted : Value → Prop
  | .array items => SortedItems items
  | .object fields => Fields.Ascending fields ∧ SortedFields fields
  | _ => True

/-- All items are sorted. -/
def SortedItems : List Value → Prop
  | [] => True
  | v :: rest => v.Sorted ∧ SortedItems rest

/-- So are the values of all fields. -/
def SortedFields : List (String × Value) → Prop
  | [] => True
  | (_, v) :: rest => v.Sorted ∧ SortedFields rest

end

mutual

/-- How deep arrays and objects nest in a value. -/
def Value.nesting : Value → Nat
  | .array items => nestingItems items + 1
  | .object fields => nestingFields fields + 1
  | _ => 0

/-- The deepest of the items. -/
def nestingItems : List Value → Nat
  | [] => 0
  | v :: rest => max v.nesting (nestingItems rest)

/-- The deepest of the values. -/
def nestingFields : List (String × Value) → Nat
  | [] => 0
  | (_, v) :: rest => max v.nesting (nestingFields rest)

end

theorem nestingItems_cons_le {v : Value} {vs : List Value} {n : Nat} :
    nestingItems (v :: vs) ≤ n ↔ v.nesting ≤ n ∧ nestingItems vs ≤ n := Nat.max_le

theorem nestingFields_cons_le {k : String} {v : Value} {rest : List (String × Value)} {n : Nat} :
    nestingFields ((k, v) :: rest) ≤ n ↔ v.nesting ≤ n ∧ nestingFields rest ≤ n := Nat.max_le

theorem nestingFields_append (fields fields' : List (String × Value)) :
    nestingFields (fields ++ fields') = max (nestingFields fields) (nestingFields fields') := by
  induction fields with
  | nil => exact (Nat.zero_max _).symm
  | cons f rest ih =>
    change max f.2.nesting (nestingFields (rest ++ fields')) =
      max (max f.2.nesting (nestingFields rest)) (nestingFields fields')
    rw [ih, Nat.max_assoc]

theorem sortedFields_iff {fields : List (String × Value)} :
    SortedFields fields ↔ ∀ f ∈ fields, f.2.Sorted := by
  induction fields with
  | nil => exact iff_of_true trivial nofun
  | cons f rest ih => rw [SortedFields, ih, List.forall_mem_cons]

namespace Document

mutual

/-- The document of a value has that value, within any limit that leaves room for it. -/
theorem valueWithin_ofValue : ∀ (v : Value), v.Sorted → ∀ depth : Nat,
    valueWithin depth (ofValue v) = if v.nesting ≤ depth then some v else none
  | .null, _, depth | .bool _, _, depth | .number _, _, depth | .string _, _, depth => by
    cases depth <;> rfl
  | .array items, h, 0 => by
    rw [Value.nesting, if_neg (by omega)]
    rfl
  | .array items, h, depth + 1 => by
    rw [ofValue, valueWithin, itemsWithin_ofItems items h, Value.nesting]
    simp only [Nat.add_le_add_iff_right]
    split <;> rfl
  | .object fields, h, 0 => by
    rw [Value.nesting, if_neg (by omega)]
    rfl
  | .object fields, h, depth + 1 => by
    rw [ofValue, valueWithin, fieldsWithin_ofFields fields h.2, Value.nesting]
    simp only [Nat.add_le_add_iff_right]
    split
    · rw [Option.map_some, Fields.ofList_of_ascending h.1]
    · rfl

/-- Items are read if none is nested too deep. -/
theorem itemsWithin_ofItems : ∀ (vs : List Value), SortedItems vs → ∀ depth : Nat,
    itemsWithin depth (ofItems vs) = if nestingItems vs ≤ depth then some vs else none
  | [], _, depth => by
    rw [nestingItems, if_pos (Nat.zero_le _)]
    rfl
  | v :: vs, h, depth => by
    rw [ofItems, itemsWithin, valueWithin_ofValue v h.1, itemsWithin_ofItems vs h.2]
    by_cases hv : v.nesting ≤ depth
    · by_cases hvs : nestingItems vs ≤ depth
      · rw [if_pos hv, if_pos hvs, if_pos (nestingItems_cons_le.2 ⟨hv, hvs⟩)]
      · rw [if_pos hv, if_neg hvs, if_neg fun hle => hvs (nestingItems_cons_le.1 hle).2]
    · rw [if_neg hv, if_neg fun hle => hv (nestingItems_cons_le.1 hle).1]

/-- So are fields. -/
theorem fieldsWithin_ofFields : ∀ (fields : List (String × Value)), SortedFields fields →
    ∀ depth : Nat, fieldsWithin depth (ofFields fields) =
      if nestingFields fields ≤ depth then some fields else none
  | [], _, depth => by
    rw [nestingFields, if_pos (Nat.zero_le _)]
    rfl
  | (k, v) :: rest, h, depth => by
    have hfirst := valueWithin_ofValue v h.1 depth
    have hothers := fieldsWithin_ofFields rest h.2 depth
    simp only [ofFields, fieldsWithin, hfirst, hothers]
    by_cases hv : v.nesting ≤ depth
    · by_cases hrest : nestingFields rest ≤ depth
      · rw [if_pos hv, if_pos hrest, if_pos (nestingFields_cons_le.2 ⟨hv, hrest⟩)]
      · rw [if_pos hv, if_neg hrest, if_neg fun hle => hrest (nestingFields_cons_le.1 hle).2]
    · rw [if_neg hv, if_neg fun hle => hv (nestingFields_cons_le.1 hle).1]

end

mutual

/-- The fields of every object that is read stand in order. -/
theorem sorted_of_valueWithin : ∀ {depth : Nat} {d : Document} {v : Value},
    valueWithin depth d = some v → v.Sorted
  | depth, .null, v, h => by
    cases depth <;> cases h <;> trivial
  | depth, .bool b, v, h => by
    cases depth <;> cases h <;> trivial
  | depth, .number n, v, h => by
    obtain ⟨n, rfl, rfl⟩ := Option.map_eq_some_iff.1 (valueWithin.eq_3 depth n ▸ h)
    trivial
  | depth, .string s, v, h => by
    obtain ⟨s, rfl, rfl⟩ := Option.map_eq_some_iff.1 (valueWithin.eq_4 depth s ▸ h)
    trivial
  | 0, .array _, _, h | 0, .object _, _, h => nomatch h
  | depth + 1, .array items, v, h => by
    obtain ⟨vs, hvs, rfl⟩ := Option.map_eq_some_iff.1 h
    exact sorted_of_itemsWithin hvs
  | depth + 1, .object fields, v, h => by
    obtain ⟨entries, hentries, rfl⟩ := Option.map_eq_some_iff.1 h
    refine ⟨Fields.ascending_ofList entries, sortedFields_iff.2 fun f hf => ?_⟩
    exact sortedFields_iff.1 (sorted_of_fieldsWithin hentries) f (Fields.mem_ofList hf)

/-- What has been read is sorted, whatever the text said. -/
theorem sorted_of_itemsWithin : ∀ {depth : Nat} {ds : List Document} {vs : List Value},
    itemsWithin depth ds = some vs → SortedItems vs
  | depth, [], vs, h => by
    obtain rfl := Option.some.inj h
    trivial
  | depth, d :: rest, vs, h => by
    rw [itemsWithin] at h
    split at h
    · next v us hv hus =>
      obtain rfl := Option.some.inj h
      exact ⟨sorted_of_valueWithin hv, sorted_of_itemsWithin hus⟩
    · cases h

/-- The same for fields. -/
theorem sorted_of_fieldsWithin : ∀ {depth : Nat} {fields : List (Option String × Document)}
    {entries : List (String × Value)}, fieldsWithin depth fields = some entries →
      SortedFields entries
  | depth, [], entries, h => by
    obtain rfl := Option.some.inj h
    trivial
  | depth, (k, d) :: rest, entries, h => by
    unfold fieldsWithin at h
    split at h
    · next k v others hk hv hothers =>
      obtain rfl := Option.some.inj h
      exact ⟨sorted_of_valueWithin hv, sorted_of_fieldsWithin hothers⟩
    · cases h

end

end Document

end CallBridge.Json
