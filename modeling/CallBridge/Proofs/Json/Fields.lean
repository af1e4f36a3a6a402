import CallBridge.Json.Basic

/-!
# Fields of an object

What an object holds behind a `put` and behind the merge of another object's fields. Main statements:
of two merged objects the later one wins (`get?_merge`), and an object holds the fields that it was
made of (`get?_ofList`).
-/

namespace CallBridge.Json.Fields

/-- The fields of an object put one after the other among those of another. -/
def merge (added fields : Fields) : Fields := added.foldl (fun fields f => put f.1 f.2 fields) fields

theorem get?_cons (name k : String) (v : Value) (rest : Fields) :
    get? name ((k, v) :: rest) = if name = k then some v else get? name rest := by
  unfold get?
  by_cases h : name = k
  · rw [if_pos h, List.lookup_cons, beq_iff_eq.2 h]
  · rw [if_neg h, List.lookup_cons, beq_eq_false_iff_ne.2 h]

/-- A field that was put is found, and no other one is touched. -/
theorem get?_put (name name' : String) (v : Value) (fields : Fields) :
    get? name' (put name v fields) = if name' = name then some v else get? name' fields := by
  induction fields with
  | nil => exact get?_cons ..
  | cons f rest ih =>
    obtain ⟨k, w⟩ := f
    by_cases hk : name = k
    · rw [put, if_pos hk, get?_cons, get?_cons, hk]
      split <;> rfl
    · by_cases hlt : name < k
      · rw [put, if_neg hk, if_pos hlt, get?_cons]
      · rw [put, if_neg hk, if_neg hlt, get?_cons, get?_cons, ih]
        -- two different names cannot both be the one that is asked for
        by_cases h : name' = k
        · rw [if_pos h, if_pos h, if_neg fun hname => hk (hname.symm.trans h)]
        · rw [if_neg h, if_neg h]

theorem get?_eq_none_of_notMem {name : String} {fields : Fields}
    (h : name ∉ fields.map Prod.fst) : get? name fields = none := by
  induction fields with
  | nil => rfl
  | cons f rest ih =>
    rw [List.map_cons, List.mem_cons, not_or] at h
    rw [get?_cons, if_neg h.1, ih h.2]

/-- A field of merged objects is that of the added one, or else that of the other. -/
theorem get?_merge {added : Fields} (h : (added.map Prod.fst).Nodup) (fields : Fields)
    (name : String) : get? name (merge added fields) = (get? name added).or (get? name fields) := by
  induction added generalizing fields with
  | nil => rfl
  | cons f rest ih =>
    obtain ⟨k, v⟩ := f
    rw [List.map_cons, List.nodup_cons] at h
    have hrest : get? name (merge ((k, v) :: rest) fields) =
        (get? name rest).or (get? name (put k v fields)) := ih h.2 (put k v fields)
    rw [hrest, get?_put, get?_cons]
    split
    · next hname =>
      rw [hname, get?_eq_none_of_notMem h.1]
      rfl
    · rfl

theorem get?_append (name : String) (fields fields' : Fields) :
    get? name (fields ++ fields') = (get? name fields).or (get? name fields') :=
  List.lookup_append ..

/-- An object made of fields with different names holds each of them. -/
theorem get?_ofList {entries : List (String × Value)} (h : (entries.map Prod.fst).Nodup)
    (name : String) : get? name (ofList entries) = get? name entries := by
  have hmerge : ofList entries = merge entries [] := rfl
  rw [hmerge, get?_merge h]
  exact Option.or_none

/-- A new name only moves what is there. -/
theorem perm_put {name : String} {fields : Fields} (h : name ∉ fields.map Prod.fst) (v : Value) :
    (put name v fields).Perm ((name, v) :: fields) := by
  induction fields with
  | nil => exact .refl _
  | cons f rest ih =>
    obtain ⟨k, w⟩ := f
    rw [List.map_cons, List.mem_cons, not_or] at h
    rw [put, if_neg h.1]
    split
    · exact .refl _
    · exact ((ih h.2).cons _).trans (.swap ..)

/-- Fields whose names are distinct are all there after merging. -/
theorem perm_merge {added fields : Fields} (h : ((added ++ fields).map Prod.fst).Nodup) :
    (merge added fields).Perm (added ++ fields) := by
  induction added generalizing fields with
  | nil => exact .refl _
  | cons f rest ih =>
    rw [List.cons_append, List.map_cons, List.nodup_cons, List.map_append, List.mem_append,
      not_or] at h
    have hput := perm_put h.1.2 f.2
    have hnext : (rest ++ put f.1 f.2 fields).Perm (f :: rest ++ fields) :=
      (hput.append_left rest).trans List.perm_middle
    refine (ih ((hnext.map Prod.fst).nodup_iff.2 ?_)).trans hnext
    rw [List.cons_append, List.map_cons, List.nodup_cons, List.map_append, List.mem_append, not_or]
    exact h

/-- An object made of fields with different names has these fields. -/
theorem perm_ofList {entries : List (String × Value)} (h : (entries.map Prod.fst).Nodup) :
    (ofList entries).Perm entries := by
  have hmerge : (merge entries []).Perm (entries ++ []) := perm_merge (by rwa [List.append_nil])
  rwa [List.append_nil] at hmerge

end CallBridge.Json.Fields
