import CallBridge.Registry.Lookup

/-!
# What a registry holds

Looking up gives nothing but what is registered, and what is registered was among the entries it was
made from. Main statement: the default registry holds nothing but mappings of the catalogue
(`mem_apis_standard`).
-/

namespace CallBridge.Registry

open Collection

variable {r : Registry}

/-- An index knows nothing that its table has not. -/
theorem entry?_mem {κ α : Type} [DecidableEq κ] {items : List α} {index : Index κ} {k : κ} {a : α}
    (h : entry? items index k = some a) : a ∈ items := by
  obtain ⟨place, -, ha⟩ := Option.bind_eq_some_iff.1 h
  exact List.mem_of_getElem? ha

/-- What a route leads to is in the table. -/
theorem apiByRoute?_mem {method url : String} {m : ApiMapping}
    (h : r.apiByRoute? method url = some m) : m ∈ r.apis := by
  obtain ⟨p, -, hp⟩ := List.exists_of_findSome?_eq_some h
  exact entry?_mem hp

/-! ### Registering -/

/-- Registering adds at most the entry itself. -/
theorem mem_apis_of_register {r' : Registry} {e : Entry} {m : ApiMapping}
    (h : r.register e = .ok r') (hm : m ∈ r'.apis) : m ∈ r.apis ∨ e = .api m := by
  cases e with
  | event m' =>
    simp only [register, registerEvent] at h
    split at h
    · simp at h
    · split at h
      · simp at h
      · obtain rfl := Except.ok.inj h
        exact Or.inl hm
  | api m' =>
    simp only [register, registerApi] at h
    split at h
    · simp at h
    · split at h
      · simp at h
      · split at h
        · simp at h
        · obtain rfl := Except.ok.inj h
          rcases List.mem_append.1 hm with hm | hm
          · exact Or.inl hm
          · obtain rfl := List.mem_singleton.1 hm
            exact Or.inr rfl

/-- A registry made from entries holds what it held before and some of the entries. -/
theorem mem_apis_of_registerAll {entries : List Entry} {m : ApiMapping}
    (h : m ∈ (r.registerAll entries).apis) : m ∈ r.apis ∨ .api m ∈ entries := by
  induction entries generalizing r with
  | nil => exact Or.inl h
  | cons e rest ih =>
    rcases ih (r := ((r.register e).toOption).getD r) h with h | h
    · cases he : r.register e with
      | error refusal =>
        rw [he] at h
        exact Or.inl h
      | ok r' =>
        rw [he] at h
        rcases mem_apis_of_register he h with h | rfl
        · exact Or.inl h
        · exact Or.inr (List.mem_cons_self ..)
    · exact Or.inr (List.mem_cons_of_mem _ h)

/-- At the start there is the catalogue and nothing else. -/
theorem mem_apis_standard {m : ApiMapping} (h : m ∈ standard.apis) : m ∈ ApiCatalogue.all := by
  rcases mem_apis_of_registerAll h with h | h
  · cases h
  · rcases List.mem_append.1 h with h | h
    · obtain ⟨_, -, he⟩ := List.mem_map.1 h
      cases he
    · obtain ⟨m', hm', he⟩ := List.mem_map.1 h
      obtain rfl := Entry.api.inj he
      exact hm'

end CallBridge.Registry
