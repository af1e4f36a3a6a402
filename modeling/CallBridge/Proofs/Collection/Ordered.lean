import CallBridge.Collection.Ordered

/-!
# Entries of an ordered map

What stands in a map behind a `set`: the entry that was set and entries that stood there before. No
key occurs twice (`nodup_keys_set`), a key has a value exactly when it occurs (`isSome_get?_iff`), and
in a map that is filled one by one it is the last one (`get?_ofList`).
-/

namespace CallBridge.Collection.Ordered

variable {κ α : Type} [DecidableEq κ]

/-- Setting a key adds that entry and nothing else. -/
theorem mem_set {k : κ} {a : α} {m : Ordered κ α} {e : κ × α} (h : e ∈ set k a m) :
    e = (k, a) ∨ e ∈ m := by
  induction m with
  | nil => exact Or.inl (List.mem_singleton.1 h)
  | cons head rest ih =>
    obtain ⟨k', a'⟩ := head
    by_cases hk : k = k'
    · rw [set, if_pos hk] at h
      subst hk
      rcases List.mem_cons.1 h with rfl | h
      · exact Or.inl rfl
      · exact Or.inr (List.mem_cons_of_mem _ h)
    · rw [set, if_neg hk] at h
      rcases List.mem_cons.1 h with rfl | h
      · exact Or.inr (List.mem_cons_self ..)
      · exact (ih h).imp_right (List.mem_cons_of_mem _)

theorem mem_of_get? {k : κ} {a : α} {m : Ordered κ α} (h : get? k m = some a) : (k, a) ∈ m := by
  induction m with
  | nil => cases h
  | cons head rest ih =>
    obtain ⟨k', a'⟩ := head
    by_cases hk : k = k'
    · rw [get?, if_pos hk] at h
      rw [hk, ← Option.some.inj h]
      exact List.mem_cons_self ..
    · rw [get?, if_neg hk] at h
      exact List.mem_cons_of_mem _ (ih h)

/-- What stands in a map that is filled one by one is one of the entries. -/
theorem mem_ofList {entries : List (κ × α)} {e : κ × α} (h : e ∈ ofList entries) : e ∈ entries := by
  have hfold : ∀ (entries : List (κ × α)) (m : Ordered κ α),
      e ∈ entries.foldl (fun m e => set e.1 e.2 m) m → e ∈ m ∨ e ∈ entries := by
    intro entries
    induction entries with
    | nil => exact fun m hm => Or.inl hm
    | cons entry rest ih =>
      intro m hm
      rcases ih _ hm with hset | hrest
      · rcases mem_set hset with rfl | hm
        · exact Or.inr (List.mem_cons_self ..)
        · exact Or.inl hm
      · exact Or.inr (List.mem_cons_of_mem _ hrest)
  exact (hfold entries [] h).resolve_left List.not_mem_nil

/-- Where no entry fits a predicate, only the one that is set can. -/
theorem countP_set (p : κ × α → Bool) (k : κ) (a : α) {m : Ordered κ α}
    (h : ∀ e ∈ m, p e = false) : (set k a m).countP p = if p (k, a) then 1 else 0 := by
  induction m with
  | nil => rw [set, List.countP_singleton]
  | cons head rest ih =>
    obtain ⟨k', a'⟩ := head
    have hrest : ∀ e ∈ rest, p e = false := fun e he => h e (List.mem_cons_of_mem _ he)
    by_cases hk : k = k'
    · have hzero : rest.countP p = 0 :=
        List.countP_eq_zero.2 fun e he => by simp [hrest e he]
      subst hk
      rw [set, if_pos rfl, List.countP_cons, hzero, Nat.zero_add]
    · have hhead : p (k', a') = false := h _ (List.mem_cons_self ..)
      rw [set, if_neg hk, List.countP_cons, hhead, ih hrest]
      rfl

/-! ### Keys -/

/-- Keys stay distinct. -/
theorem nodup_keys_set {m : Ordered κ α} (h : (keys m).Nodup) (k : κ) (a : α) :
    (keys (set k a m)).Nodup := by
  rw [keys_set]
  split
  · exact h
  · next hk =>
    refine List.nodup_append.2 ⟨h, List.pairwise_singleton .., fun k₁ h₁ k₂ h₂ => ?_⟩
    rw [List.mem_singleton.1 h₂]
    exact fun heq => hk (heq ▸ h₁)

/-- No key occurs twice in a map that is filled one by one. -/
theorem nodup_keys_ofList (entries : List (κ × α)) : (keys (ofList entries)).Nodup := by
  have hfold : ∀ (entries : List (κ × α)) (m : Ordered κ α),
      (keys m).Nodup → (keys (entries.foldl (fun m e => set e.1 e.2 m) m)).Nodup := by
    intro entries
    induction entries with
    | nil => exact fun m hm => hm
    | cons e rest ih => exact fun m hm => ih _ (nodup_keys_set hm e.1 e.2)
  exact hfold entries [] List.Pairwise.nil

/-- A new key goes to the end. -/
theorem set_of_notMem {k : κ} {m : Ordered κ α} (h : k ∉ keys m) (a : α) :
    set k a m = m ++ [(k, a)] := by
  induction m with
  | nil => rfl
  | cons e rest ih =>
    simp only [keys, List.map_cons, List.mem_cons, not_or] at h
    rw [set, if_neg h.1, ih h.2, List.cons_append]

/-- Entries with different keys that are set one after the other stand as they are. -/
theorem ofList_of_nodup {entries : List (κ × α)} (h : (keys entries).Nodup) :
    ofList entries = entries := by
  have hfold : ∀ (entries : List (κ × α)) (m : Ordered κ α), (keys (m ++ entries)).Nodup →
      entries.foldl (fun m e => set e.1 e.2 m) m = m ++ entries := by
    intro entries
    induction entries with
    | nil => exact fun m _ => (List.append_nil m).symm
    | cons e rest ih =>
      intro m hm
      have hkeys : e.1 ∉ keys m := by
        rw [keys, List.map_append, List.nodup_append] at hm
        exact fun he => hm.2.2 _ he _ (List.mem_cons_self ..) rfl
      rw [List.foldl_cons, set_of_notMem hkeys, ih _ (by simpa using hm), List.append_assoc,
        List.singleton_append]
  exact hfold entries [] h

/-- What can be looked up are the keys. -/
theorem isSome_get?_iff {k : κ} {m : Ordered κ α} : (get? k m).isSome ↔ k ∈ keys m := by
  induction m with
  | nil => simp [get?, keys]
  | cons e rest ih =>
    obtain ⟨k', a⟩ := e
    by_cases h : k = k'
    · simp [get?, keys, h]
    · rw [get?, if_neg h, ih]
      simp [keys, h]

theorem get?_eq_none_iff {k : κ} {m : Ordered κ α} : get? k m = none ↔ k ∉ keys m := by
  rw [← isSome_get?_iff, Bool.not_eq_true, Option.isSome_eq_false_iff, Option.isNone_iff_eq_none]

/-- The first table goes before the second. -/
theorem get?_append (k : κ) (m m' : Ordered κ α) :
    get? k (m ++ m') = (get? k m).or (get? k m') := by
  induction m with
  | nil => rfl
  | cons e rest ih =>
    obtain ⟨k', a⟩ := e
    rw [List.cons_append, get?, get?, ih]
    split <;> rfl

theorem get?_eq_lookup [BEq κ] [LawfulBEq κ] (k : κ) (m : Ordered κ α) : get? k m = m.lookup k := by
  induction m with
  | nil => rfl
  | cons e rest ih =>
    obtain ⟨k', a⟩ := e
    rw [get?, List.lookup_cons, ih]
    by_cases h : k = k'
    · rw [if_pos h, beq_iff_eq.2 h]
    · rw [if_neg h, beq_eq_false_iff_ne.2 h]

theorem get?_map {β : Type} (f : α → β) (k : κ) (m : Ordered κ α) :
    get? k (m.map fun e => (e.1, f e.2)) = (get? k m).map f := by
  induction m with
  | nil => rfl
  | cons e rest ih =>
    rw [List.map_cons, get?, get?, ih]
    split <;> rfl

/-- Of entries that are set one after the other, the last one of a key counts. -/
theorem get?_ofList (k : κ) (entries : List (κ × α)) :
    get? k (ofList entries) = get? k entries.reverse := by
  have hfold : ∀ (entries : List (κ × α)) (m : Ordered κ α),
      get? k (entries.foldl (fun m e => set e.1 e.2 m) m) =
        (get? k entries.reverse).or (get? k m) := by
    intro entries
    induction entries with
    | nil => exact fun m => rfl
    | cons e rest ih =>
      obtain ⟨k', a⟩ := e
      intro m
      have hset : get? k (set k' a m) = (get? k [(k', a)]).or (get? k m) := by
        rw [get?_set, get?]
        split <;> rfl
      rw [List.foldl_cons, ih, hset, List.reverse_cons, get?_append, Option.or_assoc]
  rw [ofList, hfold]
  exact Option.or_none

/-- Of the entries with one key the last one is found. -/
theorem get?_ofList_eq_some_iff {k : κ} {a : α} {entries : List (κ × α)} :
    get? k (ofList entries) = some a ↔
      ∃ earlier later, entries = earlier ++ (k, a) :: later ∧ k ∉ later.map Prod.fst := by
  rw [get?_ofList, get?_eq_lookup, List.lookup_eq_some_iff]
  constructor
  · rintro ⟨later, earlier, heq, hlater⟩
    refine ⟨earlier.reverse, later.reverse, ?_, ?_⟩
    · rw [← List.reverse_reverse entries, heq]
      simp
    · rw [List.map_reverse, List.mem_reverse, List.mem_map]
      rintro ⟨e, he, rfl⟩
      exact bne_iff_ne.1 (hlater e he) rfl
  · rintro ⟨earlier, later, rfl, hlater⟩
    refine ⟨later.reverse, earlier.reverse, by simp, fun e he => bne_iff_ne.2 ?_⟩
    rintro rfl
    exact hlater (List.mem_map_of_mem (List.mem_reverse.1 he))

/-- The entries that come after that of a key. -/
def behind (k : κ) : Ordered κ α → Ordered κ α
  | [] => []
  | (k', _) :: rest => if k = k' then rest else behind k rest

theorem behind_eq_nil {k : κ} {m : Ordered κ α} (h : k ∉ keys m) : behind k m = [] := by
  induction m with
  | nil => rfl
  | cons e rest ih =>
    simp only [keys, List.map_cons, List.mem_cons, not_or] at h
    rw [behind, if_neg h.1, ih h.2]

/-- Where no key occurs twice, an entry after another one holds what the map holds. -/
theorem get?_behind {k k' : κ} {a : α} {m : Ordered κ α} (h : (keys m).Nodup)
    (ha : get? k' (behind k m) = some a) : k' ≠ k ∧ get? k' m = some a := by
  induction m with
  | nil => cases ha
  | cons e rest ih =>
    obtain ⟨k₀, a₀⟩ := e
    obtain ⟨hhead, hrest⟩ := List.nodup_cons.1 h
    have hlater : ∀ {key}, (get? key rest).isSome → key ≠ k₀ :=
      fun hkey heq => hhead (heq ▸ isSome_get?_iff.1 hkey)
    by_cases hk : k = k₀
    · rw [behind, if_pos hk] at ha
      have hne : k' ≠ k₀ := hlater (ha ▸ rfl)
      exact ⟨hk ▸ hne, by rw [get?, if_neg hne, ha]⟩
    · rw [behind, if_neg hk] at ha
      obtain ⟨hne, hget⟩ := ih hrest ha
      exact ⟨hne, by rw [get?, if_neg (hlater (hget ▸ rfl)), hget]⟩

end CallBridge.Collection.Ordered
