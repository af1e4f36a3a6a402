import CallBridge.Proofs.Collection.Distinct
import CallBridge.Proofs.Collection.Ordered

/-!
# Maps that are filled one by one

Entries that are set one after the other make a map in which each key stands once, at the place
where it was first set, with the value that was set last (`filled_ofList`). This says all about the
map (`Filled.unique`), so whatever follows the same law holds the same entries in the same order.
-/

namespace CallBridge.Collection.Ordered

variable {κ α β : Type} [DecidableEq κ]

/-- A map holds what entries leave that are set one after the other: no key twice, the keys in the
order in which they first occur, and under each key the value of its last entry. -/
structure Filled (entries : List (κ × α)) (m : Ordered κ α) : Prop where
  nodup : (keys m).Nodup
  order : (keys m).Pairwise (FirstBefore (entries.map Prod.fst))
  last : ∀ k a, get? k m = some a ↔
    ∃ earlier later, entries = earlier ++ (k, a) :: later ∧ k ∉ later.map Prod.fst

variable {entries : List (κ × α)} {m m' : Ordered κ α}

/-! ### Filling -/

theorem keys_set_eq_insertNew (k : κ) (a : α) (m : Ordered κ α) :
    keys (set k a m) = insertNew (keys m) k :=
  keys_set k a m

theorem keys_ofList (entries : List (κ × α)) :
    keys (ofList entries) = distinct (entries.map Prod.fst) := by
  have hfold : ∀ (entries : List (κ × α)) (m : Ordered κ α),
      keys (entries.foldl (fun m e => set e.1 e.2 m) m) =
        (entries.map Prod.fst).foldl insertNew (keys m) := by
    intro entries
    induction entries with
    | nil => exact fun m => rfl
    | cons e rest ih =>
      intro m
      rw [List.foldl_cons, ih, keys_set_eq_insertNew, List.map_cons, List.foldl_cons]
  exact hfold entries []

theorem filled_ofList (entries : List (κ × α)) : Filled entries (ofList entries) where
  nodup := nodup_keys_ofList entries
  order := by
    rw [keys_ofList]
    refine (pairwise_distinct _).imp_of_mem fun ha hb hlt => ?_
    exact firstBefore_of_idxOf_lt (mem_distinct.1 ha) (mem_distinct.1 hb) hlt
  last := fun _ _ => get?_ofList_eq_some_iff

/-! ### What the law says -/

theorem Filled.mem_keys_iff (h : Filled entries m) {k : κ} :
    k ∈ keys m ↔ k ∈ entries.map Prod.fst := by
  rw [← isSome_get?_iff, Option.isSome_iff_exists]
  constructor
  · rintro ⟨a, ha⟩
    obtain ⟨earlier, later, rfl, -⟩ := (h.last k a).1 ha
    simp
  · intro hk
    -- the map of the entries knows the last value of every key
    have hfilled := filled_ofList entries
    rw [← mem_distinct, ← keys_ofList, ← isSome_get?_iff, Option.isSome_iff_exists] at hk
    obtain ⟨a, ha⟩ := hk
    exact ⟨a, (h.last k a).2 ((hfilled.last k a).1 ha)⟩

theorem Filled.get?_eq_none_iff (h : Filled entries m) {k : κ} :
    get? k m = none ↔ k ∉ entries.map Prod.fst := by
  rw [Ordered.get?_eq_none_iff, h.mem_keys_iff]

/-- Values that are changed one by one change where they stand. -/
theorem Filled.map (h : Filled entries m) (f : α → β) :
    Filled (entries.map fun e => (e.1, f e.2)) (m.map fun e => (e.1, f e.2)) := by
  have hfst {γ δ : Type} (g : γ → δ) (l : List (κ × γ)) :
      (l.map fun e => (e.1, g e.2)).map Prod.fst = l.map Prod.fst := by
    rw [List.map_map]
    rfl
  refine ⟨?_, ?_, fun k b => ?_⟩
  · rw [keys, hfst]
    exact h.nodup
  · rw [keys, hfst, hfst]
    exact h.order
  · rw [get?_map, Option.map_eq_some_iff]
    constructor
    · rintro ⟨a, ha, rfl⟩
      obtain ⟨earlier, later, rfl, hlater⟩ := (h.last k a).1 ha
      exact ⟨_, later.map fun e => (e.1, f e.2), List.map_append, by rwa [hfst]⟩
    · rintro ⟨earlier, later, heq, hlater⟩
      obtain ⟨earlier, tail, rfl, rfl, htail⟩ := List.map_eq_append_iff.1 heq
      obtain ⟨⟨k', a⟩, later, rfl, hk, rfl⟩ := List.map_eq_cons_iff.1 htail
      obtain ⟨rfl, rfl⟩ := Prod.mk.inj hk
      exact ⟨a, (h.last k' a).2 ⟨earlier, later, rfl, by rwa [hfst] at hlater⟩, rfl⟩

/-- Maps with the same keys in the same order and the same values are the same. -/
theorem eq_of_keys_eq (h : (keys m).Nodup) (hkeys : keys m = keys m')
    (hget : ∀ k, get? k m = get? k m') : m = m' := by
  induction m generalizing m' with
  | nil => exact (List.map_eq_nil_iff.1 hkeys.symm).symm
  | cons e rest ih =>
    obtain ⟨k, a⟩ := e
    obtain ⟨⟨k', a'⟩, rest', rfl, hk, hrest⟩ := List.map_eq_cons_iff.1 hkeys.symm
    obtain rfl : k' = k := hk
    obtain ⟨hhead, hnodup⟩ := List.nodup_cons.1 h
    have hvalue : some a = some a' := by
      have hfirst := hget k'
      rwa [get?, if_pos rfl, get?, if_pos rfl] at hfirst
    rw [Option.some.inj hvalue, ih hnodup hrest.symm fun key => ?_]
    by_cases hkey : key = k'
    · -- the first key does not occur again
      subst hkey
      have hhead' : key ∉ keys rest' := fun hmem => hhead (hrest ▸ hmem)
      rw [Ordered.get?_eq_none_iff.2 hhead, Ordered.get?_eq_none_iff.2 hhead']
    · have hlater := hget key
      rwa [get?, if_neg hkey, get?, if_neg hkey] at hlater

/-- There is one map that entries make. -/
theorem Filled.unique (h : Filled entries m) (h' : Filled entries m') : m = m' := by
  have hasymm : ∀ a b, FirstBefore (entries.map Prod.fst) a b →
      ¬ FirstBefore (entries.map Prod.fst) b a := fun a b hab hba =>
    absurd (idxOf_lt_of_firstBefore hab) (Nat.lt_asymm (idxOf_lt_of_firstBefore hba))
  have hperm : (keys m).Perm (keys m') :=
    (List.perm_ext_iff_of_nodup h.nodup h'.nodup).2 fun k =>
      h.mem_keys_iff.trans h'.mem_keys_iff.symm
  have hkeys : keys m = keys m' :=
    hperm.eq_of_pairwise (fun a b _ _ hab hba => absurd hba (hasymm a b hab)) h.order h'.order
  refine eq_of_keys_eq h.nodup hkeys fun k => Option.ext fun a => ?_
  exact (h.last k a).trans (h'.last k a).symm

end CallBridge.Collection.Ordered
