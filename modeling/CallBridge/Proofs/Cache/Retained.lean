import CallBridge.Cache
import CallBridge.Proofs.Collection.Latest
import CallBridge.Proofs.Collection.Ordered
import Mathlib.Data.List.Dedup

/-!
# What a cache retains

A cache is used by setting, getting and clearing. Setting a pair that is not there inserts it; the
pairs that are there are the last ones inserted, as many as fit. Main statement: the cache is a map
of those pairs to the results set last (`after_retains`), as long as sources have digests of their
own.
-/

namespace CallBridge.Cache

open Collection

/-! ### Use -/

/-- A source and a mode. -/
abbrev Pair := String × Mode

inductive Operation where
  | set (p : Pair) (r : TransformResult)
  | get (p : Pair)
  | clear
  deriving DecidableEq, Repr

def apply (c : Cache) : Operation → Cache
  | .set p r => c.set p.1 p.2 r
  | .get _ => c
  | .clear => c.clear

/-- A cache behind a number of operations. -/
def after (c : Cache) (ops : List Operation) : Cache := ops.foldl apply c

/-- The digest of a source with its mode. -/
def keyOf (p : Pair) : CacheKey := key p.1 p.2

/-- The sources that operations name. -/
def sources (ops : List Operation) : List String :=
  ops.filterMap fun
    | .set p _ => some p.1
    | .get p => some p.1
    | .clear => none

/-! ### Insertions -/

/-- The pairs inserted since the last clearing: a pair that is still there is not inserted again. -/
def insertion (capacity : ℕ) (inserted : List Pair) : Operation → List Pair
  | .set p _ => if p ∈ inserted.rtake capacity then inserted else inserted ++ [p]
  | .get _ => inserted
  | .clear => []

def inserted (capacity : ℕ) (ops : List Operation) : List Pair := ops.foldl (insertion capacity) []

/-- The last pairs inserted, as many as fit. -/
def retained (capacity : ℕ) (ops : List Operation) : List Pair :=
  (inserted capacity ops).rtake capacity

/-- The result that an operation sets for a pair. -/
def Operation.resultFor? (p : Pair) : Operation → Option TransformResult
  | .set q r => if p = q then some r else none
  | .get _ => none
  | .clear => none

/-- The result that was set last for a pair. -/
def lastSet? (ops : List Operation) (p : Pair) : Option TransformResult :=
  (ops.filterMap (·.resultFor? p)).getLast?

/-! ### Keys -/

/-- The table and the queue have the same keys, as many as fit. -/
structure InStep (c : Cache) : Prop where
  keys : Ordered.keys c.entries = c.order
  nodup : c.order.Nodup
  bounded : c.order.length ≤ c.capacity

variable {c : Cache} {p : Pair}

theorem inStep_empty (capacity : ℕ) : InStep (empty capacity) := ⟨rfl, .nil, Nat.zero_le _⟩

theorem InStep.mem_order_iff (h : InStep c) {k : CacheKey} :
    k ∈ c.order ↔ (c.entries.get? k).isSome := by
  rw [← h.keys]
  exact Ordered.isSome_get?_iff.symm

theorem InStep.nodup_append (h : InStep c) {k : CacheKey} (hk : k ∉ c.order) :
    (c.order ++ [k]).Nodup := by
  rw [← List.concat_eq_append, List.nodup_concat]
  exact ⟨hk, h.nodup⟩

/-- Without its first key, a table holds the entries behind it. -/
theorem filter_ne_head {k : CacheKey} {r : TransformResult}
    {rest : Ordered CacheKey TransformResult} (h : (Ordered.keys ((k, r) :: rest)).Nodup) :
    ((k, r) :: rest).filter (·.1 != k) = rest := by
  have hrest : ∀ e ∈ rest, (e.1 != k) = true := fun e he => by
    have hmem : e.1 ∈ Ordered.keys rest := List.mem_map_of_mem he
    exact bne_iff_ne.2 fun heq => (List.nodup_cons.1 h).1 (heq ▸ hmem)
  rw [List.filter_cons_of_neg (by simp), List.filter_eq_self.2 hrest]

/-- However many entries there are too many, the last ones stay. -/
theorem evict_eq (capacity : ℕ) {entries : Ordered CacheKey TransformResult}
    (hnodup : (Ordered.keys entries).Nodup) :
    evict capacity entries (Ordered.keys entries) =
      ⟨capacity, List.rtake entries capacity, (Ordered.keys entries).rtake capacity⟩ := by
  induction entries with
  | nil => simp [evict, Ordered.keys, List.rtake]
  | cons e rest ih =>
    obtain ⟨k, r⟩ := e
    have hkeys : Ordered.keys ((k, r) :: rest) = k :: Ordered.keys rest := rfl
    have hlength : (k :: Ordered.keys rest).length = ((k, r) :: rest).length := by
      rw [← hkeys, Ordered.keys, List.length_map]
    rw [hkeys, evict]
    split
    · next hfull =>
      -- the queue is too long: the loop goes on behind its first key
      have hrest := ih (List.nodup_cons.1 hnodup).2
      rw [filter_ne_head hnodup, hrest, rtake_cons hfull, rtake_cons (hlength ▸ hfull)]
    · next hroom =>
      rw [not_lt] at hroom
      rw [rtake_of_length_le hroom, rtake_of_length_le (hlength ▸ hroom)]

theorem trim_eq (hkeys : Ordered.keys c.entries = c.order) (hnodup : c.order.Nodup) :
    c.trim = { c with
      entries := List.rtake c.entries c.capacity
      order := c.order.rtake c.capacity } := by
  rw [trim, ← hkeys]
  exact evict_eq c.capacity (hkeys ▸ hnodup)

/-- Setting a pair that is there changes its result only. -/
theorem InStep.set_of_mem (h : InStep c) (hk : keyOf p ∈ c.order) (r : TransformResult) :
    c.set p.1 p.2 r = { c with entries := c.entries.set (keyOf p) r } := by
  have hcapacity : c.capacity ≠ 0 := by
    have hlength := List.length_pos_of_mem hk
    have hbounded := h.bounded
    omega
  have hknown : (c.entries.get? (key p.1 p.2)).isSome := h.mem_order_iff.1 hk
  unfold set
  rw [if_neg hcapacity, if_pos hknown]
  rfl

/-- Setting a pair that is not there puts it last; the first one leaves if there is no room. -/
theorem InStep.set_of_notMem (h : InStep c) (hk : keyOf p ∉ c.order) (r : TransformResult) :
    c.set p.1 p.2 r =
      { c with
        entries := List.rtake (c.entries ++ [(keyOf p, r)]) c.capacity
        order := (c.order ++ [keyOf p]).rtake c.capacity } := by
  have hunknown : ¬(c.entries.get? (key p.1 p.2)).isSome := fun hs => hk (h.mem_order_iff.2 hs)
  unfold set
  split
  · next hzero =>
    have horder : c.order = [] := List.eq_nil_of_length_eq_zero (by have := h.bounded; omega)
    have hentries : c.entries = [] := List.map_eq_nil_iff.1 (h.keys.trans horder)
    obtain ⟨capacity, entries, order⟩ := c
    dsimp only at hzero horder hentries ⊢
    rw [hzero, horder, hentries]
    rfl
  · rw [if_neg hunknown]
    have hset : c.entries.set (key p.1 p.2) r = c.entries ++ [(keyOf p, r)] :=
      Ordered.set_of_notMem (h.keys ▸ hk) r
    have hkeys : Ordered.keys (c.entries.set (key p.1 p.2) r) = c.order ++ [keyOf p] := by
      rw [Ordered.keys_set, h.keys]
      exact if_neg hk
    rw [← hset]
    exact trim_eq hkeys (h.nodup_append hk)

theorem InStep.set (h : InStep c) (p : Pair) (r : TransformResult) :
    InStep (c.set p.1 p.2 r) := by
  by_cases hk : keyOf p ∈ c.order
  · rw [h.set_of_mem hk]
    refine ⟨?_, h.nodup, h.bounded⟩
    change Ordered.keys (Ordered.set (keyOf p) r c.entries) = c.order
    rw [Ordered.keys_set, h.keys, if_pos hk]
  · rw [h.set_of_notMem hk]
    refine ⟨?_, ?_, length_rtake_le _ _⟩
    · change (List.rtake (c.entries ++ [(keyOf p, r)]) c.capacity).map Prod.fst = _
      rw [map_rtake, List.map_append, ← h.keys]
      rfl
    · exact (rtake_suffix _ _).sublist.nodup (h.nodup_append hk)

theorem InStep.apply (h : InStep c) (op : Operation) : InStep (c.apply op) := by
  cases op with
  | set p r => exact h.set p r
  | get p => exact h
  | clear => exact ⟨rfl, .nil, Nat.zero_le _⟩

/-! ### Results -/

/-- The loop takes entries out only. -/
theorem mem_entries_evict {capacity : ℕ} {order : List CacheKey} {e : CacheKey × TransformResult} :
    ∀ {entries : Ordered CacheKey TransformResult},
      e ∈ (evict capacity entries order).entries → e ∈ entries := by
  induction order with
  | nil => exact fun h => h
  | cons oldest rest ih =>
    intro entries h
    rw [evict] at h
    split at h
    · exact List.mem_of_mem_filter (ih h)
    · exact h

theorem mem_entries_set {e : CacheKey × TransformResult} {r : TransformResult}
    (h : e ∈ (c.set p.1 p.2 r).entries) : e = (keyOf p, r) ∨ e ∈ c.entries := by
  unfold set at h
  split at h
  · exact .inr h
  · dsimp only at h
    refine Ordered.mem_set (?_ : e ∈ Ordered.set (keyOf p) r c.entries)
    split at h
    · exact h
    · exact mem_entries_evict h

/-- What a cache holds was set under a pair with the same key. -/
theorem exists_set_of_mem (capacity : ℕ) (ops : List Operation) {e : CacheKey × TransformResult}
    (h : e ∈ ((empty capacity).after ops).entries) : ∃ p, .set p e.2 ∈ ops ∧ keyOf p = e.1 := by
  induction ops using List.reverseRecOn with
  | nil => exact absurd h List.not_mem_nil
  | append_singleton ops op ih =>
    have hbefore : e ∈ ((empty capacity).after ops).entries →
        ∃ p, .set p e.2 ∈ ops ++ [op] ∧ keyOf p = e.1 := fun he => by
      obtain ⟨p, hp, hkey⟩ := ih he
      exact ⟨p, List.mem_append_left _ hp, hkey⟩
    rw [after, List.foldl_append] at h
    cases op with
    | set p r =>
      rcases mem_entries_set h with rfl | he
      · exact ⟨p, List.mem_append_right _ (List.mem_singleton_self _), rfl⟩
      · exact hbefore he
    | get p => exact hbefore h
    | clear => exact absurd h List.not_mem_nil

/-- Sources with digests of their own. -/
def DigestsDiffer (names : List String) : Prop :=
  ∀ s ∈ names, ∀ t ∈ names, hash s = hash t → s = t

theorem digestsDiffer_of_nodup {names : List String} (h : (names.dedup.map hash).Nodup) :
    DigestsDiffer names := fun _ hs _ ht heq =>
  List.inj_on_of_nodup_map h (List.mem_dedup.2 hs) (List.mem_dedup.2 ht) heq

theorem DigestsDiffer.keyOf_inj {names : List String} (h : DigestsDiffer names) {q : Pair}
    (hp : p.1 ∈ names) (hq : q.1 ∈ names) : keyOf p = keyOf q ↔ p = q := by
  refine ⟨fun hkey => ?_, fun heq => heq ▸ rfl⟩
  obtain ⟨hhash, hmode⟩ := Prod.mk.inj hkey
  exact Prod.ext (h _ hp _ hq hhash) hmode

theorem DigestsDiffer.mem_map_iff {names : List String} (h : DigestsDiffer names) {pairs : List Pair}
    (hpairs : ∀ q ∈ pairs, q.1 ∈ names) (hp : p.1 ∈ names) :
    keyOf p ∈ pairs.map keyOf ↔ p ∈ pairs := by
  rw [List.mem_map]
  constructor
  · rintro ⟨q, hq, hkey⟩
    exact (h.keyOf_inj (hpairs q hq) hp).1 hkey ▸ hq
  · exact fun hp => ⟨p, hp, rfl⟩

/-- The last entries of a map hold what the map holds. -/
theorem get?_rtake {m : Ordered CacheKey TransformResult} (h : (Ordered.keys m).Nodup) (n : ℕ)
    (k : CacheKey) :
    Ordered.get? k (List.rtake m n) =
      if k ∈ (Ordered.keys m).rtake n then Ordered.get? k m else none := by
  have hkeys : Ordered.keys (List.rtake m n) = (Ordered.keys m).rtake n := map_rtake Prod.fst n m
  split
  · next hk =>
    have hsplit : m = m.take (m.length - n) ++ List.rtake m n := (List.take_append_drop ..).symm
    rw [← hkeys] at hk
    have hbefore : k ∉ Ordered.keys (m.take (m.length - n)) := by
      rw [hsplit, Ordered.keys, List.map_append, List.nodup_append] at h
      exact fun hk' => h.2.2 k hk' k hk rfl
    conv_rhs => rw [hsplit, Ordered.get?_append, Ordered.get?_eq_none_iff.2 hbefore]
    rfl
  · next hk => exact Ordered.get?_eq_none_iff.2 (hkeys ▸ hk)

theorem inserted_append (capacity : ℕ) (ops : List Operation) (op : Operation) :
    inserted capacity (ops ++ [op]) = insertion capacity (inserted capacity ops) op := by
  rw [inserted, List.foldl_append]
  rfl

theorem lastSet?_append (ops : List Operation) (op : Operation) (p : Pair) :
    lastSet? (ops ++ [op]) p = (op.resultFor? p).or (lastSet? ops p) := by
  rw [lastSet?, List.filterMap_append, List.getLast?_append, lastSet?]
  cases h : op.resultFor? p <;> simp [h]

/-- A cache that holds, of the pairs with given sources, the retained ones with the results set last. -/
structure Retains (names : List String) (capacity : ℕ) (ops : List Operation) (c : Cache) : Prop where
  inStep : InStep c
  capacity_eq : c.capacity = capacity
  named : ∀ p ∈ retained capacity ops, p.1 ∈ names
  order : c.order = (retained capacity ops).map keyOf
  results : ∀ p : Pair, p.1 ∈ names → c.entries.get? (keyOf p) =
    if p ∈ retained capacity ops then lastSet? ops p else none

theorem retains_nil (names : List String) (capacity : ℕ) :
    Retains names capacity [] (empty capacity) where
  inStep := inStep_empty capacity
  capacity_eq := rfl
  named p hp := absurd hp (by simp [retained, inserted, List.rtake])
  order := by simp [retained, inserted, List.rtake, empty]
  results p _ := by simp [retained, inserted, List.rtake, empty, Ordered.get?]

variable {names : List String} {capacity : ℕ} {ops : List Operation}

theorem Retains.mem_order_iff (h : Retains names capacity ops c) (hnames : DigestsDiffer names)
    (hp : p.1 ∈ names) : keyOf p ∈ c.order ↔ p ∈ retained capacity ops := by
  rw [h.order]
  exact hnames.mem_map_iff h.named hp

/-- Operations that insert nothing leave the retained pairs. -/
theorem retained_append {op : Operation}
    (hop : insertion capacity (inserted capacity ops) op = inserted capacity ops) :
    retained capacity (ops ++ [op]) = retained capacity ops := by
  rw [retained, inserted_append, hop, retained]

theorem lastSet?_set (ops : List Operation) (p q : Pair) (r : TransformResult) :
    lastSet? (ops ++ [.set p r]) q = if q = p then some r else lastSet? ops q := by
  rw [lastSet?_append, Operation.resultFor?]
  split <;> rfl

/-- A pair that is retained keeps its place and takes the new result. -/
theorem Retains.set_of_mem (h : Retains names capacity ops c) (hnames : DigestsDiffer names)
    (hp : p.1 ∈ names) (hmem : p ∈ retained capacity ops) (r : TransformResult) :
    Retains names capacity (ops ++ [.set p r]) (c.set p.1 p.2 r) := by
  have hretained : retained capacity (ops ++ [.set p r]) = retained capacity ops :=
    retained_append (if_pos hmem)
  have hset := h.inStep.set_of_mem ((h.mem_order_iff hnames hp).2 hmem) r
  refine ⟨h.inStep.set p r, ?_, ?_, ?_, fun q hq => ?_⟩
  · rw [hset]
    exact h.capacity_eq
  · rw [hretained]
    exact h.named
  · rw [hset, hretained]
    exact h.order
  · rw [hset, hretained, lastSet?_set]
    change Ordered.get? (keyOf q) (Ordered.set (keyOf p) r c.entries) = _
    rw [Ordered.get?_set]
    by_cases heq : q = p
    · rw [if_pos heq, heq, if_pos rfl, if_pos hmem]
    · rw [if_neg heq, if_neg fun hkey => heq ((hnames.keyOf_inj hq hp).1 hkey)]
      exact h.results q hq

/-- A pair that is not retained goes to the end. -/
theorem Retains.set_of_notMem (h : Retains names capacity ops c) (hnames : DigestsDiffer names)
    (hp : p.1 ∈ names) (hmem : p ∉ retained capacity ops) (r : TransformResult) :
    Retains names capacity (ops ++ [.set p r]) (c.set p.1 p.2 r) := by
  have hretained : retained capacity (ops ++ [.set p r]) =
      (retained capacity ops ++ [p]).rtake capacity := by
    rw [retained, inserted_append, retained, rtake_append_rtake]
    exact congrArg (List.rtake · capacity) (if_neg hmem)
  have hk : keyOf p ∉ c.order := fun hk => hmem ((h.mem_order_iff hnames hp).1 hk)
  have hset := h.inStep.set_of_notMem hk r
  have horder : (c.order ++ [keyOf p]).rtake c.capacity =
      (retained capacity (ops ++ [.set p r])).map keyOf := by
    rw [hretained, map_rtake, List.map_append, ← h.order, h.capacity_eq]
    rfl
  have hnamed : ∀ q ∈ retained capacity (ops ++ [.set p r]), q.1 ∈ names := fun q hq => by
    rw [hretained] at hq
    rcases List.mem_append.1 ((rtake_suffix _ _).subset hq) with hq | hq
    · exact h.named q hq
    · exact List.mem_singleton.1 hq ▸ hp
  refine ⟨h.inStep.set p r, ?_, hnamed, ?_, fun q hq => ?_⟩
  · rw [hset]
    exact h.capacity_eq
  · rw [hset]
    exact horder
  · have hkeys : Ordered.keys (c.entries ++ [(keyOf p, r)]) = c.order ++ [keyOf p] := by
      rw [Ordered.keys, List.map_append, ← Ordered.keys, h.inStep.keys]
      rfl
    rw [hset]
    change Ordered.get? (keyOf q) (List.rtake (c.entries ++ [(keyOf p, r)]) c.capacity) = _
    rw [get?_rtake (hkeys ▸ h.inStep.nodup_append hk), Ordered.get?_append, hkeys, horder,
      lastSet?_set]
    refine ite_congr (propext (hnames.mem_map_iff hnamed hq)) (fun hin => ?_) fun _ => rfl
    rw [h.results q hq, Ordered.get?]
    by_cases heq : q = p
    · rw [if_neg (heq ▸ hmem), if_pos (congrArg keyOf heq), if_pos heq]
      rfl
    · -- another pair that is retained now was retained before
      rw [hretained] at hin
      have hold : q ∈ retained capacity ops :=
        (List.mem_append.1 ((rtake_suffix _ _).subset hin)).resolve_right
          fun hq => heq (List.mem_singleton.1 hq)
      rw [if_pos hold, if_neg fun hkey => heq ((hnames.keyOf_inj hq hp).1 hkey), if_neg heq,
        Ordered.get?, Option.or_none]

theorem Retains.apply (h : Retains names capacity ops c) (hnames : DigestsDiffer names)
    (op : Operation) (hop : ∀ s ∈ sources [op], s ∈ names) :
    Retains names capacity (ops ++ [op]) (c.apply op) := by
  cases op with
  | set p r =>
    have hp : p.1 ∈ names := hop p.1 (List.mem_singleton_self _)
    by_cases hmem : p ∈ retained capacity ops
    · exact h.set_of_mem hnames hp hmem r
    · exact h.set_of_notMem hnames hp hmem r
  | get p =>
    have hretained : retained capacity (ops ++ [.get p]) = retained capacity ops :=
      retained_append rfl
    have hlast : ∀ q, lastSet? (ops ++ [.get p]) q = lastSet? ops q := fun q => by
      rw [lastSet?_append]
      rfl
    refine ⟨h.inStep, h.capacity_eq, ?_, ?_, fun q hq => ?_⟩
    · rw [hretained]
      exact h.named
    · rw [hretained]
      exact h.order
    · rw [hretained, hlast]
      exact h.results q hq
  | clear =>
    have hretained : retained capacity (ops ++ [.clear]) = [] := by
      rw [retained, inserted_append]
      exact List.drop_nil
    refine ⟨h.inStep.apply .clear, h.capacity_eq, ?_, ?_, fun q _ => ?_⟩
    · rw [hretained]
      exact fun q hq => absurd hq List.not_mem_nil
    · rw [hretained]
      rfl
    · rw [hretained, if_neg List.not_mem_nil]
      rfl

/-- A cache that was empty retains the last pairs inserted. -/
theorem retains_after (hnames : DigestsDiffer names) (capacity : ℕ) (ops : List Operation)
    (hops : ∀ s ∈ sources ops, s ∈ names) :
    Retains names capacity ops ((empty capacity).after ops) := by
  induction ops using List.reverseRecOn with
  | nil => exact retains_nil names capacity
  | append_singleton ops op ih =>
    have hsources : sources (ops ++ [op]) = sources ops ++ sources [op] := List.filterMap_append ..
    rw [hsources] at hops
    have hbefore := ih fun s hs => hops s (List.mem_append_left _ hs)
    rw [after, List.foldl_append]
    exact hbefore.apply hnames op fun s hs => hops s (List.mem_append_right _ hs)

/-- The cache is a map of the pairs retained to the results set last: its queue has each of their
keys once, in the order of insertion, and is the keys of its table. -/
theorem after_retains (capacity : ℕ) (ops : List Operation) (p : Pair)
    (h : DigestsDiffer (p.1 :: sources ops)) :
    let c := (empty capacity).after ops
    c.order.Nodup ∧ Ordered.keys c.entries = c.order ∧ c.size ≤ capacity ∧
      c.order = (retained capacity ops).map keyOf ∧
      (p ∈ retained capacity ops →
        ∃ r, lastSet? ops p = some r ∧ c.get? p.1 p.2 = some r) ∧
      (p ∉ retained capacity ops → c.get? p.1 p.2 = none) := by
  intro c
  have hc : Retains (p.1 :: sources ops) capacity ops c :=
    retains_after h capacity ops fun s hs => List.mem_cons_of_mem _ hs
  have hp : p.1 ∈ p.1 :: sources ops := List.mem_cons_self ..
  have hget : c.get? p.1 p.2 = if p ∈ retained capacity ops then lastSet? ops p else none :=
    hc.results p hp
  refine ⟨hc.inStep.nodup, hc.inStep.keys, ?_, hc.order, fun hmem => ?_, fun hmem => ?_⟩
  · have hbounded := hc.inStep.bounded
    rw [← hc.inStep.keys, hc.capacity_eq, Ordered.keys, List.length_map] at hbounded
    exact hbounded
  · have hsome : (c.entries.get? (keyOf p)).isSome :=
      hc.inStep.mem_order_iff.1 ((hc.mem_order_iff h hp).2 hmem)
    rw [if_pos hmem] at hget
    obtain ⟨r, hr⟩ := Option.isSome_iff_exists.1 hsome
    exact ⟨r, hget.symm.trans hr, hr⟩
  · rw [hget, if_neg hmem]

/-- Two sources fill a cache, the first is set again, and a third one takes its place. -/
def crowded : List Operation :=
  let result (text : String) : TransformResult := ⟨text, none, []⟩
  [.set ("a", .production) (result "1"), .set ("b", .production) (result "2"),
    .set ("a", .production) (result "3"), .get ("a", .production),
    .set ("c", .production) (result "4")]

example : retained 2 crowded = [("b", .production), ("c", .production)] := by decide

theorem after_retains_crowded :
    DigestsDiffer ("c" :: sources crowded) ∧
      ((empty 2).after crowded).order = (retained 2 crowded).map keyOf ∧
      ∃ r, lastSet? crowded ("c", .production) = some r ∧
        ((empty 2).after crowded).get? "c" .production = some r := by
  have hdiffer : DigestsDiffer ("c" :: sources crowded) :=
    digestsDiffer_of_nodup (by decide +kernel)
  have hretains := after_retains 2 crowded ("c", .production) hdiffer
  exact ⟨hdiffer, hretains.2.2.2.1, hretains.2.2.2.2.1 (by decide)⟩

end CallBridge.Cache
