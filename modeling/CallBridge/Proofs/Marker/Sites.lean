import CallBridge.Proofs.Collection.Span
import CallBridge.Proofs.Marker.Spelled
import Mathlib.Data.Finset.Card
import Mathlib.Data.Finset.Range
import Mathlib.Data.Finset.Max

/-!
# Places of calls

A call stands where one of some names begins, with nothing in front that could be part of it, and
blanks and an opening parenthesis behind it (`IsSite`). The count goes through a text from the front
and passes over what it has counted, so a call that begins in a counted one or right behind its
parenthesis is left out (`IsCounting`). Main statements: these calls are the ones that are counted
(`exists_counting`), so the count is that of all places exactly where calls stand apart
(`counts_countCalls`); and names without characters that may stand in front of a name leave out
nothing but calls right behind a parenthesis (`apart_iff_of_plain`).
-/

namespace CallBridge.Marker

open CallBridge.Text Collection

variable {names : List (List Char)} {boundary : Char → Bool} {name front rest cs : List Char}
  {n m p q e i : ℕ} {counted : Finset ℕ}

/-! ### Calls of a name -/

/-- A text begins with a call of a name: `n` characters that are the name, blanks and an opening
parenthesis. -/
def BeginsWithCall (name : List Char) (n : ℕ) (cs : List Char) : Prop :=
  ∃ blanks rest, cs = name ++ (blanks ++ '(' :: rest) ∧ (∀ c ∈ blanks, isBlank c) ∧
    n = name.length + blanks.length + 1

theorem afterName?_eq_some_iff : afterName? name cs = some rest ↔ cs = name ++ rest := by
  refine ⟨fun h => ?_, fun h => h ▸ afterName?_append name rest⟩
  induction name generalizing cs with
  | nil => exact Option.some.inj h
  | cons c name ih =>
    cases cs with
    | nil => cases h
    | cons d cs =>
      rw [afterName?] at h
      split at h
      · next heq => rw [heq, ih h, List.cons_append]
      · cases h

theorem callLength?_singleton :
    callLength? [name] cs = some n ↔ BeginsWithCall name n cs := by
  rw [callLength?, List.findSome?_singleton, Option.bind_eq_some_iff]
  constructor
  · rintro ⟨rest, hrest, hcall⟩
    obtain rfl := afterName?_eq_some_iff.1 hrest
    split at hcall
    · next tail htail =>
      have hsplit : rest = rest.takeWhile isBlank ++ '(' :: tail := by
        rw [← htail, List.takeWhile_append_dropWhile]
      refine ⟨rest.takeWhile isBlank, tail, by rw [← hsplit],
        fun c hc => List.mem_takeWhile_imp hc, ?_⟩
      have hlength := congrArg List.length hsplit
      rw [List.length_append, List.length_cons] at hlength
      have hn := Option.some.inj hcall
      rw [List.length_append] at hn
      omega
    · cases hcall
  · rintro ⟨blanks, rest, rfl, hblanks, rfl⟩
    refine ⟨_, afterName?_append .., ?_⟩
    rw [dropWhile_append_stops hblanks (stops_cons.2 (by decide))]
    simp only [List.length_append, List.length_cons, Option.some.injEq]
    omega

theorem callLength?_eq_findSome? (names : List (List Char)) (cs : List Char) :
    callLength? names cs = names.findSome? fun name => callLength? [name] cs := by
  simp only [callLength?, List.findSome?_singleton]

/-- Of several names, the first one that fits is read. -/
theorem callLength?_eq_some_iff :
    callLength? names cs = some n ↔ ∃ before name after, names = before ++ name :: after ∧
      BeginsWithCall name n cs ∧ ∀ other ∈ before, ∀ m, ¬ BeginsWithCall other m cs := by
  rw [callLength?_eq_findSome?, List.findSome?_eq_some_iff]
  refine exists_congr fun before => exists_congr fun name => exists_congr fun after => ?_
  refine and_congr_right fun _ => and_congr callLength?_singleton ?_
  refine forall₂_congr fun other _ => ?_
  rw [Option.eq_none_iff_forall_ne_some]
  exact forall_congr' fun m => not_congr callLength?_singleton

theorem isSome_callLength?_iff :
    (callLength? names cs).isSome ↔ ∃ name ∈ names, ∃ n, BeginsWithCall name n cs := by
  rw [callLength?_eq_findSome?, List.findSome?_isSome_iff]
  simp only [Option.isSome_iff_exists, callLength?_singleton]

/-! ### Places -/

/-- A call of one of some names stands at a place of a text, at its start or behind a character that
may stand there. -/
structure IsSite (names : List (List Char)) (boundary : Char → Bool) (cs : List Char) (p : ℕ) :
    Prop where
  free : ∀ c ∈ (cs.take p).getLast?, boundary c
  call : ∃ name ∈ names, ∃ n, BeginsWithCall name n (cs.drop p)

/-- The place behind the parenthesis of the call at a place, of the first name that fits. -/
def EndsAt (names : List (List Char)) (cs : List Char) (p e : ℕ) : Prop :=
  ∃ before name after n, names = before ++ name :: after ∧ BeginsWithCall name n (cs.drop p) ∧
    (∀ other ∈ before, ∀ m, ¬ BeginsWithCall other m (cs.drop p)) ∧ e = p + n

theorem isSite_iff : IsSite names boundary cs p ↔
    (∀ c ∈ (cs.take p).getLast?, boundary c) ∧ (callLength? names (cs.drop p)).isSome := by
  rw [isSome_callLength?_iff]
  exact ⟨fun h => ⟨h.free, h.call⟩, fun h => ⟨h.1, h.2⟩⟩

instance (names : List (List Char)) (boundary : Char → Bool) (cs : List Char) :
    DecidablePred (IsSite names boundary cs) := fun p =>
  decidable_of_iff ((cs.take p).getLast?.all boundary ∧ (callLength? names (cs.drop p)).isSome)
    (by rw [isSite_iff, Option.all_eq_true]; rfl)

theorem endsAt_iff : EndsAt names cs p e ↔
    ∃ n, callLength? names (cs.drop p) = some n ∧ e = p + n := by
  simp only [callLength?_eq_some_iff, EndsAt]
  constructor
  · rintro ⟨before, name, after, n, hnames, hcall, hfirst, he⟩
    exact ⟨n, ⟨before, name, after, hnames, hcall, hfirst⟩, he⟩
  · rintro ⟨n, ⟨before, name, after, hnames, hcall, hfirst⟩, he⟩
    exact ⟨before, name, after, n, hnames, hcall, hfirst, he⟩

theorem EndsAt.unique {e' : ℕ} (h : EndsAt names cs p e) (h' : EndsAt names cs p e') : e = e' := by
  obtain ⟨n, hn, rfl⟩ := endsAt_iff.1 h
  obtain ⟨n', hn', rfl⟩ := endsAt_iff.1 h'
  rw [Option.some.inj (hn.symm.trans hn')]

theorem EndsAt.lt (h : EndsAt names cs p e) : p < e := by
  obtain ⟨_, name, _, n, -, ⟨blanks, rest, -, -, rfl⟩, -, rfl⟩ := h
  omega

theorem IsSite.lt_length (h : IsSite names boundary cs p) : p < cs.length := by
  obtain ⟨name, -, n, blanks, rest, heq, -, -⟩ := h.call
  have hlength := congrArg List.length heq
  simp only [List.length_drop, List.length_append, List.length_cons] at hlength
  omega

/-- The places of the calls in a text. -/
def sites (names : List (List Char)) (boundary : Char → Bool) (cs : List Char) : Finset ℕ :=
  (Finset.range cs.length).filter (IsSite names boundary cs)

theorem mem_sites : p ∈ sites names boundary cs ↔ IsSite names boundary cs p := by
  rw [sites, Finset.mem_filter, Finset.mem_range, and_iff_right_iff_imp]
  exact IsSite.lt_length

theorem isSite_append : IsSite names boundary (front ++ cs) front.length ↔
    (∀ c ∈ front.getLast?, boundary c) ∧ (callLength? names cs).isSome := by
  rw [isSite_iff, List.take_left' rfl, List.drop_left' rfl]

theorem endsAt_append (h : callLength? names cs = some n) :
    EndsAt names (front ++ cs) front.length (front.length + n) := by
  rw [endsAt_iff, List.drop_left' rfl]
  exact ⟨n, h, rfl⟩

/-! ### Counting -/

/-- Which places are counted: every call but those that begin in a counted call in front of them or
right behind its parenthesis. -/
def IsCounting (names : List (List Char)) (boundary : Char → Bool) (cs : List Char)
    (counted : Finset ℕ) : Prop :=
  ∀ q, q ∈ counted ↔ IsSite names boundary cs q ∧
    ∀ p ∈ counted, p < q → ∀ e, EndsAt names cs p e → e < q

/-- The rule does not leave a choice. -/
theorem IsCounting.unique {counted' : Finset ℕ} (h : IsCounting names boundary cs counted)
    (h' : IsCounting names boundary cs counted') : counted = counted' := by
  refine Finset.ext fun q => ?_
  induction q using Nat.strong_induction_on with
  | _ q ih =>
    rw [h q, h' q]
    refine and_congr_right fun _ => forall_congr' fun p => ?_
    -- only places in front matter, and there the two agree
    by_cases hlt : p < q
    · rw [ih p hlt]
    · exact iff_of_true (fun _ hp => absurd hp hlt) (fun _ hp => absurd hp hlt)

/-- The same from a place on. -/
def IsCountingFrom (names : List (List Char)) (boundary : Char → Bool) (cs : List Char) (i : ℕ)
    (counted : Finset ℕ) : Prop :=
  ∀ q, q ∈ counted ↔ i ≤ q ∧ IsSite names boundary cs q ∧
    ∀ p ∈ counted, p < q → ∀ e, EndsAt names cs p e → e < q

/-- From a place on, a number of places is counted. -/
def CountsFrom (names : List (List Char)) (boundary : Char → Bool) (cs : List Char) (i n : ℕ) :
    Prop :=
  ∃ counted, IsCountingFrom names boundary cs i counted ∧ counted.card = n

theorem countsFrom_zero (h : cs.length ≤ i) : CountsFrom names boundary cs i 0 := by
  refine ⟨∅, fun q => iff_of_false (Finset.notMem_empty q) fun ⟨hq, hsite, _⟩ => ?_, rfl⟩
  exact absurd hsite.lt_length (by omega)

/-- A place where no call stands is not counted. -/
theorem CountsFrom.skip (h : CountsFrom names boundary cs (i + 1) n)
    (hi : ¬ IsSite names boundary cs i) : CountsFrom names boundary cs i n := by
  obtain ⟨counted, hcounted, hcard⟩ := h
  refine ⟨counted, fun q => (hcounted q).trans (and_congr_left fun ⟨hsite, _⟩ => ?_), hcard⟩
  have hne : q ≠ i := fun heq => hi (heq ▸ hsite)
  omega

/-- A call that is reached is counted, and passed over with the character behind it. -/
theorem CountsFrom.take (h : CountsFrom names boundary cs (e + 1) n)
    (hi : IsSite names boundary cs i) (he : EndsAt names cs i e) :
    CountsFrom names boundary cs i (n + 1) := by
  obtain ⟨counted, hcounted, rfl⟩ := h
  have hlt : i < e := he.lt
  have hlater : ∀ p ∈ counted, e < p := fun p hp => ((hcounted p).1 hp).1
  have hnew : i ∉ counted := fun hmem => absurd (hlater i hmem) (by omega)
  refine ⟨insert i counted, fun q => ?_, Finset.card_insert_of_notMem hnew⟩
  rw [Finset.mem_insert]
  constructor
  · rintro (rfl | hq)
    · refine ⟨le_rfl, hi, fun p hp hpq => ?_⟩
      rcases Finset.mem_insert.1 hp with rfl | hp
      · exact absurd hpq (lt_irrefl _)
      · exact absurd (hlater p hp) (by omega)
    · obtain ⟨hle, hsite, hapart⟩ := (hcounted q).1 hq
      refine ⟨by omega, hsite, fun p hp hpq e' he' => ?_⟩
      rcases Finset.mem_insert.1 hp with rfl | hp
      · rw [he'.unique he]
        exact hle
      · exact hapart p hp hpq e' he'
  · rintro ⟨hle, hsite, hapart⟩
    refine or_iff_not_imp_left.2 fun hne => (hcounted q).2 ⟨?_, hsite, fun p hp => ?_⟩
    · exact hapart i (Finset.mem_insert_self ..) (by omega) e he
    · exact hapart p (Finset.mem_insert_of_mem hp)

theorem countFrom_zero_cons (c : Char) (rest : List Char) :
    countFrom names boundary 0 (c :: rest) =
      if boundary c then countCalls names boundary rest else countFrom names boundary 0 rest := rfl

/-- At a place where a call may stand, it is counted if it is there. -/
theorem countsFrom_here (hfree : ∀ c ∈ front.getLast?, boundary c)
    (hlater : ∀ skip, CountsFrom names boundary (front ++ cs) (front.length + skip + 1)
      (countFrom names boundary skip cs)) :
    CountsFrom names boundary (front ++ cs) front.length (countCalls names boundary cs) := by
  rw [countCalls]
  split
  · next n hn =>
    exact (hlater n).take (isSite_append.2 ⟨hfree, by rw [hn]; rfl⟩) (endsAt_append hn)
  · next hn =>
    refine (hlater 0).skip fun hhere => ?_
    have hsome := (isSite_append.1 hhere).2
    rw [hn] at hsome
    cases hsome

/-- Behind a beginning of a text and some characters to be passed over, the places behind these are
counted. -/
theorem countsFrom_countFrom (front : List Char) (skip : ℕ) (cs : List Char) :
    CountsFrom names boundary (front ++ cs) (front.length + skip + 1)
      (countFrom names boundary skip cs) := by
  induction cs generalizing front skip with
  | nil =>
    cases skip <;>
    · refine countsFrom_zero ?_
      rw [List.append_nil]
      omega
  | cons c rest ih =>
    have hlength : (front ++ [c]).length = front.length + 1 := List.length_append
    have hnext := ih (front ++ [c])
    rw [hlength] at hnext
    rw [List.append_cons]
    cases skip with
    | succ skip =>
      rw [← Nat.add_assoc, Nat.add_right_comm front.length skip 1]
      exact hnext skip
    | zero =>
      rw [countFrom_zero_cons, Nat.add_zero, ← hlength]
      split
      · next hc =>
        refine countsFrom_here ?_ (hlength ▸ hnext)
        rw [List.getLast?_concat]
        rintro _ ⟨⟩
        exact hc
      · next hc =>
        refine CountsFrom.skip (hlength ▸ hnext 0) fun hhere => hc ?_
        exact (isSite_append.1 hhere).1 c List.getLast?_concat

/-- The calls that are counted are those that the rule says. -/
theorem exists_counting (names : List (List Char)) (boundary : Char → Bool) (cs : List Char) :
    ∃ counted, IsCounting names boundary cs counted ∧
      counted.card = countCalls names boundary cs := by
  have hstart : ∀ c ∈ ([] : List Char).getLast?, boundary c := nofun
  have hcounts : CountsFrom names boundary cs 0 (countCalls names boundary cs) :=
    countsFrom_here hstart fun skip => countsFrom_countFrom [] skip cs
  obtain ⟨counted, hcounted, hcard⟩ := hcounts
  exact ⟨counted, fun q => by rw [hcounted q, and_iff_right q.zero_le], hcard⟩

/-! ### All places and those that are counted -/

/-- Each call stands behind the ones in front of it, with a character behind their parentheses. -/
def Apart (names : List (List Char)) (boundary : Char → Bool) (cs : List Char) : Prop :=
  ∀ p q e, IsSite names boundary cs p → IsSite names boundary cs q → p < q →
    EndsAt names cs p e → e < q

/-- What a number says that counts the calls in a text: the places that the rule selects are as
many, so it is the number of all places exactly when these are apart. -/
structure Counts (names : List (List Char)) (boundary : Char → Bool) (cs : List Char) (n : ℕ) :
    Prop where
  selected : ∃! counted, IsCounting names boundary cs counted ∧ counted.card = n
  le_card : n ≤ (sites names boundary cs).card
  eq_card_iff : n = (sites names boundary cs).card ↔ Apart names boundary cs

theorem IsCounting.subset_sites (h : IsCounting names boundary cs counted) :
    counted ⊆ sites names boundary cs := fun q hq => mem_sites.2 ((h q).1 hq).1

theorem IsCounting.eq_sites_iff (h : IsCounting names boundary cs counted) :
    counted = sites names boundary cs ↔ Apart names boundary cs := by
  constructor
  · rintro heq p q e hp hq hlt he
    rw [← mem_sites, ← heq] at hp hq
    exact ((h q).1 hq).2 p hp hlt e he
  · intro hapart
    refine h.subset_sites.antisymm fun q hq => ?_
    have hq := mem_sites.1 hq
    exact (h q).2 ⟨hq, fun p hp hlt e he => hapart p q e ((h p).1 hp).1 hq hlt he⟩

/-- The first call of a text is counted. -/
theorem IsCounting.nonempty_iff (h : IsCounting names boundary cs counted) :
    counted.Nonempty ↔ (sites names boundary cs).Nonempty := by
  refine ⟨fun hcounted => hcounted.mono h.subset_sites, fun hsites => ?_⟩
  refine ⟨_, (h _).2 ⟨mem_sites.1 (Finset.min'_mem _ hsites), fun p hp hlt => ?_⟩⟩
  exact absurd (Finset.min'_le _ p (h.subset_sites hp)) (not_le.2 hlt)

theorem counts_countCalls (names : List (List Char)) (boundary : Char → Bool) (cs : List Char) :
    Counts names boundary cs (countCalls names boundary cs) := by
  obtain ⟨counted, hcounted, hcard⟩ := exists_counting names boundary cs
  refine ⟨⟨counted, ⟨hcounted, hcard⟩, fun other hother => hother.1.unique hcounted⟩, ?_, ?_⟩
  · rw [← hcard]
    exact Finset.card_le_card hcounted.subset_sites
  · rw [← hcounted.eq_sites_iff, ← hcard]
    refine ⟨fun heq => ?_, congrArg _⟩
    exact Finset.eq_of_subset_of_card_le hcounted.subset_sites heq.ge

theorem Counts.unique {m : ℕ} (h : Counts names boundary cs n) (h' : Counts names boundary cs m) :
    n = m := by
  obtain ⟨counted, ⟨hcounted, rfl⟩, -⟩ := h.selected
  obtain ⟨counted', ⟨hcounted', rfl⟩, -⟩ := h'.selected
  rw [hcounted.unique hcounted']

theorem countCalls_pos_iff :
    0 < countCalls names boundary cs ↔ (sites names boundary cs).Nonempty := by
  obtain ⟨counted, hcounted, hcard⟩ := exists_counting names boundary cs
  rw [← hcard, Finset.card_pos, hcounted.nonempty_iff]

/-! ### Plain names -/

/-- Names that have no character that may stand in front of a name. -/
def Plain (names : List (List Char)) (boundary : Char → Bool) : Prop :=
  ∀ name ∈ names, name ≠ [] ∧ ∀ c ∈ name, boundary c = false

instance (names : List (List Char)) (boundary : Char → Bool) : Decidable (Plain names boundary) :=
  decidable_of_iff (names.all fun name => !name.isEmpty && name.all fun c => !boundary c)
    (by simp [Plain])

theorem IsSite.boundary_of_getElem? {c : Char} (h : IsSite names boundary cs (i + 1))
    (hc : cs[i]? = some c) : boundary c := by
  refine h.free c ?_
  rw [List.getLast?_take, if_neg i.succ_ne_zero, Nat.add_sub_cancel, hc]
  rfl

/-- A call of a plain name begins with a character of the name. -/
theorem IsSite.exists_getElem? (h : IsSite names boundary cs q) (hplain : Plain names boundary) :
    ∃ c, cs[q]? = some c ∧ boundary c = false := by
  obtain ⟨name, hname, n, blanks, rest, hdrop, -, -⟩ := h.call
  obtain ⟨hne, hchars⟩ := hplain name hname
  obtain ⟨c, others, rfl⟩ := List.exists_cons_of_ne_nil hne
  refine ⟨c, ?_, hchars c (List.mem_cons_self ..)⟩
  rw [← Nat.add_zero q, ← List.getElem?_drop, hdrop]
  rfl

/-- In a call of a plain name no other one begins: it would have a character of the name in front of
it, or begin with a blank or the parenthesis. -/
theorem not_isSite_of_plain (h : Plain names boundary) (hblank : ∀ c, isBlank c → boundary c)
    (hparen : boundary '(') (he : EndsAt names cs p e) (hpq : p < q) (hqe : q < e) :
    ¬ IsSite names boundary cs q := by
  intro hsite
  obtain ⟨before, name, after, n, hnames, ⟨blanks, rest, hdrop, hblanks, rfl⟩, -, rfl⟩ := he
  have hplace (j : ℕ) : cs[p + j]? = (name ++ (blanks ++ '(' :: rest))[j]? := by
    rw [← List.getElem?_drop, hdrop]
  obtain ⟨j, rfl⟩ := Nat.exists_eq_add_of_lt hpq
  rcases Nat.lt_or_ge j name.length with hj | hj
  · -- the character in front of the place is one of the name
    have hfront : cs[p + j]? = some name[j] := by
      rw [hplace, List.getElem?_append_left hj, List.getElem?_eq_getElem hj]
    have hname : name ∈ names := hnames ▸ List.mem_append_right _ (List.mem_cons_self ..)
    have hinside := (h name hname).2 name[j] (List.getElem_mem hj)
    exact Bool.false_ne_true (hinside.symm.trans (hsite.boundary_of_getElem? hfront))
  · -- the character at the place is a blank or the parenthesis
    obtain ⟨c, hc, hfalse⟩ := hsite.exists_getElem? h
    rw [Nat.add_assoc, hplace, List.getElem?_append_right (by omega)] at hc
    have htrue : boundary c := by
      rcases Nat.lt_or_ge (j + 1 - name.length) blanks.length with hk | hk
      · rw [List.getElem?_append_left hk] at hc
        exact hblank c (hblanks c (List.mem_of_getElem? hc))
      · have hzero : j + 1 - name.length - blanks.length = 0 := by omega
        rw [List.getElem?_append_right hk, hzero] at hc
        exact Option.some.inj hc ▸ hparen
    exact Bool.false_ne_true (hfalse.symm.trans htrue)

/-- Calls of plain names stand apart unless one is written right behind the parenthesis of
another. -/
theorem apart_iff_of_plain (h : Plain names boundary) (hblank : ∀ c, isBlank c → boundary c)
    (hparen : boundary '(') :
    Apart names boundary cs ↔
      ∀ p e, IsSite names boundary cs p → EndsAt names cs p e → ¬ IsSite names boundary cs e := by
  constructor
  · intro hapart p e hp he hsite
    exact absurd (hapart p e e hp hsite he.lt he) (lt_irrefl e)
  · intro hnone p q e hp hq hlt he
    by_contra hle
    rcases Nat.eq_or_lt_of_le (not_lt.1 hle) with rfl | hqe
    · exact hnone p q hp he hq
    · exact not_isSite_of_plain h hblank hparen he hlt hqe hq

end CallBridge.Marker
