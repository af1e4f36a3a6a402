import CallBridge.Proofs.Marker.Sites
import Mathlib.Algebra.BigOperators.Group.Finset.Piecewise

/-!
# Calls in the layouts of a text

Two texts that differ in blanks, or in other characters that no call needs, spell the same calls
once these are left out. A layout may hide a call from the count by breaking its name or by writing
it right behind the parenthesis of another one; it cannot make one up. Main statements: no layout
has more calls than its characters spell (`countCalls_le_spellings`), and one that keeps its calls
has as many (`KeepsCalls.countCalls_eq`), so no other layout of it has more
(`KeepsCalls.countCalls_le`).
-/

namespace CallBridge.Marker

open CallBridge.Text

variable {names : List (List Char)} {boundary layout : Char → Bool} {cs ds : List Char} {p : ℕ}

/-- Characters that a layout may add or leave out: the blanks among them, but none of a name and not
the parenthesis of a call. -/
structure IsLayout (names : List (List Char)) (layout : Char → Bool) : Prop where
  blank : ∀ c, isBlank c → layout c
  names : Plain names layout
  paren : layout '(' = false

/-- A text without its layout. -/
def ink (layout : Char → Bool) (cs : List Char) : List Char := cs.filter fun c => !layout c

/-- Whether a text begins with one of some names and a parenthesis right behind it. -/
def spells (names : List (List Char)) (cs : List Char) : Bool :=
  names.any fun name => (name ++ ['(']).isPrefixOf cs

/-- How many calls a text spells, of whatever is in front of them. -/
def spellings (names : List (List Char)) (cs : List Char) : ℕ := cs.tails.countP (spells names)

/-- Whether a text begins, behind no layout, with a call that it spells without its layout. -/
def spellsHere (names : List (List Char)) (layout : Char → Bool) (cs : List Char) : Bool :=
  (cs.head?.any fun c => !layout c) && spells names (ink layout cs)

/-- The places of a text where it goes on with a call if its layout is left out. -/
def spelled (names : List (List Char)) (layout : Char → Bool) (cs : List Char) : Finset ℕ :=
  (Finset.range cs.length).filter fun p => spellsHere names layout (cs.drop p)

/-- A layout that keeps its calls: where one is spelled it stands in one piece, with nothing in
front that could be part of its name, and the calls stand apart. -/
structure KeepsCalls (names : List (List Char)) (boundary layout : Char → Bool) (cs : List Char) :
    Prop where
  isLayout : IsLayout names layout
  whole : spelled names layout cs ⊆ sites names boundary cs
  apart : Apart names boundary cs

/-! ### Places where calls are spelled -/

theorem spells_nil (names : List (List Char)) : spells names [] = false := by
  simp [spells]

theorem ink_eq_self (h : ∀ c ∈ cs, layout c = false) : ink layout cs = cs :=
  List.filter_eq_self.2 fun c hc => by rw [h c hc, Bool.not_false]

theorem ink_eq_nil (h : ∀ c ∈ cs, layout c) : ink layout cs = [] :=
  List.filter_eq_nil_iff.2 fun c hc => by rw [h c hc]; decide

/-- A layout has as many places where a call is spelled as there are in what is left of it. -/
theorem card_spelled (names : List (List Char)) (layout : Char → Bool) (cs : List Char) :
    (spelled names layout cs).card = spellings names (ink layout cs) := by
  induction cs with
  | nil => simp [spelled, spellings, ink, spells_nil]
  | cons c rest ih =>
    have hfirst : (spelled names layout (c :: rest)).card =
        (spelled names layout rest).card + if spellsHere names layout (c :: rest) then 1 else 0 := by
      rw [spelled, Finset.card_filter, List.length_cons, Finset.sum_range_succ', spelled,
        Finset.card_filter]
      rfl
    rw [hfirst, ih, spellsHere, List.head?_cons, Option.any_some]
    cases hc : layout c with
    | true =>
      have hink : ink layout (c :: rest) = ink layout rest := by simp [ink, hc]
      rw [hink]
      rfl
    | false =>
      have hink : ink layout (c :: rest) = c :: ink layout rest := by simp [ink, hc]
      rw [hink, spellings, spellings, List.tails_cons, List.countP_cons]
      rfl

/-- Where a call stands, it is spelled. -/
theorem IsLayout.sites_subset (h : IsLayout names layout) :
    sites names boundary cs ⊆ spelled names layout cs := by
  intro p hp
  have hsite := mem_sites.1 hp
  obtain ⟨name, hname, n, blanks, rest, hdrop, hblanks, -⟩ := hsite.call
  obtain ⟨hne, hletters⟩ := h.names name hname
  obtain ⟨c, others, rfl⟩ := List.exists_cons_of_ne_nil hne
  have hink : ink layout (cs.drop p) = (c :: others) ++ '(' :: ink layout rest := by
    have hparen : ink layout ('(' :: rest) = '(' :: ink layout rest := by simp [ink, h.paren]
    have hgap : ink layout blanks = [] := ink_eq_nil fun d hd => h.blank d (hblanks d hd)
    calc ink layout (cs.drop p)
        = ink layout (c :: others) ++ (ink layout blanks ++ ink layout ('(' :: rest)) := by
          rw [hdrop, ink, List.filter_append, List.filter_append]
          rfl
      _ = (c :: others) ++ '(' :: ink layout rest := by
          rw [ink_eq_self hletters, hgap, hparen, List.nil_append]
  have hhead : (cs.drop p).head? = some c := by rw [hdrop]; rfl
  have hspells : spells names (ink layout (cs.drop p)) := by
    rw [spells, List.any_eq_true]
    refine ⟨c :: others, hname, ?_⟩
    rw [List.isPrefixOf_iff_prefix, hink]
    exact ⟨ink layout rest, by rw [List.append_assoc]; rfl⟩
  refine Finset.mem_filter.2 ⟨Finset.mem_range.2 hsite.lt_length, ?_⟩
  rw [spellsHere, hhead, Option.any_some, hletters c (List.mem_cons_self ..), hspells]
  rfl

/-! ### Counts of layouts -/

/-- No layout has more calls than are spelled. -/
theorem countCalls_le_spellings (h : IsLayout names layout) (boundary : Char → Bool)
    (cs : List Char) : countCalls names boundary cs ≤ spellings names (ink layout cs) :=
  calc countCalls names boundary cs
      ≤ (sites names boundary cs).card := (counts_countCalls names boundary cs).le_card
    _ ≤ (spelled names layout cs).card := Finset.card_le_card h.sites_subset
    _ = spellings names (ink layout cs) := card_spelled names layout cs

/-- A layout that keeps its calls has as many as are spelled. -/
theorem KeepsCalls.countCalls_eq (h : KeepsCalls names boundary layout cs) :
    countCalls names boundary cs = spellings names (ink layout cs) := by
  have hsites : sites names boundary cs = spelled names layout cs :=
    h.isLayout.sites_subset.antisymm h.whole
  rw [(counts_countCalls names boundary cs).eq_card_iff.2 h.apart, hsites, card_spelled]

/-- Of the layouts of a text, one that keeps its calls has the most. -/
theorem KeepsCalls.countCalls_le (h : KeepsCalls names boundary layout cs)
    (hsame : ink layout cs = ink layout ds) :
    countCalls names boundary ds ≤ countCalls names boundary cs := by
  rw [h.countCalls_eq, hsame]
  exact countCalls_le_spellings h.isLayout boundary ds

end CallBridge.Marker
