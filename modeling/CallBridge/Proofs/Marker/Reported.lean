import CallBridge.Marker.Check
import CallBridge.Proofs.Marker.Sites
import CallBridge.Proofs.Number.Digits

/-!
# What is reported of a text

The findings on an output (`mem_checkProduction`), and the number of registrations or requests that
is reported as lost. Main statement: it is the number of places where a call of a configured name
stands exactly when these calls stand apart, which for plain names means that none is written right
behind the opening parenthesis of another (`reported_eq_card_iff`).
-/

namespace CallBridge.Marker

open Text

/-- The finding that an output has no call of the platform. -/
def noCalls : Diagnostic :=
  finding .warning "Transformed code does not contain platform API calls"
    "Check that web APIs are mapped to platform APIs"

/-- The finding that an output has no registration of the platform. -/
def lostEvents (n : Nat) : Diagnostic :=
  finding .error
    (toString n ++
      " event listener(s) in the original but no platform event registration in the output")
    "Check the event mapping configuration"

/-- The finding that an output has no request of the platform. -/
def lostFetches (n : Nat) : Diagnostic :=
  finding .error
    (toString n ++ " fetch call(s) in the original but no platform API call in the output")
    "Check the API mapping configuration"

variable {config : Config} {source generated : String} {d : Diagnostic}

/-- What is reported besides is about interfaces that have no counterpart. -/
theorem mem_checkProduction :
    d ∈ checkProduction config source generated ↔
      (d = noCalls ∧ countPlatformEvents config generated = 0 ∧
        countPlatformApis config generated = 0) ∨
      (d = lostEvents (countMethods config.registrationMethods source) ∧
        0 < countMethods config.registrationMethods source ∧
        countPlatformEvents config generated = 0) ∨
      (d = lostFetches (countFunctions config.fetchCallees source) ∧
        0 < countFunctions config.fetchCallees source ∧
        countPlatformApis config generated = 0) ∨
      ∃ i ∈ legacyInterfaces, i.2 source ∧ d = legacyFinding i.1 := by
  have hone {p : Prop} [Decidable p] {x : Diagnostic} :
      d ∈ (if p then [x] else []) ↔ d = x ∧ p := by
    split <;> simp_all
  simp only [checkProduction, List.mem_append, hone, List.mem_map, List.mem_filter, or_assoc,
    and_assoc, eq_comm (b := d)]
  rfl

theorem noCalls_mem_checkProduction_iff :
    noCalls ∈ checkProduction config source generated ↔
      countPlatformEvents config generated = 0 ∧ countPlatformApis config generated = 0 := by
  refine ⟨fun h => ?_, fun h => mem_checkProduction.2 (Or.inl ⟨rfl, h⟩)⟩
  rcases mem_checkProduction.1 h with ⟨-, hzero⟩ | ⟨heq, -⟩ | ⟨heq, -⟩ | ⟨i, hi, -, heq⟩
  · exact hzero
  · cases congrArg Diagnostic.severity heq
  · cases congrArg Diagnostic.severity heq
  · simp only [legacyInterfaces, List.mem_cons, List.not_mem_nil, or_false] at hi
    rcases hi with rfl | rfl | rfl <;> simp [noCalls, legacyFinding, finding] at heq

/-! ### Numbers that are reported -/

theorem lostEvents_inj {n m : ℕ} : lostEvents n = lostEvents m ↔ n = m := by
  refine ⟨fun h => Number.eq_of_toString_eq ?_, congrArg lostEvents⟩
  exact (String.append_left_inj _).1 (congrArg Diagnostic.message h)

theorem lostFetches_inj {n m : ℕ} : lostFetches n = lostFetches m ↔ n = m := by
  refine ⟨fun h => Number.eq_of_toString_eq ?_, congrArg lostFetches⟩
  exact (String.append_left_inj _).1 (congrArg Diagnostic.message h)

theorem lostEvents_ne_lostFetches (n m : ℕ) : lostEvents n ≠ lostFetches m := by
  simp [lostEvents, lostFetches, finding]

/-- What is said of an output that should be the same program. -/
theorem suggestions_of_mem_checkDevelopment (h : d ∈ checkDevelopment config source generated) :
    d.suggestions = ["Development mode must not rewrite calls"] := by
  rw [checkDevelopment] at h
  split at h
  · cases h
  · rw [List.mem_singleton.1 h]
    rfl

/-- The errors that are about the platform are those of calls that were lost. -/
theorem mem_check_iff_of_error {mode : Mode} (herror : d.severity = .error)
    (hplatform : d.suggestions ≠ ["Development mode must not rewrite calls"]) :
    d ∈ check config mode source generated ↔ mode = .production ∧
      ((d = lostEvents (countMethods config.registrationMethods source) ∧
          0 < countMethods config.registrationMethods source ∧
          countPlatformEvents config generated = 0) ∨
        (d = lostFetches (countFunctions config.fetchCallees source) ∧
          0 < countFunctions config.fetchCallees source ∧
          countPlatformApis config generated = 0)) := by
  cases mode with
  | development =>
    exact iff_of_false (fun h => hplatform (suggestions_of_mem_checkDevelopment h)) nofun
  | production =>
    rw [check, mem_checkProduction, and_iff_right rfl]
    constructor
    · rintro (⟨rfl, -⟩ | hlost | hlost | ⟨i, -, -, rfl⟩)
      · cases herror
      · exact Or.inl hlost
      · exact Or.inr hlost
      · cases herror
    · rintro (hlost | hlost)
      · exact Or.inr (Or.inl hlost)
      · exact Or.inr (Or.inr (Or.inl hlost))

variable {mode : Mode} {n : ℕ}

theorem lostEvents_mem_check_iff :
    lostEvents n ∈ check config mode source generated ↔
      (mode = .production ∧ countPlatformEvents config generated = 0) ∧ 0 < n ∧
        n = countMethods config.registrationMethods source := by
  rw [mem_check_iff_of_error rfl (by simp [lostEvents, finding]), lostEvents_inj]
  constructor
  · rintro ⟨hmode, ⟨rfl, hpos, hzero⟩ | ⟨heq, -⟩⟩
    · exact ⟨⟨hmode, hzero⟩, hpos, rfl⟩
    · exact absurd heq (lostEvents_ne_lostFetches _ _)
  · rintro ⟨⟨hmode, hzero⟩, hpos, rfl⟩
    exact ⟨hmode, Or.inl ⟨rfl, hpos, hzero⟩⟩

theorem lostFetches_mem_check_iff :
    lostFetches n ∈ check config mode source generated ↔
      (mode = .production ∧ countPlatformApis config generated = 0) ∧ 0 < n ∧
        n = countFunctions config.fetchCallees source := by
  rw [mem_check_iff_of_error rfl (by simp [lostFetches, finding]), lostFetches_inj]
  constructor
  · rintro ⟨hmode, ⟨heq, -⟩ | ⟨rfl, hpos, hzero⟩⟩
    · exact absurd heq.symm (lostEvents_ne_lostFetches _ _)
    · exact ⟨⟨hmode, hzero⟩, hpos, rfl⟩
  · rintro ⟨⟨hmode, hzero⟩, hpos, rfl⟩
    exact ⟨hmode, Or.inr ⟨rfl, hpos, hzero⟩⟩

theorem count_of_lostEvents (h : lostEvents n ∈ checkProduction config source generated) :
    countPlatformEvents config generated = 0 := by
  have hcheck : lostEvents n ∈ check config .production source generated := h
  exact (lostEvents_mem_check_iff.1 hcheck).1.2

theorem count_of_lostFetches (h : lostFetches n ∈ checkProduction config source generated) :
    countPlatformApis config generated = 0 := by
  have hcheck : lostFetches n ∈ check config .production source generated := h
  exact (lostFetches_mem_check_iff.1 hcheck).1.2

/-! ### Places that are reported -/

/-- The code points of blanks. -/
def blankPlaces : List ℕ :=
  List.range' 9 5 ++ List.range' 0x2000 11 ++
    [32, 0x85, 0xa0, 0x1680, 0x2028, 0x2029, 0x202f, 0x205f, 0x3000]

theorem mem_blankPlaces {c : Char} (h : isBlank c) : c.toNat ∈ blankPlaces := by
  simp only [isBlank, Bool.or_eq_true, Bool.and_eq_true, decide_eq_true_eq, beq_iff_eq] at h
  simp only [blankPlaces, List.mem_append, List.mem_range'_1, List.mem_cons, List.not_mem_nil,
    or_false]
  omega

/-- A blank is no part of a name. -/
theorem beforeVariable_of_isBlank {c : Char} (h : isBlank c) : beforeVariable c := by
  have hall : ∀ place ∈ blankPlaces, beforeVariable (Char.ofNat place) := by decide +kernel
  have hplace := hall _ (mem_blankPlaces h)
  rwa [Char.ofNat_toNat] at hplace

theorem beforeMethod_of_beforeVariable {c : Char} (h : beforeVariable c) : beforeMethod c := by
  simp only [beforeVariable, beforeMethod, Bool.not_eq_true', Bool.or_eq_false_iff] at h ⊢
  exact h.1

/-- A count that is reported is that of the places where a configured name is called: of all of them
exactly when each stands behind the ones in front of it, with a character behind their parentheses.
For names of word characters and signs this fails only where a call is written right behind the
parenthesis of another. -/
theorem reported_eq_card_iff (config : Config) (mode : Mode) (source generated : String) :
    let text := source.toList
    let methods := markerNames config.registrationMethods
    let callees := markerNames config.fetchCallees
    (∀ n, lostEvents n ∈ check config mode source generated ↔
      (mode = .production ∧ countPlatformEvents config generated = 0) ∧
        (sites methods beforeMethod text).Nonempty ∧ Counts methods beforeMethod text n) ∧
    (∀ n, lostFetches n ∈ check config mode source generated ↔
      (mode = .production ∧ countPlatformApis config generated = 0) ∧
        (sites callees beforeVariable text).Nonempty ∧ Counts callees beforeVariable text n) ∧
    (Plain methods beforeMethod → (Apart methods beforeMethod text ↔
      ∀ p e, IsSite methods beforeMethod text p → EndsAt methods text p e →
        ¬ IsSite methods beforeMethod text e)) ∧
    (Plain callees beforeVariable → (Apart callees beforeVariable text ↔
      ∀ p e, IsSite callees beforeVariable text p → EndsAt callees text p e →
        ¬ IsSite callees beforeVariable text e)) := by
  intro text methods callees
  have hcount (names : List (List Char)) (boundary : Char → Bool) (n : ℕ) :
      0 < n ∧ n = countCalls names boundary text ↔
        (sites names boundary text).Nonempty ∧ Counts names boundary text n := by
    rw [← countCalls_pos_iff]
    constructor
    · rintro ⟨hpos, rfl⟩
      exact ⟨hpos, counts_countCalls ..⟩
    · rintro ⟨hpos, hcounts⟩
      obtain rfl := hcounts.unique (counts_countCalls ..)
      exact ⟨hpos, rfl⟩
  refine ⟨fun n => ?_, fun n => ?_, fun hplain => ?_, fun hplain => ?_⟩
  · rw [lostEvents_mem_check_iff, ← hcount]
    rfl
  · rw [lostFetches_mem_check_iff, ← hcount]
    rfl
  · refine apart_iff_of_plain hplain (fun c hc => ?_) (by decide)
    exact beforeMethod_of_beforeVariable (beforeVariable_of_isBlank hc)
  · exact apart_iff_of_plain hplain (fun c hc => beforeVariable_of_isBlank hc) (by decide)

/-- Requests of which one is inside another, but not right behind its parenthesis. -/
def spacedCalls : String :=
  "fetch( fetch(a));\nel.addEventListener ('x', window.fetch);\nfetch(prefetch(b));"

theorem reported_eq_card_iff_spaced :
    let text := spacedCalls.toList
    let callees := markerNames Config.standard.fetchCallees
    Plain callees beforeVariable ∧ sites callees beforeVariable text = {0, 7, 59} ∧
      (∀ p e, IsSite callees beforeVariable text p → EndsAt callees text p e →
        ¬ IsSite callees beforeVariable text e) ∧
      lostFetches 3 ∈ check .standard .production spacedCalls spacedCalls ∧
      lostEvents 1 ∈ check .standard .production spacedCalls spacedCalls := by
  intro text callees
  obtain ⟨-, hfetches, -, hplain⟩ :=
    reported_eq_card_iff .standard .production spacedCalls spacedCalls
  have hnames : Plain callees beforeVariable := by decide +kernel
  -- Evaluation reads the characters as a list: decoding a text of this length is slow.
  have htext : spacedCalls.toList = _ := String.toList_ofList
  have hsites : sites callees beforeVariable text = {0, 7, 59} := by
    rw [show text = _ from htext]
    decide +kernel
  have hevents : lostEvents 1 ∈ check .standard .production spacedCalls spacedCalls := by
    simp only [lostEvents_mem_check_iff, countPlatformEvents, countFunctions, countMethods, htext]
    decide +kernel
  have hreported : lostFetches 3 ∈ check .standard .production spacedCalls spacedCalls := by
    simp only [lostFetches_mem_check_iff, countPlatformApis, countFunctions, htext]
    decide +kernel
  have hcounts : Counts callees beforeVariable text 3 := ((hfetches 3).1 hreported).2.2
  have hapart : Apart callees beforeVariable text := by
    refine hcounts.eq_card_iff.1 ?_
    rw [hsites]
    rfl
  exact ⟨hnames, hsites, (hplain hnames).1 hapart, hreported, hevents⟩

/-- A request right behind the parenthesis of another one. -/
def nestedCalls : String := "fetch(fetch(url));"

/-- Of two requests, one is reported. -/
theorem nested_call_uncounted :
    sites (markerNames Config.standard.fetchCallees) beforeVariable nestedCalls.toList = {0, 6} ∧
      lostFetches 1 ∈ check .standard .production nestedCalls nestedCalls ∧
      lostFetches 2 ∉ check .standard .production nestedCalls nestedCalls := by
  simp only [lostFetches_mem_check_iff]
  decide +kernel

end CallBridge.Marker
