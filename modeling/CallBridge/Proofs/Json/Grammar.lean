import CallBridge.Json.Reader
import CallBridge.Proofs.Collection.Span
import CallBridge.Proofs.Number.Digits

/-!
# The grammar of JSON

What texts spell what documents, told without a reader: `Spelling` has a rule for each form of the
grammar, with blanks in all places where the grammar has them, any escapes in strings and numbers
with fraction and exponent. Main statement: every text that spells a document is read as that
document (`read?_of_spelling`).
-/

namespace CallBridge.Json

open Collection

variable {cs rest : List Char}

/-! ### Blanks -/

def IsBlanks (cs : List Char) : Prop := ∀ c ∈ cs, isJsonBlank c

theorem skipBlanks_append (h : IsBlanks cs) (rest : List Char) :
    skipBlanks (cs ++ rest) = skipBlanks rest := List.dropWhile_append_of_pos h

theorem skipBlanks_cons {c : Char} (h : isJsonBlank c = false) :
    skipBlanks (c :: rest) = c :: rest :=
  dropWhile_of_stops (stops_cons.2 h)

theorem skipBlanks_skipBlanks (cs : List Char) : skipBlanks (skipBlanks cs) = skipBlanks cs :=
  dropWhile_of_stops (stops_dropWhile _ cs)

theorem readDocument_skipBlanks (budget : Nat) (cs : List Char) :
    readDocument budget (skipBlanks cs) = readDocument budget cs := by
  cases budget with
  | zero => rfl
  | succ budget => rw [readDocument, readDocument, skipBlanks_skipBlanks]

theorem readItems_skipBlanks (budget : Nat) (cs : List Char) :
    readItems budget (skipBlanks cs) = readItems budget cs := by
  cases budget with
  | zero => rfl
  | succ budget => rw [readItems, readItems, readDocument_skipBlanks]

theorem readMembers_skipBlanks (budget : Nat) (cs : List Char) :
    readMembers budget (skipBlanks cs) = readMembers budget cs := by
  cases budget with
  | zero => rfl
  | succ budget => rw [readMembers, readMembers, skipBlanks_skipBlanks]

theorem readDocument_blanks_append (h : IsBlanks cs) (budget : Nat) (rest : List Char) :
    readDocument budget (cs ++ rest) = readDocument budget rest := by
  rw [← readDocument_skipBlanks, skipBlanks_append h, readDocument_skipBlanks]

/-- No items begin with the bracket that closes them. -/
theorem readItems_close (budget : Nat) (rest : List Char) :
    readItems budget (']' :: rest) = none := by
  cases budget with
  | zero => rfl
  | succ budget =>
    have hnone : readDocument budget (']' :: rest) = none := by
      cases budget <;> rfl
    rw [readItems, hnone]

theorem readMembers_close (budget : Nat) (rest : List Char) :
    readMembers budget ('\x7d' :: rest) = none := by
  cases budget <;> rfl

/-! ### Strings -/

/-- A piece as it stands in a string: any character but quotes, backslashes and controls as itself,
some behind a backslash, and units by four hexadecimal digits. -/
inductive PieceSpelling : Piece → List Char → Prop where
  | plain {c : Char} (hquote : c ≠ '"') (hslash : c ≠ '\\') (hc : ¬ c.toNat < 32) :
      PieceSpelling (.char c) [c]
  | escape {e c : Char} (h : simpleEscape? e = some c) : PieceSpelling (.char c) ['\\', e]
  | unit {x₁ x₂ x₃ x₄ : Char} {n₁ n₂ n₃ n₄ : Nat} (h₁ : hexValue? x₁ = some n₁)
      (h₂ : hexValue? x₂ = some n₂) (h₃ : hexValue? x₃ = some n₃) (h₄ : hexValue? x₄ = some n₄) :
      PieceSpelling (.unit (((n₁ * 16 + n₂) * 16 + n₃) * 16 + n₄)) ['\\', 'u', x₁, x₂, x₃, x₄]

/-- Pieces one behind the other. -/
inductive PiecesSpelling : List Piece → List Char → Prop where
  | nil : PiecesSpelling [] []
  | cons {p : Piece} {ps : List Piece} {cs more : List Char} (hp : PieceSpelling p cs)
      (hps : PiecesSpelling ps more) : PiecesSpelling (p :: ps) (cs ++ more)

/-- A string with its quotes. It has no text if half a surrogate pair stands alone in it. -/
inductive StringSpelling : Option String → List Char → Prop where
  | mk {ps : List Piece} {cs : List Char} (h : PiecesSpelling ps cs) :
      StringSpelling ((joinPieces? ps).map String.ofList) ('"' :: (cs ++ ['"']))

theorem readPieces_piece {p : Piece} (h : PieceSpelling p cs) (rest : List Char) :
    readPieces (cs ++ rest) = (readPieces rest).map fun (ps, r) => (p :: ps, r) := by
  cases h with
  | @plain c hquote hslash hc =>
    have hplain : (decide (c.toNat < 32) || c == '\\') = false := by simp [hc, hslash]
    rw [List.singleton_append, readPieces.eq_5 c rest (fun h => hquote h)
      (fun _ _ _ _ _ h => absurd h hslash) (fun _ _ h => absurd h hslash), hplain]
    rfl
  | @escape e c h =>
    have hunit : e ≠ 'u' := by
      rintro rfl
      cases h
    rw [List.cons_append, List.singleton_append,
      readPieces.eq_4 e rest fun _ _ _ _ _ h => absurd h hunit]
    simp only [h]
  | unit h₁ h₂ h₃ h₄ =>
    simp only [List.cons_append, List.nil_append]
    rw [readPieces, h₁, h₂, h₃, h₄]

theorem readPieces_of_spelling {ps : List Piece} (h : PiecesSpelling ps cs) (rest : List Char) :
    readPieces (cs ++ '"' :: rest) = some (ps, rest) := by
  induction h with
  | nil => rfl
  | cons hp _ ih => rw [List.append_assoc, readPieces_piece hp, ih, Option.map_some]

/-- A string is read from behind its opening quote. -/
theorem readString?_of_spelling {s : Option String} (h : StringSpelling s cs) :
    ∃ more, cs = '"' :: more ∧ ∀ rest, readString? (more ++ rest) = some (s, rest) := by
  obtain @⟨ps, cs, hps⟩ := h
  refine ⟨_, rfl, fun rest => ?_⟩
  rw [List.append_assoc, List.singleton_append, readString?, readPieces_of_spelling hps,
    Option.map_some]

/-! ### Numbers -/

/-- Decimal digits, at least one. -/
def IsDigits (ds : List Char) : Prop := ds ≠ [] ∧ ∀ c ∈ ds, c.isDigit

inductive FractionSpelling : Option (List Char) → List Char → Prop where
  | none : FractionSpelling none []
  | some {ds : List Char} (h : IsDigits ds) : FractionSpelling (some ds) ('.' :: ds)

inductive ExponentSpelling : Option (Bool × List Char) → List Char → Prop where
  | none : ExponentSpelling none []
  | plain {e : Char} {ds : List Char} (he : e ∈ ['e', 'E']) (h : IsDigits ds) :
      ExponentSpelling (some (false, ds)) (e :: ds)
  | plus {e : Char} {ds : List Char} (he : e ∈ ['e', 'E']) (h : IsDigits ds) :
      ExponentSpelling (some (false, ds)) (e :: '+' :: ds)
  | minus {e : Char} {ds : List Char} (he : e ∈ ['e', 'E']) (h : IsDigits ds) :
      ExponentSpelling (some (true, ds)) (e :: '-' :: ds)

/-- A number behind its sign. A zero in front stands alone. -/
inductive NumeralSpelling (negative : Bool) : Numeral → List Char → Prop where
  | mk {whole : List Char} {fraction : Option (List Char)} {exponent : Option (Bool × List Char)}
      {fs es : List Char} (hwhole : IsDigits whole) (hzero : whole.head? = some '0' → whole = ['0'])
      (hfraction : FractionSpelling fraction fs) (hexponent : ExponentSpelling exponent es) :
      NumeralSpelling negative ⟨negative, whole, fraction, exponent⟩ (whole ++ (fs ++ es))

theorem NumeralSpelling.exists_cons {negative : Bool} {l : Numeral}
    (h : NumeralSpelling negative l cs) : ∃ c more, cs = c :: more ∧ c.isDigit := by
  obtain ⟨hwhole, -, -, -⟩ := h
  obtain ⟨c, ds, rfl⟩ := List.exists_cons_of_ne_nil hwhole.1
  exact ⟨c, _, rfl, hwhole.2 c (List.mem_cons_self ..)⟩

/-- What a number ends in front of. -/
def EndsNumeral (rest : List Char) : Prop :=
  Stops (fun c => c.isDigit || c == '.' || c == 'e' || c == 'E') rest

theorem endsNumeral_cons {c : Char} (h : c ∈ [',', ']', '\x7d']) : EndsNumeral (c :: rest) := by
  have hstops : ∀ c ∈ [',', ']', '\x7d'],
      (c.isDigit || c == '.' || c == 'e' || c == 'E') = false := by simp
  exact stops_cons.2 (hstops c h)

theorem EndsNumeral.blanks_append (h : EndsNumeral rest) (hcs : IsBlanks cs) :
    EndsNumeral (cs ++ rest) := by
  cases cs with
  | nil => exact h
  | cons c cs =>
    refine stops_cons.2 ?_
    have hblank : isJsonBlank c := hcs c (List.mem_cons_self ..)
    simp only [isJsonBlank, Bool.or_eq_true, beq_iff_eq] at hblank
    rcases hblank with ((rfl | rfl) | rfl) | rfl <;> rfl

theorem spanDigits1?_append (h : IsDigits cs) (hrest : Stops Char.isDigit rest) :
    spanDigits1? (cs ++ rest) = some (cs, rest) := by
  have hspan : spanDigits (cs ++ rest) = (cs, rest) := span_append_stops h.2 hrest
  obtain ⟨c, ds, rfl⟩ := List.exists_cons_of_ne_nil h.1
  rw [spanDigits1?, hspan]

section Exponents

variable {exponent : Option (Bool × List Char)}

/-- An exponent, and what a number ends in front of, neither goes on with digits nor has a point. -/
theorem ExponentSpelling.stops (h : ExponentSpelling exponent cs) (hrest : EndsNumeral rest) :
    Stops (fun c => c.isDigit || c == '.') (cs ++ rest) := by
  have hsign {e : Char} (he : e ∈ ['e', 'E']) : (e.isDigit || e == '.') = false := by
    have hboth : ∀ e ∈ ['e', 'E'], (e.isDigit || e == '.') = false := by simp
    exact hboth e he
  cases h with
  | none =>
    intro c hc
    have := hrest c hc
    simp only [Bool.or_eq_false_iff] at this
    exact Bool.or_eq_false_iff.2 this.1.1
  | plain he | plus he | minus he => exact stops_cons.2 (hsign he)

theorem readExponent?_of_spelling (h : ExponentSpelling exponent cs) (hrest : EndsNumeral rest) :
    readExponent? (cs ++ rest) = some (exponent, rest) := by
  have hdigit : Stops Char.isDigit rest := fun c hc => by
    have := hrest c hc
    simp only [Bool.or_eq_false_iff] at this
    exact this.1.1.1
  have hsign {e : Char} (he : e ∈ ['e', 'E']) : (e == 'e' || e == 'E') = true := by simpa using he
  cases h with
  | none =>
    cases rest with
    | nil => rfl
    | cons c rest =>
      have hc := stops_cons.1 hrest
      simp only [Bool.or_eq_false_iff] at hc
      have hplain : (c == 'e' || c == 'E') = false := by rw [hc.1.2, hc.2]; rfl
      simp only [List.nil_append, readExponent?, hplain]
      rfl
  | @plain e ds he h =>
    have hread := spanDigits1?_append h hdigit
    obtain ⟨c, ds, rfl⟩ := List.exists_cons_of_ne_nil h.1
    have hc : c.isDigit := h.2 c (List.mem_cons_self ..)
    simp only [List.cons_append, readExponent?, hsign he, if_true] at hread ⊢
    split
    · next heq =>
      obtain rfl := (List.cons.inj heq).1
      cases hc
    · next heq =>
      obtain rfl := (List.cons.inj heq).1
      cases hc
    · rw [hread, Option.map_some]
  | plus he h | minus he h =>
    simp only [List.cons_append, readExponent?, hsign he, if_true, spanDigits1?_append h hdigit,
      Option.map_some]

end Exponents

theorem readNumeral?_of_spelling {negative : Bool} {l : Numeral}
    (h : NumeralSpelling negative l cs) (hrest : EndsNumeral rest) :
    readNumeral? negative (cs ++ rest) = some (l, rest) := by
  obtain @⟨whole, fraction, exponent, fs, es, hwhole, hzero, hfraction, hexponent⟩ := h
  have hafter := hexponent.stops hrest
  have hdigit : Stops Char.isDigit (es ++ rest) := fun c hc =>
    (Bool.or_eq_false_iff.1 (hafter c hc)).1
  have hspan : spanDigits1? (whole ++ (fs ++ (es ++ rest))) = some (whole, fs ++ (es ++ rest)) := by
    refine spanDigits1?_append hwhole ?_
    cases hfraction with
    | none => exact hdigit
    | some => exact stops_cons.2 rfl
  have hlong : (whole.head? == some '0' && decide (1 < whole.length)) = false := by
    cases hhead : whole.head? == some '0' with
    | false => rfl
    | true =>
      rw [hzero (beq_iff_eq.1 hhead)]
      rfl
  rw [List.append_assoc, List.append_assoc]
  simp only [readNumeral?, hspan, Option.bind_eq_bind, Option.bind_some, hlong]
  rw [if_neg Bool.false_ne_true]
  cases hfraction with
  | none =>
    split
    · next hpoint => exact absurd (stops_cons.1 (hpoint ▸ hafter)) (by decide)
    · rw [List.nil_append, readExponent?_of_spelling hexponent hrest]
      rfl
  | some h =>
    simp only [List.cons_append, spanDigits1?_append h hdigit, Option.map_some, Option.bind_some,
      readExponent?_of_spelling hexponent hrest]

/-! ### Documents -/

/-- What rules of the grammar are about: a document, the items of an array, the members of an
object. -/
inductive Phrase where
  | document (d : Document)
  | items (ds : List Document)
  | members (fields : List (Option String × Document))

/-- The name of a field up to its colon. -/
inductive NameSpelling (k : Option String) : List Char → Prop where
  | mk {before cs after : List Char} (hbefore : IsBlanks before) (h : StringSpelling k cs)
      (hafter : IsBlanks after) : NameSpelling k (before ++ (cs ++ (after ++ [':'])))

/-- The texts that spell a phrase of the grammar. -/
inductive Spelling : Phrase → List Char → Prop where
  | null : Spelling (.document .null) "null".toList
  | true : Spelling (.document (.bool true)) "true".toList
  | false : Spelling (.document (.bool false)) "false".toList
  | natural {l : Numeral} {cs : List Char} (h : NumeralSpelling false l cs) :
      Spelling (.document (.number l.toNumber?)) cs
  | negative {l : Numeral} {cs : List Char} (h : NumeralSpelling true l cs) :
      Spelling (.document (.number l.toNumber?)) ('-' :: cs)
  | string {s : Option String} {cs : List Char} (h : StringSpelling s cs) :
      Spelling (.document (.string s)) cs
  | emptyArray {cs : List Char} (h : IsBlanks cs) :
      Spelling (.document (.array [])) ('[' :: (cs ++ [']']))
  | array {ds : List Document} {cs : List Char} (h : Spelling (.items ds) cs) :
      Spelling (.document (.array ds)) ('[' :: (cs ++ [']']))
  | emptyObject {cs : List Char} (h : IsBlanks cs) :
      Spelling (.document (.object [])) ('\x7b' :: (cs ++ ['\x7d']))
  | object {fields : List (Option String × Document)} {cs : List Char}
      (h : Spelling (.members fields) cs) :
      Spelling (.document (.object fields)) ('\x7b' :: (cs ++ ['\x7d']))
  | blanks {d : Document} {before cs after : List Char} (hbefore : IsBlanks before)
      (h : Spelling (.document d) cs) (hafter : IsBlanks after) :
      Spelling (.document d) (before ++ (cs ++ after))
  | lastItem {d : Document} {cs : List Char} (h : Spelling (.document d) cs) :
      Spelling (.items [d]) cs
  | nextItem {d : Document} {ds : List Document} {cs more : List Char}
      (h : Spelling (.document d) cs) (hmore : Spelling (.items ds) more) :
      Spelling (.items (d :: ds)) (cs ++ ',' :: more)
  | lastMember {k : Option String} {d : Document} {ks cs : List Char} (hk : NameSpelling k ks)
      (h : Spelling (.document d) cs) : Spelling (.members [(k, d)]) (ks ++ cs)
  | nextMember {k : Option String} {d : Document} {fields : List (Option String × Document)}
      {ks cs more : List Char} (hk : NameSpelling k ks) (h : Spelling (.document d) cs)
      (hmore : Spelling (.members fields) more) :
      Spelling (.members ((k, d) :: fields)) (ks ++ (cs ++ ',' :: more))

/-! ### Reading what is spelled -/

/-- Whether a text is read as the phrase that it spells, whatever stands behind it. A bracket takes
two steps of the budget, and so does every item or field; each of them has at least as many
characters. -/
def Phrase.IsRead : Phrase → List Char → Prop
  | .document d, cs => ∀ (budget : Nat) (rest : List Char), 2 * cs.length ≤ budget →
      EndsNumeral rest →
      ∃ r, readDocument budget (cs ++ rest) = some (d, r) ∧ skipBlanks r = skipBlanks rest
  | .items ds, cs => ∀ (budget : Nat) (rest : List Char), 2 * cs.length + 1 ≤ budget →
      readItems budget (cs ++ ']' :: rest) = some (ds, rest)
  | .members fields, cs => ∀ (budget : Nat) (rest : List Char), 2 * cs.length + 1 ≤ budget →
      readMembers budget (cs ++ '\x7d' :: rest) = some (fields, rest)

theorem readDocument_array {budget : Nat} {ds : List Document} {more : List Char}
    (h : readItems budget cs = some (ds, more)) :
    readDocument (budget + 1) ('[' :: cs) = some (.array ds, more) := by
  rw [← readItems_skipBlanks] at h
  rw [readDocument, skipBlanks_cons rfl]
  simp only
  split
  · next hclose =>
    -- were the bracket closed at once, no items would have been read
    rw [hclose, readItems_close] at h
    cases h
  · rw [h, Option.map_some]

theorem readDocument_object {budget : Nat} {fields : List (Option String × Document)}
    {more : List Char} (h : readMembers budget cs = some (fields, more)) :
    readDocument (budget + 1) ('\x7b' :: cs) = some (.object fields, more) := by
  rw [← readMembers_skipBlanks] at h
  rw [readDocument, skipBlanks_cons rfl]
  simp only
  split
  · next hclose =>
    rw [hclose, readMembers_close] at h
    cases h
  · rw [h, Option.map_some]

/-- A text that begins with a digit is read as a number. -/
theorem readDocument_digit {c : Char} (hc : c.isDigit) (budget : Nat) (rest : List Char) :
    readDocument (budget + 1) (c :: rest) =
      (readNumeral? false (c :: rest)).map fun (l, r) => (.number l.toNumber?, r) := by
  have hblank : isJsonBlank c = false :=
    Number.forall_isDigit (p := fun c => isJsonBlank c = false) (by decide) hc
  have hother : ∀ d ∈ ['"', '[', '\x7b', 'n', 't', 'f', '-'], c ≠ d := by
    rintro d hd rfl
    have hnone : ∀ d ∈ ['"', '[', '\x7b', 'n', 't', 'f', '-'], d.isDigit = false := by simp
    exact Bool.false_ne_true ((hnone c hd).symm.trans hc)
  rw [readDocument, skipBlanks_cons hblank]
  split <;> simp_all

section Bodies

variable {budget : Nat} {more r : List Char} {d : Document}

theorem readItems_last (h : readDocument budget cs = some (d, r))
    (hr : skipBlanks r = ']' :: rest) : readItems (budget + 1) cs = some ([d], rest) := by
  rw [readItems, h]
  simp only [hr]

theorem readItems_more {ds : List Document} (h : readDocument budget cs = some (d, r))
    (hr : skipBlanks r = ',' :: more) (hmore : readItems budget more = some (ds, rest)) :
    readItems (budget + 1) cs = some (d :: ds, rest) := by
  rw [readItems, h]
  simp only [hr, hmore, Option.map_some]

variable {k : Option String} {ks : List Char}

/-- A name is read up to its colon. -/
theorem NameSpelling.exists_read (hk : NameSpelling k ks) (cs : List Char) :
    ∃ text after, skipBlanks (ks ++ cs) = '"' :: text ∧ readString? text = some (k, after) ∧
      skipBlanks after = ':' :: cs := by
  obtain @⟨before, text, after, hbefore, htext, hafter⟩ := hk
  obtain ⟨more, rfl, hread⟩ := readString?_of_spelling htext
  refine ⟨more ++ (after ++ [':'] ++ cs), after ++ [':'] ++ cs, ?_, hread _, ?_⟩
  · rw [List.append_assoc, skipBlanks_append hbefore, List.append_assoc, List.cons_append]
    exact skipBlanks_cons rfl
  · rw [List.append_assoc, skipBlanks_append hafter]
    exact skipBlanks_cons rfl

theorem readMembers_last (hk : NameSpelling k ks) (h : readDocument budget cs = some (d, r))
    (hr : skipBlanks r = '\x7d' :: rest) :
    readMembers (budget + 1) (ks ++ cs) = some ([(k, d)], rest) := by
  obtain ⟨text, after, hname, htext, hcolon⟩ := hk.exists_read cs
  rw [readMembers, hname]
  simp only [htext, hcolon, h, hr]

theorem readMembers_more {fields : List (Option String × Document)} (hk : NameSpelling k ks)
    (h : readDocument budget cs = some (d, r)) (hr : skipBlanks r = ',' :: more)
    (hmore : readMembers budget more = some (fields, rest)) :
    readMembers (budget + 1) (ks ++ cs) = some ((k, d) :: fields, rest) := by
  obtain ⟨text, after, hname, htext, hcolon⟩ := hk.exists_read cs
  rw [readMembers, hname]
  simp only [htext, hcolon, h, hr, hmore, Option.map_some]

end Bodies

/-- A document that begins with a character is read from some budget on. -/
theorem Phrase.isRead_cons {d : Document} {c : Char}
    (h : ∀ budget rest, 2 * cs.length ≤ budget → EndsNumeral rest →
      readDocument (budget + 1) (c :: (cs ++ rest)) = some (d, rest)) :
    (Phrase.document d).IsRead (c :: cs) := by
  intro budget rest hbudget hrest
  rw [List.length_cons] at hbudget
  obtain ⟨budget, rfl⟩ := Nat.exists_eq_add_one.2 (show 0 < budget by omega)
  exact ⟨rest, h budget rest (by omega) hrest, rfl⟩

theorem isRead_natural {l : Numeral} (h : NumeralSpelling false l cs) :
    (Phrase.document (.number l.toNumber?)).IsRead cs := by
  obtain ⟨c, more, rfl, hc⟩ := h.exists_cons
  refine Phrase.isRead_cons fun budget rest _ hrest => ?_
  have hread := readNumeral?_of_spelling h hrest
  rw [List.cons_append] at hread
  rw [readDocument_digit hc, hread, Option.map_some]

/-- Every phrase is read from the texts that spell it. -/
theorem Spelling.isRead {p : Phrase} (h : Spelling p cs) : p.IsRead cs := by
  induction h with
  | null | true | false => exact Phrase.isRead_cons fun _ _ _ _ => rfl
  | natural h => exact isRead_natural h
  | negative h =>
    refine Phrase.isRead_cons fun budget rest _ hrest => ?_
    rw [readDocument, skipBlanks_cons rfl]
    simp only [readNumeral?_of_spelling h hrest, Option.map_some]
  | string h =>
    obtain ⟨more, rfl, hread⟩ := readString?_of_spelling h
    refine Phrase.isRead_cons fun budget rest _ _ => ?_
    rw [readDocument, skipBlanks_cons rfl]
    simp only [hread, Option.map_some]
  | emptyArray h =>
    refine Phrase.isRead_cons fun budget rest _ _ => ?_
    rw [readDocument, skipBlanks_cons rfl, List.append_assoc]
    simp only [skipBlanks_append h]
    rfl
  | emptyObject h =>
    refine Phrase.isRead_cons fun budget rest _ _ => ?_
    rw [readDocument, skipBlanks_cons rfl, List.append_assoc]
    simp only [skipBlanks_append h]
    rfl
  | array _ ih =>
    refine Phrase.isRead_cons fun budget rest hbudget _ => readDocument_array ?_
    rw [List.length_append, List.length_singleton] at hbudget
    rw [List.append_assoc]
    exact ih budget rest (by omega)
  | object _ ih =>
    refine Phrase.isRead_cons fun budget rest hbudget _ => readDocument_object ?_
    rw [List.length_append, List.length_singleton] at hbudget
    rw [List.append_assoc]
    exact ih budget rest (by omega)
  | blanks hbefore _ hafter ih =>
    intro budget rest hbudget hrest
    rw [List.length_append, List.length_append] at hbudget
    obtain ⟨r, hread, hr⟩ := ih budget _ (by omega) (hrest.blanks_append hafter)
    rw [List.append_assoc, List.append_assoc, readDocument_blanks_append hbefore]
    exact ⟨r, hread, hr.trans (skipBlanks_append hafter rest)⟩
  | lastItem _ ih =>
    intro budget rest hbudget
    obtain ⟨budget, rfl⟩ := Nat.exists_eq_add_one.2 (show 0 < budget by omega)
    obtain ⟨r, hread, hr⟩ := ih budget (']' :: rest) (by omega) (endsNumeral_cons (by decide))
    exact readItems_last hread hr
  | @nextItem d ds cs more _ _ ih ihmore =>
    intro budget rest hbudget
    rw [List.length_append, List.length_cons] at hbudget
    obtain ⟨budget, rfl⟩ := Nat.exists_eq_add_one.2 (show 0 < budget by omega)
    obtain ⟨r, hread, hr⟩ := ih budget (',' :: (more ++ ']' :: rest)) (by omega)
      (endsNumeral_cons (by decide))
    rw [List.append_assoc, List.cons_append]
    exact readItems_more hread hr (ihmore budget rest (by omega))
  | lastMember hk _ ih =>
    intro budget rest hbudget
    rw [List.length_append] at hbudget
    obtain ⟨budget, rfl⟩ := Nat.exists_eq_add_one.2 (show 0 < budget by omega)
    obtain ⟨r, hread, hr⟩ := ih budget ('\x7d' :: rest) (by omega) (endsNumeral_cons (by decide))
    rw [List.append_assoc]
    exact readMembers_last hk hread hr
  | @nextMember k d fields ks cs more hk _ _ ih ihmore =>
    intro budget rest hbudget
    rw [List.length_append, List.length_append, List.length_cons] at hbudget
    obtain ⟨budget, rfl⟩ := Nat.exists_eq_add_one.2 (show 0 < budget by omega)
    obtain ⟨r, hread, hr⟩ := ih budget (',' :: (more ++ '\x7d' :: rest)) (by omega)
      (endsNumeral_cons (by decide))
    rw [List.append_assoc, List.append_assoc, List.cons_append]
    exact readMembers_more hk hread hr (ihmore budget rest (by omega))

/-- A text that spells a document is read as the document. -/
theorem read?_of_spelling {d : Document} (h : Spelling (.document d) cs) : read? cs = some d := by
  obtain ⟨r, hread, hr⟩ := h.isRead _ [] (Nat.le_add_right (2 * cs.length) 2) stops_nil
  have hend : skipBlanks r = [] := hr
  rw [List.append_nil] at hread
  rw [read?, hread]
  simp only [hend, List.isEmpty_nil, if_true]

end CallBridge.Json
