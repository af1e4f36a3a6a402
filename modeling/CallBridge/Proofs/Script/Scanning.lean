import CallBridge.Number.Shortest
import CallBridge.Proofs.Collection.Span
import CallBridge.Script.Lexer
import CallBridge.Text.Quoted

/-!
# Texts that are split as they were put together

A text is taken as lexemes in front of another text (`Takes`) when a scan that stands at it takes
exactly these lexemes and stands at the other text. What stands behind is part of the statement, so
texts can be put side by side (`Takes.append`) without a longer token being read across the seam.
Main statements: a name is taken as a word (`takes_word`), and a text that is taken to its end has
these lexemes for tokens (`spells_tokenize`).
-/

namespace CallBridge.Script

open CallBridge.Text Collection Number

/-- What holds of the characters of a text is decided by going through the text. An instance for all
characters would go through them. -/
instance (priority := 2000) decidableForallMem {p : Char → Prop} [DecidablePred p]
    (cs : List Char) : Decidable (∀ c ∈ cs, p c) :=
  List.decidableBAll p cs

/-! ### Scans that take lexemes -/

/-- Tokens that spell lexemes on one line. -/
def Spells (tokens : List Token) (ls : List Lexeme) : Prop :=
  tokens.map (fun t => (t.lexeme, t.afterNewline)) = ls.map fun l => (l, false)

theorem Spells.nil : Spells [] [] := rfl

theorem Spells.append {ts us : List Token} {ls ms : List Lexeme} (h : Spells ts ls)
    (h' : Spells us ms) : Spells (ts ++ us) (ls ++ ms) := by
  unfold Spells at *
  rw [List.map_append, List.map_append, h, h']

/-- A scan on the line of its last token and outside the substitutions of templates. -/
structure Scan.Ready (s : Scan) : Prop where
  newline : s.newline = false
  braces : true ∉ s.braces

/-- What a scan has become when it has taken lexemes and stands in front of a text. -/
structure Scan.Took (s s' : Scan) (ls : List Lexeme) (rest : List Char) : Prop where
  ready : s'.Ready
  rest : s'.rest = rest
  tokens : ∃ ts, s'.tokens = ts.reverse ++ s.tokens ∧ Spells ts ls

/-- A text is taken as lexemes in front of a rest. -/
def Takes (cs : List Char) (ls : List Lexeme) (rest : List Char) : Prop :=
  ∀ s : Scan, s.Ready → s.rest = cs ++ rest →
    ∃ n s', n ≤ cs.length ∧ (∀ budget, Scan.run (n + budget) s = Scan.run budget s') ∧
      s.Took s' ls rest

variable {cs ds rest : List Char} {ls ms : List Lexeme} {s : Scan}

theorem Scan.Took.trans {s' s'' : Scan} {middle : List Char} (h : s.Took s' ls middle)
    (h' : s'.Took s'' ms rest) : s.Took s'' (ls ++ ms) rest := by
  obtain ⟨ts, hts, hls⟩ := h.tokens
  obtain ⟨us, hus, hms⟩ := h'.tokens
  refine ⟨h'.ready, h'.rest, ts ++ us, ?_, hls.append hms⟩
  rw [hus, hts, List.reverse_append, List.append_assoc]

theorem takes_nil (rest : List Char) : Takes [] [] rest := fun s hs hrest =>
  ⟨0, s, Nat.le_refl _, fun budget => by rw [Nat.zero_add], hs, hrest, [], rfl, .nil⟩

theorem Takes.append (h : Takes cs ls (ds ++ rest)) (h' : Takes ds ms rest) :
    Takes (cs ++ ds) (ls ++ ms) rest := by
  intro s hs hrest
  rw [List.append_assoc] at hrest
  obtain ⟨n, s', hn, hrun, htook⟩ := h s hs hrest
  obtain ⟨n', s'', hn', hrun', htook'⟩ := h' s' htook.ready htook.rest
  refine ⟨n + n', s'', ?_, fun budget => ?_, htook.trans htook'⟩
  · rw [List.length_append]
    exact Nat.add_le_add hn hn'
  · rw [Nat.add_assoc, hrun, hrun']

/-- One step of a scan takes a text. -/
theorem takes_of_step (hne : cs ≠ [])
    (h : ∀ s : Scan, s.Ready → s.rest = cs ++ rest → s.Took s.step ls rest) : Takes cs ls rest := by
  intro s hs hrest
  refine ⟨1, s.step, List.length_pos_iff.2 hne, fun budget => ?_, h s hs hrest⟩
  have hsome : s.rest.isEmpty = false := by
    rw [hrest]
    cases cs with
    | nil => exact absurd rfl hne
    | cons => rfl
  rw [Nat.add_comm, Scan.run, hsome]
  rfl

/-- A token put behind the others. -/
theorem Scan.Ready.pushTo (h : s.Ready) (l : Lexeme) (rest : List Char) :
    s.Took (s.pushTo l rest) [l] rest := by
  refine ⟨⟨rfl, h.braces⟩, rfl, [_], rfl, ?_⟩
  simp [Spells, h.newline]

/-- The tokens of a text that is taken to its end. -/
theorem spells_tokenize (h : Takes cs ls []) : Spells (tokenize cs).1 (ls ++ [.eof]) := by
  have hstart : (Scan.start cs).Ready := ⟨rfl, List.not_mem_nil⟩
  obtain ⟨n, s', hn, hrun, hready, hrest, ts, hts, hspells⟩ :=
    h (Scan.start cs) hstart (List.append_nil cs).symm
  have hdone : Scan.run cs.length (Scan.start cs) = s' := by
    obtain ⟨budget, hbudget⟩ := Nat.exists_eq_add_of_le hn
    rw [hbudget, hrun]
    cases budget with
    | zero => rfl
    | succ budget => rw [Scan.run, hrest]; rfl
  have htokens : s'.tokens = ts.reverse := by rw [hts]; exact List.append_nil _
  have hlast : Spells [⟨.eof, ⟨s'.offset, s'.offset + 0⟩, s'.newline⟩] [.eof] := by
    simp [Spells, hready.newline]
  have heq : (tokenize cs).1 = ts ++ [⟨.eof, ⟨s'.offset, s'.offset + 0⟩, s'.newline⟩] := by
    simp [tokenize, hdone, Scan.push, htokens]
  rw [heq]
  exact hspells.append hlast

/-! ### One token by its first character -/

/-- Characters that begin a token by themselves: no blank and no comment. -/
def beginsToken (c : Char) : Bool := !(isLineEnd c || isSpace c || c == '/')

theorem step_of_beginsToken {c : Char} (hc : beginsToken c) (hrest : s.rest = c :: rest) :
    s.step = s.otherToken c rest := by
  simp only [beginsToken, Bool.not_eq_true', Bool.or_eq_false_iff, beq_eq_false_iff_ne] at hc
  obtain ⟨⟨hline, hspace⟩, hslash⟩ := hc
  have hreturn : c ≠ '\r' := by
    rintro rfl
    exact absurd hline (by decide)
  unfold Scan.step
  split <;> rename_i heq <;> rw [hrest] at heq <;> cases heq
  · exact absurd rfl hreturn
  · exact absurd rfl hslash
  · exact absurd rfl hslash
  · rw [hline, hspace]
    rfl

/-- A character that begins a token, which one step takes. -/
theorem takes_of_otherToken {c : Char} (hc : beginsToken c)
    (h : ∀ s : Scan, s.Ready → s.rest = c :: cs ++ rest →
      s.Took (s.otherToken c (cs ++ rest)) ls rest) : Takes (c :: cs) ls rest := by
  refine takes_of_step (List.cons_ne_nil _ _) fun s hs hrest => ?_
  rw [step_of_beginsToken hc hrest]
  exact h s hs hrest

/-! ### Characters of names -/

theorem not_isIdentifierStart_of_mem {c : Char} {codes : List Nat}
    (hcodes : ∀ n ∈ codes, isIdentifierStart (Char.ofNat n) = false) (hc : c.toNat ∈ codes) :
    isIdentifierStart c = false := by
  have hcode := hcodes c.toNat hc
  rwa [Char.ofNat_toNat] at hcode

theorem isDigit_of_isIdentifierStart {c : Char} (h : isIdentifierStart c) : c.isDigit = false := by
  by_contra hdigit
  have hbounds : 48 ≤ c.toNat ∧ c.toNat ≤ 57 := by
    simpa [Char.isDigit, UInt32.le_iff_toNat_le] using hdigit
  have hmem : c.toNat ∈ List.range' 48 10 := by
    rw [List.mem_range'_1]
    omega
  have hc := not_isIdentifierStart_of_mem (by decide) hmem
  exact Bool.false_ne_true (hc.symm.trans h)

theorem beginsToken_of_isIdentifierStart {c : Char} (h : isIdentifierStart c) : beginsToken c := by
  have hslash : c ≠ '/' := by
    rintro rfl
    exact absurd h (by decide)
  have hfeed : c ≠ '\n' := by
    rintro rfl
    exact absurd h (by decide)
  have hreturn : c ≠ '\r' := by
    rintro rfl
    exact absurd h (by decide)
  by_contra hblank
  simp only [beginsToken, isLineEnd, isSpace, Bool.not_eq_true', Bool.not_eq_false, Bool.or_eq_true,
    Bool.and_eq_true, beq_iff_eq, decide_eq_true_eq, hslash, hfeed, hreturn, false_or,
    or_false] at hblank
  have hmem : c.toNat ∈ [0x2028, 0x2029, 9, 11, 12, 32, 0x85, 0xa0, 0xfeff, 0x1680, 0x180e, 0x202f,
      0x205f, 0x3000] ∨ c.toNat ∈ List.range' 0x2000 12 := by
    rw [List.mem_range'_1, Nat.lt_succ_iff]
    simp only [List.mem_cons, List.not_mem_nil, or_false]
    grind
  have hc : isIdentifierStart c = false := by
    rcases hmem with hmem | hmem
    · exact not_isIdentifierStart_of_mem (by decide +kernel) hmem
    · exact not_isIdentifierStart_of_mem (by decide +kernel) hmem
  exact Bool.false_ne_true (hc.symm.trans h)

/-! ### Names -/

/-- A text in front of which a word ends. -/
def EndsWord (rest : List Char) : Prop := Stops (fun c => isIdentifierPart c || c == '\\') rest

theorem scanWord_append {w : List Char} (hw : ∀ c ∈ w, isIdentifierPart c) (hrest : EndsWord rest)
    {budget : Nat} (hbudget : w.length ≤ budget) :
    scanWord budget (w ++ rest) = some (w, false, rest) := by
  induction w generalizing budget with
  | nil =>
    cases rest with
    | nil => cases budget <;> rfl
    | cons c rest =>
      have hc := stops_cons.1 hrest
      simp only [Bool.or_eq_false_iff, beq_eq_false_iff_ne] at hc
      cases budget with
      | zero => rfl
      | succ budget => simp [scanWord, hc]
  | cons c w ih =>
    obtain ⟨hc, hw⟩ := List.forall_mem_cons.1 hw
    have hslash : c ≠ '\\' := by
      rintro rfl
      exact absurd hc (by decide)
    cases budget with
    | zero => simp at hbudget
    | succ budget =>
      have htail := ih hw (Nat.le_of_succ_le_succ hbudget)
      simp [scanWord, hslash, hc, htail]

/-- A name in front of a text that does not go on with it. -/
theorem takes_word {c : Char} {w : List Char} (hc : isIdentifierStart c)
    (hw : ∀ d ∈ w, isIdentifierPart d) (hrest : EndsWord rest) :
    Takes (c :: w) [.word (String.ofList (c :: w)) false] rest := by
  have hdigit := isDigit_of_isIdentifierStart hc
  refine takes_of_otherToken (beginsToken_of_isIdentifierStart hc) fun s hs hrest' => ?_
  have hall : ∀ d ∈ c :: w, isIdentifierPart d :=
    List.forall_mem_cons.2 ⟨isIdentifierPart_of_isIdentifierStart hc, hw⟩
  have hscan : scanWord s.rest.length s.rest = some (c :: w, false, rest) := by
    rw [hrest']
    exact scanWord_append hall hrest (by simp)
  have hother : ∀ d ∈ ['\'', '"', '`', '\x7b', '\x7d', '#', '.'], c ≠ d := by
    have hnone : ∀ d ∈ ['\'', '"', '`', '\x7b', '\x7d', '#', '.'], isIdentifierStart d = false := by
      decide
    rintro d hd rfl
    exact absurd hc (by simp [hnone c hd])
  have htoken : s.otherToken c (w ++ rest) = s.wordToken := by
    unfold Scan.otherToken
    simp_all
  rw [htoken, Scan.wordToken, hscan]
  exact hs.pushTo _ _

/-! ### Blanks, marks and braces -/

theorem takes_space (rest : List Char) : Takes [' '] [] rest := by
  refine takes_of_step (List.cons_ne_nil _ _) fun s hs hrest => ?_
  have hstep : s.step = { s with rest, offset := s.offset + 1 } := by
    unfold Scan.step
    rw [hrest]
    rfl
  rw [hstep]
  exact ⟨⟨hs.newline, hs.braces⟩, rfl, [], rfl, .nil⟩

/-- Characters that begin a mark, where no number begins at a point. -/
def beginsMark (c : Char) : Bool :=
  beginsToken c && !(c == '\'' || c == '"' || c == '`' || c == '\x7b' || c == '\x7d' || c == '#' ||
    c == '\\' || c.isDigit || isIdentifierStart c)

theorem takes_mark {c : Char} {m : String} (hc : beginsMark c)
    (hpoint : c = '.' → (cs ++ rest).head?.any Char.isDigit = false)
    (hm : scanMark (c :: cs ++ rest) = some (m, rest)) : Takes (c :: cs) [.mark m] rest := by
  simp only [beginsMark, Bool.and_eq_true, Bool.not_eq_true', Bool.or_eq_false_iff] at hc
  obtain ⟨hbegins, ⟨⟨⟨⟨⟨⟨⟨⟨h₁, h₂⟩, h₃⟩, h₄⟩, h₅⟩, h₆⟩, h₇⟩, hdigit⟩, hstart⟩⟩ := hc
  refine takes_of_otherToken hbegins fun s hs hrest => ?_
  have hnumber : (c == '.' && (cs ++ rest).head?.any Char.isDigit) = false := by
    by_cases hdot : c = '.'
    · rw [hpoint hdot, Bool.and_false]
    · rw [beq_false_of_ne hdot, Bool.false_and]
  have htoken : s.otherToken c (cs ++ rest) = s.pushTo (.mark m) rest := by
    unfold Scan.otherToken
    simp only [h₁, h₂, h₃, h₄, h₅, h₆, h₇, hdigit, hstart, hnumber, hrest, hm, Bool.or_self,
      Bool.false_eq_true, ↓reduceIte]
  rw [htoken]
  exact hs.pushTo _ _

/-- The marks of one character that begin no longer one. -/
def loneMarks : List Char := ['(', ')', '[', ']', ',', ';', ':']

theorem takes_loneMark {c : Char} (hc : c ∈ loneMarks) (rest : List Char) :
    Takes [c] [.mark c.toString] rest := by
  have hbegins : beginsMark c := by
    revert hc c
    decide
  refine takes_mark hbegins ?_ ?_
  · rintro rfl
    exact absurd hc (by decide)
  · simp only [loneMarks, List.mem_cons, List.not_mem_nil, or_false] at hc
    rcases hc with rfl | rfl | rfl | rfl | rfl | rfl | rfl <;> rfl

theorem takes_dots (rest : List Char) : Takes ['.', '.', '.'] [.mark "..."] rest :=
  takes_mark rfl (fun _ => rfl) rfl

theorem takes_arrow (rest : List Char) : Takes ['=', '>'] [.mark "=>"] rest :=
  takes_mark rfl (fun h => absurd h (by decide)) rfl

/-- The second characters of the longer marks that begin with a character. -/
def longerBehind (c : Char) : List Char :=
  longMarks.filterMap fun m =>
    match m.toList with
    | a :: b :: _ => if a = c then some b else none
    | _ => none

theorem scanMark_of_notMem {c d : Char} (hc : shortMarks.contains c) (hd : d ∉ longerBehind c)
    (rest : List Char) : scanMark (c :: d :: rest) = some (c.toString, d :: rest) := by
  have hlength : ∀ m ∈ longMarks, 2 ≤ m.toList.length := by decide
  have hnone : ∀ m ∈ longMarks, afterMark? m.toList (c :: d :: rest) = none := by
    intro m hm
    have hlong := hlength m hm
    match hcs : m.toList with
    | [] | [_] => simp [hcs] at hlong
    | a :: b :: more =>
      by_cases ha : a = c
      · have hb : b ≠ d := by
          rintro rfl
          exact hd (List.mem_filterMap.2 ⟨m, hm, by simp [hcs, ha]⟩)
        simp [afterMark?, ha, hb]
      · simp [afterMark?, ha]
  unfold scanMark
  simp only
  split
  · next found hlong =>
    obtain ⟨m, hm, hfound⟩ := List.exists_of_findSome?_eq_some hlong
    rw [hnone m hm] at hfound
    cases hfound
  · next heq =>
    obtain ⟨rfl, rfl⟩ := List.cons.inj heq
    rw [if_pos hc]
  · next heq => cases heq

/-- A point in front of a name. -/
theorem takes_point {c : Char} (hc : isIdentifierStart c) (rest : List Char) :
    Takes ['.'] [.mark "."] (c :: rest) := by
  have hdigit : c.isDigit = false := isDigit_of_isIdentifierStart hc
  have hbehind : c ∉ longerBehind '.' := by
    intro hmem
    obtain rfl : c = '.' := by simpa [longerBehind, longMarks] using hmem
    exact absurd hc (by decide)
  refine takes_mark rfl (fun _ => ?_) (scanMark_of_notMem rfl hbehind rest)
  simpa using hdigit

/-- A minus sign in front of a digit. -/
theorem takes_minus {c : Char} (hc : c.isDigit) (rest : List Char) :
    Takes ['-'] [.mark "-"] (c :: rest) := by
  have hbehind : c ∉ longerBehind '-' := by
    intro hmem
    have hcases : c = '-' ∨ c = '=' := by simpa [longerBehind, longMarks] using hmem
    rcases hcases with rfl | rfl
    · exact absurd hc (by decide)
    · exact absurd hc (by decide)
  exact takes_mark rfl (fun h => absurd h (by decide)) (scanMark_of_notMem rfl hbehind rest)

theorem takes_openBrace (rest : List Char) : Takes ['\x7b'] [.mark "\x7b"] rest := by
  refine takes_of_otherToken rfl fun s hs hrest => ?_
  have htook := hs.pushTo (.mark "\x7b") rest
  refine ⟨⟨htook.ready.newline, ?_⟩, rfl, htook.tokens⟩
  exact List.not_mem_cons_of_ne_of_not_mem Bool.noConfusion hs.braces

theorem takes_closeBrace (rest : List Char) : Takes ['\x7d'] [.mark "\x7d"] rest := by
  refine takes_of_otherToken rfl fun s hs hrest => ?_
  have houter : Scan.Ready { s with braces := s.braces.tail } :=
    ⟨hs.newline, fun hmem => hs.braces (List.mem_of_mem_tail hmem)⟩
  have htoken : s.otherToken '\x7d' ([] ++ rest) =
      Scan.pushTo { s with braces := s.braces.tail } (.mark "\x7d") rest := by
    cases hb : s.braces with
    | nil => simp [Scan.otherToken, hb]
    | cons b outer =>
      cases b with
      | false => simp [Scan.otherToken, hb]
      | true => exact absurd (hb ▸ List.mem_cons_self ..) hs.braces
  have htook := houter.pushTo (.mark "\x7d") rest
  rw [htoken]
  exact ⟨htook.ready, htook.rest, htook.tokens⟩

end CallBridge.Script
