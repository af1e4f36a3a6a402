import CallBridge.Proofs.Script.Arrows
import CallBridge.Proofs.Script.Chains
import CallBridge.Proofs.Script.Literals
import CallBridge.Proofs.Script.Objects

/-!
# Phrases

A phrase is a text that is read as an expression wherever it stands in front of something that goes
on with neither a name nor a number. Phrases are put together with brackets, commas and names as
their trees are. Main statement: a phrase is a whole text that is read as its tree, up to spans
(`Phrase.parses`).
-/

namespace CallBridge.Script

open CallBridge.Text Collection Json Number

/-! ### Texts that are taken anywhere -/

/-- A text is taken as lexemes where neither a name nor a number goes on behind it. -/
def Taken (cs : List Char) (ls : List Lexeme) : Prop :=
  ∀ rest, EndsNumber rest → Takes cs ls rest

variable {c : Char} {cs ds : List Char} {ls ms : List Lexeme}

theorem endsNumber_nil : EndsNumber [] := stops_nil

theorem endsNumber_cons (hc : (isIdentifierPart c || c == '\\' || c == '.') = false)
    (rest : List Char) : EndsNumber (c :: rest) := stops_cons.2 hc

theorem Taken.append (h : Taken cs ls) (h' : Taken ds ms)
    (hds : ∀ rest, EndsNumber rest → EndsNumber (ds ++ rest)) : Taken (cs ++ ds) (ls ++ ms) :=
  fun rest hrest => .append (h (ds ++ rest) (hds rest hrest)) (h' rest hrest)

/-- A text behind one that is taken in front of anything. -/
theorem Taken.behind (h : ∀ rest, Takes cs ls rest) (h' : Taken ds ms) : Taken (cs ++ ds) (ls ++ ms) :=
  fun rest hrest => .append (h (ds ++ rest)) (h' rest hrest)

theorem taken_quoteJson (cs : List Char) :
    Taken (quoteJson cs)
      [.string ⟨String.ofList cs, false⟩ (String.ofList (cs.flatMap escapeJson))] :=
  fun rest _ => takes_quoteJson cs rest

/-! ### Lists -/

/-- Marks between the items of a list: a comma, with blanks or without. -/
structure Separates (sep : List Char) : Prop where
  takes : ∀ rest, Takes sep [.mark ","] rest
  ends : ∀ rest, EndsNumber (sep ++ rest)

theorem separates_comma : Separates [','] where
  takes rest := takes_loneMark (by decide) rest
  ends rest := endsNumber_cons (by decide) rest

theorem separates_comma_space : Separates [',', ' '] where
  takes rest := .append (separates_comma.takes _) (takes_space rest)
  ends rest := endsNumber_cons (by decide) _

/-- Texts with a separator between them are taken as lexemes with commas between them. -/
theorem taken_intercalate {sep : List Char} (hsep : Separates sep) {css : List (List Char)}
    {lss : List (List Lexeme)} (h : List.Forall₂ Taken css lss) :
    Taken (sep.intercalate css) (commas lss) := by
  induction h with
  | nil => exact fun rest _ => takes_nil rest
  | @cons cs ls css lss hcs hcss ih =>
    cases hcss with
    | nil => simpa [List.intercalate, commas, behindCommas] using hcs
    | @cons ds ms css lss hds hcss =>
      have htext : sep.intercalate (cs :: ds :: css) = cs ++ (sep ++ sep.intercalate (ds :: css)) := by
        simp [List.intercalate]
      have hlexemes : commas (ls :: ms :: lss) = ls ++ ([.mark ","] ++ commas (ms :: lss)) := rfl
      rw [htext, hlexemes]
      refine hcs.append (.behind hsep.takes ih) fun rest _ => ?_
      rw [List.append_assoc]
      exact hsep.ends _

theorem withCommas_eq_intercalate (css : List (List Char)) :
    withCommas css = [','].intercalate css := by
  induction css with
  | nil => rfl
  | cons cs css ih =>
    cases css with
    | nil => simp [withCommas, List.intercalate]
    | cons ds css =>
      rw [withCommas, ih]
      · simp [List.intercalate]
      · exact List.cons_ne_nil _ _

/-! ### Phrases -/

/-- A text that is read as an expression. -/
def Phrase (cs : List Char) (t : Tree) : Prop := ∃ ls, Taken cs ls ∧ IsExpression ls t

/-- A rule that leaves nothing to complain about gives what it has read. -/
theorem Parser.run_eq_ok {dialect : Dialect} {tokens rest : List Token} {rule : Rules → Parser Tree}
    {eof : Token} {u : Tree} {n : Nat}
    (h : Parser.Runs (rule (Parser.rules (Parser.depthOf (tokens.length + 1))))
      ⟨dialect, true, dialect.goal == .module, false, false, tokens.length + 1⟩
      ⟨tokens, 0, none, none, false⟩ u ⟨eof :: rest, n, none, none, false⟩)
    (heof : eof.lexeme = .eof) (hstray : Parser.strayDefault? u = none) :
    Parser.run dialect tokens rule = .ok u := by
  obtain ⟨lexeme, span, afterNewline⟩ := eof
  obtain rfl : lexeme = .eof := heof
  have hout : StateT.run (ReaderT.run (rule (Parser.rules (Parser.depthOf (tokens.length + 1))))
      ⟨dialect, true, dialect.goal == .module, false, false, tokens.length + 1⟩)
      ⟨tokens, 0, none, none, false⟩ =
        .ok (u, ⟨⟨.eof, span, afterNewline⟩ :: rest, n, none, none, false⟩) := h
  unfold Parser.run
  simp only [hout, bind, Except.bind, pure, Except.pure, hstray]

/-- A phrase is read up to its end. -/
theorem Phrase.parses {t : Tree} (h : Phrase cs t) : ∃ u, parseExpression cs = .ok u ∧ u.bare = t := by
  obtain ⟨ls, htaken, hexpr⟩ := h
  have hspells : Spells (tokenize cs).1 (ls ++ [.eof]) := spells_tokenize (htaken [] endsNumber_nil)
  obtain ⟨tokens, last, htokens, hinside, hlast⟩ := hspells.split
  obtain ⟨eof, others, rfl, heof, -, hothers⟩ := hlast.cons
  obtain rfl : others = [] := List.map_eq_nil_iff.1 hothers
  have hlength : (tokenize cs).1.length = ls.length + 1 := by
    simpa using congrArg List.length hspells
  obtain ⟨u, n, hu, hstands⟩ := hexpr.reads (Parser.depthOf ((tokenize cs).1.length + 1))
    ⟨⟨.module, false, false⟩, true, true, false, false, (tokenize cs).1.length + 1⟩
    (by rw [Parser.depthOf]; omega) (by simp only [hlength]; omega) rfl
    ⟨(tokenize cs).1, 0, none, none, false⟩ tokens [eof] htokens hinside
    ⟨eof, [], rfl, by rw [heof]; rfl⟩
  have hcomma : (eof.lexeme == .mark ",") = false := by
    rw [heof]
    rfl
  have hstray : Parser.strayDefault? u = none := by
    rw [Parser.strayDefault?, Option.map_eq_none_iff, List.find?_eq_none]
    exact fun v hv => by simpa using hstands.whole v hv
  have hrun : Parser.Runs (Parser.expression (Parser.rules (Parser.depthOf ((tokenize cs).1.length + 1))))
      ⟨⟨.module, false, false⟩, true, true, false, false, (tokenize cs).1.length + 1⟩
      ⟨(tokenize cs).1, 0, none, none, false⟩ u ⟨[eof], n, none, none, false⟩ :=
    .bind Parser.runs_here (.bind hu (.bind (Parser.runs_atMark hcomma) (Parser.runs_pure u)))
  exact ⟨u, Parser.run_eq_ok hrun heof hstray, hstands.bare⟩

/-! ### Words and marks in front of a text -/

/-- A word that may stand as it is. -/
def IsName (w : String) : Prop :=
  ∃ c cs, w.toList = c :: cs ∧ isIdentifierStart c ∧ ∀ d ∈ cs, isIdentifierPart d

theorem IsName.takes {w : String} (h : IsName w) {rest : List Char} (hrest : EndsWord rest) :
    Takes w.toList [.word w false] rest := by
  obtain ⟨c, cs, hw, hc, hcs⟩ := h
  have htakes := takes_word hc hcs hrest
  rwa [← hw, String.ofList_toList] at htakes

theorem IsName.taken {w : String} (h : IsName w) : Taken w.toList [.word w false] :=
  fun _ hrest => h.takes hrest.endsWord

theorem Taken.word {w : String} (h : Taken (c :: cs) ls) (hw : IsName w)
    (hc : (isIdentifierPart c || c == '\\' || c == '.') = false) :
    Taken (w.toList ++ c :: cs) (.word w false :: ls) :=
  hw.taken.append h fun rest _ => endsNumber_cons hc (cs ++ rest)

theorem Taken.mark (h : Taken cs ls) (hc : c ∈ loneMarks) :
    Taken (c :: cs) (.mark c.toString :: ls) := .behind (takes_loneMark hc) h

theorem Taken.arrow (h : Taken cs ls) : Taken ('=' :: '>' :: cs) (.mark "=>" :: ls) :=
  .behind takes_arrow h

theorem Taken.openBrace (h : Taken cs ls) : Taken ('\x7b' :: cs) (.mark "\x7b" :: ls) :=
  .behind takes_openBrace h

theorem Taken.space (h : Taken cs ls) : Taken (' ' :: cs) ls := .behind takes_space h

/-! ### Leaves -/

/-- A text that is taken as an operand by itself. -/
theorem Phrase.leaf {l : Lexeme} {k : Kind} (h : Taken cs [l]) (hleaf : IsLeaf l k) :
    Phrase cs (.node k .none []) := ⟨[l], h, .leaf hleaf⟩

theorem phrase_name {w : String} (h : IsName w) (hw : isKeyword w = false) :
    Phrase w.toList (.node (.reference w) .none []) := .leaf h.taken (.name hw)

/-- A quoted text is the string of its characters, whatever they are. -/
theorem phrase_quoteJson (s : String) :
    Phrase (quoteJson s.toList) (.node (.string ⟨s, false⟩) .none []) := by
  have htaken := taken_quoteJson s.toList
  rw [String.ofList_toList] at htaken
  exact .leaf htaken (.string ..)

theorem phrase_digitsOf {n : Nat} (hn : (digitsOf n).length ≤ 400) :
    Phrase (digitsOf n) (.node (.number (.ofNat n)) .none []) :=
  .leaf (fun _ hrest => takes_digitsOf hn hrest) (.number ..)

theorem phrase_minus_digitsOf {n : Nat} (hn : (digitsOf n).length ≤ 400) :
    Phrase ('-' :: digitsOf n)
      (.node (.unary .negate) .none [.node (.number (.ofNat n)) .none []]) := by
  refine ⟨_, fun rest hrest => ?_, .negative (.ofNat n) true⟩
  obtain ⟨d, ds, hds⟩ := List.exists_cons_of_ne_nil (l := digitsOf n) Nat.toDigits_ne_nil
  have hd : d.isDigit := isDigit_of_mem_digitsOf (hds ▸ List.mem_cons_self ..)
  have hminus : Takes ['-'] [.mark "-"] (digitsOf n ++ rest) := by
    rw [hds]
    exact takes_minus hd (ds ++ rest)
  exact .append hminus (takes_digitsOf hn hrest)

/-! ### Brackets -/

/-- What lists share member by member through a third, they share through a third list. -/
theorem exists_forall₂ {α β γ : Type} {p : α → β → Prop} {q : β → γ → Prop} {as : List α}
    {cs : List γ} (h : List.Forall₂ (fun a c => ∃ b, p a b ∧ q b c) as cs) :
    ∃ bs, List.Forall₂ p as bs ∧ List.Forall₂ q bs cs := by
  induction h with
  | nil => exact ⟨[], .nil, .nil⟩
  | cons hac _ ih =>
    obtain ⟨b, hab, hbc⟩ := hac
    obtain ⟨bs, has, hcs⟩ := ih
    exact ⟨b :: bs, .cons hab has, .cons hbc hcs⟩

/-- Phrases with commas between them in brackets. -/
theorem Phrase.array {css : List (List Char)} {ts : List Tree} (h : List.Forall₂ Phrase css ts) :
    Phrase ('[' :: (withCommas css ++ [']'])) (.node .array .none ts) := by
  obtain ⟨lss, hcss, hlss⟩ := exists_forall₂ h
  refine ⟨_, ?_, .array hlss⟩
  rw [withCommas_eq_intercalate]
  have hclose : Taken [']'] [.mark "]"] := fun rest _ => takes_loneMark (by decide) rest
  have hinside := (taken_intercalate separates_comma hcss).append hclose
    fun rest _ => endsNumber_cons (by decide) rest
  exact .mark hinside (by decide)

/-- A text that is read as an item of an object literal. -/
def Item (cs : List Char) (t : Tree) : Prop := ∃ ls, Taken cs ls ∧ IsMember ls t

/-- A key and a phrase. -/
theorem Item.property {l : Lexeme} {key t : Tree} (hkey : Taken cs [l]) (hl : IsKey l key)
    (h : Phrase ds t) :
    Item (cs ++ ':' :: ' ' :: ds) (.node (.property .init false) .none [key, t]) := by
  obtain ⟨ls, hds, hexpr⟩ := h
  refine ⟨_, ?_, .property hl hexpr⟩
  have hvalue : Taken (':' :: ' ' :: ds) (.mark ":" :: ls) := .mark hds.space (by decide)
  exact hkey.append hvalue fun rest _ => endsNumber_cons (by decide) _

/-- A spread of a phrase. -/
theorem Item.spread {t : Tree} (h : Phrase ds t) :
    Item ('.' :: '.' :: '.' :: ds) (.node .spread .none [t]) := by
  obtain ⟨ls, hds, hexpr⟩ := h
  exact ⟨_, .behind takes_dots hds, .spread hexpr⟩

/-- Items with commas between them in braces. -/
theorem Phrase.object {css : List (List Char)} {ts : List Tree} (h : List.Forall₂ Item css ts) :
    Phrase ('\x7b' :: ' ' :: ([',', ' '].intercalate css ++ [' ', '\x7d']))
      (.node .object .none ts) := by
  obtain ⟨lss, hcss, hlss⟩ := exists_forall₂ h
  refine ⟨_, ?_, .object hlss⟩
  have hclose : Taken [' ', '\x7d'] [.mark "\x7d"] :=
    .space fun rest _ => takes_closeBrace rest
  have hinside := (taken_intercalate separates_comma_space hcss).append hclose
    fun rest _ => endsNumber_cons (by decide) _
  exact hinside.space.openBrace

/-! ### Calls -/

/-- The text of a dotted name. -/
def pathText (first : String) (members : List String) : List Char :=
  first.toList ++ members.flatMap fun m => '.' :: m.toList

theorem endsWord_members (members : List String) {rest : List Char} (hrest : EndsWord rest) :
    EndsWord ((members.flatMap fun m => '.' :: m.toList) ++ rest) := by
  cases members with
  | nil => exact hrest
  | cons m members => exact stops_cons.2 (by decide)

/-- Members with a point in front of each. -/
theorem takes_members {members : List String} (h : ∀ m ∈ members, IsName m) {rest : List Char}
    (hrest : EndsWord rest) :
    Takes (members.flatMap fun m => '.' :: m.toList) (memberLexemes members) rest := by
  induction members with
  | nil => exact takes_nil rest
  | cons m members ih =>
    obtain ⟨hm, hmembers⟩ := List.forall_mem_cons.1 h
    have hname := hm.takes (endsWord_members members hrest)
    obtain ⟨c, cs, hcs, hc, -⟩ := hm
    have hpoint : Takes ['.'] [.mark "."]
        (m.toList ++ (members.flatMap fun m => '.' :: m.toList) ++ rest) := by
      rw [hcs]
      exact takes_point hc _
    exact hpoint.append (hname.append (ih hmembers))

/-- A dotted name with phrases for arguments in parentheses. -/
theorem Phrase.call {first : String} {members : List String} {sep : List Char}
    {css : List (List Char)} {ts : List Tree} (hfirst : IsName first)
    (hkeyword : isKeyword first = false) (hmembers : ∀ m ∈ members, IsName m)
    (hsep : Separates sep) (h : List.Forall₂ Phrase css ts) :
    Phrase (pathText first members ++ '(' :: (sep.intercalate css ++ [')']))
      (.node (.call false) .none
        (memberTree (.node (.reference first) .none []) members :: ts)) := by
  obtain ⟨lss, hcss, hlss⟩ := exists_forall₂ h
  refine ⟨_, fun rest hrest => ?_, .call hkeyword members hlss⟩
  have hclose : Taken [')'] [.mark ")"] := fun rest _ => takes_loneMark (by decide) rest
  have hinside := (taken_intercalate hsep hcss).append hclose
    fun rest _ => endsNumber_cons (by decide) rest
  have hparens : Takes ('(' :: (sep.intercalate css ++ [')'])) (.mark "(" :: (commas lss ++ [.mark ")"]))
      rest := Taken.mark hinside (by decide) rest hrest
  have hends : EndsWord ('(' :: (sep.intercalate css ++ [')']) ++ rest) := stops_cons.2 (by decide)
  have hpath := (hfirst.takes (endsWord_members members hends)).append (takes_members hmembers hends)
  exact hpath.append hparens

end CallBridge.Script
