import CallBridge.Proofs.Script.Scanning
import CallBridge.Proofs.Script.Subtree
import CallBridge.Script.Parser.Module

/-!
# Rules of the grammar, step by step

A rule runs from one state to another with a value (`Runs`); the steps of a rule run one after the
other (`Runs.bind`), and each primitive rule has its own step. A rule reads lexemes as a tree
(`Reads`) when it takes the tokens that spell them, whatever these span, in front of a token that
closes an expression, and gives the tree up to spans. Main statement: a list with commas reads its
items (`reads_delimited`).
-/

namespace CallBridge.Script

/-! ### Trees up to spans -/

/-- A tree that was read stands for a tree without spans. It has nothing that only a pattern may
have. -/
structure Stands (u t : Tree) : Prop where
  bare : u.bare = t
  whole : ∀ v ∈ u.subtrees, v.kind ≠ .shorthandDefault

/-- A node stands for the one without a place whose children its children stand for. -/
theorem Stands.node {k : Kind} {us ts : List Tree} (h : List.Forall₂ Stands us ts)
    (hk : k ≠ .shorthandDefault) (s : Span) : Stands (.node k s us) (.node k .none ts) := by
  have hbare : us.map Tree.bare = ts := by
    induction h with
    | nil => rfl
    | cons h _ ih => rw [List.map_cons, h.bare, ih]
  have hwhole : ∀ u ∈ us, ∀ v ∈ u.subtrees, v.kind ≠ .shorthandDefault := by
    clear hbare
    induction h with
    | nil => exact fun u hu => absurd hu List.not_mem_nil
    | cons h _ ih => exact List.forall_mem_cons.2 ⟨h.whole, ih⟩
  exact ⟨by rw [Tree.bare_node, hbare], Tree.forall_mem_subtrees.2 ⟨hk, hwhole⟩⟩

theorem Stands.leaf {k : Kind} (hk : k ≠ .shorthandDefault) (s : Span) :
    Stands (.node k s []) (.node k .none []) := .node .nil hk s

/-! ### Runs -/

/-- The lexeme that a state stands at. -/
def State.lexeme (s : State) : Lexeme := (s.tokens.headD Parser.endToken).lexeme

/-- The offset that a state stands at. -/
def State.start (s : State) : Nat := (s.tokens.headD Parser.endToken).span.start

/-- A state with the tokens up to a rest taken. -/
def State.past (s : State) (rest : List Token) (stop : Nat) : State :=
  { s with tokens := rest, lastStop := stop }

/-- Going past nothing changes nothing. -/
theorem State.past_self {s : State} {rest : List Token} (h : s.tokens = rest) :
    s.past rest s.lastStop = s := by
  rw [State.past, ← h]

theorem State.lexeme_eq {s : State} {t : Token} {rest : List Token} (h : s.tokens = t :: rest) :
    s.lexeme = t.lexeme := by
  rw [State.lexeme, h]
  rfl

namespace Parser

variable {α β : Type} {ctx : Context} {s s' s'' : State} {m w : String} {t : Token}
  {rest : List Token}

/-- A rule runs from a state to another one with a value. -/
def Runs (rule : Parser α) (ctx : Context) (s : State) (a : α) (s' : State) : Prop :=
  rule ctx s = .ok (a, s')

/-- Runs are put together at the state between. -/
theorem Runs.bind {x : Parser α} {f : α → Parser β} {a : α} {b : β} (h : Runs x ctx s a s')
    (h' : Runs (f a) ctx s' b s'') : Runs (x >>= f) ctx s b s'' := by
  unfold Runs at *
  simp only [Bind.bind, ReaderT.bind, StateT.bind, Except.bind, h, h']

theorem runs_pure (a : α) : Runs (pure a) ctx s a s := rfl

theorem runs_read : Runs read ctx s ctx s := rfl

theorem runs_get : Runs get ctx s s s := rfl

theorem runs_here : Runs here ctx s s.start s := rfl

theorem runs_current : Runs current ctx s (s.tokens.headD endToken) s := rfl

theorem runs_next : Runs next ctx s (s.tokens.tail.headD endToken) s := rfl

/-- A node ends where the last token did. -/
theorem runs_finish (start : Nat) (k : Kind) (cs : List Tree) :
    Runs (finish start k cs) ctx s (.node k ⟨start, s.lastStop⟩ cs) s := rfl

/-- A changed context is the context of the rule inside. -/
theorem runs_within {change : Context → Context} {rule : Parser α} {a : α}
    (h : Runs rule (change ctx) s a s') : Runs (within change rule) ctx s a s' := h

theorem runs_atMark {b : Bool} (h : (s.lexeme == .mark m) = b) : Runs (atMark m) ctx s b s := by
  rw [← h]
  rfl

theorem runs_atWord {b : Bool} (h : (s.lexeme == .word w false) = b) :
    Runs (atWord w) ctx s b s := by
  rw [← h]
  rfl

theorem runs_atEnd {b : Bool} (h : (s.lexeme == .eof) = b) : Runs atEnd ctx s b s := by
  rw [← h]
  rfl

/-- The current token is taken, which is not the last one. -/
theorem runs_advance (h : s.tokens = t :: rest) (hne : rest ≠ []) :
    Runs advance ctx s () (s.past rest t.span.stop) := by
  obtain ⟨u, more, rfl⟩ := List.exists_cons_of_ne_nil hne
  obtain ⟨tokens, lastStop, complaint, scriptComplaint, sawModule⟩ := s
  obtain rfl : tokens = t :: u :: more := h
  rfl

/-- A mark that is there is taken, if something follows it. -/
theorem runs_eatMark (h : s.tokens = t :: rest) (hm : t.lexeme = .mark m) (hne : rest ≠ []) :
    Runs (eatMark m) ctx s true (s.past rest t.span.stop) := by
  have hat : (s.lexeme == .mark m) = true := by
    rw [State.lexeme_eq h, hm]
    exact beq_self_eq_true _
  exact .bind (runs_atMark hat) (.bind (runs_advance h hne) (runs_pure true))

/-- One that is not there is not. -/
theorem runs_eatMark_miss (h : (s.lexeme == .mark m) = false) :
    Runs (eatMark m) ctx s false s := .bind (runs_atMark h) (runs_pure false)

/-- A mark that must be there and is there. -/
theorem runs_expectMark (h : s.tokens = t :: rest) (hm : t.lexeme = .mark m) (hne : rest ≠ []) :
    Runs (expectMark m) ctx s () (s.past rest t.span.stop) :=
  .bind (runs_eatMark h hm hne) (runs_pure ())

/-! ### Repetition -/

/-- One item more. -/
theorem runs_repeat_step {more : Parser Bool} {item : Parser α} {budget : Nat} {x : α} {xs : List α}
    {s₁ s₂ : State} (hmore : Runs more ctx s true s₁) (hitem : Runs item ctx s₁ x s₂)
    (hrest : Runs (repeatWhile.loop more item budget) ctx s₂ xs s') :
    Runs (repeatWhile.loop more item (budget + 1)) ctx s (x :: xs) s' :=
  .bind hmore (.bind hitem (.bind hrest (runs_pure _)))

/-- No item is left. -/
theorem runs_repeat_stop {more : Parser Bool} {item : Parser α} {budget : Nat}
    (hmore : Runs more ctx s false s') :
    Runs (repeatWhile.loop more item (budget + 1)) ctx s [] s' := .bind hmore (runs_pure _)

/-- An operand that grows once more. -/
theorem runs_grow_step {grow : α → Parser (Option α)} {budget : Nat} {x y z : α}
    (hgrow : Runs (grow x) ctx s (some y) s')
    (hrest : Runs (growWhile.loop grow budget y) ctx s' z s'') :
    Runs (growWhile.loop grow (budget + 1) x) ctx s z s'' := .bind hgrow hrest

/-- One that does not. -/
theorem runs_grow_stop {grow : α → Parser (Option α)} {budget : Nat} {x : α}
    (hgrow : Runs (grow x) ctx s none s') :
    Runs (growWhile.loop grow (budget + 1) x) ctx s x s' := .bind hgrow (runs_pure x)

/-! ### Reading lexemes -/

end Parser

/-- The first token spells the first lexeme. -/
theorem Spells.cons {ts : List Token} {l : Lexeme} {ls : List Lexeme} (h : Spells ts (l :: ls)) :
    ∃ t more, ts = t :: more ∧ t.lexeme = l ∧ t.afterNewline = false ∧ Spells more ls := by
  cases ts with
  | nil => cases h
  | cons t more =>
    obtain ⟨hhead, htail⟩ := List.cons.inj h
    obtain ⟨hl, hline⟩ := Prod.mk.inj hhead
    exact ⟨t, more, rfl, hl, hline, htail⟩

/-- Tokens that spell two lists one behind the other can be parted there. -/
theorem Spells.split {ts : List Token} {ls ms : List Lexeme} (h : Spells ts (ls ++ ms)) :
    ∃ first second, ts = first ++ second ∧ Spells first ls ∧ Spells second ms := by
  induction ls generalizing ts with
  | nil => exact ⟨[], ts, rfl, .nil, h⟩
  | cons l ls ih =>
    obtain ⟨t, more, rfl, hl, hline, hmore⟩ := h.cons
    obtain ⟨first, second, rfl, hfirst, hsecond⟩ := ih hmore
    refine ⟨t :: first, second, rfl, ?_, hsecond⟩
    rw [Spells, List.map_cons, List.map_cons, hl, hline, hfirst]

/-- Lexemes that close an expression. -/
def closes : Lexeme → Bool
  | .mark m => [",", ")", "]", "\x7d", ";"].contains m
  | .eof => true
  | _ => false

/-- Tokens of which the first closes an expression. -/
def Closed (rest : List Token) : Prop := ∃ t more, rest = t :: more ∧ closes t.lexeme

theorem Closed.ne_nil {rest : List Token} (h : Closed rest) : rest ≠ [] := by
  obtain ⟨t, more, rfl, -⟩ := h
  exact List.cons_ne_nil t more

/-- Tokens of which the first spells a lexeme. -/
def BeginsWith (rest : List Token) (l : Lexeme) : Prop := ∃ t more, rest = t :: more ∧ t.lexeme = l

/-- A rule reads lexemes as a tree in front of what closes an expression. -/
def Reads (rule : Parser Tree) (ctx : Context) (ls : List Lexeme) (t : Tree) : Prop :=
  ∀ (s : State) (ts rest : List Token), s.tokens = ts ++ rest → Spells ts ls → Closed rest →
    ∃ u n, Parser.Runs rule ctx s u (s.past rest n) ∧ Stands u t

/-- Lexemes with commas in front of them. -/
def behindCommas (lss : List (List Lexeme)) : List Lexeme := lss.flatMap (.mark "," :: ·)

/-- Lexemes with commas between them. -/
def commas : List (List Lexeme) → List Lexeme
  | [] => []
  | ls :: lss => ls ++ behindCommas lss

/-- An item of a list is read, and begins with nothing that closes it. -/
structure ReadsItem (item : Parser Tree) (ctx : Context) (ls : List Lexeme) (t : Tree) : Prop where
  opens : ∃ l more, ls = l :: more ∧ closes l = false
  reads : Reads item ctx ls t

namespace Parser

variable {closing : String} {item : Parser Tree}

/-- Marks that close a list. -/
def closingMarks : List String := [")", "]", "\x7d"]

theorem closes_of_mem_closingMarks (h : closing ∈ closingMarks) : closes (.mark closing) := by
  revert h closing
  decide

/-- Whether another item follows: not at the closing mark, but behind a comma. -/
structure GoesOn (more : Parser Bool) (closing : String) (ctx : Context) : Prop where
  stop : ∀ s : State, s.lexeme = .mark closing → Runs more ctx s false s
  go : ∀ (s : State) (t u : Token) (rest : List Token), s.tokens = t :: u :: rest →
    t.lexeme = .mark "," → closes u.lexeme = false →
    Runs more ctx s true (s.past (u :: rest) t.span.stop)

/-- Tokens behind commas end where a closing mark does. -/
theorem closed_behindCommas (hclosing : closing ∈ closingMarks) {lss : List (List Lexeme)}
    {tokens rest : List Token} (hspells : Spells tokens (behindCommas lss))
    (hrest : BeginsWith rest (.mark closing)) : Closed (tokens ++ rest) := by
  cases lss with
  | nil =>
    obtain rfl : tokens = [] := List.map_eq_nil_iff.1 hspells
    obtain ⟨t, others, rfl, ht⟩ := hrest
    exact ⟨t, others, rfl, by rw [ht, closes_of_mem_closingMarks hclosing]⟩
  | cons ls lss =>
    have hcommas : Spells tokens (.mark "," :: (ls ++ behindCommas lss)) := hspells
    obtain ⟨comma, others, rfl, hcomma, -, -⟩ := hcommas.cons
    exact ⟨comma, others ++ rest, rfl, by rw [hcomma]; rfl⟩

/-- The items behind the first one, up to the closing mark. -/
theorem reads_behindCommas (hclosing : closing ∈ closingMarks) {more : Parser Bool}
    (hmore : GoesOn more closing ctx) {lss : List (List Lexeme)} {ts : List Tree}
    (hitems : List.Forall₂ (ReadsItem item ctx) lss ts) {budget : Nat} (hbudget : lss.length < budget)
    {s : State} {tokens rest : List Token} (htokens : s.tokens = tokens ++ rest)
    (hspells : Spells tokens (behindCommas lss)) (hrest : BeginsWith rest (.mark closing)) :
    ∃ us n, Runs (repeatWhile.loop more item budget) ctx s us (s.past rest n) ∧
      List.Forall₂ Stands us ts := by
  induction hitems generalizing budget s tokens with
  | nil =>
    obtain ⟨budget, rfl⟩ := Nat.exists_eq_add_of_lt hbudget
    obtain rfl : tokens = [] := List.map_eq_nil_iff.1 hspells
    obtain ⟨t, others, rfl, ht⟩ := hrest
    have hstop := hmore.stop s ((State.lexeme_eq htokens).trans ht)
    refine ⟨[], s.lastStop, ?_, .nil⟩
    rw [List.nil_append] at htokens
    rw [State.past_self htokens]
    exact runs_repeat_stop hstop
  | @cons ls t lss ts hitem hitems ih =>
    cases budget with
    | zero => exact absurd hbudget (Nat.not_lt_zero _)
    | succ budget =>
      have hcommas : Spells tokens (.mark "," :: (ls ++ behindCommas lss)) := hspells
      obtain ⟨comma, others, rfl, hcomma, -, hothers⟩ := hcommas.cons
      obtain ⟨first, second, rfl, hfirst, hsecond⟩ := hothers.split
      obtain ⟨l, tail, rfl, hl⟩ := hitem.opens
      obtain ⟨head, firstTail, rfl, hhead, -, -⟩ := hfirst.cons
      have hclosed : Closed (second ++ rest) := closed_behindCommas hclosing hsecond hrest
      have hgo := hmore.go s comma head (firstTail ++ (second ++ rest)) (by simpa using htokens)
        hcomma (by rw [hhead, hl])
      obtain ⟨u, n, hu, hstands⟩ := hitem.reads
        (s.past (head :: (firstTail ++ (second ++ rest))) comma.span.stop) (head :: firstTail)
        (second ++ rest) rfl hfirst hclosed
      obtain ⟨us, n', hus, hall⟩ := ih (Nat.lt_of_succ_lt_succ hbudget)
        (s := s.past (second ++ rest) n) rfl hsecond
      exact ⟨u :: us, n', runs_repeat_step hgo hu hus, .cons hstands hall⟩

/-- A list with commas is empty, or its first item and the others as long as it goes on. -/
theorem exists_goesOn (hclosing : closing ∈ closingMarks) (item : Parser Tree) :
    ∃ more : Parser Bool, (∀ ctx, GoesOn more closing ctx) ∧
      delimited closing item = (do
        if ← (do return (← atMark closing) || (← atEnd)) then return []
        let first ← item
        return first :: (← repeatWhile more item)) := by
  refine ⟨_, fun ctx => ⟨fun s hs => ?_, fun s t u rest hs ht hu => ?_⟩, rfl⟩
  · have hat : (s.lexeme == .mark closing) = true := by
      rw [hs]
      exact beq_self_eq_true _
    exact .bind (.bind (runs_atMark hat) (.bind (runs_atEnd rfl) (runs_pure _))) (runs_pure false)
  · have hlexeme : s.lexeme = .mark "," := (State.lexeme_eq hs).trans ht
    have hcomma : "," ≠ closing := by
      rintro rfl
      exact absurd hclosing (by decide)
    have hat : (s.lexeme == .mark closing) = false := by
      rw [hlexeme]
      exact beq_false_of_ne fun h => hcomma (Lexeme.mark.inj h)
    have hend : (s.lexeme == .eof) = false := by
      rw [hlexeme]
      rfl
    have hhere : (s.lexeme == .mark ",") = true := by
      rw [hlexeme]
      rfl
    have hnext : ((s.past (u :: rest) t.span.stop).lexeme == .mark closing) = false := by
      refine beq_false_of_ne fun h => ?_
      have hu' : u.lexeme = .mark closing := h
      rw [hu', closes_of_mem_closingMarks hclosing] at hu
      cases hu
    refine .bind (.bind (runs_atMark hat) (.bind (runs_atEnd hend) (runs_pure _))) ?_
    refine .bind (runs_atMark hhere) ?_
    refine .bind (runs_advance hs (List.cons_ne_nil _ _)) ?_
    exact .bind (runs_atMark hnext) (runs_pure _)

/-- A list with commas reads its items up to the closing mark. -/
theorem reads_delimited (hclosing : closing ∈ closingMarks) {lss : List (List Lexeme)}
    {ts : List Tree} (hitems : List.Forall₂ (ReadsItem item ctx) lss ts)
    (hbudget : lss.length < ctx.budget) {s : State} {tokens rest : List Token}
    (htokens : s.tokens = tokens ++ rest) (hspells : Spells tokens (commas lss))
    (hrest : BeginsWith rest (.mark closing)) :
    ∃ us n, Runs (delimited closing item) ctx s us (s.past rest n) ∧
      List.Forall₂ Stands us ts := by
  obtain ⟨more, hmore, heq⟩ := exists_goesOn hclosing item
  rw [heq]
  cases hitems with
  | nil =>
    obtain rfl : tokens = [] := List.map_eq_nil_iff.1 hspells
    obtain ⟨t, others, rfl, ht⟩ := hrest
    have hat : (s.lexeme == .mark closing) = true := by
      rw [State.lexeme_eq htokens, ht]
      exact beq_self_eq_true _
    refine ⟨[], s.lastStop, ?_, .nil⟩
    rw [List.nil_append] at htokens
    rw [State.past_self htokens]
    exact .bind (.bind (runs_atMark hat) (.bind (runs_atEnd rfl) (runs_pure _))) (runs_pure [])
  | @cons ls t lss ts hitem hitems =>
    obtain ⟨first, second, rfl, hfirst, hsecond⟩ := Spells.split hspells
    obtain ⟨l, tail, rfl, hl⟩ := hitem.opens
    obtain ⟨head, firstTail, rfl, hhead, -, -⟩ := hfirst.cons
    have hclosed : Closed (second ++ rest) := closed_behindCommas hclosing hsecond hrest
    -- an item opens with neither the closing mark nor the end, so the list is not taken for empty
    have hlexeme : s.lexeme = l := (State.lexeme_eq htokens).trans hhead
    have hat : (s.lexeme == .mark closing) = false := by
      rw [hlexeme]
      refine beq_false_of_ne fun h => ?_
      rw [h, closes_of_mem_closingMarks hclosing] at hl
      cases hl
    have hend : (s.lexeme == .eof) = false := by
      rw [hlexeme]
      refine beq_false_of_ne fun h => ?_
      rw [h] at hl
      cases hl
    obtain ⟨u, n, hu, hstands⟩ := hitem.reads s (head :: firstTail) (second ++ rest)
      (by simpa using htokens) hfirst hclosed
    have hothers : lss.length < ctx.budget := Nat.lt_of_succ_lt hbudget
    obtain ⟨us, n', hus, hall⟩ := reads_behindCommas hclosing (hmore ctx) hitems hothers
      (s := s.past (second ++ rest) n) rfl hsecond hrest
    refine ⟨u :: us, n', ?_, .cons hstands hall⟩
    refine .bind (.bind (runs_atMark hat) (.bind (runs_atEnd hend) (runs_pure _))) ?_
    refine .bind hu ?_
    exact .bind (.bind runs_read hus) (runs_pure _)

/-- A list with commas and the mark that closes it. -/
theorem reads_closedList (hclosing : closing ∈ closingMarks) {lss : List (List Lexeme)}
    {ts : List Tree} (hitems : List.Forall₂ (ReadsItem item ctx) lss ts)
    (hbudget : lss.length < ctx.budget) {s : State} {tokens rest : List Token}
    (htokens : s.tokens = tokens ++ rest) (hne : rest ≠ [])
    (hspells : Spells tokens (commas lss ++ [.mark closing])) :
    ∃ us s' n, Runs (delimited closing item) ctx s us s' ∧
      Runs (expectMark closing) ctx s' () (s.past rest n) ∧ List.Forall₂ Stands us ts := by
  obtain ⟨inside, last, rfl, hinside, hlast⟩ := hspells.split
  obtain ⟨t, others, rfl, ht, -, hothers⟩ := hlast.cons
  obtain rfl : others = [] := List.map_eq_nil_iff.1 hothers
  rw [List.append_assoc] at htokens
  obtain ⟨us, n, hus, hall⟩ := reads_delimited hclosing hitems hbudget htokens hinside
    ⟨t, rest, rfl, ht⟩
  exact ⟨us, _, t.span.stop, hus, runs_expectMark rfl ht hne, hall⟩

end Parser

end CallBridge.Script
