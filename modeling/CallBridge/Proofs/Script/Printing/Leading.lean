import CallBridge.Marker.Count
import CallBridge.Proofs.Script.Printing.Growth

/-!
# States that steps lead to

A name that is printed next is found by a search for calls unless a point or a part of a word stands
in front of it. In an open state (`Out.Open`) neither does, or a space comes in between. What is
known behind a step, from what is known before it, is told by `Leads`; a step that leads to an open
state from every sound one settles (`Settles`).

Main statements: steps that are put together lead to what lasts when one of them does from the state
that those before it lead to (`Leads.step`, `Leads.here`, `Leads.wrap`, `Leads.separated`).
-/

namespace CallBridge.Script.Printer

open CallBridge.Text (isIdentifierPart)
open CallBridge.Marker (beforeVariable)

/-- Whether a name behind a character is found, once a space has been put in front of a word. -/
def opens (c : Char) : Bool := beforeVariable c || isIdentifierPart c

/-- A name that is written next is found. -/
structure Out.Open (o : Out) : Prop where
  sound : o.Sound
  head : ∀ c ∈ o.written.head?, opens c

/-- What is known behind a step, from what is known before it. -/
def Leads (pre : Out → Prop) (d : Doc) (post : Out → Prop) : Prop := ∀ o, pre o → post (d o)

/-- Behind a step a name is found, whatever stands in front of the step. -/
abbrev Settles (d : Doc) : Prop := Leads Out.Sound d Out.Open

/-- What stays true when more is written. -/
def Lasting (S : Out → Prop) : Prop := ∀ ⦃o o' : Out⦄, o.Grown o' → S o → S o'

/-! ### Steps that take nothing back -/

namespace Grows

variable {d e : Doc} {ds : List Doc} {p : Part}

attribute [simp] nothing text chars indent mark commentsAt onlyIf nested

@[simp] theorem newline : Grows newline := .text "\n"

@[simp] theorem spaceBeforeWord : Grows spaceBeforeWord := congruent_grows.spaceBeforeWord.1

@[simp] theorem word (s : String) : Grows (word s) := (congruent_grows.word s).1

@[simp] theorem seq_of_forall (h : ∀ d ∈ ds, Grows d) : Grows (Printer.seq ds) := .seq h

@[simp] theorem braces (b : Bool) (hd : Grows d) : Grows (braces b d) :=
  (congruent_grows.braces b ⟨hd, hd⟩).1

@[simp] theorem endLine (c : Ctx) : Grows (endLine c) := (congruent_grows.endLine c).1

@[simp] theorem separated (he : Grows e) (h : ∀ d ∈ ds, Grows d) : Grows (separated e ds) :=
  (congruent_grows.separated ⟨he, he⟩ (List.forall₂_same.2 fun d hd => ⟨h d hd, h d hd⟩)).1

@[simp] theorem commas (h : ∀ d ∈ ds, Grows d) : Grows (commas ds) := separated (text _) h

end Grows

/-! ### Steps one after the other -/

namespace Leads

variable {pre pre' m post S : Out → Prop} {d e : Doc} {ds : List Doc}

theorem imp (h : Leads pre d post) (hpre : ∀ o, pre' o → pre o) : Leads pre' d post :=
  fun o ho => h o (hpre o ho)

/-- What holds behind a step from every sound state holds from every open one. -/
theorem ofOpen (h : Leads Out.Sound d post) : Leads Out.Open d post := h.imp fun _ ho => ho.sound

theorem step (hd : Leads pre d m) (h : Leads m (seq ds) post) : Leads pre (seq (d :: ds)) post :=
  fun o ho => h (d o) (hd o ho)

theorem last (h : Leads pre d post) : Leads pre (seq [d]) post := h

theorem when {b : Bool} (hb : b = true) (h : Leads pre d post) : Leads pre (onlyIf b d) post := by
  rw [hb]
  exact h

/-- What holds behind a step and lasts holds behind all further ones. -/
theorem here (hS : Lasting S) (h : Leads pre d S) (hds : ∀ e ∈ ds, Grows e) :
    Leads pre (seq (d :: ds)) S := fun o ho => hS (Grows.seq hds (d o)) (h o ho)

theorem grown (hd : Grows d) : Leads Out.Sound d Out.Sound := fun o ho => (hd o).sound ho

/-- A step of which only matters that it takes nothing back. -/
theorem pass (hd : Grows d) (h : Leads Out.Sound (seq ds) post) :
    Leads Out.Sound (seq (d :: ds)) post := step (grown hd) h

end Leads

/-! ### Open states -/

theorem Out.Open.of_written {o : Out} (ho : o.Sound) {c : Char} {cs : List Char}
    (h : o.written = c :: cs) (hc : opens c) : o.Open := by
  refine ⟨ho, fun c' hc' => ?_⟩
  rw [h] at hc'
  obtain rfl := Option.some.inj hc'
  exact hc

/-- Behind a text that does not end in a point or an odd part of a word, a name is found. -/
theorem settles_chars {cs : List Char} (h : cs.getLast?.any opens) : Settles (chars cs) := by
  intro o ho
  obtain ⟨c, hc, hopens⟩ := (Option.any_eq_true _ _).1 h
  obtain ⟨init, rfl⟩ := List.getLast?_eq_some_iff.1 hc
  have hwritten : (chars (init ++ [c]) o).written = c :: (init.reverse ++ o.written) := by
    rw [chars, List.reverseAux_eq, List.reverse_append]
    rfl
  exact .of_written (Leads.grown (.chars _) o ho) hwritten hopens

theorem settles_text (s : String) (h : s.toList.getLast?.any opens) : Settles (text s) :=
  settles_chars h

theorem settles_newline : Settles newline := settles_text "\n" (by decide)

theorem notes_spaceNext (b : Bool) : Notes fun o => { o with spaceNext := b } := by
  constructor <;> intro o <;> simp [Out.known]

/-- A name is found behind the indentation that is written next. -/
structure Out.Ready (o : Out) : Prop where
  sound : o.Sound
  spaced : o.spaceNext = false → o.Open

theorem Out.Open.ready {o : Out} (h : o.Open) : o.Ready := ⟨h.sound, fun _ => h⟩

theorem leads_indent : Leads Out.Ready indent Out.Open := by
  intro o ho
  unfold indent
  split
  · exact settles_text " " (by decide) _ (Leads.grown (.note (notes_spaceNext false)) o ho.sound)
  · next hspace =>
    refine ⟨Leads.grown (.chars _) o ho.sound, fun c hc => ?_⟩
    have hwritten : (chars (List.replicate o.depth '\t') o).written =
        List.replicate o.depth '\t' ++ o.written := by
      rw [chars, List.reverseAux_eq, List.reverse_replicate]
    rw [hwritten] at hc
    cases hdepth : o.depth with
    | zero =>
      rw [hdepth] at hc
      exact (ho.spaced (Bool.eq_false_iff.2 hspace)).head c hc
    | succ n =>
      rw [hdepth] at hc
      obtain rfl := Option.some.inj hc
      decide

/-- The space in front of a word is all that a name needs. -/
theorem spaceBeforeWord_found {o : Out} (ho : o.Open) :
    ∀ c ∈ (spaceBeforeWord o).written.head?, beforeVariable c := by
  intro c hc
  unfold spaceBeforeWord at hc
  split at hc
  · next c' cs hwritten =>
    split at hc
    · obtain rfl : ' ' = c := by simpa [text, chars] using hc
      decide
    · next hpart =>
      obtain rfl : c' = c := by simpa [hwritten] using hc
      have hopens : opens c' := ho.head c' (by rw [hwritten]; rfl)
      rcases Bool.or_eq_true_iff.1 hopens with hbefore | hidentifier
      · exact hbefore
      · exact absurd hidentifier hpart
  · next hwritten =>
    rw [hwritten] at hc
    cases hc

/-! ### Comments and marks -/

theorem leads_mark (s : Span) : Leads Out.Ready (mark s) Out.Ready := by
  intro o ho
  unfold mark
  split
  · exact ho
  · split
    · exact ho
    · exact ⟨ho.sound, fun hspace => ⟨ho.sound, (ho.spaced hspace).head⟩⟩

theorem leads_afterLast (c : Comment) : Leads Out.Sound (afterLast c) Out.Ready := by
  unfold afterLast
  split
  · exact fun o ho => (settles_newline o ho).ready
  · exact fun o ho => ⟨ho, nofun⟩

theorem leads_printComments (cs : List Comment) : Leads Out.Open (printComments cs) Out.Ready := by
  cases cs with
  | nil => exact fun o ho => ho.ready
  | cons c cs =>
    have hmore : Grows (seq (cs.map fun c => seq
        [onlyIf c.afterNewline (seq [newline, indent]), commentText c])) := by
      refine .seq (List.forall_mem_map.2 fun c _ => .seq ?_)
      simp [Grows.commentText]
    refine .ofOpen (.pass (.beforeFirst c) (.pass (.commentText c) (.pass hmore ?_)))
    exact .last (leads_afterLast _)

theorem leads_commentsAt (n : Nat) : Leads Out.Open (commentsAt n) Out.Ready := fun o ho =>
  leads_printComments _ { o with comments := (o.comments.partition (·.owner == n)).2 }
    ⟨ho.sound, ho.head⟩

/-! ### Lines -/

/-- What follows from any state does so behind the start of a line, too. -/
theorem Leads.line {S : Out → Prop} {d : Doc} (h : Leads Out.Sound d S) (s : Span) (c : Ctx) :
    Leads Out.Sound (statementLine s c d) S := by
  unfold statementLine
  split
  · exact .pass (.commentsAt _) (.pass .indent (.last h))
  · exact h

theorem Leads.marked {S : Out → Prop} {d : Doc} (h : Leads Out.Sound d S) (s : Span) :
    Leads Out.Sound (markedLine s d) S := by
  have hmarked := (congruent_grows.branch (b := fun o => 0 < o.depth || o.spaceNext)
    (fun _ => rfl) (congruent_grows.mark s s) congruent_grows.nothing).1
  exact .pass (.commentsAt _) (.pass hmarked (.pass .indent (.last h)))

theorem leads_markedLine {S : Out → Prop} {d : Doc} (h : Leads Out.Open d S) (s : Span) :
    Leads Out.Open (markedLine s d) S := by
  refine .step (leads_commentsAt _) (.step (m := Out.Ready) (fun o ho => ?_)
    (.step leads_indent (.last h)))
  split
  · exact leads_mark s o ho
  · exact ho

/-! ### Steps inside others -/

namespace Leads

variable {pre S : Out → Prop} {d e between : Doc} {ds : List Doc} (hS : Lasting S)

include hS

theorem parens (h : Leads Out.Open d S) : Leads Out.Sound (wrap true d) S := by
  change Leads Out.Sound (seq [text "(", d, text ")"]) S
  exact .step (settles_text "(" (by decide)) (here hS h (by simp))

theorem wrap {b : Bool} (hwrapped : b = true → Leads Out.Open d S)
    (hbare : b = false → Leads pre d S) (hpre : ∀ o, pre o → o.Sound) :
    Leads pre (wrap b d) S := by
  cases b with
  | false => exact hbare rfl
  | true => exact (parens hS (hwrapped rfl)).imp hpre

theorem nested (h : Leads pre d S) (hpre : ∀ o n, pre o → pre { o with depth := n }) :
    Leads pre (nested d) S := fun o ho =>
  hS (o := d { o with depth := o.depth + 1 })
    ⟨List.suffix_refl _, Nat.le_refl _, Or.inl rfl⟩ (h _ (hpre o _ ho))

theorem braces (h : Leads Out.Open d S) : Leads Out.Sound (braces false d) S := by
  change Leads Out.Sound (seq [text "\x7b\n", Printer.nested d, indent, text "\x7d"]) S
  refine .step (settles_text "\x7b\n" (by decide)) (here hS ?_ (by simp))
  exact nested hS h fun _ _ ho => ⟨ho.sound, ho.head⟩

/-- The first of several steps with others in between. -/
theorem separatedFirst (h : Leads pre d S) (hbetween : Grows between) (hds : ∀ e ∈ ds, Grows e) :
    Leads pre (separated between (d :: ds)) S := by
  cases ds with
  | nil => exact h
  | cons e ds => exact here hS h (by simpa using ⟨hbetween, Grows.separated hbetween hds⟩)

/-- Behind what stands between two steps a name is found. -/
theorem separated (hbetween : Settles between) (hgrows : Grows between) (hds : ∀ e ∈ ds, Grows e)
    (hd : d ∈ ds) (h : Leads Out.Open d S) : Leads Out.Open (separated between ds) S := by
  induction ds with
  | nil => exact absurd hd List.not_mem_nil
  | cons e ds ih =>
    obtain ⟨he, hrest⟩ := List.forall_mem_cons.1 hds
    rcases List.mem_cons.1 hd with rfl | hd
    · exact separatedFirst hS h hgrows hrest
    · cases ds with
      | nil => exact absurd hd List.not_mem_nil
      | cons e' ds => exact ofOpen (.pass he (.step hbetween (.last (ih hrest hd))))

/-- A further one of several steps with others in between. -/
theorem separatedNext (hbetween : Settles between) (hgrows : Grows between) (he : Grows e)
    (hds : ∀ e ∈ ds, Grows e) (hd : d ∈ ds) (h : Leads Out.Open d S) :
    Leads Out.Sound (Printer.separated between (e :: ds)) S := by
  cases ds with
  | nil => exact absurd hd List.not_mem_nil
  | cons e' ds => exact .pass he (.step hbetween (.last (separated hS hbetween hgrows hds hd h)))

theorem commas (hds : ∀ e ∈ ds, Grows e) (hd : d ∈ ds) (h : Leads Out.Open d S) :
    Leads Out.Open (commas ds) S :=
  separated hS (settles_text ", " (by decide)) (.text _) hds hd h

/-- One of several steps each of which settles. -/
theorem lines (hds : ∀ e ∈ ds, Grows e ∧ Settles e) (hd : d ∈ ds) (h : Leads Out.Open d S) :
    Leads Out.Open (seq ds) S := by
  induction ds with
  | nil => exact absurd hd List.not_mem_nil
  | cons e ds ih =>
    obtain ⟨he, hrest⟩ := List.forall_mem_cons.1 hds
    rcases List.mem_cons.1 hd with rfl | hd
    · exact here hS h fun e he => (hrest e he).1
    · exact step he.2.ofOpen (ih hrest hd)

end Leads

end CallBridge.Script.Printer
