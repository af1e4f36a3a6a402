import CallBridge.Proofs.Script.Subtree
import CallBridge.Script.Printer.Module
import Mathlib.Data.List.Forall2

/-!
# Steps of printing

Every layout is made of few single steps: characters, indentation, marks, comments, and choices that
go by what printing knows of the text. A relation between steps that these keep (`Congruent`) is
kept by the ways to put steps together: one behind the other (`Congruent.seq`), with others in
between (`Congruent.separated`), in parentheses (`Congruent.wrap`), in braces (`Congruent.braces`).
-/

namespace CallBridge.Script.Printer

open CallBridge.Text (isIdentifierPart)

/-- A sequence of steps is the first one with the others behind it. -/
theorem seq_cons (d : Doc) (ds : List Doc) : seq (d :: ds) = fun o => seq ds (d o) := rfl

/-- What choices go by: all but marks and comments. -/
def Out.known (o : Out) : Out := { o with marks := [], comments := [] }

/-- A step that writes nothing and only notes something about the text. -/
structure Notes (f : Doc) : Prop where
  written : ∀ o, (f o).written = o.written
  size : ∀ o, (f o).size = o.size
  depth : ∀ o, (f o).depth = o.depth
  numberEnd : ∀ o, (f o).numberEnd = o.numberEnd ∨ (f o).numberEnd = some o.size
  comments : ∀ o, (f o).comments = o.comments
  known : ∀ o, (f o).known = f o.known

/-- A relation between steps that holds of single steps, wherever marks and comments stand, and
passes to steps made of others. -/
structure Congruent (R : Doc → Doc → Prop) : Prop where
  nothing : R nothing nothing
  chain : ∀ {d d' e e'}, R d d' → R e e' → R (fun o => e (d o)) (fun o => e' (d' o))
  chars : ∀ cs, R (chars cs) (chars cs)
  indent : R indent indent
  nested : ∀ {d d'}, R d d' → R (nested d) (nested d')
  mark : ∀ s s', R (mark s) (mark s')
  commentsAt : ∀ n n', R (commentsAt n) (commentsAt n')
  note : ∀ {f}, Notes f → R f f
  branch : ∀ {b : Out → Bool} {d d' e e'}, (∀ o, b o = b o.known) → R d d' → R e e' →
    R (fun o => if b o then d o else e o) (fun o => if b o then d' o else e' o)

namespace Congruent

variable {R : Doc → Doc → Prop} (h : Congruent R) {d d' e e' : Doc} {ds ds' : List Doc}

include h

/-- A text is its characters. -/
theorem text (s : String) : R (text s) (text s) := h.chars s.toList

theorem newline : R newline newline := h.text _

/-- Related steps one behind the other are related. -/
theorem seq (hds : List.Forall₂ R ds ds') : R (seq ds) (seq ds') := by
  induction hds with
  | nil => exact h.nothing
  | cons hd _ ih =>
    rw [seq_cons, seq_cons]
    exact h.chain hd ih

theorem pair (hd : R d d') (he : R e e') : R (Printer.seq [d, e]) (Printer.seq [d', e']) :=
  h.seq (.cons hd (.cons he .nil))

/-- A step that may be left out is left out on both sides. -/
theorem onlyIf (b : Bool) (hd : R d d') : R (onlyIf b d) (onlyIf b d') := by
  cases b with
  | false => exact h.nothing
  | true => exact hd

/-- Whether a blank is needed goes by the last character written. -/
theorem spaceBeforeWord : R spaceBeforeWord spaceBeforeWord := by
  have hbranch : Printer.spaceBeforeWord = fun o =>
      if o.written.head?.any isIdentifierPart then Printer.text " " o else Printer.nothing o := by
    funext o
    rw [Printer.spaceBeforeWord]
    cases o.written with
    | nil => rfl
    | cons c cs => rfl
  rw [hbranch]
  exact h.branch (b := fun o => o.written.head?.any isIdentifierPart) (fun _ => rfl) (h.text " ")
    h.nothing

/-- A word keeps away from an identifier in front of it. -/
theorem word (s : String) : R (word s) (word s) := h.pair h.spaceBeforeWord (h.text s)

/-- Parentheses on both sides or on neither. -/
theorem wrap (needed : Bool) (hd : R d d') : R (wrap needed d) (wrap needed d') := by
  cases needed with
  | false => exact hd
  | true => exact h.seq (.cons (h.text _) (.cons hd (.cons (h.text _) .nil)))

/-- Parentheses that depend on what is known of the text. -/
theorem wrapWhen {b : Out → Bool} (hb : ∀ o, b o = b o.known) (hd : R d d') :
    R (fun o => Printer.wrap (b o) d o) (fun o => Printer.wrap (b o) d' o) := by
  have hbranch : ∀ d : Doc, (fun o => Printer.wrap (b o) d o) =
      fun o => if b o then Printer.wrap true d o else d o := by
    intro d
    funext o
    cases b o <;> rfl
  rw [hbranch, hbranch]
  exact h.branch hb (h.wrap true hd) hd

/-- Steps with a separator between any two of them. -/
theorem separated (hbetween : R e e') (hds : List.Forall₂ R ds ds') :
    R (separated e ds) (separated e' ds') := by
  induction hds with
  | nil => exact h.nothing
  | @cons d d' rest rest' hd hrest ih =>
    cases hrest with
    | nil => exact hd
    | cons _ _ => exact h.seq (.cons hd (.cons hbetween (.cons ih .nil)))

theorem commas (hds : List.Forall₂ R ds ds') : R (commas ds) (commas ds') :=
  h.separated (h.text _) hds

/-- An empty body is written on one line, any other one on lines of its own. -/
theorem braces (isEmpty : Bool) (hd : R d d') : R (braces isEmpty d) (braces isEmpty d') := by
  cases isEmpty with
  | true => exact h.text _
  | false =>
    exact h.seq (.cons (h.text _) (.cons (h.nested hd) (.cons h.indent (.cons (h.text _) .nil))))

end Congruent

/-! ### Children -/

/-- Two children that are the same up to spans and are laid out alike. -/
structure Matches (R : Doc → Doc → Prop) (p p' : Part) : Prop where
  bare : p.tree.bare = p'.tree.bare
  within : ∀ c, R (p.within c) (p'.within c)

namespace Matches

variable {R : Doc → Doc → Prop} {p p' : Part} {ps ps' : List Part}

/-- The kind of a node is not in its span. -/
theorem kind_of_bare {t u : Tree} (h : t.bare = u.bare) : t.kind = u.kind := by
  obtain ⟨k, s, cs⟩ := t
  obtain ⟨k', s', cs'⟩ := u
  rw [Tree.bare_node, Tree.bare_node] at h
  exact (Tree.node.inj h).1

/-- Without spans, the children of a node are its children without spans. -/
theorem children_of_bare {t u : Tree} (h : t.bare = u.bare) :
    t.children.map Tree.bare = u.children.map Tree.bare := by
  obtain ⟨k, s, cs⟩ := t
  obtain ⟨k', s', cs'⟩ := u
  rw [Tree.bare_node, Tree.bare_node] at h
  exact (Tree.node.inj h).2.2

/-- Parentheses are the same in trees that are the same up to spans. -/
theorem unparen_of_bare {t u : Tree} (h : t.bare = u.bare) : t.unparen.bare = u.unparen.bare := by
  induction t generalizing u with
  | node k s cs ih =>
    obtain ⟨k', s', cs'⟩ := u
    obtain rfl : k = k' := kind_of_bare h
    have hcs : cs.map Tree.bare = cs'.map Tree.bare := children_of_bare h
    by_cases hparen : ∃ t, k = .paren ∧ cs = [t]
    · obtain ⟨t, rfl, rfl⟩ := hparen
      obtain ⟨u, hu, rfl⟩ : ∃ u, t.bare = u.bare ∧ cs' = [u] := by
        obtain _ | ⟨u, _ | ⟨v, rest⟩⟩ := cs' <;> simp at hcs
        exact ⟨u, hcs, rfl⟩
      rw [Tree.unparen_paren, Tree.unparen_paren]
      exact ih t (List.mem_singleton_self t) hu
    · have hparen' : ∀ u, k = .paren → cs' ≠ [u] := by
        rintro u rfl rfl
        obtain _ | ⟨t, _ | ⟨v, rest⟩⟩ := cs <;> simp at hcs
        exact hparen ⟨t, rfl, rfl⟩
      rwa [Tree.unparen_node fun t hk hc => hparen ⟨t, hk, hc⟩, Tree.unparen_node hparen']

variable (h : Matches R p p')

include h

theorem kind : p.tree.kind = p'.tree.kind := kind_of_bare h.bare

theorem unparen_kind : p.tree.unparen.kind = p'.tree.unparen.kind :=
  kind_of_bare (unparen_of_bare h.bare)

/-- A child is absent on both sides or on neither. -/
theorem isAbsent : p.isAbsent = p'.isAbsent := by
  rw [Part.isAbsent, Part.isAbsent, Tree.isAbsent, Tree.isAbsent, h.kind]

/-- A child that is laid out alike is so at every level. -/
theorem operand (level : Level) : R (p.operand level) (p'.operand level) := h.within _

theorem whole : R p.whole p'.whole := h.within _

omit h

/-- Children one by one, all at the same level. -/
theorem map_operand (h : List.Forall₂ (Matches R) ps ps') (level : Level) :
    List.Forall₂ R (ps.map (·.operand level)) (ps'.map (·.operand level)) := by
  rw [List.forall₂_map_left_iff, List.forall₂_map_right_iff]
  exact h.imp fun _ _ hp => hp.operand level

theorem map_whole (h : List.Forall₂ (Matches R) ps ps') :
    List.Forall₂ R (ps.map (·.whole)) (ps'.map (·.whole)) := map_operand h _

/-- Children one by one, all in the same place. -/
theorem map_within (h : List.Forall₂ (Matches R) ps ps') (c : Ctx) :
    List.Forall₂ R (ps.map (·.within c)) (ps'.map (·.within c)) := by
  rw [List.forall₂_map_left_iff, List.forall₂_map_right_iff]
  exact h.imp fun _ _ hp => hp.within c

end Matches

namespace Congruent

variable {R : Doc → Doc → Prop} (h : Congruent R) {p p' : Part} (hp : Matches R p p')

include h

/-- A child behind a note of where something begins. -/
theorem noted {f d d' : Doc} (hf : Notes f) (hd : R d d') : R (fun o => d (f o)) (fun o => d' (f o)) :=
  h.chain (h.note hf) hd

/-- A statement on a line of its own has its comments in front, wherever they stood. -/
theorem statementLine (s s' : Span) (c : Ctx) {d d' : Doc} (hd : R d d') :
    R (statementLine s c d) (statementLine s' c d') := by
  unfold Printer.statementLine
  split
  · exact h.seq (.cons (h.commentsAt _ _) (.cons h.indent (.cons hd .nil)))
  · exact hd

/-- The head of a loop has no semicolon behind its declaration. -/
theorem endLine (c : Ctx) : R (endLine c) (endLine c) := by
  unfold Printer.endLine
  split
  · exact h.nothing
  · exact h.text _

/-- A line is marked where it is indented, which goes by what is known. -/
theorem markedLine (s s' : Span) {d d' : Doc} (hd : R d d') :
    R (markedLine s d) (markedLine s' d') :=
  have hmarked := h.branch (b := fun o => 0 < o.depth || o.spaceNext) (fun _ => rfl)
    (h.mark s s') h.nothing
  h.seq (.cons (h.commentsAt _ _) (.cons hmarked (.cons h.indent (.cons hd .nil))))

include hp

/-- The body of a loop or branch goes by its kind: a block, nothing, or a line. -/
theorem bodyOf : R (bodyOf p) (bodyOf p') := by
  have hnext : Notes fun o => { o with spaceNext := true } := by
    constructor <;> intro o <;> simp [Out.known]
  unfold Printer.bodyOf
  rw [hp.kind]
  split
  · exact h.seq (.cons (h.text _) (.cons (hp.within _) (.cons h.newline .nil)))
  · exact h.text _
  · exact h.noted hnext (hp.within _)

theorem blockOf : R (blockOf p) (blockOf p') := h.pair (h.text _) (hp.within _)

/-- A part of a loop that is absent leaves no blank. -/
theorem spaced : R (spaced p) (spaced p') := by
  unfold Printer.spaced
  rw [hp.isAbsent]
  exact h.onlyIf _ (h.pair (h.text _) hp.whole)

end Congruent

end CallBridge.Script.Printer
