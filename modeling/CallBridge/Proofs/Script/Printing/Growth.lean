import CallBridge.Proofs.Script.Printing.Layouts

/-!
# The written text grows

No step of printing takes anything back: what has been written stays, in front of whatever is
written later. Main statement: so it is for the layout of every tree (`grows_fold`).
-/

namespace CallBridge.Script.Printer

/-- A number that a point would be read as part of ends in what has been written. -/
def Out.Sound (o : Out) : Prop := ∀ n ∈ o.numberEnd, n ≤ o.size

/-- What has been written is still there. -/
structure Out.Grown (o o' : Out) : Prop where
  written : o.written <:+ o'.written
  size : o.size ≤ o'.size
  numberEnd : o'.numberEnd = o.numberEnd ∨ ∃ n ≤ o'.size, o'.numberEnd = some n

namespace Out.Grown

variable {o o' o'' : Out}

theorem refl (o : Out) : o.Grown o := ⟨List.suffix_refl _, Nat.le_refl _, Or.inl rfl⟩

/-- Growth upon growth. The last number noted counts, be it an old one or a new one. -/
theorem trans (h : o.Grown o') (h' : o'.Grown o'') : o.Grown o'' where
  written := h.written.trans h'.written
  size := Nat.le_trans h.size h'.size
  numberEnd := by
    rcases h'.numberEnd with hsame | hnew
    · rcases h.numberEnd with hsame' | ⟨n, hn, hend⟩
      · exact Or.inl (hsame.trans hsame')
      · exact Or.inr ⟨n, Nat.le_trans hn h'.size, hsame.trans hend⟩
    · exact Or.inr hnew

/-- A number that ended in the text before still does. -/
theorem sound (h : o.Grown o') (ho : o.Sound) : o'.Sound := by
  intro n hn
  rcases h.numberEnd with hsame | ⟨m, hm, hend⟩
  · rw [hsame] at hn
    exact Nat.le_trans (ho n hn) h.size
  · rw [hend] at hn
    obtain rfl := Option.some.inj hn
    exact hm

end Out.Grown

/-- A step that takes nothing back. -/
def Grows (d : Doc) : Prop := ∀ o : Out, o.Grown (d o)

namespace Grows

variable {d e : Doc} {ds : List Doc}

/-- Writing nothing is growth by nothing. -/
theorem nothing : Grows nothing := Out.Grown.refl

/-- One step after the other. -/
theorem chain (hd : Grows d) (he : Grows e) : Grows fun o => e (d o) :=
  fun o => (hd o).trans (he (d o))

/-- Characters are put in front of those written, as the text is kept in reverse. -/
theorem chars (cs : List Char) : Grows (chars cs) := fun o =>
  ⟨by rw [Printer.chars, List.reverseAux_eq]; exact List.suffix_append _ _, Nat.le_add_right _ _,
    Or.inl rfl⟩

theorem text (s : String) : Grows (text s) := chars s.toList

/-- A note changes no character. -/
theorem note (hd : Notes d) : Grows d := fun o =>
  ⟨(hd.written o).symm ▸ List.suffix_refl _, Nat.le_of_eq (hd.size o).symm,
    (hd.numberEnd o).imp_right fun h => ⟨o.size, Nat.le_of_eq (hd.size o).symm, h⟩⟩

/-- Steps that take nothing back make a sequence that does not. -/
theorem seq (h : ∀ d ∈ ds, Grows d) : Grows (seq ds) := by
  induction ds with
  | nil => exact nothing
  | cons d ds ih =>
    rw [seq_cons]
    exact (h d (List.mem_cons_self ..)).chain (ih fun e he => h e (List.mem_cons_of_mem _ he))

/-- A choice takes nothing back, whichever way it goes. -/
theorem ite {b : Out → Bool} (hd : Grows d) (he : Grows e) :
    Grows fun o => if b o then d o else e o := by
  intro o
  dsimp only
  split
  · exact hd o
  · exact he o

theorem onlyIf (b : Bool) (hd : Grows d) : Grows (onlyIf b d) := by
  cases b with
  | false => exact nothing
  | true => exact hd

/-- An indentation is tabs, or one blank where a body stands behind its head. -/
theorem indent : Grows indent := by
  have hspace : Notes fun o => { o with spaceNext := false } := by
    constructor <;> intro o <;> simp [Out.known]
  intro o
  unfold Printer.indent
  split
  · exact (note hspace).chain (text " ") o
  · exact chars _ o

/-- What is written deeper is written all the same. -/
theorem nested (hd : Grows d) : Grows (nested d) := fun o =>
  have h := hd { o with depth := o.depth + 1 }
  ⟨h.written, h.size, h.numberEnd⟩

/-- A mark may be left out where there is one already; it is no character either way. -/
theorem mark (s : Span) : Grows (mark s) := by
  intro o
  unfold Printer.mark
  split
  · exact .refl o
  · split
    · exact .refl o
    · exact ⟨List.suffix_refl _, Nat.le_refl _, Or.inl rfl⟩

/-! ### Comments -/

/-- A comment is written line by line. -/
theorem commentText (c : Comment) : Grows (commentText c) := by
  unfold Printer.commentText
  split
  · exact chars _
  · exact chars _
  · split
    · exact nothing
    · refine seq (List.forall_mem_cons.2 ⟨chars _, List.forall_mem_map.2 fun l _ => ?_⟩)
      exact seq (by simpa using ⟨text _, indent, chars _⟩)

theorem beforeFirst (c : Comment) : Grows (beforeFirst c) := by
  intro o
  unfold Printer.beforeFirst
  split
  · split
    · exact indent o
    · exact .refl o
    · exact .refl o
    · exact seq (by simpa using ⟨text _, indent⟩) o
  · exact indent o

theorem afterLast (c : Comment) : Grows (afterLast c) := by
  have hspace : Notes fun o => { o with spaceNext := true } := by
    constructor <;> intro o <;> simp [Out.known]
  unfold Printer.afterLast
  split
  · exact text _
  · exact note hspace

/-- Comments in front of a place, with breaks as they were. -/
theorem printComments (cs : List Comment) : Grows (printComments cs) := by
  cases cs with
  | nil => exact nothing
  | cons c cs =>
    have hmore : Grows (Printer.seq (cs.map fun c => Printer.seq
        [Printer.onlyIf c.afterNewline (Printer.seq [newline, Printer.indent]),
          Printer.commentText c])) := by
      refine seq (List.forall_mem_map.2 fun c _ => seq ?_)
      simpa using ⟨onlyIf _ (seq (by simpa using ⟨text _, indent⟩)), commentText c⟩
    exact seq (by simpa using ⟨beforeFirst c, commentText c, hmore, afterLast _⟩)

/-- The comments of a place are taken out of those that wait. -/
theorem commentsAt (n : Nat) : Grows (commentsAt n) := by
  intro o
  have h := printComments (o.comments.partition (·.owner == n)).1
    { o with comments := (o.comments.partition (·.owner == n)).2 }
  exact ⟨h.written, h.size, h.numberEnd⟩

end Grows

/-- No step takes anything back, so no two related ones do. -/
theorem congruent_grows : Congruent fun d d' => Grows d ∧ Grows d' where
  nothing := ⟨.nothing, .nothing⟩
  chain := fun hd he => ⟨hd.1.chain he.1, hd.2.chain he.2⟩
  chars := fun cs => ⟨.chars cs, .chars cs⟩
  indent := ⟨.indent, .indent⟩
  nested := fun hd => ⟨hd.1.nested, hd.2.nested⟩
  mark := fun s s' => ⟨.mark s, .mark s'⟩
  commentsAt := fun n n' => ⟨.commentsAt n, .commentsAt n'⟩
  note := fun hf => ⟨.note hf, .note hf⟩
  branch := fun _ hd he => ⟨.ite hd.1 he.1, .ite hd.2 he.2⟩

/-- The layout of a tree takes nothing back. -/
theorem grows_fold (t : Tree) (c : Ctx) : Grows (t.fold layout c) :=
  (congruent_grows.fold (t := t) rfl c).1

end CallBridge.Script.Printer
