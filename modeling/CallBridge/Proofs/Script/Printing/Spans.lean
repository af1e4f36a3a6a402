import CallBridge.Proofs.Script.Printing.Layouts

/-!
# The printed text and the spans

Spans decide where marks are set and which comments are printed, and nothing else. So the text of a
tree without comments is that of any tree that is equal to it up to spans (`print_text_of_bare`).
-/

namespace CallBridge.Script

namespace Printer

/-- What has been written is the same, and there are no comments left. -/
structure Same (o o' : Out) : Prop where
  known : o.known = o'.known
  comments : o.comments = []
  comments' : o'.comments = []

/-- Steps that go on alike where what has been written is the same. -/
def Alike (d d' : Doc) : Prop := ∀ o o', Same o o' → Same (d o) (d' o')

/-- A step that goes by what is known, changes it alone and takes no comments goes on alike. -/
theorem Alike.of_known {d : Doc} (hknown : ∀ o, (d o).known = d o.known)
    (hcomments : ∀ o, (d o).comments = o.comments) : Alike d d := by
  intro o o' h
  refine ⟨?_, by rw [hcomments, h.comments], by rw [hcomments, h.comments']⟩
  rw [hknown, hknown, h.known]

theorem known_mark (s : Span) (o : Out) :
    (mark s o).known = o.known ∧ (mark s o).comments = o.comments := by
  unfold mark
  split
  · exact ⟨rfl, rfl⟩
  · split <;> exact ⟨rfl, rfl⟩

theorem commentsAt_of_comments_eq_nil (n : Nat) {o : Out} (h : o.comments = []) :
    commentsAt n o = o := by
  obtain ⟨written, size, depth, spaceNext, statementStart, arrowStart, defaultStart, numberEnd,
    lastUnary, marks, comments⟩ := o
  obtain rfl : comments = [] := h
  rfl

theorem congruent_alike : Congruent Alike where
  nothing := fun _ _ h => h
  chain := fun hd he _ _ h => he _ _ (hd _ _ h)
  chars := fun _ => .of_known (fun _ => rfl) fun _ => rfl
  indent := by
    refine .of_known (fun o => ?_) fun o => ?_
    · unfold indent Out.known
      simp only
      split <;> rfl
    · unfold indent
      split <;> rfl
  nested := by
    intro d d' hd o o' h
    have hdeeper : Same { o with depth := o.depth + 1 } { o' with depth := o'.depth + 1 } :=
      ⟨congrArg (fun o : Out => { o with depth := o.depth + 1 }) h.known, h.comments, h.comments'⟩
    have hd := hd _ _ hdeeper
    exact ⟨congrArg (fun o : Out => { o with depth := o.depth - 1 }) hd.known, hd.comments,
      hd.comments'⟩
  mark := by
    intro s s' o o' h
    obtain ⟨hknown, hcomments⟩ := known_mark s o
    obtain ⟨hknown', hcomments'⟩ := known_mark s' o'
    exact ⟨by rw [hknown, hknown', h.known], by rw [hcomments, h.comments],
      by rw [hcomments', h.comments']⟩
  commentsAt := by
    intro n n' o o' h
    rwa [commentsAt_of_comments_eq_nil n h.comments, commentsAt_of_comments_eq_nil n' h.comments']
  note := fun hf => .of_known hf.known hf.comments
  branch := by
    intro b d d' e e' hb hd he o o' h
    have hbranch : b o = b o' := by rw [hb o, hb o', h.known]
    simp only [hbranch]
    split
    · exact hd _ _ h
    · exact he _ _ h

end Printer

/-- The text of a tree without comments does not depend on spans. -/
theorem Tree.print_text_of_bare {t u : Tree} (h : t.bare = u.bare) :
    (t.print []).text = (u.print []).text := by
  have hsame := Printer.congruent_alike.fold h .statement (.start []) (.start []) ⟨rfl, rfl, rfl⟩
  have hwritten := congrArg Printer.Out.written hsame.known
  exact congrArg (fun cs => String.ofList (List.reverse cs)) hwritten

end CallBridge.Script
