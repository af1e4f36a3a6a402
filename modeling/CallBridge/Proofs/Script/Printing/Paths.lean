import CallBridge.Proofs.Marker.Spelled
import CallBridge.Proofs.Script.Phrases
import CallBridge.Proofs.Script.Printing.Found.Calls
import CallBridge.Replacement.Build

/-!
# Calls of dotted names

The path of a dotted name is printed without a gap: its variable, and each member behind a point. So
a call of it is printed as the name and a parenthesis, and where no points are in front of it, it is
counted (`found_of_path`).
-/

namespace CallBridge.Script.Printer

open CallBridge.Marker (beforeVariable)

variable {name : List Char} {o : Out} {t : Tree} {s : Span} {c : Ctx}

/-- A name has been written last, and it is found there. -/
structure Named (name : List Char) (o : Out) : Prop where
  written : ∃ before, o.written = name.reverse ++ before ∧ ∀ c ∈ before.head?, beforeVariable c
  sound : ∀ n ∈ o.numberEnd, n < o.size

/-- A call of a name has been written where it is counted. -/
def Counted (name : List Char) (o : Out) : Prop :=
  ∃ later before, o.written = later ++ '(' :: (name.reverse ++ before) ∧
    ∀ c ∈ before.head?, beforeVariable c

theorem lasting_counted (name : List Char) : Lasting (Counted name) := by
  rintro o o' hgrown ⟨later, before, hwritten, hbefore⟩
  obtain ⟨more, hmore⟩ := hgrown.written
  exact ⟨more ++ later, before, by rw [← hmore, hwritten, List.append_assoc], hbefore⟩

/-- A call that is counted has a count in the text. -/
theorem Counted.pos (h : Counted name o) {names : List (List Char)} (hname : name ∈ names) :
    0 < Marker.countCalls names beforeVariable o.written.reverse := by
  obtain ⟨later, before, hwritten, hbefore⟩ := h
  have htext : o.written.reverse = before.reverse ++ (name ++ '(' :: later.reverse) := by
    simp [hwritten]
  rw [htext]
  refine Marker.countCalls_pos hname fun c hc => hbefore c ?_
  rwa [List.getLast?_reverse] at hc

/-! ### Paths -/

theorem mark_keeps (s : Span) (o : Out) :
    (mark s o).written = o.written ∧ (mark s o).size = o.size ∧
      (mark s o).numberEnd = o.numberEnd := by
  unfold mark
  split
  · exact ⟨rfl, rfl, rfl⟩
  · split <;> exact ⟨rfl, rfl, rfl⟩

theorem written_text (s : String) (o : Out) :
    (text s o).written = s.toList.reverse ++ o.written := List.reverseAux_eq

/-- A variable is printed behind a space where it would run into a word. -/
theorem leads_reference {first : String} (hfirst : first.toList ≠ []) :
    Leads Out.Open (reference first s c) (Named first.toList) := by
  intro o ho
  have hfound := spaceBeforeWord_found ho
  have hsound : (spaceBeforeWord o).Sound := Leads.grown .spaceBeforeWord o ho.sound
  have hmark := mark_keeps s (spaceBeforeWord o)
  change Named first.toList (text first (mark s (spaceBeforeWord o)))
  generalize spaceBeforeWord o = o₁ at hfound hsound hmark
  generalize mark s o₁ = o₂ at hmark
  obtain ⟨hwritten, hsize, hend⟩ := hmark
  refine ⟨⟨o₁.written, by rw [written_text, hwritten], hfound⟩, fun n hn => ?_⟩
  have hle : n ≤ o₁.size := hsound n (hend ▸ hn)
  have hpos : 0 < first.toList.length := List.length_pos_iff.2 hfirst
  change n < o₂.size + first.toList.length
  omega

/-- Behind a name, the point of a member stands by itself. -/
theorem point_of_sound (h : ∀ n ∈ o.numberEnd, n < o.size) : point false o = text "." o := by
  have hend : (o.numberEnd == some o.size) = false := by
    rw [beq_eq_false_iff_ne]
    exact fun hend => Nat.lt_irrefl _ (h o.size hend)
  simp [point, hend]

theorem leads_namedMember {m : String} (h : ∀ c, Leads Out.Open ((part t).within c) (Named name)) :
    Leads Out.Open (member (part t) m false c) (Named (name ++ '.' :: m.toList)) := by
  intro o ho
  obtain ⟨⟨before, hwritten, hbefore⟩, hsound⟩ := h (c.keepCall Level.postfixed) o ho
  change Named _ (text m (point false ((part t).within (c.keepCall Level.postfixed) o)))
  rw [point_of_sound hsound]
  refine ⟨⟨before, ?_, hbefore⟩, fun n hn => ?_⟩
  · rw [written_text, written_text, hwritten]
    simp
  · exact Nat.lt_of_lt_of_le (hsound n hn) (Nat.le_add_right_of_le (Nat.le_add_right _ _))

theorem leads_path {first : String} (hfirst : first.toList ≠ []) (members : List String) (c : Ctx) :
    Leads Out.Open
      ((part (Replacement.pathNode (.node (.reference first) s []) members)).within c)
      (Named (pathText first members)) := by
  have hmembers (t : Tree) (name : List Char)
      (h : ∀ c, Leads Out.Open ((part t).within c) (Named name)) (c : Ctx) :
      Leads Out.Open ((part (Replacement.pathNode t members)).within c)
        (Named (name ++ members.flatMap fun m => '.' :: m.toList)) := by
    induction members generalizing t name c with
    | nil => simpa [Replacement.pathNode] using h c
    | cons m members ih =>
      rw [List.flatMap_cons, ← List.append_assoc]
      refine ih (Replacement.bare (.member m false) [t]) _ (fun c => ?_) c
      rw [Replacement.bare, within_part]
      exact leads_namedMember h
  refine hmembers _ _ (fun c => ?_) c
  rw [within_part]
  exact leads_reference (c := c) hfirst

/-- A call of a dotted name is counted where it has no points in front of it. -/
theorem found_of_path {first : String} (hfirst : first.toList ≠ []) (members : List String)
    (s s' : Span) (ts : List Tree) :
    Found (Counted (pathText first members)) (.node (.call false) s
      (Replacement.pathNode (.node (.reference first) s' []) members :: ts)) := by
  intro c
  have hS := lasting_counted (pathText first members)
  have hopening : Leads (Named (pathText first members)) (text "(")
      (Counted (pathText first members)) := by
    rintro o ⟨⟨before, hwritten, hbefore⟩, -⟩
    exact ⟨[], before, by rw [written_text, hwritten]; rfl, hbefore⟩
  have hcall : Leads Out.Open (seq [(part (Replacement.pathNode (.node (.reference first) s' [])
      members)).operand Level.postfixed, onlyIf false (text "?."), arguments (ts.map part)])
      (Counted (pathText first members)) := by
    refine .step (leads_path hfirst members _) (.step (m := Named (pathText first members))
      (fun o ho => ho) (.last ?_))
    exact .here hS hopening (by simp)
  rw [within_part]
  exact .wrap hS (fun _ => hcall) (fun _ => hcall) fun _ ho => ho.sound

theorem open_start (comments : List Comment) : (Out.start comments).Open := ⟨nofun, nofun⟩

/-- A visible call of a dotted name is counted in the text of a tree. -/
theorem countCalls_print_pos {x : Tree} (hx : Found (Counted name) x) (ht : WellShaped t)
    (hmem : x ∈ visible t none) (comments : List Comment) {names : List (List Char)}
    (hname : name ∈ names) :
    0 < Marker.countCalls names beforeVariable (t.print comments).text.toList := by
  have hfound : Found (Counted name) t :=
    found_iff.1 (foundAt_of_visible (lasting_counted name) hx ht hmem)
  have hcounted : Counted name ((part t).within .statement (.start comments)) :=
    hfound .statement _ (open_start comments)
  rw [Tree.print, String.toList_ofList]
  exact hcounted.pos hname

end CallBridge.Script.Printer
