import CallBridge.Proofs.Source.Mappings
import CallBridge.Source.Location
import Mathlib.Data.List.DropRight

/-!
# Where an offset stands

A text in front of an offset is cut into the lines that end in it and the start of another one
(`exists_inLines`). Its location counts these lines and the units of that start, and the lines of
the whole source begin with the same ones. Main statement: on a boundary between characters a
location is exact, grows with the offset, and names the text in front of it (`locationOf_isFront`).
-/

namespace CallBridge.Source

open CallBridge.Collection CallBridge.Text

/-- The text in front of a byte offset that stands on a boundary between characters; an offset
behind the end counts as the end. -/
structure IsFront (source : List Char) (offset : Nat) (front : List Char) : Prop where
  begins : front <+: source
  bytes_eq : bytes front = min offset (bytes source)

/-- A text as full lines with their line feeds and the start of one more line. -/
structure InLines (text : List Char) (full : List (List Char)) (start : List Char) : Prop where
  text_eq : text = full.flatMap (· ++ ['\n']) ++ start
  full_lines : ∀ line ∈ full, '\n' ∉ line
  start_line : '\n' ∉ start

variable {source front front' start : List Char} {offset offset' : Nat} {full : List (List Char)}

/-! ### Lines of a front -/

theorem exists_inLines (text : List Char) : ∃ full start, InLines text full start := by
  induction text with
  | nil => exact ⟨[], [], rfl, fun _ h => absurd h List.not_mem_nil, List.not_mem_nil⟩
  | cons c text ih =>
    obtain ⟨full, start, rfl, hfull, hstart⟩ := ih
    by_cases hc : c = '\n'
    · subst hc
      exact ⟨[] :: full, start, rfl, List.forall_mem_cons.2 ⟨List.not_mem_nil, hfull⟩, hstart⟩
    · have hcons {line : List Char} (h : '\n' ∉ line) : '\n' ∉ c :: line :=
        List.not_mem_cons_of_ne_of_not_mem (Ne.symm hc) h
      cases full with
      | nil => exact ⟨[], c :: start, rfl, hfull, hcons hstart⟩
      | cons line full =>
        obtain ⟨hline, hfull⟩ := List.forall_mem_cons.1 hfull
        exact ⟨(c :: line) :: full, start, rfl, List.forall_mem_cons.2 ⟨hcons hline, hfull⟩, hstart⟩

namespace InLines

/-- Each full line has one line feed, and there are no others. -/
theorem count_eq (h : InLines front full start) : front.count '\n' = full.length := by
  obtain ⟨rfl, hfull, hstart⟩ := h
  rw [List.count_append, List.count_eq_zero.2 hstart, Nat.add_zero]
  induction full with
  | nil => rfl
  | cons line full ih =>
    obtain ⟨hline, hfull⟩ := List.forall_mem_cons.1 hfull
    rw [List.flatMap_cons, List.count_append, List.count_append, List.count_eq_zero.2 hline,
      ih hfull, List.count_singleton_self, List.length_cons, Nat.zero_add, Nat.add_comm]

/-- The start of the last line is what stands behind the last line feed. -/
theorem rtakeWhile_eq (h : InLines front full start) : front.rtakeWhile (· != '\n') = start := by
  obtain ⟨rfl, -, hstart⟩ := h
  have hfits : ∀ c ∈ start.reverse, (c != '\n') = true := fun c hc =>
    bne_iff_ne.2 fun heq => hstart (heq ▸ List.mem_reverse.1 hc)
  have hstops : Stops (· != '\n') (full.flatMap (· ++ ['\n'])).reverse := by
    rcases List.eq_nil_or_concat full with rfl | ⟨lines, line, rfl⟩
    · exact stops_nil
    · rw [List.concat_eq_append, List.flatMap_append, List.flatMap_singleton, ← List.append_assoc,
        List.reverse_concat]
      exact stops_cons.2 rfl
  rw [List.rtakeWhile, List.reverse_append, takeWhile_append_stops hfits hstops,
    List.reverse_reverse]

/-- The lines of a source are those that are full in a front of it and the lines of the rest. -/
theorem linesOf_append (h : InLines front full start) (rest : List Char) :
    ∃ more others, linesOf (front ++ rest) = full ++ (start ++ more) :: others := by
  obtain ⟨rfl, hfull, hstart⟩ := h
  induction full with
  | nil =>
    obtain ⟨more, others, hrest⟩ := List.exists_cons_of_ne_nil (List.splitOn_ne_nil '\n' rest)
    exact ⟨more, others, splitOn_append (fun c hc heq => hstart (heq ▸ hc :)) hrest⟩
  | cons line full ih =>
    obtain ⟨hline, hfull⟩ := List.forall_mem_cons.1 hfull
    obtain ⟨more, others, hlines⟩ := ih hfull
    refine ⟨more, others, ?_⟩
    rw [linesOf, List.flatMap_cons, List.append_assoc, List.append_assoc, List.append_assoc,
      List.singleton_append, List.splitOn_append_cons_self_of_not_mem hline, ← List.append_assoc,
      ← linesOf, hlines, List.cons_append]

end InLines

/-! ### Locations of a front -/

theorem unitsOf_pos (c : Char) : 0 < unitsOf c := by
  unfold unitsOf
  split <;> decide

theorem before_iff {a b : Location} :
    a.before b ↔ a.line < b.line ∨ a.line = b.line ∧ a.column < b.column := by
  simp [Location.before]

theorem foldl_after_line (l : Location) {cs : List Char} (h : '\n' ∉ cs) :
    cs.foldl Location.after l = ⟨l.line, l.column + units cs⟩ := by
  induction cs generalizing l with
  | nil => rfl
  | cons c cs ih =>
    obtain ⟨hc, hcs⟩ := List.ne_and_not_mem_of_not_mem_cons h
    rw [List.foldl_cons, ih _ hcs, Location.after, if_neg (Ne.symm hc), units_cons, Nat.add_assoc]

/-- Full lines lead from the start of a line to the start of a later one. -/
theorem foldl_after_lines (n : Nat) (h : ∀ line ∈ full, '\n' ∉ line) :
    (full.flatMap (· ++ ['\n'])).foldl Location.after ⟨n, 0⟩ = ⟨n + full.length, 0⟩ := by
  induction full generalizing n with
  | nil => rfl
  | cons line full ih =>
    obtain ⟨hline, hfull⟩ := List.forall_mem_cons.1 h
    rw [List.flatMap_cons, List.foldl_append, List.foldl_append, foldl_after_line _ hline,
      List.foldl_cons, List.foldl_nil, Location.after, if_pos rfl, ih _ hfull, List.length_cons,
      Nat.add_assoc, Nat.add_comm 1]

theorem InLines.foldl_after (h : InLines front full start) :
    front.foldl Location.after .origin = ⟨1 + full.length, units start⟩ := by
  obtain ⟨rfl, hfull, hstart⟩ := h
  rw [List.foldl_append, Location.origin, foldl_after_lines 1 hfull, foldl_after_line _ hstart,
    Nat.zero_add]

/-- Every character leads further. -/
theorem before_foldl_after (l : Location) (c : Char) (cs : List Char) :
    l.before ((c :: cs).foldl Location.after l) := by
  have hstep (l : Location) (c : Char) : l.before (l.after c) := by
    rw [before_iff, Location.after]
    split
    · exact Or.inl (Nat.lt_succ_self _)
    · exact Or.inr ⟨rfl, Nat.lt_add_of_pos_right (unitsOf_pos c)⟩
  induction cs generalizing l c with
  | nil => exact hstep l c
  | cons d cs ih =>
    have hhere := before_iff.1 (hstep l c)
    have hlater := before_iff.1 (ih (l.after c) d)
    rw [List.foldl_cons, before_iff]
    omega

/-! ### Boundaries -/

theorem bytes_eq_zero_iff {cs : List Char} : bytes cs = 0 ↔ cs = [] := by
  cases cs with
  | nil => exact iff_of_true rfl rfl
  | cons c cs =>
    have hpos : 0 < c.utf8Size := c.utf8Size_pos
    refine iff_of_false ?_ (List.cons_ne_nil _ _)
    rw [bytes_cons]
    omega

theorem locateFrom_of_le (l : Location) {cs : List Char} (h : bytes cs ≤ offset) :
    locateFrom l cs offset = cs.foldl Location.after l := by
  induction cs generalizing l offset with
  | nil => rfl
  | cons c cs ih =>
    have hpos : 0 < c.utf8Size := c.utf8Size_pos
    rw [bytes_cons] at h
    rw [locateFrom, if_neg (by omega), if_neg (by omega), ih _ (by omega), List.foldl_cons]

theorem IsFront.locationOf_eq (h : IsFront source offset front) :
    locationOf source offset = front.foldl Location.after .origin := by
  obtain ⟨⟨rest, rfl⟩, hbytes⟩ := h
  rw [bytes_append] at hbytes
  rcases Nat.le_total offset (bytes front + bytes rest) with hle | hge
  · obtain rfl : offset = bytes front := by omega
    exact locationOf_append front rest
  · -- behind the end, the front is the whole source
    obtain rfl : rest = [] := bytes_eq_zero_iff.1 (by omega)
    rw [List.append_nil]
    exact locateFrom_of_le _ (by omega)

/-- Of two fronts of a source, one with at least as many bytes goes on behind the other. -/
theorem IsFront.append_of_le (h : IsFront source offset front) (h' : IsFront source offset' front')
    (hle : bytes front ≤ bytes front') : ∃ more, front' = front ++ more := by
  rcases List.prefix_or_prefix_of_prefix h.begins h'.begins with ⟨more, heq⟩ | ⟨more, rfl⟩
  · exact ⟨more, heq.symm⟩
  · rw [bytes_append] at hle
    obtain rfl : more = [] := bytes_eq_zero_iff.1 (by omega)
    exact ⟨[], by rw [List.append_nil, List.append_nil]⟩

theorem IsFront.before (h : IsFront source offset front) (h' : IsFront source offset' front')
    (hlt : bytes front < bytes front') :
    (locationOf source offset).before (locationOf source offset') := by
  rw [h.locationOf_eq, h'.locationOf_eq]
  obtain ⟨more, rfl⟩ := h.append_of_le h' (Nat.le_of_lt hlt)
  rw [List.foldl_append]
  cases more with
  | nil => exact absurd hlt (by rw [List.append_nil]; exact Nat.lt_irrefl _)
  | cons c more => exact before_foldl_after _ c more

/-- No two fronts of a source have the same location. -/
theorem IsFront.eq_of_locationOf_eq (h : IsFront source offset front)
    (h' : IsFront source offset' front')
    (heq : locationOf source offset = locationOf source offset') : front = front' := by
  have hirreflexive (l : Location) : ¬ l.before l := by simp [before_iff]
  rcases Nat.lt_trichotomy (bytes front) (bytes front') with hlt | hsame | hgt
  · exact absurd (heq ▸ h.before h' hlt) (hirreflexive _)
  · obtain ⟨more, rfl⟩ := h.append_of_le h' (Nat.le_of_eq hsame)
    rw [bytes_append] at hsame
    obtain rfl : more = [] := bytes_eq_zero_iff.1 (by omega)
    exact (List.append_nil _).symm
  · exact absurd (heq ▸ h'.before h hgt) (hirreflexive _)

/-! ### The text in front of a location -/

theorem mem_of_mem_linesOf {line : List Char} {c : Char} (hline : line ∈ linesOf source)
    (hc : c ∈ line) : c ∈ source := by
  induction source generalizing line with
  | nil =>
    obtain rfl : line = [] := by simpa [linesOf] using hline
    exact hc
  | cons x source ih =>
    rw [linesOf, List.splitOn_cons_eq_if_modifyHead] at hline
    split at hline
    · rcases List.mem_cons.1 hline with rfl | hline
      · exact absurd hc List.not_mem_nil
      · exact List.mem_cons_of_mem _ (ih hline hc)
    · obtain ⟨first, others, hlines⟩ :=
        List.exists_cons_of_ne_nil (List.splitOn_ne_nil '\n' source)
      rw [linesOf, hlines] at ih
      rw [hlines, List.modifyHead_cons] at hline
      rcases List.mem_cons.1 hline with rfl | hline
      · exact List.mem_cons.2 ((List.mem_cons.1 hc).imp_right (ih (List.mem_cons_self ..)))
      · exact List.mem_cons_of_mem _ (ih (List.mem_cons_of_mem _ hline) hc)

/-- Where there are no carriage returns, the text of a line is the line. -/
theorem lineText_eq (hreturns : '\r' ∉ source) {n : Nat} {line : List Char}
    (h : (linesOf source)[n - 1]? = some line) : lineText source n = line := by
  have hstops : Stops (· == '\r') line.reverse := fun c hc => by
    refine beq_eq_false_iff_ne.2 ?_
    rintro rfl
    exact hreturns (mem_of_mem_linesOf (List.mem_of_getElem? h)
      (List.mem_reverse.1 (List.mem_of_mem_head? hc)))
  rw [lineText, h, Option.getD_some, dropWhile_of_stops hstops, List.reverse_reverse]

/-- The full lines of a front are the first lines of the source, and the start of one more is where
the next line starts. -/
theorem InLines.lineText_eq (h : InLines front full start) {rest : List Char}
    (hreturns : '\r' ∉ front ++ rest) :
    (List.range' 1 full.length).map (lineText (front ++ rest)) = full ∧
      start <+: lineText (front ++ rest) (1 + full.length) := by
  obtain ⟨more, others, hlines⟩ := h.linesOf_append rest
  constructor
  · refine List.ext_getElem (by simp) fun i hi hi' => ?_
    rw [List.getElem_map, List.getElem_range']
    refine Source.lineText_eq hreturns ?_
    rw [hlines, Nat.one_mul, Nat.add_sub_cancel_left, List.getElem?_append_left hi',
      List.getElem?_eq_getElem hi']
  · have hline : lineText (front ++ rest) (1 + full.length) = start ++ more := by
      refine Source.lineText_eq hreturns ?_
      rw [hlines]
      simp
    rw [hline]
    exact List.prefix_append start more

/-- On a boundary between characters, a location counts the line feeds in front and the units behind
the last of them; it grows with the offset; and without carriage returns the text in front is the
lines before that of the location, each with a line feed, and as much of this line as its column
says. -/
theorem locationOf_isFront (h : IsFront source offset front) :
    (locationOf source offset).line = 1 + front.count '\n' ∧
    (locationOf source offset).column = units (front.rtakeWhile (· != '\n')) ∧
    (∀ offset' front', IsFront source offset' front' →
      (bytes front < bytes front' →
        (locationOf source offset).before (locationOf source offset')) ∧
      (locationOf source offset = locationOf source offset' → front = front')) ∧
    ('\r' ∉ source → ∃ start,
      start <+: lineText source (locationOf source offset).line ∧
      units start = (locationOf source offset).column ∧
      front = ((List.range' 1 ((locationOf source offset).line - 1)).flatMap fun n =>
        lineText source n ++ ['\n']) ++ start) := by
  obtain ⟨full, start, hfull⟩ := exists_inLines front
  have hlocation : locationOf source offset = ⟨1 + full.length, units start⟩ :=
    h.locationOf_eq.trans hfull.foldl_after
  refine ⟨?_, ?_, fun offset' front' h' => ⟨h.before h', h.eq_of_locationOf_eq h'⟩,
    fun hreturns => ?_⟩
  · rw [hlocation, hfull.count_eq]
  · rw [hlocation, hfull.rtakeWhile_eq]
  · obtain ⟨rest, rfl⟩ := h.begins
    obtain ⟨hlines, hstart⟩ := hfull.lineText_eq hreturns
    rw [hlocation, Nat.add_sub_cancel_left]
    refine ⟨start, hstart, rfl, ?_⟩
    rw [← List.flatMap_map (lineText (front ++ rest)) (· ++ ['\n']), hlines]
    exact hfull.text_eq

/-- Behind a character of two units, on the second line. -/
theorem locationOf_isFront_pair :
    IsFront "é\n😀x".toList 7 "é\n😀".toList ∧ IsFront "é\n😀x".toList 100 "é\n😀x".toList ∧
      locationOf "é\n😀x".toList 7 = ⟨2, 2⟩ ∧
      (locationOf "é\n😀x".toList 7).before (locationOf "é\n😀x".toList 100) ∧
      ∃ start, start <+: lineText "é\n😀x".toList 2 ∧ units start = 2 ∧
        "é\n😀".toList = lineText "é\n😀x".toList 1 ++ ['\n'] ++ start := by
  have hfront : IsFront "é\n😀x".toList 7 "é\n😀".toList := ⟨⟨['x'], rfl⟩, by decide +kernel⟩
  have hend : IsFront "é\n😀x".toList 100 "é\n😀x".toList :=
    ⟨List.prefix_refl _, by decide +kernel⟩
  obtain ⟨-, -, hgrows, htext⟩ := locationOf_isFront hfront
  have hlocation : locationOf "é\n😀x".toList 7 = ⟨2, 2⟩ := by decide +kernel
  refine ⟨hfront, hend, hlocation, (hgrows 100 _ hend).1 (by decide +kernel), ?_⟩
  obtain ⟨start, hstart, hunits, heq⟩ := htext (by decide)
  rw [hlocation] at hstart hunits heq
  exact ⟨start, hstart, hunits, heq⟩

end CallBridge.Source
