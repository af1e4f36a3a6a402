import CallBridge.Proofs.Collection.Span
import CallBridge.Proofs.Source.Differences

/-!
# Mappings back to tokens

What the mappings of a list of tokens are read as. The fields of one token give it back as far as a
map keeps it (`readFields?_writeFields`), whatever was read before as long as reader and writer count
from the same values (`Cursor.Agrees`). From that, token by token: a map holds the tokens in their
order, as often as they were given. Main statement: `readMappings?_writeMappings`.
-/

namespace CallBridge.Source

open CallBridge.Collection

variable {c c' : Cursor} {t : NamedToken} {segment text : List Char}

/-! ### One token -/

/-- A token as far as a map keeps it: one that does not point into the source has no place there
and no name. -/
def NamedToken.kept (t : NamedToken) : NamedToken :=
  if t.token.mapped then t else ⟨⟨t.token.line, t.token.column, 0, 0, false⟩, none⟩

/-- Two cursors from which differences are counted alike. -/
structure Cursor.Agrees (c c' : Cursor) : Prop where
  column : c.column = c'.column
  sourceLine : c.sourceLine = c'.sourceLine
  sourceColumn : c.sourceColumn = c'.sourceColumn
  name : c.name = c'.name

/-- Behind a token the reader counts from what the writer counts from. -/
theorem Cursor.Agrees.past (h : c.Agrees c') (t : NamedToken) : (c.past t).Agrees (c'.past t.kept) := by
  obtain ⟨⟨line, column, sourceLine, sourceColumn, mapped⟩, name⟩ := t
  cases mapped with
  | false => exact ⟨rfl, h.sourceLine, h.sourceColumn, h.name⟩
  | true => exact ⟨rfl, rfl, rfl, congrArg name.getD h.name⟩

theorem Cursor.Agrees.startLine (h : c.Agrees c') (line : Nat) :
    Cursor.Agrees { c with column := 0 } { c' with line := line, column := 0 } :=
  ⟨rfl, h.sourceLine, h.sourceColumn, h.name⟩

/-- The line is no difference: lines are counted by their ends. -/
theorem Cursor.Agrees.onLine (h : c.Agrees c') (line : Nat) :
    c.Agrees { c' with line := line } :=
  ⟨h.column, h.sourceLine, h.sourceColumn, h.name⟩

theorem moved_difference (a b : Nat) : moved a ((b : Int) - a) = b := by
  rw [moved]
  omega

/-- The token that a segment stands for. -/
def readFields? (c : Cursor) (segment : List Char) : Option NamedToken :=
  (readDifferences? 0 1 segment).bind (readToken? c)

theorem readDifferences?_difference (a b : Nat) (rest : List Char) :
    readDifferences? 0 1 (difference a b ++ rest) =
      (readDifferences? 0 1 rest).map (((a : Int) - b) :: ·) :=
  readDifferences?_writeDifference _ rest

theorem readDifferences?_last (a b : Nat) :
    readDifferences? 0 1 (difference a b) = some [(a : Int) - b] := by
  rw [← List.append_nil (difference a b), readDifferences?_difference]
  rfl

theorem writeDifference_zero : writeDifference 0 = ['A'] := by
  rw [writeDifference, base64Digits]
  rfl

theorem readDifferences?_sameSource (rest : List Char) :
    readDifferences? 0 1 ('A' :: rest) = (readDifferences? 0 1 rest).map (0 :: ·) := by
  rw [← readDifferences?_writeDifference, writeDifference_zero, List.singleton_append]

/-- The fields of a token are read as the token. -/
theorem readFields?_writeFields (h : c.Agrees c') (hline : c'.line = t.token.line) :
    readFields? c' (writeFields c t) = some t.kept := by
  obtain ⟨⟨line, column, sourceLine, sourceColumn, mapped⟩, name⟩ := t
  cases mapped with
  | false =>
    simp only [readFields?, writeFields, Bool.false_eq_true, ↓reduceIte, List.append_nil,
      readDifferences?_last, Option.bind_some, readToken?, h.column, moved_difference, hline,
      NamedToken.kept]
  | true =>
    cases name with
    | none =>
      simp only [readFields?, writeFields, ↓reduceIte, Option.elim_none, List.cons_append,
        List.append_nil, readDifferences?_difference, readDifferences?_sameSource,
        readDifferences?_last, Option.map_some, Option.bind_some, readToken?, h.column,
        h.sourceLine, h.sourceColumn, moved_difference, hline, NamedToken.kept]
    | some n =>
      simp only [readFields?, writeFields, ↓reduceIte, Option.elim_some, List.append_assoc,
        List.cons_append, readDifferences?_difference, readDifferences?_sameSource,
        readDifferences?_last, Option.map_some, Option.bind_some, readToken?, h.column,
        h.sourceLine, h.sourceColumn, h.name, moved_difference, hline, NamedToken.kept]

theorem ne_of_mem_writeFields (c : Cursor) (t : NamedToken) :
    ∀ ch ∈ writeFields c t, ch ≠ ';' ∧ ch ≠ ',' := by
  have hdifference : ∀ a b, ∀ ch ∈ difference a b, ch ≠ ';' ∧ ch ≠ ',' :=
    fun a b => ne_of_mem_writeDifference _
  have hname : ∀ ch ∈ t.name.elim [] fun n => difference n c.name, ch ≠ ';' ∧ ch ≠ ',' := by
    cases t.name with
    | none => exact fun ch h => absurd h List.not_mem_nil
    | some n => exact hdifference n c.name
  unfold writeFields
  refine List.forall_mem_append.2 ⟨hdifference _ _, ?_⟩
  split
  · refine List.forall_mem_append.2 ⟨List.forall_mem_append.2 ⟨?_, hdifference _ _⟩, hname⟩
    exact List.forall_mem_cons.2 ⟨by decide, hdifference _ _⟩
  · exact fun ch h => absurd h List.not_mem_nil

theorem writeFields_ne_nil (c : Cursor) (t : NamedToken) : writeFields c t ≠ [] :=
  List.append_ne_nil_of_left_ne_nil (writeDifference_ne_nil _) _

/-! ### The rest of a line -/

/-- The segments of the rest of a line of which a token has been read. -/
def laterSegments (line : List Char) : List (List Char) :=
  if line.isEmpty then [] else (line.drop 1).splitOn ','

/-- The tokens of the rest of a text of which a token of the line has been read. -/
def readBehind? (c : Cursor) (text : List Char) : Option (List NamedToken) :=
  match text.splitOn ';' with
  | [] => none
  | line :: lines => do
    let (ts, c) ← readSegments? c (laterSegments line)
    let more ← readLines? { c with line := c.line + 1 } lines
    return ts ++ more

/-- A text that may stand behind a token: nothing, or a separator first. -/
def EndsToken (text : List Char) : Prop := Stops (fun ch => ch != ';' && ch != ',') text

theorem splitOn_append {sep : Char} {xs : List Char} (h : ∀ x ∈ xs, x ≠ sep) {ys y : List Char}
    {more : List (List Char)} (hys : ys.splitOn sep = y :: more) :
    (xs ++ ys).splitOn sep = (xs ++ y) :: more := by
  induction xs with
  | nil => exact hys
  | cons x xs ih =>
    obtain ⟨hx, hxs⟩ := List.forall_mem_cons.1 h
    rw [List.cons_append, List.splitOn_cons_eq_if_modifyHead, beq_false_of_ne hx, ih hxs]
    rfl

/-- The rest of a line behind a token is empty or begins with a comma. -/
theorem exists_splitOn (h : EndsToken text) : ∃ line lines, text.splitOn ';' = line :: lines ∧
    (line = [] ∨ ∃ tail, line = ',' :: tail) := by
  cases text with
  | nil => exact ⟨[], [], rfl, Or.inl rfl⟩
  | cons ch text =>
    have hch : (ch != ';' && ch != ',') = false := h ch rfl
    rw [List.splitOn_cons_eq_if_modifyHead]
    by_cases hsemicolon : ch = ';'
    · exact ⟨[], text.splitOn ';', by simp [hsemicolon], Or.inl rfl⟩
    · have hcomma : ch = ',' := by simpa [hsemicolon] using hch
      obtain ⟨line, lines, hlines⟩ := List.exists_cons_of_ne_nil (List.splitOn_ne_nil ';' text)
      exact ⟨',' :: line, lines, by simp [hcomma, hlines], Or.inr ⟨line, rfl⟩⟩

/-- A line that begins with a segment splits into the segment and the later ones. -/
theorem splitOn_segment (hsegment : ∀ ch ∈ segment, ch ≠ ';' ∧ ch ≠ ',') {line : List Char}
    (hline : line = [] ∨ ∃ tail, line = ',' :: tail) :
    (segment ++ line).splitOn ',' = segment :: laterSegments line := by
  have hcomma : ',' ∉ segment := fun h => (hsegment ',' h).2 rfl
  rcases hline with rfl | ⟨tail, rfl⟩
  · rw [List.append_nil, List.splitOn_eq_singleton hcomma]
    rfl
  · rw [List.splitOn_append_cons_self_of_not_mem hcomma]
    rfl

theorem readSegments?_cons (h : readFields? c segment = some t) (rest : List (List Char)) :
    readSegments? c (segment :: rest) =
      (readSegments? (c.past t) rest).map fun (ts, c) => (t :: ts, c) := by
  obtain ⟨ds, hds, ht⟩ := Option.bind_eq_some_iff.1 h
  simp only [readSegments?, hds, ht, Option.bind_eq_bind, Option.bind_some, Option.pure_def]
  cases readSegments? (c.past t) rest <;> rfl

/-! ### Token by token -/

/-- Behind a token a comma continues the line. -/
theorem readBehind?_segment (h : readFields? c segment = some t)
    (hsegment : ∀ ch ∈ segment, ch ≠ ';' ∧ ch ≠ ',') (htext : EndsToken text) :
    readBehind? c (',' :: segment ++ text) = (readBehind? (c.past t) text).map (t :: ·) := by
  obtain ⟨line, lines, hlines, hline⟩ := exists_splitOn htext
  have hnone : ∀ ch ∈ ',' :: segment, ch ≠ ';' :=
    List.forall_mem_cons.2 ⟨by decide, fun ch hch => (hsegment ch hch).1⟩
  have hlater : laterSegments (',' :: segment ++ line) = segment :: laterSegments line := by
    rw [laterSegments, List.cons_append, List.drop_one, List.tail_cons, splitOn_segment hsegment hline]
    rfl
  simp only [readBehind?, splitOn_append hnone hlines, hlater, readSegments?_cons h, hlines]
  cases readSegments? (c.past t) (laterSegments line) with
  | none => rfl
  | some found =>
    simp only [Option.map_some, Option.bind_eq_bind, Option.bind_some, Option.pure_def]
    cases readLines? _ lines <;> rfl

/-- The first token of a line. -/
theorem readLines?_segment (h : readFields? { c with column := 0 } segment = some t)
    (hsegment : ∀ ch ∈ segment, ch ≠ ';' ∧ ch ≠ ',') (hne : segment ≠ []) (htext : EndsToken text) :
    readLines? c ((segment ++ text).splitOn ';') = (readBehind? (c.past t) text).map (t :: ·) := by
  obtain ⟨line, lines, hlines, hline⟩ := exists_splitOn htext
  have hpast : Cursor.past { c with column := 0 } t = c.past t := rfl
  have hempty : (segment ++ line).isEmpty = false := by
    rw [List.isEmpty_eq_false_iff]
    exact List.append_ne_nil_of_left_ne_nil hne line
  simp only [readBehind?, splitOn_append (fun ch hch => (hsegment ch hch).1) hlines, readLines?,
    hempty, Bool.false_eq_true, ↓reduceIte, splitOn_segment hsegment hline, readSegments?_cons h,
    hpast, hlines]
  cases readSegments? (c.past t) (laterSegments line) with
  | none => rfl
  | some found =>
    simp only [Option.map_some, Option.bind_eq_bind, Option.bind_some, Option.pure_def]
    cases readLines? _ lines <;> rfl

theorem splitOn_semicolon (text : List Char) :
    (';' :: text).splitOn ';' = [] :: text.splitOn ';' := by
  rw [List.splitOn_cons_eq_if_modifyHead]
  rfl

/-- Behind a token a semicolon ends the line. -/
theorem readBehind?_semicolon (c : Cursor) (text : List Char) :
    readBehind? c (';' :: text) = readLines? { c with line := c.line + 1 } (text.splitOn ';') := by
  simp only [readBehind?, splitOn_semicolon, laterSegments, List.isEmpty_nil, ↓reduceIte,
    readSegments?, Option.bind_eq_bind, Option.bind_some, Option.pure_def, List.nil_append,
    Option.bind_fun_some]

/-- Every line starts at column zero. -/
theorem readLines?_column (c : Cursor) (lines : List (List Char)) (column : Nat) :
    readLines? { c with column := column } lines = readLines? c lines := by
  cases lines <;> rfl

theorem readLines?_semicolon (c : Cursor) (text : List Char) :
    readLines? c ((';' :: text).splitOn ';') =
      readLines? { c with line := c.line + 1 } (text.splitOn ';') := by
  simp only [splitOn_semicolon, readLines?, List.isEmpty_nil, ↓reduceIte, readSegments?,
    Option.bind_eq_bind, Option.bind_some, Option.pure_def, List.nil_append, Option.bind_fun_some]
  exact readLines?_column { c with line := c.line + 1 } _ 0

/-- Further semicolons are empty lines. -/
theorem readLines?_semicolons (c : Cursor) (n : Nat) (text : List Char) :
    readLines? c ((List.replicate n ';' ++ text).splitOn ';') =
      readLines? { c with line := c.line + n } (text.splitOn ';') := by
  induction n generalizing c with
  | zero => rfl
  | succ n ih =>
    rw [List.replicate_succ, List.cons_append, readLines?_semicolon, ih]
    simp only [Nat.add_assoc, Nat.add_comm 1 n]

/-! ### Mappings -/

section Written

variable {ts : List NamedToken}

theorem writeMappings_newLine (h : c.line < t.token.line) :
    writeMappings c (t :: ts) = List.replicate (t.token.line - c.line) ';' ++
      writeFields { c with column := 0 } t ++ writeMappings (c.past t) ts := by
  rw [writeMappings]
  exact if_pos (Nat.sub_pos_of_lt h)

theorem writeMappings_sameLine (h : t.token.line ≤ c.line) :
    writeMappings c (t :: ts) = (if c.started then [','] else []) ++ writeFields c t ++
      writeMappings (c.past t) ts := by
  rw [writeMappings]
  exact if_neg (by omega)

end Written

/-- Behind a token, what is written begins with a separator. -/
theorem endsToken_writeMappings (ts : List NamedToken) (h : c.started) :
    EndsToken (writeMappings c ts) := by
  cases ts with
  | nil => exact stops_nil
  | cons t ts =>
    rcases Nat.lt_or_ge c.line t.token.line with hlater | hsame
    · obtain ⟨n, hn⟩ := Nat.exists_eq_succ_of_ne_zero (Nat.sub_ne_zero_of_lt hlater)
      rw [writeMappings_newLine hlater, hn]
      exact stops_cons.2 rfl
    · rw [writeMappings_sameLine hsame, if_pos h]
      exact stops_cons.2 rfl

/-- The first token of a line stands behind as many semicolons as lines end. -/
theorem readLines?_writeMappings {n : Nat} (ts : List NamedToken) (h : c.Agrees c')
    (hline : c'.line + n = t.token.line) :
    readLines? c' ((List.replicate n ';' ++ writeFields { c with column := 0 } t ++
      writeMappings (c.past t) ts).splitOn ';') =
        (readBehind? (Cursor.past { c' with line := t.token.line } t.kept)
          (writeMappings (c.past t) ts)).map (t.kept :: ·) := by
  rw [List.append_assoc, readLines?_semicolons, hline]
  exact readLines?_segment (readFields?_writeFields (h.startLine t.token.line) rfl)
    (ne_of_mem_writeFields _ t) (writeFields_ne_nil _ t) (endsToken_writeMappings ts rfl)

theorem NamedToken.kept_line (t : NamedToken) : t.kept.token.line = t.token.line := by
  unfold NamedToken.kept
  split <;> rfl

/-- Behind a token, the tokens that are read are the ones that were written. -/
theorem readBehind?_writeMappings {ts : List NamedToken} (h : c.Agrees c') (hstarted : c.started)
    (hline : c'.line = c.line) (hlater : ∀ t ∈ ts, c.line ≤ t.token.line)
    (hordered : ts.Pairwise fun a b => a.token.line ≤ b.token.line) :
    readBehind? c' (writeMappings c ts) = some (ts.map NamedToken.kept) := by
  induction ts generalizing c c' with
  | nil => rfl
  | cons t ts ih =>
    obtain ⟨hle, -⟩ := List.forall_mem_cons.1 hlater
    obtain ⟨hbehind, hrest⟩ := List.pairwise_cons.1 hordered
    -- Behind this token both count alike again, so the rest is read by induction.
    have hpast {c₁ : Cursor} (h₁ : c.Agrees c₁) (hline₁ : c₁.line = t.token.line) :
        readBehind? (c₁.past t.kept) (writeMappings (c.past t) ts) =
          some (ts.map NamedToken.kept) :=
      ih (h₁.past t) rfl t.kept_line hbehind hrest
    rcases Nat.lt_or_ge c.line t.token.line with hlt | hge
    · obtain ⟨n, hn⟩ := Nat.exists_eq_succ_of_ne_zero (Nat.sub_ne_zero_of_lt hlt)
      have hlines : c'.line + 1 + n = t.token.line := by omega
      have hread := readLines?_writeMappings ts (h.onLine (c'.line + 1)) hlines
      rw [writeMappings_newLine hlt, hn, List.replicate_succ, List.cons_append, List.cons_append,
        readBehind?_semicolon, hread]
      exact congrArg _ (hpast (h.onLine t.token.line) rfl)
    · have hsame : c'.line = t.token.line := by omega
      have hread := readBehind?_segment (readFields?_writeFields h hsame)
        (ne_of_mem_writeFields c t) (endsToken_writeMappings ts (rfl : (c.past t).started))
      rw [writeMappings_sameLine hge, if_pos hstarted, List.singleton_append, hread]
      exact congrArg _ (hpast h hsame)

/-- The mappings of tokens in the order of their lines are read as the tokens. -/
theorem readMappings?_writeMappings {ts : List NamedToken}
    (hordered : ts.Pairwise fun a b => a.token.line ≤ b.token.line) :
    readMappings? (writeMappings .start ts) = some (ts.map NamedToken.kept) := by
  cases ts with
  | nil => rfl
  | cons t ts =>
    have hagrees : Cursor.Agrees .start .start := ⟨rfl, rfl, rfl, rfl⟩
    have htext : writeMappings .start (t :: ts) = List.replicate t.token.line ';' ++
        writeFields { Cursor.start with column := 0 } t ++ writeMappings (Cursor.start.past t) ts := by
      rcases Nat.eq_zero_or_pos t.token.line with hzero | hpos
      · rw [writeMappings_sameLine (Nat.le_of_eq hzero), hzero]
        rfl
      · exact writeMappings_newLine hpos
    obtain ⟨hbehind, hrest⟩ := List.pairwise_cons.1 hordered
    rw [readMappings?, htext, readLines?_writeMappings ts hagrees (Nat.zero_add _),
      readBehind?_writeMappings ((hagrees.onLine t.token.line).past t) rfl t.kept_line hbehind hrest]
    rfl

end CallBridge.Source
