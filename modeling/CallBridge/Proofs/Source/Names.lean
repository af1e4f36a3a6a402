import CallBridge.Proofs.Collection.Distinct
import CallBridge.Proofs.Json.Fields
import CallBridge.Proofs.Json.Reading
import CallBridge.Proofs.Source.Mappings

/-!
# What a source map carries

The text of a map is read as the map (`SourceMap.ofText?_render`). Its tokens stand where they were
given, and a token has a name exactly where an entry was recorded at its place of the source; the
first such entry gives the name (`carries_kept`). The table of names lists every entry's name once, in
the order of their first recording (`pairwise_distinct`). Main statement: `SourceMap.carries_tokens`.
-/

namespace CallBridge.Source

open CallBridge.Collection CallBridge.Json CallBridge.Text

/-! ### The text of a map -/

/-- The fields of a map in the order they are written. -/
def SourceMap.fields (m : SourceMap) : List (String × Value) :=
  [("version", .nat 3), ("file", .string m.file), ("names", .array (m.names.map .string)),
    ("sources", .array [.string m.file]), ("sourcesContent", .array [.string m.source]),
    ("mappings", .string (String.ofList m.mappings))]

theorem writeItems_strings (xs : List String) :
    writeItems (xs.map .string) = xs.map fun s => quoteJson s.toList := by
  induction xs with
  | nil => rfl
  | cons x xs ih => rw [List.map_cons, writeItems, ih]; rfl

theorem write_strings (xs : List String) : (Value.array (xs.map .string)).write = writeStrings xs := by
  rw [Value.write, writeItems_strings]
  rfl

theorem SourceMap.render_eq (m : SourceMap) : m.render = (Value.object m.fields).render := by
  have hone : ∀ s, (Value.array [.string s]).write = writeStrings [s] := fun s => write_strings [s]
  have hstring : ∀ s, (Value.string s).write = quoteJson s.toList := fun _ => rfl
  have hobject : ∀ fields, (Value.object fields).write =
      '\x7b' :: withCommas (Json.writeFields fields) ++ ['\x7d'] := fun _ => rfl
  refine congrArg String.ofList ?_
  simp only [SourceMap.fields, hobject, Json.writeFields, withCommas, write_strings, hone, hstring,
    String.toList_ofList, List.append_assoc, List.cons_append]
  rfl

theorem SourceMap.integral_fields (m : SourceMap) : IntegralFields m.fields :=
  ⟨⟨3, rfl, by decide, by decide⟩, trivial, integralItems_strings m.names, ⟨trivial, trivial⟩,
    ⟨trivial, trivial⟩, trivial, trivial⟩

theorem itemsWithin_strings (depth : Nat) (xs : List String) :
    Document.itemsWithin depth (Document.ofItems (xs.map .string)) = some (xs.map .string) := by
  induction xs with
  | nil => rfl
  | cons x xs ih =>
    rw [List.map_cons, Document.ofItems, Document.itemsWithin, ih]
    rfl

theorem mapM_string? (xs : List String) : (xs.map Value.string).mapM Value.string? = some xs := by
  induction xs with
  | nil => rfl
  | cons x xs ih =>
    rw [List.map_cons, List.mapM_cons, ih]
    rfl

theorem SourceMap.readValue?_render (m : SourceMap) :
    readValue? m.render = some (.object (Fields.ofList m.fields)) := by
  have hvalue : (Document.ofValue (.object m.fields)).value? =
      some (.object (Fields.ofList m.fields)) := by
    simp only [SourceMap.fields, Document.value?, Document.ofValue, Document.ofFields, maxDepth,
      Document.valueWithin, Document.fieldsWithin, itemsWithin_strings, Option.map_some]
    rfl
  rw [m.render_eq, Json.readValue?_render (.object m.fields) m.integral_fields, hvalue]

/-- The text of a map is read as the map. -/
theorem SourceMap.ofText?_render (m : SourceMap) : SourceMap.ofText? m.render = some m := by
  have hkeys : (m.fields.map Prod.fst).Nodup := by
    have hnodup : ["version", "file", "names", "sources", "sourcesContent", "mappings"].Nodup := by
      decide
    exact hnodup
  have hfile : Fields.get? "file" m.fields = some (.string m.file) := rfl
  have hnames : Fields.get? "names" m.fields = some (.array (m.names.map .string)) := rfl
  have hsource : Fields.get? "sourcesContent" m.fields = some (.array [.string m.source]) := rfl
  have hmappings : Fields.get? "mappings" m.fields = some (.string (String.ofList m.mappings)) := rfl
  have hone : [Value.string m.source].mapM Value.string? = some [m.source] := rfl
  simp only [SourceMap.ofText?, m.readValue?_render, Value.get?, Fields.get?_ofList hkeys, hfile,
    hnames, hsource, hmappings, hone, mapM_string?, Value.array?, Value.string?,
    Option.bind_eq_bind, Option.bind_some, Option.pure_def, String.toList_ofList]

/-! ### The table of names -/

theorem mem_nameTable {entries : List Mapping} {name : String} :
    name ∈ nameTable entries ↔ ∃ e ∈ entries, e.name = name := by
  rw [nameTable, mem_distinct, List.mem_map]

/-! ### The names of tokens -/

/-- Whether an entry was recorded at the place of the source that a token points to. -/
def StartsAt (e : Mapping) (t : Token) : Prop := e.origin = ⟨t.sourceLine + 1, t.sourceColumn⟩

/-- An entry is the first one that was recorded at the place of a token. -/
def FirstAt (entries : List Mapping) (t : Token) (e : Mapping) : Prop :=
  ∃ before behind, entries = before ++ e :: behind ∧ StartsAt e t ∧ ∀ e' ∈ before, ¬ StartsAt e' t

/-- What a token that is read from a map says of the token that was given: where it stands, whether
it points into the source and where, and its name. -/
structure Carries (entries : List Mapping) (names : List String) (t : Token) (read : NamedToken) :
    Prop where
  line : read.token.line = t.line
  column : read.token.column = t.column
  mapped : read.token.mapped = t.mapped
  sourceLine : t.mapped → read.token.sourceLine = t.sourceLine
  sourceColumn : t.mapped → read.token.sourceColumn = t.sourceColumn
  named : read.name.isSome ↔ t.mapped ∧ ∃ e ∈ entries, StartsAt e t
  first : ∀ i ∈ read.name, ∃ e, FirstAt entries t e ∧ names[i]? = some e.name

variable {entries : List Mapping} {t : Token}

theorem startsAt_iff {e : Mapping} : StartsAt e t ↔
    (e.origin.line == t.sourceLine + 1 && e.origin.column == t.sourceColumn) = true := by
  rw [Bool.and_eq_true, beq_iff_eq, beq_iff_eq, StartsAt, Location.mk.injEq]

/-- The name of a token is that of the first entry recorded where it starts. -/
theorem nameOf?_eq_some {name : String} (h : nameOf? entries t = some name) :
    t.mapped ∧ ∃ e, FirstAt entries t e ∧ e.name = name := by
  unfold nameOf? at h
  split at h
  · next hmapped =>
    obtain ⟨e, hfind, rfl⟩ := Option.map_eq_some_iff.1 h
    obtain ⟨hstarts, before, behind, hentries, hbefore⟩ := List.find?_eq_some_iff_append.1 hfind
    refine ⟨hmapped, e, ⟨before, behind, hentries, startsAt_iff.2 hstarts, fun e' he' h => ?_⟩, rfl⟩
    have hnot := hbefore e' he'
    rw [startsAt_iff.1 h] at hnot
    cases hnot
  · cases h

theorem isSome_nameOf? : (nameOf? entries t).isSome ↔ t.mapped ∧ ∃ e ∈ entries, StartsAt e t := by
  unfold nameOf?
  split
  · next hmapped => simp only [Option.isSome_map, List.find?_isSome, hmapped, true_and, startsAt_iff]
  · next hmapped => simp [hmapped]

/-- The index of a name leads to the name. -/
theorem getElem?_of_idxOf? {names : List String} {name : String} {i : Nat}
    (h : names.idxOf? name = some i) : names[i]? = some name := by
  obtain ⟨hi, hname, -⟩ := List.idxOf?_eq_some_iff.1 h
  rw [List.getElem?_eq_getElem hi, hname]

/-- The name of a token is in the table. -/
theorem isSome_nameToken (entries : List Mapping) (t : Token) :
    (nameToken entries t).name.isSome = (nameOf? entries t).isSome := by
  rw [nameToken]
  cases hname : nameOf? entries t with
  | none => rfl
  | some name =>
    obtain ⟨-, e, ⟨before, behind, hentries, -⟩, hen⟩ := nameOf?_eq_some hname
    have he : e ∈ entries := hentries ▸ List.mem_append_right _ (List.mem_cons_self ..)
    exact List.isSome_idxOf?.2 (mem_nameTable.2 ⟨e, he, hen⟩)

theorem kept_of_unmapped {t : NamedToken} (h : t.token.mapped = false) :
    t.kept = ⟨⟨t.token.line, t.token.column, 0, 0, false⟩, none⟩ :=
  if_neg (Bool.eq_false_iff.1 h)

/-- What a map keeps of a token carries the token. -/
theorem carries_kept (entries : List Mapping) (t : Token) :
    Carries entries (nameTable entries) t (nameToken entries t).kept := by
  cases hmapped : t.mapped with
  | false =>
    rw [kept_of_unmapped hmapped]
    exact ⟨rfl, rfl, hmapped.symm, by simp [hmapped], by simp [hmapped], by simp [hmapped],
      fun i hi => by cases hi⟩
  | true =>
    have hkept : (nameToken entries t).kept = nameToken entries t := if_pos hmapped
    rw [hkept]
    refine ⟨rfl, rfl, rfl, fun _ => rfl, fun _ => rfl, ?_, fun i hi => ?_⟩
    · rw [isSome_nameToken, isSome_nameOf?]
    · obtain ⟨name, hname, hi⟩ := Option.bind_eq_some_iff.1 hi
      obtain ⟨-, e, hfirst, rfl⟩ := nameOf?_eq_some hname
      exact ⟨e, hfirst, getElem?_of_idxOf? hi⟩

/-! ### Maps of tokens -/

variable {tokens : List Token}

theorem isOrdered_of_pairwise (h : tokens.Pairwise fun a b => a.line ≤ b.line) :
    isOrdered tokens = true := by
  induction tokens with
  | nil => rfl
  | cons a rest ih =>
    obtain ⟨ha, hrest⟩ := List.pairwise_cons.1 h
    cases rest with
    | nil => rfl
    | cons b rest =>
      have hhead : decide (a.line ≤ b.line) = true := decide_eq_true (ha b (List.mem_cons_self ..))
      have hall : isOrdered (a :: b :: rest) =
          (decide (a.line ≤ b.line) && isOrdered (b :: rest)) := rfl
      rw [hall, hhead, ih hrest]
      rfl

/-- A map can be written and read, and it carries the tokens in their order, with the names of the
entries recorded where they start. -/
theorem SourceMap.carries_tokens (file source : String)
    (hentries : ∀ e ∈ entries, 1 ≤ e.origin.line)
    (htokens : tokens.Pairwise fun a b =>
      a.line < b.line ∨ a.line = b.line ∧ a.column ≤ b.column) :
    ∃ (m : SourceMap) (read : List NamedToken),
      SourceMap.build entries tokens file source = .ok m ∧
      SourceMap.ofText? m.render = some m ∧ m.file = file ∧ m.source = source ∧
      readMappings? m.mappings = some read ∧
      List.Forall₂ (Carries entries m.names) tokens read ∧
      (∀ name, name ∈ m.names ↔ ∃ e ∈ entries, e.name = name) ∧
      m.names.Pairwise fun a b =>
        (entries.map (·.name)).idxOf a < (entries.map (·.name)).idxOf b := by
  have hlines : tokens.Pairwise fun a b => a.line ≤ b.line :=
    htokens.imp fun h => by omega
  have hline : (entries.any fun e => e.origin.line == 0) = false := by
    refine List.any_eq_false.2 fun e he => ?_
    have hpos := hentries e he
    rw [beq_iff_eq]
    omega
  have hnamed : (tokens.map (nameToken entries)).Pairwise fun a b => a.token.line ≤ b.token.line :=
    List.pairwise_map.2 hlines
  refine ⟨⟨file, nameTable entries, source, writeMappings .start (tokens.map (nameToken entries))⟩,
    (tokens.map (nameToken entries)).map NamedToken.kept, ?_, SourceMap.ofText?_render _, rfl, rfl,
    readMappings?_writeMappings hnamed, ?_, fun _ => mem_nameTable, pairwise_distinct _⟩
  · rw [SourceMap.build, hline, isOrdered_of_pairwise hlines]
    rfl
  · rw [List.map_map, List.forall₂_map_right_iff, List.forall₂_same]
    exact fun t _ => carries_kept entries t

/-- Two entries at the start of a source. -/
def startEntries : List Mapping := [⟨⟨1, 0⟩, ⟨1, 0⟩, "a->b"⟩, ⟨⟨1, 0⟩, ⟨1, 0⟩, "c->d"⟩]

/-- A token at the start of a source, the same again, and one that points nowhere. -/
def startTokens : List Token := [⟨0, 0, 0, 0, true⟩, ⟨0, 0, 0, 0, true⟩, ⟨2, 4, 0, 0, false⟩]

theorem SourceMap.carries_tokens_start : ∃ m read,
    SourceMap.build startEntries startTokens "a.js" "a;" = .ok m ∧
      readMappings? m.mappings = some read ∧
      List.Forall₂ (Carries startEntries m.names) startTokens read := by
  obtain ⟨m, read, hbuild, -, -, -, hread, hcarries, -⟩ :=
    SourceMap.carries_tokens "a.js" "a;" (show ∀ e ∈ startEntries, 1 ≤ e.origin.line by decide)
      (show startTokens.Pairwise fun a b =>
        a.line < b.line ∨ a.line = b.line ∧ a.column ≤ b.column by decide)
  exact ⟨m, read, hbuild, hread, hcarries⟩

end CallBridge.Source
