import CallBridge.Proofs.Script.Enclosure.Statements

/-!
# Placements in files

In every file that can be read, `await` stands only in async functions and at the top level, and
`yield` only in generators. Main statement: the tree of a file fits the top level
(`fits_of_parseScript`).
-/

namespace CallBridge.Script

/-- Two steps succeed one after the other. -/
theorem exists_of_bind_ok {α β ε : Type} {x : Except ε α} {f : α → Except ε β} {b : β}
    (h : x >>= f = .ok b) : ∃ a, x = .ok a ∧ f a = .ok b := by
  cases x with
  | ok a => exact ⟨a, rfl, h⟩
  | error e => cases h

namespace Parser

variable {ctx : Context} {r : Rules}

/-- A name or a text, as a file is asked for it. -/
theorem Quiet.moduleName : Quiet moduleName := by
  refine Quiet.current.bind fun t => ?_
  split
  · exact Quiet.advance.bind fun _ => .pure _
  · exact Quiet.advance.bind fun _ => .pure _
  · exact .unexpected

theorem Quiet.sourceText : Quiet sourceText := by
  refine Quiet.current.bind fun t => ?_
  split
  · exact Quiet.advance.bind fun _ => .pure _
  · exact .unexpected

/-! ### Imports -/

/-- An imported name is a leaf. -/
theorem gives_importItem : Gives ctx ctx.Holds importItem := by
  unfold importItem
  refine .skip .here fun start => .skip .current fun t => .skip .moduleName fun imported => ?_
  refine .skip .eatWord fun _ => .ite (fun _ => ?_) fun _ => ?_
  · exact .skip .variableName fun name => .leaf rfl
  split
  · refine .read ?_
    extract_lets node
    have hnode (u : Unit) : Gives ctx ctx.Holds (node u) := .leaf rfl
    exact .ite (fun _ => hnode ()) fun _ => .skip .fail hnode
  · exact .failExpected

theorem gives_importRest : Gives ctx ctx.HoldsAll importRest := by
  unfold importRest
  refine .skip .here fun start => .skip .eatMark fun _ => .ite (fun _ => ?_) fun _ => ?_
  · refine .skip .expectWord fun _ => .skip .variableName fun name => .map (.finish fun _ => ?_)
    exact List.forall_mem_singleton.2 (.leaf rfl)
  · refine .skip .expectMark fun _ => .bind (.delimited gives_importItem) fun items => ?_
    exact .skip .expectMark fun _ => .pure id

theorem gives_importSpecifiers : Gives ctx ctx.HoldsAll importSpecifiers := by
  unfold importSpecifiers
  refine .skip .here fun start => .skip .current fun t => ?_
  split
  · refine .skip .variableName fun name => .bind (.leaf rfl) fun first => .skip .eatMark fun _ => ?_
    refine .ite (fun _ => .map (gives_importRest.mono ?_)) fun _ => .pure ?_
    · exact fun items hitems hfirst => Context.holdsAll_cons.2 ⟨hfirst, hitems⟩
    · exact fun hfirst => by simp [hfirst]
  · exact gives_importRest

/-- Nothing in an import is an expression. -/
theorem gives_importDeclaration : Gives ctx ctx.Holds importDeclaration := by
  unfold importDeclaration
  refine .skip .here fun start => .skip .seeModule fun _ => .skip .advance fun _ => ?_
  refine .skip .current fun t => ?_
  split
  · exact .skip .sourceText fun source => .skip .endStatement fun _ => .leaf rfl
  · refine .bind gives_importSpecifiers fun items => .skip .expectWord fun _ => ?_
    refine .skip .sourceText fun source => .skip .endStatement fun _ => ?_
    exact .finish fun _ hitems => .node rfl hitems

/-! ### Exports -/

theorem gives_exportItem : Gives ctx ctx.Holds exportItem := by
  unfold exportItem
  refine .skip .here fun start => .skip .moduleName fun name => .skip .eatWord fun _ => ?_
  extract_lets node
  have hnode (exported : ModuleName) : Gives ctx ctx.Holds (node exported) := .leaf rfl
  refine .ite (fun _ => ?_) fun _ => ?_
  · exact .skip .moduleName hnode
  · exact .skip (.pure name) hnode

/-- Nothing in a list of exports is an expression either. -/
theorem gives_exportList (start : Nat) : Gives ctx ctx.Holds (exportList start) := by
  unfold exportList
  refine .skip .expectMark fun _ => .bind (.delimited gives_exportItem) fun items => ?_
  refine .skip .expectMark fun _ => .skip .eatWord fun _ => ?_
  extract_lets node
  have hnode (source : Option Text) :
      Gives ctx (fun t => ctx.HoldsAll items → ctx.Holds t) (node source) :=
    .skip .endStatement fun _ => .finish fun _ hitems => .node rfl hitems
  refine .ite (fun _ => ?_) fun _ => ?_
  · exact .skip (.map some .sourceText) hnode
  · exact .skip (.pure none) hnode

theorem gives_exportAll (start : Nat) : Gives ctx ctx.Holds (exportAll start) := by
  unfold exportAll
  refine .skip .expectMark fun _ => .skip .eatWord fun _ => ?_
  extract_lets node
  have hnode (name : Option ModuleName) : Gives ctx ctx.Holds (node name) :=
    .skip .expectWord fun _ => .skip .sourceText fun source =>
      .skip .endStatement fun _ => .leaf rfl
  refine .ite (fun _ => ?_) fun _ => ?_
  · exact .skip (.map some .moduleName) hnode
  · exact .skip (.pure none) hnode

/-- A default is read at the top level. -/
theorem gives_exportDefault (hr : r.Sound) (start : Nat) :
    Gives ctx ctx.Holds (exportDefault r start) := by
  unfold exportDefault
  refine .skip .advance fun _ => .skip .next fun t => .skip .atWord fun isFunction => ?_
  refine .skip .atWord fun atAsync => ?_
  extract_lets isAsync node
  have hnode (value : Tree) : Gives ctx (fun t => ctx.Holds value → ctx.Holds t) (node value) :=
    .finish fun _ hvalue => .node rfl (by simp [hvalue])
  refine .skip .atWord fun _ => .ite (fun _ => ?_) fun _ => .ite (fun _ => ?_) fun _ => ?_
  · exact .bind (gives_functionExpression hr true true) hnode
  · exact .bind (gives_classFrom hr true true) hnode
  · refine .bind (gives_fullAssignment hr) fun value => .skip .endStatement fun _ => ?_
    refine .bind (.pure (Q := (· = value)) rfl) fun given => ?_
    exact (hnode given).mono fun t ht heq hvalue => ht (heq ▸ hvalue)

/-- What an export declares is read as a statement of its own. -/
theorem gives_exportDeclaration (hr : r.Sound) : Gives ctx ctx.Holds (exportDeclaration r) := by
  unfold exportDeclaration
  refine .skip .here fun start => .skip .seeModule fun _ => .skip .advance fun _ => ?_
  refine .skip .atMark fun _ => .ite (fun _ => gives_exportAll start) fun _ => ?_
  refine .skip .atMark fun _ => .ite (fun _ => gives_exportList start) fun _ => ?_
  refine .skip .atWord fun _ => .ite (fun _ => gives_exportDefault hr start) fun _ => ?_
  refine .skip .current fun t => ?_
  extract_lets declares node
  have hnode (u : Unit) : Gives ctx ctx.Holds (node u) := by
    refine .bind (hr.statement ctx) fun item => ?_
    exact .finish fun _ hitem => .node rfl (by simp [hitem])
  exact .ite (fun _ => hnode ()) fun _ => .skip .unexpected hnode

/-- Imports and exports fit as statements do. -/
theorem gives_topLevelItem (hr : r.Sound) : Gives ctx ctx.Holds (topLevelItem r) := by
  unfold topLevelItem
  refine .skip .atWord fun _ => .ite (fun _ => .skip .next fun t => ?_) fun _ => ?_
  · exact .ite (fun _ => hr.statement ctx) fun _ => gives_importDeclaration
  · refine .skip .atWord fun _ => .ite (fun _ => ?_) fun _ => hr.statement ctx
    exact gives_exportDeclaration hr

/-! ### Files -/

/-- A file is a body whose statements are read by the rule for its top level. -/
theorem gives_program (hr : r.Sound) (hashbang : Option String) (stop : Nat) :
    Gives ctx ctx.Holds (program r hashbang stop) := by
  have htop : ({ r with statement := topLevelItem r } : Rules).Sound :=
    { hr with statement := fun _ => gives_topLevelItem hr }
  unfold program
  refine .bind (gives_bodyItems htop (Quiet.atEnd.bind fun _ => .pure _)) fun items => ?_
  exact .pure fun hitems => .node rfl hitems

/-- A tree that is read in the end is what a rule gave without a complaint. -/
theorem runs_of_run {dialect : Dialect} {tokens : List Token} {rule : Rules → Parser Tree}
    {t : Tree} (h : run dialect tokens rule = .ok t) :
    ∃ s, Runs (rule (rules (depthOf (tokens.length + 1))))
        ⟨dialect, true, dialect.goal == .module, false, false, tokens.length + 1⟩
        ⟨tokens, 0, none, none, false⟩ t s ∧ s.complaint = none := by
  unfold run at h
  obtain ⟨⟨u, s⟩, hrun, h⟩ := exists_of_bind_ok h
  have hkept : s.complaint = none ∧ u = t := by
    dsimp only at h
    -- whatever the tokens that are left, a complaint or a stray default ends reading
    cases hs : s.complaint with
    | some first =>
      rw [hs] at h
      split at h <;> cases h
    | none =>
      refine ⟨rfl, ?_⟩
      cases hstray : strayDefault? u with
      | some stray =>
        rw [hs, hstray] at h
        split at h <;> cases h
      | none =>
        rw [hs, hstray] at h
        dsimp only at h
        split at h
        · cases h
        split at h
        · split at h
          · exact Except.ok.inj h
          · cases h
        · exact Except.ok.inj h
  obtain ⟨hs, rfl⟩ := hkept
  exact ⟨s, hrun, hs⟩

/-- A tree that is read in the end fits the top level. -/
theorem fits_of_run {dialect : Dialect} {tokens : List Token} {rule : Rules → Parser Tree}
    {t : Tree} (hrule : ∀ r ctx, r.Sound → Gives ctx ctx.Holds (rule r))
    (h : run dialect tokens rule = .ok t) : Fits .top t := by
  obtain ⟨s, hrun, hs⟩ := runs_of_run h
  have hholds := (hrule _ _ (sound_rules _) _ t s hrun hs).2
  exact hholds.covers ⟨fun _ => rfl, nofun⟩

end Parser

/-- In a file that can be read every `await` and `yield` is allowed where it stands. -/
theorem fits_of_parseScript {dialect : Dialect} {source : String} {program : Program}
    (h : parseScript dialect source = .ok program) : Fits .top program.tree := by
  unfold parseScript at h
  obtain ⟨t, ht, h⟩ := exists_of_bind_ok h
  obtain rfl := Except.ok.inj h
  exact Parser.fits_of_run (fun r ctx hr => Parser.gives_program hr _ _) ht

end CallBridge.Script
