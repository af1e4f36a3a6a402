import CallBridge.Proofs.Script.Enclosure.Giving

/-!
# Placements in names, keys, patterns and types

The rules for what a declaration or a parameter introduces give trees that fit where they stand, as
soon as the rules they call do (`Rules.Sound`). The target of an assignment fits where the
expression does that it is read from (`toTarget?_fits`).
-/

namespace CallBridge.Script

/-- The rules that others call give trees that fit where they stand. -/
structure Rules.Sound (r : Rules) : Prop where
  assignment : ∀ ctx, Parser.Gives ctx ctx.Holds r.assignment
  operandAbove : ∀ level ctx, Parser.Gives ctx ctx.Holds (r.operandAbove level)
  unary : ∀ ctx, Parser.Gives ctx ctx.Holds r.unary
  newCallee : ∀ ctx, Parser.Gives ctx ctx.Holds r.newCallee
  callChain : ∀ ctx, Parser.Gives ctx ctx.Holds r.callChain
  pattern : ∀ ctx, Parser.Gives ctx ctx.Holds r.pattern
  statement : ∀ ctx, Parser.Gives ctx ctx.Holds r.statement
  type : ∀ ctx, Parser.Gives ctx ctx.Holds r.type

variable {ctx : Context} {r : Rules} {t u : Tree}

namespace Parser

/-! ### Names and keys -/

/-- A name that is bound fits everywhere. -/
theorem gives_bindingName : Gives ctx SelfContained bindingName := by
  unfold bindingName
  refine .skip .here fun start => .skip .variableName fun name => ?_
  exact .finish fun _ => selfContained_leaf rfl

/-- A key in brackets is an expression where its property stands; any other key is a leaf. -/
theorem gives_propertyKey (hr : r.Sound) :
    Gives ctx (fun key => ctx.Holds key.1) (propertyKey r) := by
  unfold propertyKey
  refine .skip .current fun t => ?_
  split
  case h_6 =>
    refine .skip .advance fun _ => .bind (.allowing hr.assignment true) fun key => ?_
    exact .skip .expectMark fun _ => .pure id
  case h_7 => exact .unexpected
  all_goals exact .skip .advance fun _ => .bind (.leaf rfl) fun key => .pure id

/-! ### Types -/

theorem Quiet.dottedName : Quiet dottedName :=
  Quiet.anyWord.bind fun _ => Quiet.bind (.repeatWhile .eatMark .anyWord) fun _ => .pure _

/-- The arguments of a type are types where it stands. -/
theorem gives_simpleType (hr : r.Sound) : Gives ctx ctx.Holds (simpleType r) := by
  unfold simpleType
  refine .skip .current fun t => ?_
  split
  · refine .skip .dottedName fun name => .skip .eatMark fun opens => .ite (fun _ => ?_) fun _ => ?_
    · refine .bind (.delimited (hr.type ctx)) fun arguments => .skip .expectMark fun _ => ?_
      exact .finish fun _ harguments => .node rfl harguments
    · exact .leaf rfl
  · exact .skip .advance fun _ => .leaf rfl
  · exact .skip .advance fun _ => .leaf rfl
  · exact .unexpected

theorem gives_arrayType (hr : r.Sound) : Gives ctx ctx.Holds (arrayType r) := by
  unfold arrayType
  refine .skip .here fun start => .bind (gives_simpleType hr) fun first => ?_
  refine .growWhile (fun t => ?_) first
  refine .skip .atMark fun _ => .skip .nextIsMark fun _ => .ite (fun _ => ?_) fun _ => ?_
  · refine .skip .advance fun _ => .skip .advance fun _ => ?_
    refine .bind (.finish (Q := fun u => ctx.Holds t → ctx.Holds u) fun _ ht => ?_) fun u => ?_
    · exact .node rfl (by simp [ht])
    · exact .pure fun hu ht y hy => Option.some.inj hy ▸ hu ht
  · exact .pure fun _ _ hy => nomatch hy

/-- The parts of a type fit where it stands. -/
theorem gives_typeRule (hr : r.Sound) : Gives ctx ctx.Holds (typeRule r) := by
  unfold typeRule
  refine .skip .here fun start => .bind (gives_arrayType hr) fun first => ?_
  refine .skip .atMark fun _ => .ite (fun _ => ?_) fun _ => .pure id
  refine .bind (.repeatWhile .eatMark (gives_arrayType hr)) fun more => ?_
  exact .finish fun _ hmore hfirst => .node rfl (Context.holdsAll_cons.2 ⟨hfirst, hmore⟩)

/-- A type is added to a pattern that fits. -/
theorem gives_annotated (hr : r.Sound) (start : Nat) (pattern : Tree) :
    Gives ctx (fun t => ctx.Holds pattern → ctx.Holds t) (annotated r start pattern) := by
  unfold annotated
  refine .read (.ite (fun _ => .skip .atMark fun marked => ?_) fun _ => .pure id)
  extract_lets typed
  have htyped (optional : Bool) :
      Gives ctx (fun t => ctx.Holds pattern → ctx.Holds t) (typed optional) := by
    refine .skip .eatMark fun _ => .ite (fun _ => ?_) fun _ => .ite (fun _ => ?_) fun _ => .pure id
    · refine .bind (hr.type ctx) fun type => ?_
      exact .finish fun _ htype hpattern => .node rfl (by simp [hpattern, htype])
    · exact .finish fun _ hpattern => .node rfl (by simp [hpattern, Context.Holds.absent])
  refine .ite (fun _ => ?_) fun _ => ?_
  · exact .skip .advance fun _ => .skip (.pure true) htyped
  · exact .skip (.pure false) htyped

/-! ### Patterns -/

/-- The default of a pattern is read where the pattern stands. -/
theorem gives_patternWithDefault (hr : r.Sound) : Gives ctx ctx.Holds (patternWithDefault r) := by
  unfold patternWithDefault
  refine .skip .here fun start => .bind (hr.pattern ctx) fun first => ?_
  refine .bind (gives_annotated hr start first) fun pattern => ?_
  refine .skip .eatMark fun _ => .ite (fun _ => ?_) fun _ => .pure id
  refine .bind (.allowing hr.assignment true) fun value => ?_
  exact .finish fun _ hvalue hpattern hfirst => .node rfl (by simp [hpattern hfirst, hvalue])

theorem gives_restPattern (hr : r.Sound) : Gives ctx ctx.Holds (restPattern r) := by
  unfold restPattern
  refine .skip .here fun start => .skip .expectMark fun _ => ?_
  refine .bind (hr.pattern ctx) fun first => ?_
  refine .bind (gives_annotated hr start first) fun pattern => ?_
  exact .finish fun _ hpattern hfirst => .node rfl (by simp [hpattern hfirst])

theorem gives_arrayPatternItem (hr : r.Sound) : Gives ctx ctx.Holds (arrayPatternItem r) := by
  unfold arrayPatternItem
  refine .skip .atMark fun _ => .skip .atMark fun _ => .ite (fun _ => .pure (.leaf rfl)) fun _ => ?_
  refine .skip .atMark fun _ => .ite (fun _ => ?_) fun _ => ?_
  · exact gives_restPattern hr
  · exact gives_patternWithDefault hr

/-- A key with a pattern, or a name with a default, each of them where the whole pattern stands. -/
theorem gives_objectPatternItem (hr : r.Sound) : Gives ctx ctx.Holds (objectPatternItem r) := by
  unfold objectPatternItem
  refine .skip .atMark fun _ => .ite (fun _ => gives_restPattern hr) fun _ => ?_
  refine .skip .here fun start => .skip .current fun t => ?_
  refine .bind (gives_propertyKey hr) fun (key, computed) => ?_
  refine .skip .eatMark fun _ => .ite (fun _ => ?_) fun _ => ?_
  · refine .bind (gives_patternWithDefault hr) fun value => ?_
    exact .finish fun _ hvalue hkey => .node rfl (by simp [hkey, hvalue])
  · split
    · next name escaped _ =>
      refine .read ?_
      extract_lets binding bound
      have hbinding : ctx.Holds binding := .leaf rfl
      have hbound (u : Unit) : Gives ctx (fun t => ctx.Holds key → ctx.Holds t) (bound u) := by
        refine .skip .eatMark fun _ => .ite (fun _ => ?_) fun _ => ?_
        · refine .bind (.allowing hr.assignment true) fun value => ?_
          refine .bind (.finish (Q := fun t => ctx.Holds value → ctx.Holds t) fun _ hvalue =>
            .node rfl (by simp [hvalue, hbinding])) fun pattern => ?_
          exact .finish fun _ hpattern hvalue hkey => .node rfl (by simp [hkey, hpattern hvalue])
        · exact .finish fun _ hkey => .node rfl (by simp [hkey, hbinding])
      exact .ite (fun _ => hbound ()) fun _ => .skip .fail hbound
    · exact .failExpected

/-- A pattern, when the rules at the next depth are sound. -/
theorem gives_patternRule (hr : r.Sound) : Gives ctx ctx.Holds (patternRule r) := by
  unfold patternRule
  refine .skip .here fun start => .skip .eatMark fun _ => .ite (fun _ => ?_) fun _ => ?_
  · refine .bind (.delimited (gives_arrayPatternItem hr)) fun items => .skip .expectMark fun _ => ?_
    exact .finish fun _ hitems => .node rfl hitems
  refine .skip .eatMark fun _ => .ite (fun _ => ?_) fun _ => ?_
  · refine .bind (.delimited (gives_objectPatternItem hr)) fun items => ?_
    exact .skip .expectMark fun _ => .finish fun _ hitems => .node rfl hitems
  · exact gives_bindingName.mono fun _ hname => hname.fits _

/-- Parameters fit the surroundings they are read in, which the function has changed before. -/
theorem gives_parameters (hr : r.Sound) : Gives ctx ctx.Holds (parameters r) := by
  unfold parameters
  have hitem : Gives ctx ctx.Holds
      (do if ← atMark "..." then restPattern r else patternWithDefault r) :=
    .skip .atMark fun _ => .ite (fun _ => gives_restPattern hr) fun _ => gives_patternWithDefault hr
  refine .skip .here fun start => .skip .expectMark fun _ => ?_
  refine .bind (.delimited hitem) fun items => .skip .expectMark fun _ => ?_
  exact .finish fun _ hitems => .node rfl hitems

end Parser

/-! ### Targets -/

section Targets

variable {e : Enclosure}

/-- Parentheses do not come between an expression and what is around it. -/
theorem Fits.unparen (h : Fits e t) : Fits e t.unparen := by
  induction t with
  | node k s cs ih =>
    by_cases hp : ∃ u, k = .paren ∧ cs = [u]
    · obtain ⟨u, rfl, rfl⟩ := hp
      rw [Tree.unparen_paren]
      have hu : Fits e u := (fits_of_isPlain rfl).1 h u (List.mem_singleton_self u)
      exact ih u (List.mem_singleton_self u) hu
    · rw [Tree.unparen_node fun u hk hc => hp ⟨u, hk, hc⟩]
      exact h

/-- A single target is the expression that it is read from, or the name of it. -/
theorem simpleTarget?_fits (h : simpleTarget? t = some u) (ht : Fits e t) : Fits e u := by
  have hunparen := ht.unparen
  unfold simpleTarget? at h
  split at h
  · obtain rfl := Option.some.inj h
    exact fits_leaf_of_isPlain rfl
  · next heq =>
    obtain rfl := Option.some.inj h
    exact heq ▸ hunparen
  · next heq =>
    obtain rfl := Option.some.inj h
    exact heq ▸ hunparen
  · next heq =>
    obtain rfl := Option.some.inj h
    exact heq ▸ hunparen
  · cases h

/-- Targets read one by one have a property when each does. -/
theorem forall_of_mapM_snd {P : Tree → Prop} {ds : List (Tree × Option Tree)} {ts : List Tree}
    (h : ds.mapM Prod.snd = some ts) (hds : ∀ d ∈ ds, ∀ v, d.2 = some v → P v) :
    ∀ v ∈ ts, P v := by
  induction ds generalizing ts with
  | nil =>
    obtain rfl : ts = [] := by simpa using h.symm
    exact fun v hv => absurd hv List.not_mem_nil
  | cons d ds ih =>
    rw [List.mapM_cons] at h
    obtain ⟨first, hfirst, h⟩ := Option.bind_eq_some_iff.1 h
    obtain ⟨more, hmore, h⟩ := Option.bind_eq_some_iff.1 h
    obtain rfl := Option.some.inj h
    refine List.forall_mem_cons.2 ⟨hds d (List.mem_cons_self ..) first hfirst, ?_⟩
    exact ih hmore fun d hd => hds d (List.mem_cons_of_mem _ hd)

/-- The target of an assignment has what the expression has that it is read from. -/
theorem toTarget?_fits (h : t.toTarget? = some u) (ht : Fits e t) : Fits e u := by
  induction t generalizing u with
  | node k s cs ih =>
    have hds (hk : k.isPlain) : ∀ d ∈ cs.map fun t => (t, t.toTarget?),
        Fits e d.1 ∧ ∀ v, d.2 = some v → Fits e v := by
      rintro d hd
      obtain ⟨t, ht', rfl⟩ := List.mem_map.1 hd
      have hfits : Fits e t := (fits_of_isPlain hk).1 ht t ht'
      exact ⟨hfits, fun v hv => ih t ht' hv hfits⟩
    have hwhole : (cs.map fun t => (t, t.toTarget?)).map Prod.fst = cs := by
      rw [List.map_map]
      exact List.map_id cs
    rw [Tree.toTarget?, Tree.fold_node, ← Tree.toTarget?] at h
    generalize (cs.map fun t => (t, t.toTarget?)) = ds at h hds hwhole
    obtain rfl := hwhole
    split at h
    · obtain ⟨ts, hts, rfl⟩ := Option.map_eq_some_iff.1 h
      exact (fits_of_isPlain rfl).2 (forall_of_mapM_snd hts fun d hd => (hds rfl d hd).2)
    · obtain ⟨ts, hts, rfl⟩ := Option.map_eq_some_iff.1 h
      exact (fits_of_isPlain rfl).2 (forall_of_mapM_snd hts fun d hd => (hds rfl d hd).2)
    · obtain rfl := Option.some.inj h
      exact ht
    · have hd := hds rfl
      rw [List.forall_mem_singleton] at hd
      obtain ⟨v, hv, rfl⟩ := Option.map_eq_some_iff.1 h
      exact (fits_of_isPlain rfl).2 (List.forall_mem_singleton.2 (hd.2 v hv))
    · obtain ⟨v, hv, rfl⟩ := Option.map_eq_some_iff.1 h
      obtain ⟨hkey, hvalue⟩ := forall_mem_pair.1 (hds rfl)
      exact (fits_pair rfl).2 ⟨hkey.1, hvalue.2 v hv⟩
    · obtain ⟨v, hv, rfl⟩ := Option.map_eq_some_iff.1 h
      obtain ⟨hkey, hvalue⟩ := forall_mem_pair.1 (hds rfl)
      exact (fits_pair rfl).2 ⟨hkey.1, hvalue.2 v hv⟩
    · obtain rfl := Option.some.inj h
      obtain ⟨-, hvalue⟩ := forall_mem_pair.1 (hds rfl)
      refine (fits_pair rfl).2 ⟨fits_leaf_of_isPlain rfl, (fits_pair rfl).2 ⟨?_, hvalue.1⟩⟩
      exact fits_leaf_of_isPlain rfl
    · obtain rfl := Option.some.inj h
      obtain ⟨htarget, hvalue⟩ := forall_mem_pair.1 (hds rfl)
      exact (fits_pair rfl).2 ⟨htarget.1, hvalue.1⟩
    · exact simpleTarget?_fits h ht

end Targets

namespace Parser

/-- What an expression may be assigned as fits if the expression does. -/
theorem gives_assignable (t : Tree) :
    Gives ctx (fun u => ctx.Holds t → ctx.Holds u) (assignable t) := by
  unfold assignable
  split
  · next target htarget =>
    exact .ite (fun _ => .pure (toTarget?_fits htarget)) fun _ => .fail
  · exact .fail

theorem gives_readable (t : Tree) :
    Gives ctx (fun u => ctx.Holds t → ctx.Holds u) (readable t) := by
  unfold readable
  split
  · next target htarget => exact .pure (simpleTarget?_fits htarget)
  · exact .fail

end Parser

end CallBridge.Script
