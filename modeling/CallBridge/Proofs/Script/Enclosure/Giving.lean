import CallBridge.Proofs.Script.Enclosure
import CallBridge.Proofs.Script.Running

/-!
# What the values of rules have in common

A rule gives values of a property (`Gives`) when every run of it that ends without a complaint began
without one and has such a value. What an earlier step gives is an assumption on the value of the
rule, not on its later steps: these must keep a complaint whatever came before. A rule is quiet
(`Quiet`) when all that is known of it is that it keeps complaints.

Main statements: the steps of a rule one after the other (`Gives.bind`), and the repetitions
(`Gives.repeatWhile`, `Gives.growWhile`, `Gives.delimited`).
-/

namespace CallBridge.Script

/-- What is directly around whatever a rule reads. The top level counts as that of a module. -/
def Context.enclosure (ctx : Context) : Enclosure :=
  ⟨none, ctx.isAsync || !ctx.inFunction, ctx.isGenerator⟩

/-- Whether a tree fits where a rule reads. -/
def Context.Holds (ctx : Context) (t : Tree) : Prop := Fits ctx.enclosure t

/-- Whether trees fit where a rule reads. -/
def Context.HoldsAll (ctx : Context) (ts : List Tree) : Prop := ∀ t ∈ ts, ctx.Holds t

section

variable {ctx : Context} {k : Kind} {s : Span} {t : Tree} {ts us : List Tree}

/-- A node that is no placement fits where its children do. -/
theorem Context.Holds.node (hk : k.isPlain) (h : ctx.HoldsAll ts) : ctx.Holds (.node k s ts) :=
  (fits_of_isPlain hk).2 h

/-- A leaf has nothing that would have to be allowed. -/
theorem Context.Holds.leaf (hk : k.isPlain) : ctx.Holds (.node k s []) := fits_leaf_of_isPlain hk

theorem Context.Holds.absent : ctx.Holds .absent := fits_absent

/-- No trees fit everywhere. -/
@[simp] theorem Context.holdsAll_nil : ctx.HoldsAll [] := fun _ h => nomatch h

@[simp] theorem Context.holdsAll_cons :
    ctx.HoldsAll (t :: ts) ↔ ctx.Holds t ∧ ctx.HoldsAll ts := List.forall_mem_cons

@[simp] theorem Context.holdsAll_append :
    ctx.HoldsAll (ts ++ us) ↔ ctx.HoldsAll ts ∧ ctx.HoldsAll us := List.forall_mem_append

/-- The order of trees does not matter for whether they fit. -/
theorem Context.holdsAll_reverse (h : ctx.HoldsAll ts) : ctx.HoldsAll ts.reverse :=
  fun t ht => h t (List.mem_reverse.1 ht)

end

namespace Parser

variable {α β : Type} {ctx : Context} {P Q : α → Prop} {m w : String}

/-- Every run of a rule that ends without a complaint began without one, and its value has a
property. -/
def Gives (ctx : Context) (Q : α → Prop) (rule : Parser α) : Prop :=
  ∀ s a s', Runs rule ctx s a s' → s'.complaint = none → s.complaint = none ∧ Q a

/-- A rule that keeps complaints. -/
def Quiet (rule : Parser α) : Prop := ∀ ctx, Gives ctx (fun _ => True) rule

/-- A rule that only looks. -/
def Looks (ctx : Context) (P : α → Prop) (rule : Parser α) : Prop :=
  ∀ s a s', Runs rule ctx s a s' → s' = s ∧ P a

/-! ### Steps -/

/-- A run of two steps is a run of the first one and one of the second from where that ended. -/
theorem Runs.of_bind {x : Parser α} {f : α → Parser β} {s s'' : State} {b : β}
    (h : Runs (x >>= f) ctx s b s'') :
    ∃ a s', Runs x ctx s a s' ∧ Runs (f a) ctx s' b s'' := by
  simp only [Runs, Bind.bind, ReaderT.bind, StateT.bind, Except.bind] at h
  split at h
  · cases h
  · next first hfirst => exact ⟨first.1, first.2, hfirst, h⟩

/-- A value that has the property may be given at once. -/
theorem Gives.pure {a : α} (h : Q a) : Gives ctx Q (pure a) := by
  rintro s _ _ ⟨⟩ hs
  exact ⟨hs, h⟩

/-- One step after the other. A complaint of the first one is still there behind the second, so
without one the value of the first has its property. -/
theorem Gives.bind {x : Parser α} {f : α → Parser β} {Q : β → Prop} (hx : Gives ctx P x)
    (hf : ∀ a, Gives ctx (fun b => P a → Q b) (f a)) : Gives ctx Q (x >>= f) := by
  intro s b s'' h hs
  obtain ⟨a, s', ha, hb⟩ := h.of_bind
  obtain ⟨hs', hQ⟩ := hf a s' b s'' hb hs
  obtain ⟨hs, hP⟩ := hx s a s' ha hs'
  exact ⟨hs, hQ hP⟩

/-- What a rule gives may be said more weakly. -/
theorem Gives.mono {x : Parser α} (hx : Gives ctx P x) (h : ∀ a, P a → Q a) : Gives ctx Q x := by
  intro s a s' ha hs
  obtain ⟨hs, hP⟩ := hx s a s' ha hs
  exact ⟨hs, h a hP⟩

/-- The value of a rule, put into another one. -/
theorem Gives.map {x : Parser α} {f : α → β} {Q : β → Prop} (hx : Gives ctx (fun a => Q (f a)) x) :
    Gives ctx Q (do return f (← x)) := .bind hx fun _ => .pure id

/-- A step of which only matters that it keeps complaints. -/
theorem Gives.skip {x : Parser α} {f : α → Parser β} {Q : β → Prop} (hx : Quiet x)
    (hf : ∀ a, Gives ctx Q (f a)) : Gives ctx Q (x >>= f) :=
  .bind (hx ctx) fun a => (hf a).mono fun _ h _ => h

/-- A step that only looks; what it gives holds for the later steps. -/
theorem Gives.look {x : Parser α} {f : α → Parser β} {Q : β → Prop} (hx : Looks ctx P x)
    (hf : ∀ a, P a → Gives ctx Q (f a)) : Gives ctx Q (x >>= f) := by
  intro s b s'' h hs
  obtain ⟨a, s', ha, hb⟩ := h.of_bind
  obtain ⟨rfl, hP⟩ := hx s a s' ha
  exact hf a hP s' b s'' hb hs

theorem Looks.pure {a : α} (h : P a) : Looks ctx P (pure a) := by
  rintro s _ _ ⟨⟩
  exact ⟨rfl, h⟩

/-- One look after the other is a look. -/
theorem Looks.bind {x : Parser α} {f : α → Parser β} {Q : β → Prop} (hx : Looks ctx P x)
    (hf : ∀ a, P a → Looks ctx Q (f a)) : Looks ctx Q (x >>= f) := by
  intro s b s'' h
  obtain ⟨a, s', ha, hb⟩ := h.of_bind
  obtain ⟨rfl, hP⟩ := hx s a s' ha
  exact hf a hP s' b s'' hb

theorem Looks.ite {c : Prop} [Decidable c] {x y : Parser α} (hx : Looks ctx Q x)
    (hy : Looks ctx Q y) : Looks ctx Q (if c then x else y) := by
  split
  · exact hx
  · exact hy

/-- Reading the surroundings changes nothing. -/
theorem Looks.read : Looks ctx (fun _ => True) (MonadReader.read : Parser Context) := by
  rintro s _ _ ⟨⟩
  exact ⟨rfl, trivial⟩

/-- Looking at the state changes nothing. -/
theorem Looks.get : Looks ctx (fun _ => True) (MonadState.get : Parser State) := by
  rintro s _ _ ⟨⟩
  exact ⟨rfl, trivial⟩

/-- Asking for the place changes nothing. -/
theorem Looks.here : Looks ctx (fun _ => True) here := by
  rintro s _ _ ⟨⟩
  exact ⟨rfl, trivial⟩

/-- A rule that reads its surroundings goes on with those it is run in. -/
theorem Gives.read {f : Context → Parser α} (h : Gives ctx Q (f ctx)) :
    Gives ctx Q (MonadReader.read >>= f) := fun s a s' hrun => h s a s' hrun

/-- A choice gives what the branch taken does, and the branch may use why it is taken. -/
theorem Gives.ite {c : Prop} [Decidable c] {x y : Parser α} (hx : c → Gives ctx Q x)
    (hy : ¬ c → Gives ctx Q y) : Gives ctx Q (if c then x else y) := by
  split
  · next h => exact hx h
  · next h => exact hy h

/-- A rule that is run in other surroundings gives what holds there. -/
theorem Gives.within {change : Context → Context} {rule : Parser α}
    (h : Gives (change ctx) Q rule) : Gives ctx Q (within change rule) :=
  fun s a s' hrun => h s a s' hrun

/-- Whether `in` is an operator does not matter for what fits. -/
theorem Gives.allowing {rule : Parser Tree} (h : ∀ ctx, Gives ctx ctx.Holds rule) (allowIn : Bool) :
    Gives ctx ctx.Holds (Parser.within (fun c => { c with allowIn }) rule) :=
  Gives.within (h { ctx with allowIn })

/-- No run of a failure ends, so whatever is asked holds of its value. -/
theorem Gives.fail {problem : Problem} {offset : Nat} : Gives ctx Q (failAt problem offset) := by
  intro s a s' h
  obtain ⟨t, s₁, ht, h⟩ := h.of_bind
  obtain ⟨s₂, s₃, hs, h⟩ := h.of_bind
  split at h <;> cases h

/-! ### Quiet steps -/

/-- A rule that leaves the complaint as it is. -/
theorem Quiet.of_complaint {rule : Parser α}
    (h : ∀ ctx s a s', Runs rule ctx s a s' → s'.complaint = s.complaint) : Quiet rule := by
  intro ctx s a s' hrun hs
  exact ⟨(h ctx s a s' hrun) ▸ hs, trivial⟩

theorem Quiet.pure (a : α) : Quiet (pure a) := fun _ => .pure trivial

/-- Quiet steps make a quiet rule. -/
theorem Quiet.bind {x : Parser α} {f : α → Parser β} (hx : Quiet x) (hf : ∀ a, Quiet (f a)) :
    Quiet (x >>= f) := fun ctx => .skip hx fun a => hf a ctx

theorem Quiet.ite {c : Prop} [Decidable c] {x y : Parser α} (hx : Quiet x) (hy : Quiet y) :
    Quiet (if c then x else y) := fun ctx => .ite (fun _ => hx ctx) fun _ => hy ctx

theorem Quiet.map {x : Parser α} (f : α → β) (hx : Quiet x) : Quiet (f <$> x) :=
  hx.bind fun a => .pure (f a)

theorem Quiet.read : Quiet (MonadReader.read : Parser Context) :=
  .of_complaint fun _ _ _ _ h => by cases h; rfl

theorem Quiet.get : Quiet (MonadState.get : Parser State) :=
  .of_complaint fun _ _ _ _ h => by cases h; rfl

theorem Quiet.fail {problem : Problem} {offset : Nat} :
    Quiet (failAt problem offset : Parser α) := fun _ => .fail

/-- The current token is only looked at, and so is what is asked about it below. -/
theorem Quiet.current : Quiet current := .bind .get fun _ => .pure _

theorem Quiet.next : Quiet next := .bind .get fun _ => .pure _

theorem Quiet.here : Quiet here := .bind .current fun _ => .pure _

theorem Quiet.atMark : Quiet (atMark m) := .bind .current fun _ => .pure _

theorem Quiet.nextIsMark : Quiet (nextIsMark m) := .bind .next fun _ => .pure _

theorem Quiet.atWord : Quiet (atWord w) := .bind .current fun _ => .pure _

theorem Quiet.atEnd : Quiet atEnd := .bind .current fun _ => .pure _

/-- Going on to the next token leaves the complaint, at the end of the text too. -/
theorem Quiet.advance : Quiet advance := by
  refine .of_complaint fun _ s _ _ h => ?_
  cases h
  dsimp only
  split <;> rfl

/-- A mark is passed over if it is there. -/
theorem Quiet.eatMark : Quiet (eatMark m) :=
  .bind .atMark fun _ => .ite (.bind .advance fun _ => .pure _) (.pure _)

theorem Quiet.eatWord : Quiet (eatWord w) :=
  .bind .atWord fun _ => .ite (.bind .advance fun _ => .pure _) (.pure _)

theorem Quiet.unexpected : Quiet (unexpected : Parser α) := .bind .current fun _ => .fail

theorem Quiet.failExpected {wanted : String} : Quiet (failExpected wanted : Parser α) :=
  .bind .current fun _ => .fail

/-- A mark that is not there is a failure, not a complaint. -/
theorem Quiet.expectMark : Quiet (expectMark m) :=
  .bind .eatMark fun _ => .ite (.pure _) .failExpected

theorem Quiet.expectWord : Quiet (expectWord w) :=
  .bind .eatWord fun _ => .ite (.pure _) .failExpected

/-- A name that may not be used as one is a failure as well. -/
theorem Quiet.variableName : Quiet variableName := by
  refine .bind .current fun t => ?_
  split
  · exact .bind .read fun _ => .ite (.bind .advance fun _ => .pure _)
      (.bind .here fun _ => .fail)
  · exact .unexpected

theorem Quiet.anyWord : Quiet anyWord := by
  refine .bind .current fun t => ?_
  split
  · exact .bind .advance fun _ => .pure _
  · exact .unexpected

/-- The end of a statement may be left out in front of a brace or on a new line. -/
theorem Quiet.endStatement : Quiet endStatement := by
  refine .bind .eatMark fun _ => .ite (.pure _) (.bind .current fun t => ?_)
  exact .ite (.pure _) (.bind .get fun _ => .fail)

/-! ### Failures and complaints -/

theorem Gives.unexpected : Gives ctx Q unexpected := .skip .current fun _ => .fail

theorem Gives.failExpected {wanted : String} : Gives ctx Q (failExpected wanted) :=
  .skip .current fun _ => .fail

/-- No run with a complaint ends without one. -/
theorem Gives.complain {problem : Problem} {offset : Nat} {Q : Unit → Prop} :
    Gives ctx Q (complain problem offset) := by
  intro s _ s' h hs
  cases h
  cases hc : s.complaint with
  | none => simp [hc] at hs
  | some first => simp [hc] at hs

/-- A complaint that counts in scripts only is kept apart from the one that counts everywhere. -/
theorem Quiet.complainOfScript {problem : Problem} {offset : Nat} :
    Quiet (complainOfScript problem offset) :=
  .of_complaint fun _ _ _ _ h => by cases h; rfl

theorem Quiet.seeModule : Quiet seeModule := .of_complaint fun _ _ _ _ h => by cases h; rfl

/-! ### Nodes -/

/-- Only the span of a finished node is not known beforehand. -/
theorem Gives.finish {start : Nat} {k : Kind} {cs : List Tree} {Q : Tree → Prop}
    (h : ∀ span, Q (.node k span cs)) : Gives ctx Q (finish start k cs) := by
  rintro s _ _ ⟨⟩ hs
  exact ⟨hs, h _⟩

theorem Gives.leaf {start : Nat} {k : Kind} (hk : k.isPlain) :
    Gives ctx ctx.Holds (Parser.finish start k []) := .finish fun _ => .leaf hk

/-! ### Repetition -/

/-- What every item has, all items of a list have, by induction on the budget. -/
theorem Gives.repeatWhile {more : Parser Bool} {item : Parser α} (hmore : Quiet more)
    (hitem : Gives ctx P item) : Gives ctx (fun xs => ∀ x ∈ xs, P x) (repeatWhile more item) := by
  refine .read ?_
  generalize ctx.budget = budget
  induction budget with
  | zero => exact .skip .here fun _ => .fail
  | succ budget ih =>
    refine .skip hmore fun _ => .ite (fun _ => ?_) fun _ => .pure fun x hx => nomatch hx
    refine .bind hitem fun x => .bind ih fun xs => .pure fun hxs hx => ?_
    exact List.forall_mem_cons.2 ⟨hx, hxs⟩

theorem Quiet.repeatWhile {more : Parser Bool} {item : Parser α} (hmore : Quiet more)
    (hitem : Quiet item) : Quiet (repeatWhile more item) :=
  fun ctx => (Gives.repeatWhile hmore (hitem ctx)).mono fun _ _ => trivial

/-- A loop over a list that has been read is quiet if its body is. -/
theorem Quiet.forIn {items : List β} {f : β → α → Parser (ForInStep α)}
    (hf : ∀ item a, Quiet (f item a)) (a : α) : Quiet (forIn items a f) := by
  induction items generalizing a with
  | nil => exact .pure a
  | cons item items ih =>
    rw [List.forIn_cons]
    refine (hf item a).bind fun step => ?_
    cases step with
    | done b => exact .pure b
    | yield b => exact ih b

/-- An invariant of one step of growth is one of the whole; it is assumed of the start only at the
end, as a complaint may come first. -/
theorem Gives.growWhile {grow : α → Parser (Option α)}
    (hgrow : ∀ x, Gives ctx (fun grown => P x → ∀ y ∈ grown, P y) (grow x)) (x : α) :
    Gives ctx (fun y => P x → P y) (growWhile grow x) := by
  refine .read ?_
  generalize ctx.budget = budget
  induction budget generalizing x with
  | zero => exact .skip .here fun _ => .fail
  | succ budget ih =>
    refine .bind (hgrow x) fun grown => ?_
    cases grown with
    | none => exact .pure fun _ hx => hx
    | some y => exact (ih y).mono fun z hz hy hx => hz (hy hx y rfl)

/-- A list with separators, which may be empty. A separator that is missing is a failure. -/
theorem Gives.delimited {closing : String} {item : Parser α} (hitem : Gives ctx P item) :
    Gives ctx (fun xs => ∀ x ∈ xs, P x) (delimited closing item) := by
  have hdone : Quiet (do return (← Parser.atMark closing) || (← atEnd)) :=
    .bind .atMark fun _ => .bind .atEnd fun _ => .pure _
  refine .skip hdone fun _ => .ite (fun _ => .pure fun x hx => nomatch hx) fun _ => ?_
  refine .bind hitem fun first => .bind (.repeatWhile ?_ hitem) fun others => .pure ?_
  · have hgoes : Quiet (do advance; return !(← Parser.atMark closing)) :=
      .bind .advance fun _ => .bind .atMark fun _ => .pure _
    refine hdone.bind fun _ => .ite (.pure _) (.bind .atMark fun _ => .ite hgoes ?_)
    exact .bind .current fun _ => .bind .fail fun _ => hgoes
  · exact fun hothers hfirst => List.forall_mem_cons.2 ⟨hfirst, hothers⟩

end Parser

end CallBridge.Script
