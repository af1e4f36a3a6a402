import CallBridge.Proofs.Script.Enclosure.Giving
import CallBridge.Proofs.Script.Shape

/-!
# What rules return

Which shape a tree has does not depend on the surroundings it is read in, nor on complaints. So it
is enough that every value a rule returns has a property (`Returns`), wherever the rule is run.

Main statements: the steps of a rule one after the other (`Returns.bind`), and the repetitions
(`Returns.repeatWhile`, `Returns.growWhile`, `Returns.delimited`).
-/

namespace CallBridge.Script

/-- A tree is well shaped, and its kind is of a sort. -/
def ShapedAs (sort : Kind → Bool) (t : Tree) : Prop := WellShaped t ∧ sort t.kind

section

variable {sort : Kind → Bool} {ts : List Tree}

/-- The kinds of trees of a sort, as a node asks for them. -/
theorem all_of_shapedAs (h : ∀ t ∈ ts, ShapedAs sort t) : (ts.map Tree.kind).all sort := by
  rw [List.all_map, List.all_eq_true]
  exact fun t ht => (h t ht).2

theorem wellShaped_of_shapedAs (h : ∀ t ∈ ts, ShapedAs sort t) : ∀ t ∈ ts, WellShaped t :=
  fun t ht => (h t ht).1

end

namespace Parser

variable {α β : Type} {P Q : α → Prop} {t : Token}

/-- Every value that a rule returns has a property. -/
def Returns (Q : α → Prop) (rule : Parser α) : Prop :=
  ∀ ctx s a s', Runs rule ctx s a s' → Q a

/-- Every value that a rule returns has a property if it is run at a token. -/
def ReturnsAt (t : Token) (Q : α → Prop) (rule : Parser α) : Prop :=
  ∀ ctx s a s', s.tokens.headD endToken = t → Runs rule ctx s a s' → Q a

/-! ### Steps -/

/-- A value that has the property may be returned. -/
theorem Returns.pure {a : α} (h : Q a) : Returns Q (pure a) := by
  rintro ctx s _ _ ⟨⟩
  exact h

/-- One step after the other: the second one may use what the first one has returned. -/
theorem Returns.bind {x : Parser α} {f : α → Parser β} {Q : β → Prop} (hx : Returns P x)
    (hf : ∀ a, P a → Returns Q (f a)) : Returns Q (x >>= f) := by
  intro ctx s b s'' h
  obtain ⟨a, s', ha, hb⟩ := h.of_bind
  exact hf a (hx ctx s a s' ha) ctx s' b s'' hb

/-- A step whose value does not matter. -/
theorem Returns.skip {x : Parser α} {f : α → Parser β} {Q : β → Prop}
    (hf : ∀ a, Returns Q (f a)) : Returns Q (x >>= f) :=
  .bind (P := fun _ => True) (fun _ _ _ _ _ => trivial) fun a _ => hf a

theorem Returns.mono {x : Parser α} (hx : Returns P x) (h : ∀ a, P a → Q a) : Returns Q x :=
  fun ctx s a s' ha => h a (hx ctx s a s' ha)

/-- The value of a rule, put into another one. -/
theorem Returns.map {x : Parser α} {f : α → β} {Q : β → Prop} (hx : Returns (fun a => Q (f a)) x) :
    Returns Q (do return f (← x)) := .bind hx fun _ => .pure

/-- A choice returns what the branch taken does, and the branch may use why it is taken. -/
theorem Returns.ite {c : Prop} [Decidable c] {x y : Parser α} (hx : c → Returns Q x)
    (hy : ¬ c → Returns Q y) : Returns Q (if c then x else y) := by
  split
  · next h => exact hx h
  · next h => exact hy h

theorem Returns.within {change : Context → Context} {rule : Parser α} (h : Returns Q rule) :
    Returns Q (within change rule) := fun ctx s a s' hrun => h (change ctx) s a s' hrun

/-- A rule that fails returns nothing that would have to be well shaped. -/
theorem Returns.fail {problem : Problem} {offset : Nat} : Returns Q (failAt problem offset) := by
  intro ctx s a s' h
  obtain ⟨t, s₁, ht, h⟩ := h.of_bind
  obtain ⟨s₂, s₃, hs, h⟩ := h.of_bind
  split at h <;> cases h

theorem Returns.unexpected : Returns Q unexpected := .skip fun _ => .fail

theorem Returns.failExpected {wanted : String} : Returns Q (failExpected wanted) :=
  .skip fun _ => .fail

/-- Only the span of a finished node is not known beforehand. -/
theorem Returns.finish {start : Nat} {k : Kind} {cs : List Tree} {Q : Tree → Prop}
    (h : ∀ span, Q (.node k span cs)) : Returns Q (finish start k cs) := by
  rintro ctx s _ _ ⟨⟩
  exact h _

theorem Returns.leaf {start : Nat} {k : Kind} (hk : k.isLeaf) :
    Returns WellShaped (Parser.finish start k []) := .finish fun _ => .leaf hk

/-! ### The current token -/

theorem Returns.at {x : Parser α} (h : Returns Q x) : ReturnsAt t Q x :=
  fun ctx s a s' _ hrun => h ctx s a s' hrun

/-- A rule that looks at the current token goes on at it. -/
theorem Returns.current {f : Token → Parser α} (h : ∀ t, ReturnsAt t Q (f t)) :
    Returns Q (current >>= f) := by
  intro ctx s b s' hrun
  obtain ⟨t, _, ⟨⟩, hb⟩ := hrun.of_bind
  exact h _ ctx s b s' rfl hb

theorem ReturnsAt.current {f : Token → Parser α} (h : ReturnsAt t Q (f t)) :
    ReturnsAt t Q (current >>= f) := by
  rintro ctx s b s' rfl hrun
  obtain ⟨t, _, ⟨⟩, hb⟩ := hrun.of_bind
  exact h ctx s b s' rfl hb

/-- Only the first step is known to be run at the token. -/
theorem ReturnsAt.bind {x : Parser α} {f : α → Parser β} {Q : β → Prop} (hx : ReturnsAt t P x)
    (hf : ∀ a, P a → Returns Q (f a)) : ReturnsAt t Q (x >>= f) := by
  intro ctx s b s'' ht h
  obtain ⟨a, s', ha, hb⟩ := h.of_bind
  exact hf a (hx ctx s a s' ht ha) ctx s' b s'' hb

/-! ### Repetition -/

/-- What holds of every item holds of all items of a list, by induction on the budget. -/
theorem Returns.repeatWhile {more : Parser Bool} {item : Parser α} (hitem : Returns P item) :
    Returns (fun xs => ∀ x ∈ xs, P x) (repeatWhile more item) := by
  refine .skip fun ctx => ?_
  generalize ctx.budget = budget
  induction budget with
  | zero => exact .skip fun _ => .fail
  | succ budget ih =>
    refine .skip fun _ => .ite (fun _ => ?_) fun _ => .pure fun x hx => nomatch hx
    refine .bind hitem fun x hx => .bind ih fun xs hxs => .pure ?_
    exact List.forall_mem_cons.2 ⟨hx, hxs⟩

/-- An invariant of one step of growth is one of what has been grown. -/
theorem Returns.growWhile {grow : α → Parser (Option α)}
    (hgrow : ∀ x, P x → Returns (fun grown => ∀ y ∈ grown, P y) (grow x)) {x : α} (hx : P x) :
    Returns P (growWhile grow x) := by
  refine .skip fun ctx => ?_
  generalize ctx.budget = budget
  induction budget generalizing x with
  | zero => exact .skip fun _ => .fail
  | succ budget ih =>
    refine .bind (hgrow x hx) fun grown hgrown => ?_
    cases grown with
    | none => exact .pure hx
    | some y => exact ih (hgrown y rfl)

/-- A list with separators, which may be empty. -/
theorem Returns.delimited {closing : String} {item : Parser α} (hitem : Returns P item) :
    Returns (fun xs => ∀ x ∈ xs, P x) (delimited closing item) := by
  refine .skip fun _ => .ite (fun _ => .pure fun x hx => nomatch hx) fun _ => ?_
  refine .bind hitem fun first hfirst => .bind (.repeatWhile hitem) fun others hothers => .pure ?_
  exact List.forall_mem_cons.2 ⟨hfirst, hothers⟩

end Parser

end CallBridge.Script
