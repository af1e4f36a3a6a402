import CallBridge.Script.Tree
import Mathlib.Data.List.Basic

/-!
# Where `await` and `yield` stand

An `await` or `yield` belongs to the function directly around it, or to the top level of its file.
What is directly around an expression is its `Enclosure`; functions, arrow functions, the values of
fields and static blocks change it for what stands in them, and no other node does. The placements
of a tree (`placed`) are its `await` and `yield` expressions, each with the function it belongs to
and whether that function allows it; a tree fits an enclosure (`Fits`) when all of them are allowed.

Main statement: a tree that fits an enclosure has the same placements in every enclosure of the same
function that allows as much, and so a tree that needs nothing of what is around it has the same
placements everywhere (`SelfContained.placed_eq`).
-/

namespace CallBridge.Script

/-- What is directly around an expression: the function, unless it stands at the top level, and
whether `await` and `yield` may stand there. -/
structure Enclosure where
  owner : Option (Kind × Span)
  awaits : Bool
  yields : Bool

namespace Enclosure

/-- The top level of a module. -/
def top : Enclosure := ⟨none, true, false⟩

/-- A place where neither may stand. -/
def plain : Enclosure := ⟨none, false, false⟩

/-- What is around the first child of a node. The parameters of an arrow function are read where the
function stands. -/
def first (k : Kind) (s : Span) (e : Enclosure) : Enclosure :=
  match k with
  | .function form => ⟨some (k, s), form.isAsync, form.isGenerator⟩
  | .arrow isAsync => ⟨some (k, s), isAsync || e.awaits, e.yields⟩
  | .staticBlock => ⟨some (k, s), false, false⟩
  | _ => e

/-- What is around the other children of a node. The key of a field is its first child. -/
def others (k : Kind) (s : Span) (e : Enclosure) : Enclosure :=
  match k with
  | .function form => ⟨some (k, s), form.isAsync, form.isGenerator⟩
  | .arrow isAsync => ⟨some (k, s), isAsync, false⟩
  | .field .. | .staticBlock => ⟨some (k, s), false, false⟩
  | _ => e

end Enclosure

/-- An `await` or `yield` expression with what is directly around it. -/
structure Placement where
  kind : Kind
  span : Span
  owner : Option (Kind × Span)
  allowed : Bool
  deriving DecidableEq

/-- The placement that a node is itself. -/
def ownPlacement (k : Kind) (s : Span) (e : Enclosure) : List Placement :=
  match k with
  | .await => [⟨k, s, e.owner, e.awaits⟩]
  | .yield _ => [⟨k, s, e.owner, e.yields⟩]
  | _ => []

/-- The `await` and `yield` expressions of a tree that stands in an enclosure. -/
def placed : Tree → Enclosure → List Placement :=
  Tree.fold fun k s cs e =>
    ownPlacement k s e ++
      match cs with
      | [] => []
      | c :: rest => c.2 (e.first k s) ++ rest.flatMap fun c => c.2 (e.others k s)

/-- The placements of trees that stand in one enclosure. -/
def placedAll (cs : List Tree) (e : Enclosure) : List Placement := cs.flatMap (placed · e)

/-- Whether every `await` and `yield` of a tree is allowed where it stands. -/
def Fits (e : Enclosure) (t : Tree) : Prop := ∀ p ∈ placed t e, p.allowed

instance (e : Enclosure) (t : Tree) : Decidable (Fits e t) :=
  inferInstanceAs (Decidable (∀ p ∈ placed t e, p.allowed = true))

/-- A tree has no `await` or `yield` outside functions of its own. -/
def SelfContained (t : Tree) : Prop := Fits .plain t

/-- Whether a kind of node is no placement and leaves its children where it stands itself. -/
def Kind.isPlain : Kind → Bool
  | .await | .yield _ | .function _ | .arrow _ | .field .. | .staticBlock => false
  | _ => true

variable {e e' : Enclosure} {k : Kind} {s : Span} {t u : Tree} {cs : List Tree}

/-! ### Nodes -/

@[simp] theorem placedAll_nil (e : Enclosure) : placedAll [] e = [] := rfl

@[simp] theorem placedAll_cons (c : Tree) (cs : List Tree) (e : Enclosure) :
    placedAll (c :: cs) e = placed c e ++ placedAll cs e := rfl

/-- A leaf places at most itself. -/
theorem placed_leaf (k : Kind) (s : Span) (e : Enclosure) :
    placed (.node k s []) e = ownPlacement k s e := by
  rw [placed, Tree.fold_node]
  exact List.append_nil _

theorem placed_cons (k : Kind) (s : Span) (c : Tree) (cs : List Tree) (e : Enclosure) :
    placed (.node k s (c :: cs)) e =
      ownPlacement k s e ++ (placed c (e.first k s) ++ placedAll cs (e.others k s)) := by
  simp only [placed, placedAll, Tree.fold_node, List.map_cons, List.flatMap_map]

/-- A placement is of the node itself, of its first child or of one of the others. -/
theorem mem_placed_cons {c : Tree} {p : Placement} :
    p ∈ placed (.node k s (c :: cs)) e ↔
      p ∈ ownPlacement k s e ∨ p ∈ placed c (e.first k s) ∨
        ∃ d ∈ cs, p ∈ placed d (e.others k s) := by
  rw [placed_cons, List.mem_append, List.mem_append, placedAll, List.mem_flatMap]

/-- What is around the first child of a node: a function of its own, an arrow function that allows
what is allowed where it stands, or the same as around the node. -/
theorem Enclosure.first_cases (k : Kind) :
    (∃ a y, ∀ s (e : Enclosure), e.first k s = ⟨some (k, s), a, y⟩) ∨
      (∃ a, ∀ s (e : Enclosure), e.first k s = ⟨some (k, s), a || e.awaits, e.yields⟩) ∨
      ∀ s (e : Enclosure), e.first k s = e := by
  cases k with
  | function form => exact .inl ⟨form.isAsync, form.isGenerator, fun _ _ => rfl⟩
  | arrow isAsync => exact .inr (.inl ⟨isAsync, fun _ _ => rfl⟩)
  | staticBlock => exact .inl ⟨false, false, fun _ _ => rfl⟩
  | _ => exact .inr (.inr fun _ _ => rfl)

/-- Around the other children it is a function of its own or the same as around the node. -/
theorem Enclosure.others_cases (k : Kind) :
    (∃ a y, ∀ s (e : Enclosure), e.others k s = ⟨some (k, s), a, y⟩) ∨
      ∀ s (e : Enclosure), e.others k s = e := by
  cases k with
  | function form => exact .inl ⟨form.isAsync, form.isGenerator, fun _ _ => rfl⟩
  | arrow isAsync => exact .inl ⟨isAsync, false, fun _ _ => rfl⟩
  | field => exact .inl ⟨false, false, fun _ _ => rfl⟩
  | staticBlock => exact .inl ⟨false, false, fun _ _ => rfl⟩
  | _ => exact .inr fun _ _ => rfl

/-- Plain kinds place nothing and pass on what encloses them. -/
theorem ownPlacement_of_isPlain (h : k.isPlain) : ownPlacement k s e = [] := by
  cases k <;> first | rfl | cases h

theorem Enclosure.first_of_isPlain (h : k.isPlain) : e.first k s = e := by
  cases k <;> first | rfl | cases h

theorem Enclosure.others_of_isPlain (h : k.isPlain) : e.others k s = e := by
  cases k <;> first | rfl | cases h

/-- Most nodes only have the placements of their children. -/
theorem placed_of_isPlain (h : k.isPlain) : placed (.node k s cs) e = placedAll cs e := by
  cases cs with
  | nil => rw [placed_leaf, ownPlacement_of_isPlain h, placedAll_nil]
  | cons c cs =>
    rw [placed_cons, ownPlacement_of_isPlain h, Enclosure.first_of_isPlain h,
      Enclosure.others_of_isPlain h, List.nil_append, placedAll_cons]

/-! ### What fits -/

theorem fits_leaf : Fits e (.node k s []) ↔ ∀ p ∈ ownPlacement k s e, p.allowed := by
  rw [Fits, placed_leaf]

/-- A node fits if it may stand there and its children fit below it. -/
theorem fits_cons {c : Tree} :
    Fits e (.node k s (c :: cs)) ↔
      (∀ p ∈ ownPlacement k s e, p.allowed) ∧ Fits (e.first k s) c ∧
        ∀ d ∈ cs, Fits (e.others k s) d := by
  simp only [Fits, mem_placed_cons]
  constructor
  · intro h
    exact ⟨fun p hp => h p (Or.inl hp), fun p hp => h p (Or.inr (Or.inl hp)),
      fun d hd p hp => h p (Or.inr (Or.inr ⟨d, hd, hp⟩))⟩
  · rintro ⟨hown, hfirst, hothers⟩ p (hp | hp | ⟨d, hd, hp⟩)
    · exact hown p hp
    · exact hfirst p hp
    · exact hothers d hd p hp

/-- Below a plain kind the same encloses. -/
theorem fits_of_isPlain (h : k.isPlain) : Fits e (.node k s cs) ↔ ∀ t ∈ cs, Fits e t := by
  simp only [Fits, placed_of_isPlain h, placedAll, List.mem_flatMap]
  exact ⟨fun h t ht p hp => h p ⟨t, ht, hp⟩, fun h p ⟨t, ht, hp⟩ => h t ht p hp⟩

theorem forall_mem_pair {α : Type} {p : α → Prop} {a b : α} :
    (∀ x ∈ [a, b], p x) ↔ p a ∧ p b := by
  rw [List.forall_mem_cons, List.forall_mem_singleton]

theorem fits_pair (h : k.isPlain) : Fits e (.node k s [t, u]) ↔ Fits e t ∧ Fits e u := by
  rw [fits_of_isPlain h, forall_mem_pair]

/-- A node without children that is no `await` or `yield` fits everywhere. -/
theorem fits_leaf_of_isPlain (h : k.isPlain) : Fits e (.node k s []) :=
  (fits_of_isPlain h).2 fun _ ht => absurd ht List.not_mem_nil

theorem fits_absent : Fits e .absent := fits_leaf_of_isPlain rfl

/-- Only `await` and `yield` ask for something. -/
theorem ownPlacement_allowed_iff :
    (∀ p ∈ ownPlacement k s e, p.allowed) ↔
      (k = .await → e.awaits) ∧ ∀ delegate, k = .yield delegate → e.yields := by
  cases k with
  | await =>
    have hown : ownPlacement .await s e = [⟨.await, s, e.owner, e.awaits⟩] := rfl
    simp [hown]
  | yield d =>
    have hown : ownPlacement (.yield d) s e = [⟨.yield d, s, e.owner, e.yields⟩] := rfl
    simp [hown]
  | _ => exact ⟨fun _ => ⟨nofun, nofun⟩, fun _ p hp => absurd hp List.not_mem_nil⟩

/-- A node that is around all its children alike. -/
theorem fits_node_iff (h : e.first k s = e.others k s) :
    Fits e (.node k s cs) ↔
      (∀ p ∈ ownPlacement k s e, p.allowed) ∧ ∀ t ∈ cs, Fits (e.others k s) t := by
  cases cs with
  | nil => simp [fits_leaf]
  | cons c cs => rw [fits_cons, h, List.forall_mem_cons]

theorem fits_await : Fits e (.node .await s cs) ↔ e.awaits ∧ ∀ t ∈ cs, Fits e t := by
  have hothers : e.others .await s = e := rfl
  rw [fits_node_iff rfl, ownPlacement_allowed_iff, hothers]
  simp

theorem fits_yield {delegate : Bool} :
    Fits e (.node (.yield delegate) s cs) ↔ e.yields ∧ ∀ t ∈ cs, Fits e t := by
  have hothers : e.others (.yield delegate) s = e := rfl
  rw [fits_node_iff rfl, ownPlacement_allowed_iff, hothers]
  simp

/-- Inside of a function its own form decides, whatever stands around it. -/
theorem fits_function {form : FunctionForm} :
    Fits e (.node (.function form) s cs) ↔
      ∀ t ∈ cs, Fits ⟨some (.function form, s), form.isAsync, form.isGenerator⟩ t := by
  rw [fits_node_iff rfl, ownPlacement_allowed_iff]
  exact ⟨fun h => h.2, fun h => ⟨⟨nofun, nofun⟩, h⟩⟩

/-- A static block has neither. -/
theorem fits_staticBlock :
    Fits e (.node .staticBlock s cs) ↔ ∀ t ∈ cs, Fits ⟨some (.staticBlock, s), false, false⟩ t := by
  rw [fits_node_iff rfl, ownPlacement_allowed_iff]
  exact ⟨fun h => h.2, fun h => ⟨⟨nofun, nofun⟩, h⟩⟩

/-- The parameters of an arrow function stand in what is around it, its body does not. -/
theorem fits_arrow {isAsync : Bool} :
    Fits e (.node (.arrow isAsync) s [t, u]) ↔
      Fits ⟨some (.arrow isAsync, s), isAsync || e.awaits, e.yields⟩ t ∧
        Fits ⟨some (.arrow isAsync, s), isAsync, false⟩ u := by
  rw [fits_cons, ownPlacement_allowed_iff, List.forall_mem_singleton]
  exact ⟨fun h => h.2, fun h => ⟨⟨nofun, nofun⟩, h⟩⟩

/-- The value of a field has neither, its key stands in what is around the class. -/
theorem fits_field {isStatic computed : Bool} :
    Fits e (.node (.field isStatic computed) s [t, u]) ↔
      Fits e t ∧ Fits ⟨some (.field isStatic computed, s), false, false⟩ u := by
  rw [fits_cons, ownPlacement_allowed_iff, List.forall_mem_singleton]
  exact ⟨fun h => h.2, fun h => ⟨⟨nofun, nofun⟩, h⟩⟩

/-! ### Enclosures that allow as much -/

/-- An enclosure that allows whatever another one does. -/
structure Enclosure.Covers (e' e : Enclosure) : Prop where
  awaits : e.awaits → e'.awaits
  yields : e.yields → e'.yields

/-- What covers an enclosure covers it below any kind, whatever the places are. -/
theorem Enclosure.Covers.first (h : e'.Covers e) (k : Kind) (s s' : Span) :
    (e'.first k s').Covers (e.first k s) := by
  rcases Enclosure.first_cases k with ⟨a, y, hfirst⟩ | ⟨a, hfirst⟩ | hfirst
  all_goals rw [hfirst, hfirst]
  · exact ⟨id, id⟩
  · exact ⟨by simpa using fun ha => ha.imp_right h.awaits, h.yields⟩
  · exact h

theorem Enclosure.Covers.others (h : e'.Covers e) (k : Kind) (s s' : Span) :
    (e'.others k s').Covers (e.others k s) := by
  rcases Enclosure.others_cases k with ⟨a, y, hothers⟩ | hothers
  all_goals rw [hothers, hothers]
  · exact ⟨id, id⟩
  · exact h

/-- What may stand in an enclosure may stand in one that covers it. -/
theorem ownPlacement_allowed_covers (h : e'.Covers e) (s' : Span)
    (hp : ∀ p ∈ ownPlacement k s e, p.allowed) : ∀ p ∈ ownPlacement k s' e', p.allowed := by
  rw [ownPlacement_allowed_iff] at hp ⊢
  exact ⟨fun hk => h.awaits (hp.1 hk), fun d hk => h.yields (hp.2 d hk)⟩

/-- What fits an enclosure fits every one that allows as much, whatever its function is. -/
theorem Fits.covers (h : Fits e t) (hc : e'.Covers e) : Fits e' t := by
  induction t generalizing e e' with
  | node k s cs ih =>
    cases cs with
    | nil => exact fits_leaf.2 (ownPlacement_allowed_covers hc s (fits_leaf.1 h))
    | cons c cs =>
      obtain ⟨hown, hfirst, hothers⟩ := fits_cons.1 h
      refine fits_cons.2 ⟨ownPlacement_allowed_covers hc s hown, ?_, fun d hd => ?_⟩
      · exact ih c (List.mem_cons_self ..) hfirst (hc.first k s s)
      · exact ih d (List.mem_cons_of_mem _ hd) (hothers d hd) (hc.others k s s)

/-- A tree that needs nothing around it fits anywhere. -/
theorem SelfContained.fits (h : SelfContained t) (e : Enclosure) : Fits e t :=
  h.covers ⟨nofun, nofun⟩

theorem selfContained_leaf (h : k.isPlain) : SelfContained (.node k s []) := fits_leaf_of_isPlain h

/-! ### Trees up to spans and parentheses -/

/-- The same tree with all spans and parentheses forgotten. -/
def Tree.core : Tree → Tree :=
  fold fun k _ cs =>
    match k, cs with
    | .paren, [(_, inside)] => inside
    | _, _ => node k .none (cs.map Prod.snd)

/-- The core has no parentheses. -/
theorem Tree.core_paren (s : Span) (t : Tree) : (node .paren s [t]).core = t.core := by
  rw [core, fold_node]
  rfl

/-- Nor has it places. -/
theorem Tree.core_node (h : ∀ t, k = .paren → cs ≠ [t]) :
    (node k s cs).core = node k .none (cs.map core) := by
  rw [core, fold_node]
  split
  · next t inside heq =>
    obtain ⟨c, hc, -⟩ := List.map_eq_singleton_iff.1 heq
    exact absurd hc (h c rfl)
  · rw [List.map_map]
    rfl

/-- What fits is told by the tree up to spans and parentheses. -/
theorem fits_core : Fits e t.core ↔ Fits e t := by
  induction t generalizing e with
  | node k s cs ih =>
    have hself : e.Covers e := ⟨id, id⟩
    by_cases hparen : ∃ t, k = .paren ∧ cs = [t]
    · obtain ⟨t, rfl, rfl⟩ := hparen
      rw [Tree.core_paren, ih t (List.mem_singleton_self t), fits_of_isPlain rfl,
        List.forall_mem_singleton]
    rw [Tree.core_node fun t hk hc => hparen ⟨t, hk, hc⟩]
    cases cs with
    | nil =>
      rw [List.map_nil, fits_leaf, fits_leaf]
      exact ⟨ownPlacement_allowed_covers hself s, ownPlacement_allowed_covers hself .none⟩
    | cons c cs =>
      rw [List.map_cons, fits_cons, fits_cons, List.forall_mem_map, ih c (List.mem_cons_self ..)]
      constructor
      · rintro ⟨hown, hfirst, hothers⟩
        refine ⟨ownPlacement_allowed_covers hself s hown, hfirst.covers (hself.first ..), ?_⟩
        exact fun d hd => ((ih d (List.mem_cons_of_mem _ hd)).1 (hothers d hd)).covers
          (hself.others ..)
      · rintro ⟨hown, hfirst, hothers⟩
        refine ⟨ownPlacement_allowed_covers hself .none hown, hfirst.covers (hself.first ..), ?_⟩
        exact fun d hd => (ih d (List.mem_cons_of_mem _ hd)).2
          ((hothers d hd).covers (hself.others ..))

/-! ### Enclosures that agree -/

/-- An enclosure that allows whatever another one does, and in the same function. -/
structure Enclosure.Agrees (e' e : Enclosure) : Prop where
  awaits : e.awaits → e'.awaits ∧ e'.owner = e.owner
  yields : e.yields → e'.yields ∧ e'.owner = e.owner

/-- An enclosure that allows nothing asks nothing of the other one. -/
theorem Enclosure.agrees_of_plain (h : e.awaits = false ∧ e.yields = false) (e' : Enclosure) :
    e'.Agrees e := by
  refine ⟨fun ha => ?_, fun hy => ?_⟩
  · rw [h.1] at ha
    cases ha
  · rw [h.2] at hy
    cases hy

theorem Enclosure.Agrees.first (h : e'.Agrees e) (k : Kind) (s : Span) :
    (e'.first k s).Agrees (e.first k s) := by
  rcases Enclosure.first_cases k with ⟨a, y, hfirst⟩ | ⟨a, hfirst⟩ | hfirst
  all_goals rw [hfirst, hfirst]
  · exact ⟨fun ha => ⟨ha, rfl⟩, fun hy => ⟨hy, rfl⟩⟩
  · refine ⟨fun ha => ⟨?_, rfl⟩, fun hy => ⟨(h.yields hy).1, rfl⟩⟩
    rcases Bool.or_eq_true_iff.1 ha with ha | ha
    · exact Bool.or_eq_true_iff.2 (Or.inl ha)
    · exact Bool.or_eq_true_iff.2 (Or.inr (h.awaits ha).1)
  · exact h

theorem Enclosure.Agrees.others (h : e'.Agrees e) (k : Kind) (s : Span) :
    (e'.others k s).Agrees (e.others k s) := by
  rcases Enclosure.others_cases k with ⟨a, y, hothers⟩ | hothers
  all_goals rw [hothers, hothers]
  · exact ⟨fun ha => ⟨ha, rfl⟩, fun hy => ⟨hy, rfl⟩⟩
  · exact h

/-- If all placements are allowed, enclosures that agree give the same ones. -/
theorem ownPlacement_of_agrees (h : e'.Agrees e) (hp : ∀ p ∈ ownPlacement k s e, p.allowed) :
    ownPlacement k s e' = ownPlacement k s e := by
  rw [ownPlacement_allowed_iff] at hp
  cases k with
  | await =>
    have hown (e : Enclosure) : ownPlacement .await s e = [⟨.await, s, e.owner, e.awaits⟩] := rfl
    obtain ⟨hawaits, howner⟩ := h.awaits (hp.1 rfl)
    rw [hown, hown, hawaits, howner, hp.1 rfl]
  | yield d =>
    have hown (e : Enclosure) :
        ownPlacement (.yield d) s e = [⟨.yield d, s, e.owner, e.yields⟩] := rfl
    obtain ⟨hyields, howner⟩ := h.yields (hp.2 d rfl)
    rw [hown, hown, hyields, howner, hp.2 d rfl]
  | _ => rfl

/-- A tree that fits has the same placements wherever the enclosure agrees. -/
theorem placed_of_agrees (h : Fits e t) (ha : e'.Agrees e) : placed t e' = placed t e := by
  induction t generalizing e e' with
  | node k s cs ih =>
    cases cs with
    | nil => rw [placed_leaf, placed_leaf, ownPlacement_of_agrees ha (fits_leaf.1 h)]
    | cons c cs =>
      obtain ⟨hown, hfirst, hothers⟩ := fits_cons.1 h
      have hrest : placedAll cs (e'.others k s) = placedAll cs (e.others k s) :=
        List.flatMap_congr fun d hd =>
          ih d (List.mem_cons_of_mem _ hd) (hothers d hd) (ha.others k s)
      rw [placed_cons, placed_cons, ownPlacement_of_agrees ha hown,
        ih c (List.mem_cons_self ..) hfirst (ha.first k s), hrest]

/-- What fits where nothing is allowed has the same placements in every enclosure. -/
theorem SelfContained.placed_eq (h : SelfContained t) (e e' : Enclosure) :
    placed t e = placed t e' := by
  have hplain (e : Enclosure) : placed t e = placed t .plain :=
    placed_of_agrees h (Enclosure.agrees_of_plain ⟨rfl, rfl⟩ e)
  rw [hplain e, hplain e']

end CallBridge.Script
