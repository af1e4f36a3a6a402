import CallBridge.Proofs.Registry.Contents
import CallBridge.Proofs.Replacement.Outline
import Mathlib.Data.List.Flatten

/-!
# What survives a walk

A replaced call keeps of its parts nothing but its handler or its body; a node that stays keeps all
of them. What can be reached from the root through kept parts survives. Main statement: the platform
calls in an output are those of the surviving nodes (`callsTo_output`).
-/

namespace CallBridge.Replacement

open Pattern Script Source

/-! ### Surviving nodes -/

/-- What a plan takes over from a call. -/
def Plan.taken (c : Call) : Plan → List Tree
  | .event e _ => (c.argument? e.handlerIndex).toList
  | .fetch f _ _ => ((bodyExpression? c f.body).toOption.bind id).toList

/-- What is taken over is at most one part of the arguments. -/
theorem Plan.taken_cases (c : Call) (p : Plan) :
    p.taken c = [] ∨ ∃ u, p.taken c = [u] ∧ ∃ a ∈ c.arguments, u ∈ a.subtrees := by
  cases p with
  | event e m =>
    rw [Plan.taken]
    cases h : c.argument? e.handlerIndex with
    | none => exact Or.inl rfl
    | some u => exact Or.inr ⟨u, rfl, u, Call.argument?_mem h, Tree.self_mem_subtrees u⟩
  | fetch f method m =>
    rw [Plan.taken]
    cases h : bodyExpression? c f.body with
    | error problem => exact Or.inl rfl
    | ok body =>
      cases body with
      | none => exact Or.inl rfl
      | some u => exact Or.inr ⟨u, rfl, bodyExpression?_mem_subtrees h⟩

variable (s : Setting)

/-- The parts of a node that its output is made of. -/
def parts (t : Tree) : List Tree :=
  match rewrite? s t with
  | some (c, p) => p.taken c
  | none => t.children

theorem parts_of_rewrite {t : Tree} {c : Call} {p : Plan} (h : rewrite? s t = some (c, p)) :
    parts s t = p.taken c := by
  rw [parts, h]

theorem parts_of_none {t : Tree} (h : rewrite? s t = none) : parts s t = t.children := by
  rw [parts, h]

theorem parts_sublist (t : Tree) :
    ((parts s t).flatMap Tree.subtrees).Sublist (t.children.flatMap Tree.subtrees) := by
  cases h : rewrite? s t with
  | none =>
    rw [parts_of_none s h]
  | some found =>
    obtain ⟨c, p⟩ := found
    rw [parts_of_rewrite s h]
    obtain ⟨optional, rfl⟩ := Call.ofTree?_eq_some_iff.1 ((rewrite?_eq_some_iff s).1 h).1
    rcases p.taken_cases c with htaken | ⟨u, htaken, a, ha, hu⟩
    · rw [htaken]
      exact List.nil_sublist _
    · rw [htaken, List.flatMap_singleton, List.flatMap_def]
      refine (Tree.subtrees_sublist hu).trans (List.sublist_flatten_of_mem ?_)
      exact List.mem_map_of_mem (List.mem_cons_of_mem _ ha)

theorem size_lt_of_mem_parts {t u : Tree} (h : u ∈ parts s t) : u.size < t.size := by
  obtain ⟨k, span, cs⟩ := t
  have hmem : u ∈ (parts s (.node k span cs)).flatMap Tree.subtrees :=
    List.mem_flatMap.2 ⟨u, h, Tree.self_mem_subtrees u⟩
  obtain ⟨t, ht, hut⟩ := List.mem_flatMap.1 ((parts_sublist s _).subset hmem)
  exact Tree.size_lt_of_child ht hut

/-- The nodes of a tree that can be reached through parts that are kept. -/
def survivors (t : Tree) : List Tree :=
  t :: (parts s t).attach.flatMap fun u => survivors u.1
termination_by t.size
decreasing_by exact size_lt_of_mem_parts s u.2

theorem survivors_eq (t : Tree) :
    survivors s t = t :: (parts s t).flatMap (survivors s) := by
  rw [survivors]
  congr 1
  rw [List.flatMap_def, List.flatMap_def, List.attach_map_val]

/-- Every surviving node is a node of the tree. -/
theorem survivors_sublist (t : Tree) : (survivors s t).Sublist t.subtrees := by
  induction h : t.size using Nat.strongRecOn generalizing t with
  | ind n ih =>
    subst h
    obtain ⟨k, span, cs⟩ := t
    rw [survivors_eq, Tree.subtrees_node]
    have hparts : ((parts s (.node k span cs)).flatMap (survivors s)).Sublist
        ((parts s (.node k span cs)).flatMap Tree.subtrees) :=
      List.Sublist.flatMap_right _ fun u hu => ih _ (size_lt_of_mem_parts s hu) u rfl
    exact (hparts.trans (parts_sublist s _)).cons_cons _

/-! ### Calls of a name -/

def isCallTo (name : String) (c : Call) : Bool := calleePath? c.callee == some name

theorem isCallTo_iff {name path : String} {c : Call} (h : calleePath? c.callee = some path) :
    isCallTo name c ↔ path = name := by
  rw [isCallTo, h, beq_iff_eq, Option.some.injEq]

/-- A call counts as one of a name when its dotted name is that name. -/
theorem ite_isCallTo {name path : String} {c : Call} (h : calleePath? c.callee = some path) :
    (if isCallTo name c then 1 else 0) = if path = name then 1 else 0 := by
  by_cases hp : path = name
  · rw [if_pos ((isCallTo_iff h).2 hp), if_pos hp]
  · rw [if_neg fun hc => hp ((isCallTo_iff h).1 hc), if_neg hp]

/-- The number of calls of a dotted name in a tree. -/
def callsTo (name : String) (t : Tree) : Nat := callsWhere (isCallTo name) t

/-- Whether the handler that a plan wraps, and thus calls, is itself of a name. -/
def Plan.handlerNamed (name : String) (c : Call) : Plan → Bool
  | .event e _ => (c.argument? e.handlerIndex).any fun handler => calleePath? handler == some name
  | .fetch .. => false

/-- The calls of a name that a node stands for in the output: the platform call put in its place and
the call of the handler in the wrapper, or the node itself. -/
def weight (name : String) (t : Tree) : Nat :=
  match rewrite? s t with
  | some (c, p) =>
    (if p.platformCall s.platform = name then 1 else 0) + (if p.handlerNamed name c then 1 else 0)
  | none => if (Call.ofTree? t).any (isCallTo name) then 1 else 0

/-- The calls in the parts of a node count one part at a time. -/
theorem callsWhereAll_map_eq_sum {q : Call → Bool} {f : Tree → List Tree} {w : Tree → Nat}
    {φ : Tree → Tree} {ts : List Tree}
    (h : ∀ t ∈ ts, callsWhere q (φ t) = ((f t).map w).sum) :
    callsWhereAll q (ts.map φ) = ((ts.flatMap f).map w).sum := by
  induction ts with
  | nil => rfl
  | cons t rest ih =>
    rw [List.map_cons, callsWhereAll_cons, List.flatMap_cons, List.map_append, List.sum_append,
      h t (List.mem_cons_self ..), ih fun t ht => h t (List.mem_cons_of_mem _ ht)]

section Calls

variable {registry : Registry} {config : Config} {source : List Char} {names : List String}
  (hd : Dotted config.platform) (ha : Apart config names) (hs : "JSON.stringify" ∈ names)
  (hbody : ∀ m ∈ registry.apis, CarriesOnce m) {name : String} (hname : name ≠ "JSON.parse")

include hd ha hs hbody hname

/-- The calls in a replacement: the platform call, the call of the handler in the wrapper, and
those in what is taken over. -/
theorem callsTo_replacement {c : Call} {p : Plan} {new : Tree}
    (hjudge : judge (settingOf registry config .production source) c = .planned p)
    (hnew : p.replacement config.platform
      (walkedCall (settingOf registry config .production source) c) = .ok new) :
    callsTo name new =
      (if p.platformCall config.platform = name then 1 else 0) +
        (if p.handlerNamed name c then 1 else 0) +
        callsWhereAll (isCallTo name)
          ((p.taken c).map (output (settingOf registry config .production source))) := by
  have hkeeps : KeepsOutline names (output (settingOf registry config .production source)) :=
    output_keepsOutline hd ha
  have hfollows := walkedCall_follows (settingOf registry config .production source) c
  cases p with
  | event e m =>
    obtain ⟨handler, hhandler⟩ := handler_of_judge hjudge
    have hwalked := hkeeps.argument?_eq hfollows e.handlerIndex
    rw [hhandler, Option.map_some] at hwalked
    obtain ⟨t, c', p, hok, -, hpath, hcalls⟩ := callsWhere_ofEvent hd.event hwalked m.platformName
    obtain rfl := Except.ok.inj (hok.symm.trans hnew)
    -- the wrapper calls the handler, by its name if it has one
    have hwrapper : isCallTo name ⟨Span.none, output (settingOf registry config .production source)
        handler, [referenceNode p]⟩ = (calleePath? handler == some name) := by
      rw [isCallTo, hkeeps.calleePath?_eq]
    rw [callsTo, hcalls, hwrapper, ite_isCallTo hpath]
    simp only [Plan.platformCall, Plan.handlerNamed, Plan.taken, hhandler,
      Option.any_some, Option.toList_some, List.map_cons, List.map_nil, callsWhereAll_cons,
      callsWhereAll_nil, Nat.add_zero]
    rfl
  | fetch f method m =>
    obtain ⟨-, hspec⟩ := request_of_judge hjudge
    obtain ⟨body, hexpression⟩ := bodyExpression?_bodyOf c
    rw [← hspec] at hexpression
    have hwalked := bodyExpression?_eq hkeeps hs hfollows f.body
    rw [hexpression] at hwalked
    obtain ⟨t, c', hok, -, hpath, hcalls⟩ := callsWhere_ofFetch hd.api hwalked f.url method m
    obtain rfl := Except.ok.inj (hok.symm.trans hnew)
    -- what is parsed again stands in a call of `JSON.parse`, which is not counted
    have hparse : ∀ inside : Tree, ¬ isCallTo name (parseCall inside) := by
      intro inside h
      have hcallee : calleePath? (parseCall inside).callee = some "JSON.parse" := rfl
      exact hname ((isCallTo_iff hcallee).1 h).symm
    have hm : CarriesOnce m := by
      rcases (judge_eq_planned_iff _).1 hjudge with
        ⟨_, _, -, -, hp⟩ | ⟨f', method', m', -, -, hm, hp⟩
      · cases hp
      · obtain ⟨rfl, rfl, rfl⟩ := Plan.fetch.inj hp
        exact hbody _ (Registry.apiByRoute?_mem hm)
    rw [callsTo, hcalls, callsWhere_bodyNode, ite_isCallTo hpath]
    simp only [Plan.platformCall, Plan.handlerNamed, Plan.taken, hexpression, Except.toOption,
      hparse, and_false, Bool.false_eq_true, ↓reduceIte, Nat.add_zero, Nat.zero_add]
    cases body with
    | none =>
      rw [Option.map_none, Option.map_none, hm.absent, Nat.zero_mul]
      rfl
    | some b =>
      rw [Option.map_some, Option.map_some, hm.deferred, Nat.one_mul]
      rfl

/-- The calls of a name in an output are those that the surviving nodes stand for. -/
theorem callsTo_output (t : Tree) :
    callsTo name (output (settingOf registry config .production source) t) =
      ((survivors (settingOf registry config .production source) t).map
        (weight (settingOf registry config .production source) name)).sum := by
  induction h : t.size using Nat.strongRecOn generalizing t with
  | ind n ih =>
    subst h
    have hparts : callsWhereAll (isCallTo name)
        ((parts (settingOf registry config .production source) t).map
          (output (settingOf registry config .production source))) =
        (((parts (settingOf registry config .production source) t).flatMap
          (survivors (settingOf registry config .production source))).map
            (weight (settingOf registry config .production source) name)).sum :=
      callsWhereAll_map_eq_sum fun u hu => ih _ (size_lt_of_mem_parts _ hu) u rfl
    rw [survivors_eq, List.map_cons, List.sum_cons, ← hparts]
    obtain ⟨k, span, cs⟩ := t
    rcases walk_cases (settingOf registry config .production source) k span cs with
      ⟨c, p, new, hc, hfate, hout⟩ | ⟨hkept, hout⟩
    · have hrewrite := (rewrite?_eq_some_iff _).2 ⟨hc, new, hfate⟩
      obtain ⟨hprepare, hnew⟩ := (fate_eq_replaced_iff _).1 hfate
      obtain ⟨-, hjudge⟩ := (prepare_eq_some_iff _).1 hprepare
      rw [hout, parts_of_rewrite _ hrewrite, weight, hrewrite]
      exact callsTo_replacement hd ha hs hbody hname hjudge hnew
    · rw [hout, parts_of_none _ hkept, weight, hkept, callsTo, callsWhere_node]
      congr 2
      cases hc : Call.ofTree? (.node k span cs) with
      | none => rw [Call.ofTree?_map_eq_none hc]
      | some c =>
        obtain ⟨c', hc', hfollows, -⟩ := Call.ofTree?_map hc
          (output (settingOf registry config .production source)) span
        rw [hc', Option.any_some, Option.any_some, isCallTo, hfollows.callee,
          (output_keepsOutline hd ha).calleePath?_eq]
        rfl

end Calls

end CallBridge.Replacement
