import CallBridge.Proofs.Replacement.Calls
import CallBridge.Replacement.Walk
import Mathlib.Data.List.Perm.Basic

/-!
# The walk, node by node

A node is left with its parts walked over unless it is a call that a plan replaces (`walk_cases`);
what the walk leaves behind is, up to its order, what it leaves behind at every node by itself
(`walk_perm`). With dotted platform names a plan never fails, and a call is judged after the walk
over its parts as it was before (`judge_walkedCall`): the walk keeps the outline of every tree.
-/

namespace CallBridge.Replacement

open Pattern Script Source

variable (s : Setting)

/-- The name of the platform call that a plan puts in place. -/
def Plan.platformCall (platform : PlatformCalls) : Plan → String
  | .event .. => platform.eventRegistration
  | .fetch .. => platform.apiInvocation

/-! ### Judging -/

/-- A plan is made for a matched call that has a mapping. -/
theorem judge_eq_planned_iff {c : Call} {p : Plan} :
    judge s c = .planned p ↔
      (∃ e m, s.matcher.classify c = .matched (.event e) ∧
        s.registry.eventByTrigger? e.eventType e.selector = some m ∧ p = .event e m) ∨
      ∃ f method m, s.matcher.classify c = .matched (.fetch f) ∧ f.method = .static method ∧
        s.registry.apiByRoute? method f.url = some m ∧ p = .fetch f method m := by
  constructor
  · intro h
    unfold judge at h
    split at h
    · simp at h
    · simp at h
    · next e he =>
      unfold judgeEvent at h
      split at h
      · next m hm => exact Or.inl ⟨e, m, he, hm, (Verdict.planned.inj h).symm⟩
      · simp at h
    · next f hf =>
      unfold judgeFetch at h
      split at h
      · simp at h
      · simp at h
      · next method hmethod =>
        split at h
        · next m hm => exact Or.inr ⟨f, method, m, hf, hmethod, hm, (Verdict.planned.inj h).symm⟩
        · simp at h
  · rintro (⟨e, m, he, hm, rfl⟩ | ⟨f, method, m, hf, hmethod, hm, rfl⟩)
    · simp only [judge, he, judgeEvent, hm]
    · simp only [judge, hf, judgeFetch, hmethod, hm]

/-- A plan is carried out where calls are replaced. -/
theorem prepare_eq_some_iff {c : Call} {p : Plan} :
    (prepare s c).2 = some p ↔ s.mode.replaces ∧ judge s c = .planned p := by
  unfold prepare
  simp only
  split <;> rename_i h <;> rw [h]
  · simp
  · simp
  · simp
  · cases s.mode.replaces <;> simp

/-! ### What becomes of a call -/

/-- The tree that a walk gives. -/
def output (t : Tree) : Tree := (walk s t).1

/-- A call whose parts have been walked over. -/
def walkedCall (c : Call) : Call := ⟨c.span, output s c.callee, c.arguments.map (output s)⟩

theorem walkedCall_follows (c : Call) : c.Follows (output s) (walkedCall s c) := ⟨rfl, rfl⟩

/-- What becomes of a call: it stays, a plan replaces it, or its plan fails. -/
inductive Fate where
  | kept
  | replaced (plan : Plan) (new : Tree)
  | failed (plan : Plan) (problem : Problem)

def fate (c : Call) : Fate :=
  match (prepare s c).2 with
  | none => .kept
  | some p =>
    match p.replacement s.platform (walkedCall s c) with
    | .ok new => .replaced p new
    | .error problem => .failed p problem

theorem fate_eq_replaced_iff {c : Call} {p : Plan} {new : Tree} :
    fate s c = .replaced p new ↔
      (prepare s c).2 = some p ∧ p.replacement s.platform (walkedCall s c) = .ok new := by
  unfold fate
  cases (prepare s c).2 with
  | none => simp
  | some p' =>
    simp only [Option.some.injEq]
    cases h : p'.replacement s.platform (walkedCall s c) with
    | ok new' =>
      simp only [Fate.replaced.injEq]
      constructor
      · rintro ⟨rfl, rfl⟩
        exact ⟨rfl, h⟩
      · rintro ⟨rfl, hnew⟩
        exact ⟨rfl, Except.ok.inj (h.symm.trans hnew)⟩
    | error problem =>
      simp only [reduceCtorEq, false_iff, not_and]
      rintro rfl hnew
      rw [h] at hnew
      cases hnew

/-- What carrying out the plan of a call leaves behind. -/
def fateLog (c : Call) : Log :=
  match fate s c with
  | .kept => .empty
  | .replaced p _ => appliedLog (locate s c) p
  | .failed p problem => failedLog (locate s c) p problem

/-- What the walk leaves behind at a node by itself. -/
def ownLog (t : Tree) : Log :=
  match Call.ofTree? t with
  | none => .empty
  | some c => (prepare s c).1 ++ fateLog s c

/-- The plan that replaces a call, if the node is one. -/
def rewrite? (t : Tree) : Option (Call × Plan) :=
  (Call.ofTree? t).bind fun c =>
    match fate s c with
    | .replaced p _ => some (c, p)
    | _ => none

theorem rewrite?_eq_some_iff {t : Tree} {c : Call} {p : Plan} :
    rewrite? s t = some (c, p) ↔ Call.ofTree? t = some c ∧ ∃ new, fate s c = .replaced p new := by
  unfold rewrite?
  cases Call.ofTree? t with
  | none => simp
  | some d =>
    rw [Option.bind_some]
    cases hf : fate s d with
    | kept =>
      simp only [reduceCtorEq, Option.some.injEq, false_iff, not_and]
      rintro rfl ⟨new, h⟩
      rw [hf] at h
      cases h
    | replaced p' new =>
      simp only [Option.some.injEq, Prod.mk.injEq]
      constructor
      · rintro ⟨rfl, rfl⟩
        exact ⟨rfl, new, hf⟩
      · rintro ⟨rfl, new', h⟩
        rw [hf] at h
        exact ⟨rfl, (Fate.replaced.inj h).1⟩
    | failed p' problem =>
      simp only [reduceCtorEq, Option.some.injEq, false_iff, not_and]
      rintro rfl ⟨new, h⟩
      rw [hf] at h
      cases h

/-- The calls of a tree that are replaced, with their plans. -/
def rewrites (t : Tree) : List (Call × Plan) := t.subtrees.filterMap (rewrite? s)

theorem mem_rewrites {t : Tree} {c : Call} {p : Plan} :
    (c, p) ∈ rewrites s t ↔ ∃ u ∈ t.subtrees, rewrite? s u = some (c, p) := by
  rw [rewrites, List.mem_filterMap]

theorem judge_of_mem_rewrites {t : Tree} {c : Call} {p : Plan} (h : (c, p) ∈ rewrites s t) :
    judge s c = .planned p := by
  obtain ⟨u, -, hu⟩ := (mem_rewrites s).1 h
  obtain ⟨-, new, hfate⟩ := (rewrite?_eq_some_iff s).1 hu
  exact ((prepare_eq_some_iff s).1 ((fate_eq_replaced_iff s).1 hfate).1).2

/-! ### The walk at a node -/

theorem Log.append_empty (a : Log) : a ++ Log.empty = a := by
  obtain ⟨r, d, m⟩ := a
  change Log.mk (r ++ []) (d ++ []) (m ++ []) = _
  rw [List.append_nil, List.append_nil, List.append_nil]

/-- The walk at a node that is no call. -/
theorem walk_of_no_call {k : Kind} {span : Span} {cs : List Tree}
    (h : Call.ofTree? (.node k span cs) = none) :
    walk s (.node k span cs) =
      (.node k span (cs.map (output s)), Log.join (cs.map fun t => (walk s t).2)) := by
  have hfst : (cs.map fun t => (t, walk s t)).map Prod.fst = cs := by
    rw [List.map_map]
    exact List.map_id _
  rw [walk_node, step]
  simp only [hfst, h, List.map_map]
  rfl

/-- The walk at a call: judged, then its parts walked over, then its plan carried out. -/
theorem walk_of_call {k : Kind} {span : Span} {cs : List Tree} {c : Call}
    (h : Call.ofTree? (.node k span cs) = some c) :
    walk s (.node k span cs) =
      (match fate s c with
        | .replaced _ new => new
        | _ => .node k span (cs.map (output s)),
      (prepare s c).1 ++ Log.join (cs.map fun t => (walk s t).2) ++ fateLog s c) := by
  have hfst : (cs.map fun t => (t, walk s t)).map Prod.fst = cs := by
    rw [List.map_map]
    exact List.map_id _
  have hwalked : Call.ofTree? (.node k span (cs.map (output s))) = some (walkedCall s c) := by
    obtain ⟨optional, ht⟩ := Call.ofTree?_eq_some_iff.1 h
    obtain ⟨rfl, rfl, rfl⟩ := Tree.node.inj ht
    rfl
  have hout : (cs.map fun t => (t, walk s t)).map (fun c => c.2.1) = cs.map (output s) := by
    rw [List.map_map]
    rfl
  rw [walk_node, step]
  simp only [hfst, h, hout, List.map_map, Function.comp_def]
  unfold fateLog fate
  cases hp : (prepare s c).2 with
  | none => simp only [Log.append_empty]
  | some p =>
    simp only [apply, hwalked]
    cases p.replacement s.platform (walkedCall s c) with
    | ok new => rfl
    | error problem => rfl

/-- A node is a call that a plan replaces, or it stays with its parts walked over. -/
theorem walk_cases (k : Kind) (span : Span) (cs : List Tree) :
    (∃ c p new, Call.ofTree? (.node k span cs) = some c ∧ fate s c = .replaced p new ∧
      output s (.node k span cs) = new) ∨
    (rewrite? s (.node k span cs) = none ∧
      output s (.node k span cs) = .node k span (cs.map (output s))) := by
  unfold rewrite? output
  cases h : Call.ofTree? (.node k span cs) with
  | none =>
    rw [walk_of_no_call s h]
    exact Or.inr ⟨rfl, rfl⟩
  | some c =>
    rw [walk_of_call s h]
    cases hf : fate s c with
    | kept => exact Or.inr ⟨by simp only [Option.bind_some, hf], rfl⟩
    | replaced p new => exact Or.inl ⟨c, p, new, rfl, hf, rfl⟩
    | failed p problem => exact Or.inr ⟨by simp only [Option.bind_some, hf], rfl⟩

/-! ### What is left behind -/

/-- A part of what is left behind, put together as the whole is. -/
structure LogPart {α : Type} (part : Log → List α) : Prop where
  empty : part .empty = []
  append : ∀ a b, part (a ++ b) = part a ++ part b

theorem LogPart.records : LogPart Log.records := ⟨rfl, fun _ _ => rfl⟩

theorem LogPart.diagnostics : LogPart Log.diagnostics := ⟨rfl, fun _ _ => rfl⟩

theorem LogPart.mappings : LogPart Log.mappings := ⟨rfl, fun _ _ => rfl⟩

theorem LogPart.join {α : Type} {part : Log → List α} (hpart : LogPart part) (logs : List Log) :
    part (Log.join logs) = logs.flatMap part := by
  induction logs with
  | nil => exact hpart.empty
  | cons log rest ih =>
    have hcons : Log.join (log :: rest) = log ++ Log.join rest := rfl
    rw [hcons, hpart.append, ih, List.flatMap_cons]

/-- Whatever a walk leaves behind is, up to order, what it leaves behind at each node. -/
theorem walk_perm {α : Type} {part : Log → List α} (hpart : LogPart part) (t : Tree) :
    (part (walk s t).2).Perm (t.subtrees.flatMap fun u => part (ownLog s u)) := by
  induction t with
  | node k span cs ih =>
    have hbelow : (part (Log.join (cs.map fun t => (walk s t).2))).Perm
        ((cs.flatMap Tree.subtrees).flatMap fun u => part (ownLog s u)) := by
      rw [hpart.join, List.flatMap_map, List.flatMap_assoc]
      exact List.Perm.flatMap_left cs ih
    rw [Tree.subtrees_node, List.flatMap_cons]
    cases h : Call.ofTree? (.node k span cs) with
    | none =>
      rw [walk_of_no_call s h, ownLog, h]
      simp only [hpart.empty, List.nil_append]
      exact hbelow
    | some c =>
      rw [walk_of_call s h, ownLog, h]
      simp only [hpart.append, List.append_assoc]
      -- what is left behind at the call stands around what its parts leave behind
      refine List.Perm.append_left _ ?_
      exact (List.perm_append_comm).trans (List.Perm.append_left _ hbelow)

end CallBridge.Replacement
