import CallBridge.Proofs.Number.Digits
import CallBridge.Proofs.Replacement.Shape
import CallBridge.Proofs.Script.Scope
import Mathlib.Data.List.Nodup
import Mathlib.Data.List.Perm.Subperm

/-!
# The wrapper of a handler captures nothing

The parameter of a wrapper is a name that the handler refers to nowhere, so that every free name of
the handler is free in the replacement as well. Names to fall back on are pairwise distinct, so one
of the first `n + 1` of them is not among `n` names that are taken (`freshName_spec`). Main
statement: the free names of a registration are those of the handler behind the leading name of the
platform call (`ofEvent_freeNames`).
-/

namespace CallBridge.Replacement

open Number Pattern Script

/-! ### The parameter of a handler -/

theorem references_node (k : Kind) (s : Span) (cs : List Tree) :
    references (.node k s cs) = k.referred?.toList ++ cs.flatMap references := by
  have hbelow : (cs.map fun t => (t, references t)).flatMap Prod.snd = cs.flatMap references :=
    List.flatMap_map ..
  rw [← hbelow]
  cases k <;> exact Tree.fold_node ..

/-- The names that the search goes by are those that some node refers to. -/
theorem mem_references_iff {name : String} {t : Tree} : name ∈ references t ↔ t.RefersTo name := by
  induction t with
  | node k s cs ih =>
    have hbelow : name ∈ cs.flatMap references ↔
        ∃ u ∈ cs.flatMap Tree.subtrees, u.kind.referred? = some name := by
      simp only [List.mem_flatMap]
      constructor
      · rintro ⟨c, hc, hname⟩
        obtain ⟨u, hu, hown⟩ := (ih c hc).1 hname
        exact ⟨u, ⟨c, hc, hu⟩, hown⟩
      · rintro ⟨u, ⟨c, hc, hu⟩, hown⟩
        exact ⟨c, hc, (ih c hc).2 ⟨u, hu, hown⟩⟩
    rw [references_node, List.mem_append, Option.mem_toList, hbelow, Tree.RefersTo,
      Tree.subtrees_node, List.exists_mem_cons_iff]
    rfl

theorem fallbackName_injective : Function.Injective fallbackName := by
  have htext : ∀ n, (fallbackName n).toList =
      "__ktnEvent".toList ++ if n = 0 then [] else digitsOf n := by
    intro n
    unfold fallbackName
    split
    · rfl
    · simp [digitsOf]
  intro m n h
  have hdigits : (if m = 0 then [] else digitsOf m) = if n = 0 then [] else digitsOf n :=
    List.append_cancel_left (htext m ▸ htext n ▸ congrArg String.toList h)
  by_cases hm : m = 0 <;> by_cases hn : n = 0
  · rw [hm, hn]
  · rw [if_pos hm, if_neg hn] at hdigits
    exact absurd hdigits.symm (digitsOf_ne_nil n)
  · rw [if_neg hm, if_pos hn] at hdigits
    exact absurd hdigits (digitsOf_ne_nil m)
  · rw [if_neg hm, if_neg hn] at hdigits
    rw [← foldl_digitsOf m, hdigits, foldl_digitsOf]

/-- Among one name more than are taken, one is not taken. -/
theorem exists_fallbackName_not_mem (taken : List String) :
    ∃ n ≤ taken.length, fallbackName n ∉ taken := by
  by_contra hall
  have hsubset : (List.range (taken.length + 1)).map fallbackName ⊆ taken := by
    intro w hw
    obtain ⟨n, hn, rfl⟩ := List.mem_map.1 hw
    by_contra hfree
    exact hall ⟨n, Nat.le_of_lt_succ (List.mem_range.1 hn), hfree⟩
  have hnodup : ((List.range (taken.length + 1)).map fallbackName).Nodup :=
    List.Nodup.map fallbackName_injective List.nodup_range
  have hlength := (List.subperm_of_subset hnodup hsubset).length_le
  rw [List.length_map, List.length_range] at hlength
  omega

/-- The search ends with the first name that is not taken. -/
theorem freshName_spec (taken : List String) :
    ∃ n ≤ taken.length, freshName taken = fallbackName n ∧ fallbackName n ∉ taken ∧
      ∀ i < n, fallbackName i ∈ taken := by
  have hfind : ((List.range (taken.length + 1)).find?
      fun n => !taken.contains (fallbackName n)).isSome := by
    obtain ⟨n, hn, hfree⟩ := exists_fallbackName_not_mem taken
    exact List.find?_isSome.2 ⟨n, by simpa using Nat.lt_succ_of_le hn, by simpa using hfree⟩
  obtain ⟨n, hn⟩ := Option.isSome_iff_exists.1 hfind
  have hname : freshName taken = fallbackName n := by
    simp only [freshName, List.find?_map, Function.comp_def, hn, Option.map_some,
      Option.getD_some]
  obtain ⟨hfree, hbound, hbefore⟩ := List.find?_range_eq_some.1 hn
  refine ⟨n, Nat.le_of_lt_succ (by simpa using hbound), hname, by simpa using hfree, ?_⟩
  intro i hi
  simpa using hbefore i hi

theorem eventParameter_of_not_refersTo {handler : Tree} (h : ¬ handler.RefersTo "event") :
    eventParameter handler = "event" := by
  have hfree : (references handler).contains "event" = false := by
    simpa [mem_references_iff] using h
  rw [eventParameter, hfree]
  rfl

theorem eventParameter_of_refersTo {handler : Tree} (h : handler.RefersTo "event") :
    eventParameter handler = freshName (references handler) := by
  have htaken : (references handler).contains "event" = true := by
    simpa [mem_references_iff] using h
  rw [eventParameter, htaken]
  rfl

/-- A handler does not refer to the parameter of its wrapper. -/
theorem not_refersTo_eventParameter (handler : Tree) :
    ¬ handler.RefersTo (eventParameter handler) := by
  by_cases h : handler.RefersTo "event"
  · obtain ⟨n, -, hname, hfree, -⟩ := freshName_spec (references handler)
    rwa [eventParameter_of_refersTo h, hname, ← mem_references_iff]
  · rwa [eventParameter_of_not_refersTo h]

/-! ### Free names of built nodes -/

variable {sloppy : Bool} {p : String} {handler : Tree}

theorem freeNames_callNode (callee : Tree) (arguments : List Tree) :
    (callNode callee arguments).freeNames sloppy =
      callee.freeNames sloppy ++ arguments.flatMap (Tree.freeNames sloppy) := by
  rw [callNode, bare, Tree.freeNames_of_introduced_eq_nil (by simp) rfl]
  rfl

theorem freeNames_referenceNode (name : String) :
    (referenceNode name).freeNames sloppy = [name] :=
  Tree.freeNames_leaf (by simp)

theorem freeNames_stringNode (s : String) : (stringNode s).freeNames sloppy = [] :=
  Tree.freeNames_leaf (by simp)

theorem freeNames_pathNode (first : Tree) (members : List String) :
    (pathNode first members).freeNames sloppy = first.freeNames sloppy := by
  induction members generalizing first with
  | nil => rfl
  | cons m rest ih =>
    rw [pathNode, List.foldl_cons]
    refine (ih _).trans ?_
    rw [bare, Tree.freeNames_of_introduced_eq_nil (by simp) rfl, List.flatMap_singleton]
    rfl

/-- A wrapper whose parameter the handler does not refer to has the free names of the handler. -/
theorem freeNames_wrapperNode (hp : ¬ handler.RefersTo p) :
    (wrapperNode p handler).freeNames sloppy = handler.freeNames sloppy := by
  have hcall : (bare .expressionStatement [callNode handler [referenceNode p]]).freeNames sloppy =
      handler.freeNames sloppy ++ [p] := by
    rw [bare, Tree.freeNames_of_introduced_eq_nil (by simp) rfl, List.flatMap_singleton,
      freeNames_callNode, List.flatMap_singleton, freeNames_referenceNode]
    rfl
  have hreturn : (bare .returning [referenceNode p]).freeNames sloppy = [p] := by
    rw [bare, Tree.freeNames_of_introduced_eq_nil (by simp) rfl, List.flatMap_singleton,
      freeNames_referenceNode]
    rfl
  have hbody : (bare .body [bare .expressionStatement [callNode handler [referenceNode p]],
      bare .returning [referenceNode p]]).freeNames sloppy = handler.freeNames sloppy ++ [p, p] := by
    rw [bare, Tree.freeNames_of_introduced_eq_nil (by simp) rfl, List.flatMap_cons,
      List.flatMap_singleton, hcall, hreturn, List.append_assoc]
    rfl
  have hparams : (bare .parameters [bare (.binding p) []]).freeNames sloppy = [] := by
    rw [bare, Tree.freeNames_of_introduced_eq_nil (by simp) rfl, List.flatMap_singleton, bare,
      Tree.freeNames_leaf (by simp)]
    rfl
  have hintroduced : Tree.introduced sloppy (.arrow false)
      [bare .parameters [bare (.binding p) []],
        bare .body [bare .expressionStatement [callNode handler [referenceNode p]],
          bare .returning [referenceNode p]]] = [p] := rfl
  have hkept : (handler.freeNames sloppy).filter (· ∉ [p]) = handler.freeNames sloppy := by
    rw [List.filter_eq_self]
    intro name hname
    have hne : name ≠ p := fun he => hp (he ▸ Tree.refersTo_of_freeNames hname)
    simpa using hne
  rw [wrapperNode, bare, Tree.freeNames_node (by simp), hintroduced, List.flatMap_cons,
    List.flatMap_singleton, hparams, hbody, List.nil_append, List.filter_append, hkept]
  simp [Kind.referred?]

/-! ### Registrations -/

variable {platform : PlatformCalls} {c : Call} {i : Nat}

/-- With a dotted platform name, a registration has the free names of its handler behind the
leading name of the platform. -/
theorem freeNames_ofEvent {first : String} {members : List String}
    (hpath : dottedPath? platform.eventRegistration = some (first, members))
    (hhandler : c.argument? i = some handler) (eventName : String) :
    ∃ new, ofEvent platform c i eventName = .ok new ∧
      ∀ sloppy, new.freeNames sloppy = first :: handler.freeNames sloppy := by
  have hnew : ofEvent platform c i eventName = .ok (platformNode first members c
      [stringNode eventName, wrapperNode (eventParameter handler) handler]) := by
    simp only [ofEvent, hhandler, invoke_eq hpath]
  refine ⟨_, hnew, fun sloppy => ?_⟩
  rw [platformNode, Tree.freeNames_of_introduced_eq_nil (by simp) rfl, List.flatMap_cons,
    freeNames_pathNode, Tree.freeNames_leaf (by simp), List.flatMap_cons, List.flatMap_singleton,
    freeNames_stringNode, freeNames_wrapperNode (not_refersTo_eventParameter handler)]
  rfl

/-- The parameter of a wrapper is `event` if the handler does not refer to it, and otherwise the
first name to fall back on that the handler does not refer to. The registration that is built has
the free names of the handler, each as often as the handler has it, behind the leading name of the
platform. -/
theorem ofEvent_freeNames (c : Call) (i : Nat) (handler : Tree) (eventName : String)
    (hhandler : c.argument? i = some handler) :
    (¬ handler.RefersTo "event" → eventParameter handler = "event") ∧
    (handler.RefersTo "event" → ∃ n, eventParameter handler = fallbackName n ∧
      ¬ handler.RefersTo (fallbackName n) ∧ ∀ j < n, handler.RefersTo (fallbackName j)) ∧
    ∃ new, ofEvent .standard c i eventName = .ok new ∧
      ∀ sloppy, new.freeNames sloppy = "kintone" :: handler.freeNames sloppy := by
  have hpath : dottedPath? PlatformCalls.standard.eventRegistration =
      some ("kintone", ["events", "on"]) := by decide
  refine ⟨eventParameter_of_not_refersTo, fun h => ?_, freeNames_ofEvent hpath hhandler eventName⟩
  obtain ⟨n, -, hname, hfree, htaken⟩ := freshName_spec (references handler)
  refine ⟨n, by rw [eventParameter_of_refersTo h, hname], ?_, fun j hj => ?_⟩
  · rwa [← mem_references_iff]
  · exact mem_references_iff.1 (htaken j hj)

/-- A handler around a registration that is one of the platform already and in which the first name
to fall back on is a parameter. -/
def nestedHandlerText : String :=
  "() => kintone.events.on(\"app.record.edit.show\", " ++
    "(__ktnEvent) => \x7b (() => log(event))(__ktnEvent); return __ktnEvent; \x7d)"

theorem ofEvent_freeNames_nested :
    ∃ handler new, parseExpression nestedHandlerText.toList = .ok handler ∧
      (⟨.none, referenceNode "on", [stringNode "load", handler]⟩ : Call).argument? 1 =
        some handler ∧
      handler.RefersTo "event" ∧ eventParameter handler = "__ktnEvent1" ∧
      ofEvent .standard ⟨.none, referenceNode "on", [stringNode "load", handler]⟩ 1
        "app.record.index.show" = .ok new ∧
      new.freeNames true = ["kintone", "kintone", "log", "event"] := by
  have hsource : nestedHandlerText.toList = _ :=
    toList_append_eq String.toList_ofList String.toList_ofList
  obtain ⟨handler, hparse, hhandler⟩ := exists_ok_of_any
    (x := parseExpression nestedHandlerText.toList)
    (p := fun handler => decide (plain? handler = some handler ∧ handler.RefersTo "event" ∧
      eventParameter handler = "__ktnEvent1" ∧
      handler.freeNames true = ["kintone", "log", "event"])) (by
    rw [hsource]
    decide +kernel)
  obtain ⟨hplain, hrefers, hname, hfree⟩ := of_decide_eq_true hhandler
  obtain ⟨-, -, new, hnew, hnames⟩ := ofEvent_freeNames
    ⟨.none, referenceNode "on", [stringNode "load", handler]⟩ 1 handler "app.record.index.show"
    hplain
  exact ⟨handler, new, hparse, hplain, hrefers, hname, hnew, by rw [hnames, hfree]⟩

end CallBridge.Replacement
