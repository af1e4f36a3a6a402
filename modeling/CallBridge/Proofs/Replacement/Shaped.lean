import CallBridge.Proofs.Replacement.Substitution
import CallBridge.Proofs.Script.Enclosure
import CallBridge.Proofs.Script.Shape

/-!
# Shapes of outputs

A walk puts calls in the place of calls and leaves all other nodes as they are, so what it gives has
the shape of the tree it is given. Main statement: with the platform's own names and
`JSON.stringify` no callee, what a walk gives is shaped as a script if the tree it is given is
(`wellShaped_output`).
-/

namespace CallBridge.Replacement

open Json Pattern Script

/-! ### Built nodes -/

theorem wellShaped_stringNode (s : String) : WellShaped (stringNode s) := .leaf rfl

theorem wellShaped_referenceNode (name : String) : WellShaped (referenceNode name) := .leaf rfl

/-- A number below zero is written with a minus in front, which has one operand. -/
theorem wellShaped_numberNode (negative : Bool) (x : Number.Magnitude) :
    WellShaped (numberNode negative x) := by
  unfold numberNode
  cases negative with
  | false => exact .leaf rfl
  | true => exact .node rfl rfl (List.forall_mem_singleton.2 (.leaf rfl))

theorem wellShaped_propertyNode {key value : Tree} (hkey : WellShaped key)
    (hvalue : WellShaped value) : WellShaped (propertyNode key value) :=
  .node rfl rfl (by simp [hkey, hvalue])

theorem wellShaped_callNode {callee : Tree} {arguments : List Tree} (hcallee : WellShaped callee)
    (harguments : ∀ t ∈ arguments, WellShaped t) : WellShaped (callNode callee arguments) :=
  .node (counts_cons (fun _ => rfl) ..) rfl (List.forall_mem_cons.2 ⟨hcallee, harguments⟩)

mutual

/-- Every JSON value has a well-shaped literal, by induction on the value. -/
theorem wellShaped_literalNode : ∀ v : Value, WellShaped (literalNode v)
  | .null => .leaf rfl
  | .bool _ => .leaf rfl
  | .number (.int _) => wellShaped_numberNode _ _
  | .number (.real _) => wellShaped_numberNode _ _
  | .string s => wellShaped_stringNode s
  | .array items => .node rfl rfl (wellShaped_literalItems items)
  | .object fields => .node rfl rfl (wellShaped_literalFields fields)

theorem wellShaped_literalItems : ∀ vs : List Value, ∀ t ∈ literalItems vs, WellShaped t
  | [] => fun _ h => absurd h List.not_mem_nil
  | v :: rest => List.forall_mem_cons.2 ⟨wellShaped_literalNode v, wellShaped_literalItems rest⟩

theorem wellShaped_literalFields :
    ∀ fields : List (String × Value), ∀ t ∈ literalFields fields, WellShaped t
  | [] => fun _ h => absurd h List.not_mem_nil
  | (k, v) :: rest => List.forall_mem_cons.2
      ⟨wellShaped_propertyNode (wellShaped_stringNode k) (wellShaped_literalNode v),
        wellShaped_literalFields rest⟩

end

theorem wellShaped_keyNode (key : String) : WellShaped (keyNode key) := by
  unfold keyNode
  split
  · exact .leaf rfl
  · exact wellShaped_stringNode key

/-- Each member of a path has the part before it as its only child. -/
theorem wellShaped_pathNode {first : Tree} (h : WellShaped first) (members : List String) :
    WellShaped (pathNode first members) := by
  induction members generalizing first with
  | nil => exact h
  | cons m rest ih => exact ih (.node rfl rfl (List.forall_mem_singleton.2 h))

/-- The function around a handler has its parameter, no type and a body. -/
theorem wellShaped_wrapperNode {handler : Tree} (h : WellShaped handler) (p : String) :
    WellShaped (wrapperNode p handler) := by
  have hparams : WellShaped (bare .parameters [bare (.binding p) []]) :=
    .node rfl rfl (List.forall_mem_singleton.2 (.leaf rfl))
  have hcall : WellShaped (callNode handler [referenceNode p]) :=
    wellShaped_callNode h (List.forall_mem_singleton.2 (wellShaped_referenceNode p))
  have hstatement : WellShaped (bare .expressionStatement [callNode handler [referenceNode p]]) :=
    .node rfl rfl (List.forall_mem_singleton.2 hcall)
  have hreturn : WellShaped (bare .returning [referenceNode p]) :=
    .node rfl rfl (List.forall_mem_singleton.2 (wellShaped_referenceNode p))
  refine .node rfl rfl (forall_mem_pair.2 ⟨hparams, .node rfl rfl ?_⟩)
  exact forall_mem_pair.2 ⟨hstatement, hreturn⟩

theorem wellShaped_paramNode {body : Tree} (h : WellShaped body) (q : String × Param) :
    WellShaped (paramNode body q) := by
  obtain ⟨key, q⟩ := q
  cases q with
  | json v => exact wellShaped_propertyNode (wellShaped_keyNode key) (wellShaped_literalNode v)
  | body => exact wellShaped_propertyNode (wellShaped_keyNode key) h
  | spread => exact .node rfl rfl (List.forall_mem_singleton.2 h)

/-- The body stays what it was, or it is put below a property of its own. -/
theorem wellShaped_bodyNode (spec : BodySpec) {body : Option Tree}
    (h : ∀ t ∈ body, WellShaped t) : WellShaped (bodyNode spec body) := by
  have hinside : WellShaped (body.getD (referenceNode bodyHole)) := by
    cases body with
    | none => exact wellShaped_referenceNode bodyHole
    | some t => exact h t rfl
  have hparse : WellShaped (bare (.member "parse" false) [referenceNode "JSON"]) :=
    .node rfl rfl (List.forall_mem_singleton.2 (wellShaped_referenceNode "JSON"))
  cases spec with
  | absent => exact hinside
  | stringified => exact hinside
  | raw => exact wellShaped_callNode hparse (List.forall_mem_singleton.2 hinside)

theorem wellShaped_platformNode {first : String} {members : List String} {c : Call}
    {arguments : List Tree} (h : ∀ t ∈ arguments, WellShaped t) :
    WellShaped (platformNode first members c arguments) :=
  .node (counts_cons (fun _ => rfl) ..) rfl
    (List.forall_mem_cons.2 ⟨wellShaped_pathNode (.leaf rfl) members, h⟩)

/-- The call that registers a handler, if the handler is well shaped. -/
theorem wellShaped_registrationNode {handler : Tree} (h : WellShaped handler) (c : Call)
    (m : EventMapping) : WellShaped (registrationNode c m handler) :=
  wellShaped_platformNode
    (forall_mem_pair.2 ⟨wellShaped_stringNode _, wellShaped_wrapperNode h _⟩)

/-- The call that sends a request, if its body is well shaped. -/
theorem wellShaped_requestNode {body : Option Tree} (h : ∀ t ∈ body, WellShaped t) (c : Call)
    (f : FetchCall) (method : String) (m : ApiMapping) :
    WellShaped (requestNode c f method m body) := by
  refine wellShaped_platformNode (List.forall_mem_cons.2 ⟨wellShaped_stringNode _, ?_⟩)
  refine forall_mem_pair.2 ⟨wellShaped_stringNode _, .node rfl rfl (List.forall_mem_map.2 ?_)⟩
  exact fun q _ => wellShaped_paramNode (wellShaped_bodyNode f.body h) q

/-! ### Nodes that stay -/

/-- The kind of a node, whether or not it is an optional call. -/
def plainKind (k : Kind) : Kind :=
  match k with
  | .call _ => .call false
  | k => k

/-- A kind that is made plain keeps the number of its children, so the shape stays as it is. -/
@[simp] theorem isLeaf_plainKind (k : Kind) : (plainKind k).isLeaf = k.isLeaf := by
  cases k <;> rfl

@[simp] theorem isLine_plainKind (k : Kind) : (plainKind k).isLine = k.isLine := by
  cases k <;> rfl

@[simp] theorem isSpecifier_plainKind (k : Kind) : (plainKind k).isSpecifier = k.isSpecifier := by
  cases k <;> rfl

@[simp] theorem isTemplate_plainKind (k : Kind) : (plainKind k).isTemplate = k.isTemplate := by
  cases k <;> rfl

@[simp] theorem isFunction_plainKind (k : Kind) : (plainKind k).isFunction = k.isFunction := by
  cases k <;> rfl

@[simp] theorem plainKind_eq_absent (k : Kind) : plainKind k = .absent ↔ k = .absent := by
  cases k <;> first | exact Iff.rfl | exact ⟨nofun, nofun⟩

@[simp] theorem plainKind_eq_block (k : Kind) : plainKind k = .block ↔ k = .block := by
  cases k <;> first | exact Iff.rfl | exact ⟨nofun, nofun⟩

/-- No place is for optional calls alone, or for others alone. -/
theorem places_map_plainKind (k : Kind) (ks : List Kind) :
    k.places (ks.map plainKind) = k.places ks := by
  have habsent : ∀ k, (plainKind k == .absent) = (k == .absent) := fun k => by
    rw [Bool.eq_iff_iff, beq_iff_eq, beq_iff_eq, plainKind_eq_absent]
  have hblock : ∀ k, (plainKind k == .block) = (k == .block) := fun k => by
    rw [Bool.eq_iff_iff, beq_iff_eq, beq_iff_eq, plainKind_eq_block]
  cases k <;> first
    | rfl
    | obtain _ | ⟨a, _ | ⟨b, _ | ⟨c, _ | ⟨d, _ | ⟨e, rest⟩⟩⟩⟩⟩ := ks <;>
        simp [Kind.places, Function.comp_def, habsent, hblock]

variable {registry : Registry} {config : Config} {source : List Char}

section Standard

variable (hplatform : config.platform = .standard) (hevent : "JSON.stringify" ∉ config.eventCallees)
  (hfetch : "JSON.stringify" ∉ config.fetchCallees)

include hplatform hevent hfetch

/-- A call stays one, and any other node keeps its kind. -/
theorem plainKind_output (t : Tree) :
    plainKind (output (settingOf registry config .production source) t).kind =
      plainKind t.kind := by
  by_cases hplan : ∃ c p, Call.ofTree? t = some c ∧
      judge (settingOf registry config .production source) c = .planned p
  · obtain ⟨c, p, hc, hjudge⟩ := hplan
    obtain ⟨optional, ht⟩ := Call.ofTree?_eq_some_iff.1 hc
    rw [show plainKind t.kind = .call false by rw [ht]; rfl]
    cases p with
    | event e m =>
      obtain ⟨handler, hhandler⟩ := handler_of_judge hjudge
      rw [output_registration hplatform hevent hfetch hc hjudge hhandler]
      rfl
    | fetch f method m =>
      obtain ⟨body, hbody⟩ := bodyExpression?_bodyOf c
      rw [← (request_of_judge hjudge).2] at hbody
      rw [output_request hplatform hevent hfetch hc hjudge hbody]
      rfl
  · obtain ⟨k, span, cs⟩ := t
    rw [output_of_not_planned fun c hc p hjudge => hplan ⟨c, p, hc, hjudge⟩]
    rfl

/-- What a walk gives has the shape of a script if what it is given has. -/
theorem wellShaped_output {t : Tree} (h : WellShaped t) :
    WellShaped (output (settingOf registry config .production source) t) := by
  induction hn : t.size using Nat.strongRecOn generalizing t with
  | ind n ih =>
    subst hn
    -- a handler or a body may stand deep in an argument, so the induction is on the size
    have hargument : ∀ {c a v}, Call.ofTree? t = some c → a ∈ c.arguments → v ∈ a.subtrees →
        WellShaped (output (settingOf registry config .production source) v) := by
      intro c a v hc ha hv
      have hsize : v.size < t.size := size_lt_of_argument hc ha hv
      obtain ⟨optional, rfl⟩ := Call.ofTree?_eq_some_iff.1 hc
      have ha' : WellShaped a := (wellShaped_node.1 h).2.2 a (List.mem_cons_of_mem _ ha)
      exact ih _ hsize (ha'.of_mem_subtrees hv) rfl
    by_cases hplan : ∃ c p, Call.ofTree? t = some c ∧
        judge (settingOf registry config .production source) c = .planned p
    · obtain ⟨c, p, hc, hjudge⟩ := hplan
      cases p with
      | event e m =>
        obtain ⟨handler, hhandler⟩ := handler_of_judge hjudge
        rw [output_registration hplatform hevent hfetch hc hjudge hhandler]
        exact wellShaped_registrationNode
          (hargument hc (Call.argument?_mem hhandler) (Tree.self_mem_subtrees _)) c m
      | fetch f method m =>
        obtain ⟨body, hbody⟩ := bodyExpression?_bodyOf c
        rw [← (request_of_judge hjudge).2] at hbody
        rw [output_request hplatform hevent hfetch hc hjudge hbody]
        refine wellShaped_requestNode (fun b' hb' => ?_) c f method m
        obtain ⟨b, rfl, rfl⟩ := Option.map_eq_some_iff.1 hb'
        obtain ⟨a, ha, hmem⟩ := bodyExpression?_mem_subtrees hbody
        exact hargument hc ha hmem
    · obtain ⟨k, span, cs⟩ := t
      obtain ⟨hcount, hplace, hcs⟩ := wellShaped_node.1 h
      rw [output_of_not_planned fun c hc p hjudge => hplan ⟨c, p, hc, hjudge⟩]
      refine .node (by rwa [List.length_map]) ?_ (List.forall_mem_map.2 fun u hu => ?_)
      · rw [← places_map_plainKind] at hplace ⊢
        simpa [Function.comp_def, plainKind_output hplatform hevent hfetch] using hplace
      · exact ih _ (Tree.size_lt_of_child hu (Tree.self_mem_subtrees u)) (hcs u hu) rfl

end Standard

end CallBridge.Replacement
