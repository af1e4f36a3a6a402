import CallBridge.Proofs.Replacement.Settled
import CallBridge.Proofs.Script.Given
import CallBridge.Script.Printer.Module
import Mathlib.Data.List.Forall2

/-!
# The walk as a substitution

A walk changes a tree as it goes: a call is judged before its parts are walked over, and its
replacement is made from what the parts have become. `Substituted` says the same without any order:
all decisions, and the handler or body that a replacement takes over, are read off the tree as it is
written. Main statement: with the platform's own names and `JSON.stringify` no callee, what a walk
gives is this substitution, and every plan is carried out (`substituted_iff_walk`).
-/

namespace CallBridge.Replacement

open Pattern Script Source

/-! ### The substitution -/

/-- A call of the platform under a dotted name, standing where a call stood. -/
def platformNode (first : String) (members : List String) (c : Call) (arguments : List Tree) :
    Tree :=
  .node (.call false) c.span
    (pathNode (.node (.reference first) (anchorSpan c) []) members :: arguments)

/-- The registration in place of a call, around its handler. -/
def registrationNode (c : Call) (m : EventMapping) (handler : Tree) : Tree :=
  platformNode "kintone" ["events", "on"] c
    [stringNode m.platformName, wrapperNode (eventParameter handler) handler]

/-- The request in place of a call, with its body if it has one. -/
def requestNode (c : Call) (f : FetchCall) (method : String) (m : ApiMapping)
    (body : Option Tree) : Tree :=
  let r := m.transform.request ⟨f.url, method, body.map fun _ => .deferred⟩
  platformNode "kintone" ["api"] c
    [stringNode r.path, stringNode r.method,
      bare .object (r.params.map (paramNode (bodyNode f.body body)))]

/-- What a tree becomes when its calls with a plan are replaced, all read off the tree itself. -/
inductive Substituted (s : Setting) : Tree → Tree → Prop where
  /-- A registration takes over its handler. -/
  | registration {t handler handler' : Tree} {c : Call} {e : EventCall} {m : EventMapping} :
      Call.ofTree? t = some c → judge s c = .planned (.event e m) →
      c.argument? e.handlerIndex = some handler → Substituted s handler handler' →
      Substituted s t (registrationNode c m handler')
  /-- A request that carries no body takes over nothing. -/
  | request {t : Tree} {c : Call} {f : FetchCall} {method : String} {m : ApiMapping} :
      Call.ofTree? t = some c → judge s c = .planned (.fetch f method m) →
      bodyExpression? c f.body = .ok none → Substituted s t (requestNode c f method m none)
  /-- A request that carries a body takes it over. -/
  | submission {t body body' : Tree} {c : Call} {f : FetchCall} {method : String}
      {m : ApiMapping} :
      Call.ofTree? t = some c → judge s c = .planned (.fetch f method m) →
      bodyExpression? c f.body = .ok (some body) → Substituted s body body' →
      Substituted s t (requestNode c f method m (some body'))
  /-- Any other node stays, with its parts substituted. -/
  | kept {k : Kind} {span : Span} {cs cs' : List Tree} :
      (∀ c, Call.ofTree? (.node k span cs) = some c → ∀ p, judge s c ≠ .planned p) →
      List.Forall₂ (Substituted s) cs cs' →
      Substituted s (.node k span cs) (.node k span cs')

/-! ### Nodes that stay -/

section Kept

variable {s : Setting} {t : Tree} {c : Call}

theorem output_of_fate {p : Plan} {new : Tree} (hc : Call.ofTree? t = some c)
    (h : fate s c = .replaced p new) : output s t = new := by
  obtain ⟨k, span, cs⟩ := t
  rw [output, walk_of_call s hc, h]

/-- A node without a plan stays, with its parts walked over. -/
theorem output_of_not_planned {k : Kind} {span : Span} {cs : List Tree}
    (h : ∀ c, Call.ofTree? (.node k span cs) = some c → ∀ p, judge s c ≠ .planned p) :
    output s (.node k span cs) = .node k span (cs.map (output s)) := by
  rcases walk_cases s k span cs with ⟨c, p, new, hc, hfate, -⟩ | ⟨-, hout⟩
  · rw [fate_of_not_planned (h c hc)] at hfate
    cases hfate
  · exact hout

/-- What stands in an argument is smaller than the call. -/
theorem size_lt_of_argument {a u : Tree} (hc : Call.ofTree? t = some c) (ha : a ∈ c.arguments)
    (hu : u ∈ a.subtrees) : u.size < t.size := by
  obtain ⟨optional, rfl⟩ := Call.ofTree?_eq_some_iff.1 hc
  exact Tree.size_lt_of_child (List.mem_cons_of_mem _ ha) hu

/-- A node that is no call stands where it stood. -/
theorem span_output_of_no_call (h : Call.ofTree? t = none) : (output s t).span = t.span := by
  obtain ⟨k, span, cs⟩ := t
  rw [output, walk_of_no_call s h]
  rfl

end Kept

/-- Where every member of a list is related to its image alone, a list is related to the images. -/
theorem forall₂_iff_map_eq {α β : Type} {R : α → β → Prop} {f : α → β} {as : List α}
    {bs : List β} (h : ∀ a ∈ as, ∀ b, R a b ↔ f a = b) :
    List.Forall₂ R as bs ↔ as.map f = bs := by
  induction as generalizing bs with
  | nil => rw [List.forall₂_nil_left_iff, List.map_nil, eq_comm]
  | cons a rest ih =>
    have hrest : ∀ bs, List.Forall₂ R rest bs ↔ rest.map f = bs :=
      fun bs => ih fun a' ha' => h a' (List.mem_cons_of_mem _ ha')
    rw [List.forall₂_cons_left_iff, List.map_cons]
    constructor
    · rintro ⟨b, bs', hab, hbs, rfl⟩
      rw [(h a (List.mem_cons_self ..) b).1 hab, (hrest bs').1 hbs]
    · rintro rfl
      exact ⟨_, _, (h a (List.mem_cons_self ..) _).2 rfl, (hrest _).2 rfl, rfl⟩

/-! ### Calls with a plan -/

variable {registry : Registry} {config : Config} {source : List Char} {c : Call}

/-- The callee of a call with a plan is no call itself. -/
theorem callee_of_judge {mode : Mode} {p : Plan}
    (h : judge (settingOf registry config mode source) c = .planned p) :
    Call.ofTree? c.callee = none := by
  by_contra hne
  obtain ⟨inner, hinner⟩ := Option.ne_none_iff_exists'.1 hne
  have hpath := calleePath?_of_call hinner
  have hscoped : scopedRegistration? config c.callee = none := by
    obtain ⟨optional, hnode⟩ := Call.ofTree?_eq_some_iff.1 hinner
    rw [hnode, scopedRegistration?, Tree.unparen_node fun _ hk => by cases hk]
  rcases (judge_eq_planned_iff _).1 h with ⟨e, m, he, -, -⟩ | ⟨f, method, m, hf, -, -, -⟩
  · obtain ⟨_, _, _, _, hr, -⟩ := recognizeEvent_eq_some_iff.1 (recognizeEvent_of_classify he)
    rcases registration?_eq_some hr with ⟨hcallee, -⟩ | ⟨r, hr⟩
    · rw [hpath] at hcallee
      cases hcallee
    · rw [hscoped] at hr
      cases hr
  · obtain ⟨_, _, hcallee, -⟩ := recognizeFetch_eq_some_iff.1 (recognizeFetch_of_classify hf)
    rw [hpath] at hcallee
    cases hcallee

theorem anchorSpan_walkedCall {mode : Mode} {p : Plan}
    (h : judge (settingOf registry config mode source) c = .planned p) :
    anchorSpan (walkedCall (settingOf registry config mode source) c) = anchorSpan c := by
  rw [anchorSpan, anchorSpan]
  simp only [walkedCall]
  rw [span_output_of_no_call (callee_of_judge h)]

/-- A dotted name is built as it is, whatever the text of the arguments would read as. -/
theorem invoke_eq {name first : String} {members : List String}
    (h : dottedPath? name = some (first, members)) (c : Call) (arguments : List Tree)
    (text : List Char) (holes : Holes) :
    invoke name c arguments text holes = .ok (platformNode first members c arguments) := by
  rw [invoke, h, platformNode]

section Standard

variable (hplatform : config.platform = .standard) (hevent : "JSON.stringify" ∉ config.eventCallees)
  (hfetch : "JSON.stringify" ∉ config.fetchCallees)

include hplatform

theorem dotted_of_standard : Dotted config.platform := by
  rw [hplatform]
  exact ⟨by decide, by decide⟩

include hevent hfetch

theorem apart_of_standard : Apart config ["JSON.stringify"] where
  event name h := by rwa [List.mem_singleton.1 h]
  fetch name h := by rwa [List.mem_singleton.1 h]
  platformCall p := by
    rw [hplatform]
    cases p <;> simp [Plan.platformCall, PlatformCalls.standard]

/-- The walk changes nothing that is read under the name of `JSON.stringify`. -/
theorem keepsOutline_of_standard :
    KeepsOutline ["JSON.stringify"] (output (settingOf registry config .production source)) :=
  output_keepsOutline (dotted_of_standard hplatform) (apart_of_standard hplatform hevent hfetch)

/-- A plan is carried out on the call as its parts have become. -/
theorem output_of_judge {t : Tree} {p : Plan} (hc : Call.ofTree? t = some c)
    (h : judge (settingOf registry config .production source) c = .planned p) :
    p.replacement .standard (walkedCall (settingOf registry config .production source) c) =
      .ok (output (settingOf registry config .production source) t) := by
  obtain ⟨new, hfate⟩ := fate_of_judge (dotted_of_standard hplatform)
    (apart_of_standard hplatform hevent hfetch) (List.mem_singleton_self _) h
  rw [output_of_fate hc hfate, ← hplatform]
  exact ((fate_eq_replaced_iff _).1 hfate).2

/-- A registration becomes one around what its handler has become. -/
theorem output_registration {t handler : Tree} {e : EventCall} {m : EventMapping}
    (hc : Call.ofTree? t = some c)
    (h : judge (settingOf registry config .production source) c = .planned (.event e m))
    (hhandler : c.argument? e.handlerIndex = some handler) :
    output (settingOf registry config .production source) t =
      registrationNode c m (output (settingOf registry config .production source) handler) := by
  have hreplacement := output_of_judge hplatform hevent hfetch hc h
  have hkeeps : KeepsOutline ["JSON.stringify"]
      (output (settingOf registry config .production source)) :=
    keepsOutline_of_standard hplatform hevent hfetch
  have hwalked := hkeeps.argument?_eq (walkedCall_follows _ c) e.handlerIndex
  rw [hhandler, Option.map_some] at hwalked
  have hname : dottedPath? PlatformCalls.standard.eventRegistration =
      some ("kintone", ["events", "on"]) := by decide
  simp only [Plan.replacement, ofEvent, hwalked, invoke_eq hname] at hreplacement
  rw [← Except.ok.inj hreplacement, registrationNode, platformNode, platformNode,
    anchorSpan_walkedCall h]
  rfl

/-- A request becomes one with what its body has become. -/
theorem output_request {t : Tree} {f : FetchCall} {method : String} {m : ApiMapping}
    {body : Option Tree} (hc : Call.ofTree? t = some c)
    (h : judge (settingOf registry config .production source) c = .planned (.fetch f method m))
    (hbody : bodyExpression? c f.body = .ok body) :
    output (settingOf registry config .production source) t =
      requestNode c f method m
        (body.map (output (settingOf registry config .production source))) := by
  have hreplacement := output_of_judge hplatform hevent hfetch hc h
  have hkeeps : KeepsOutline ["JSON.stringify"]
      (output (settingOf registry config .production source)) :=
    keepsOutline_of_standard hplatform hevent hfetch
  have hwalked := bodyExpression?_eq hkeeps (List.mem_singleton_self _) (walkedCall_follows _ c)
    f.body
  rw [hbody] at hwalked
  have hname : dottedPath? PlatformCalls.standard.apiInvocation =
      some ("kintone", ["api"]) := by decide
  simp only [Plan.replacement, ofFetch, hwalked, Except.map, bind, Except.bind,
    invoke_eq hname] at hreplacement
  rw [← Except.ok.inj hreplacement, requestNode, platformNode, platformNode,
    anchorSpan_walkedCall h]
  rfl

/-- A tree is substituted by what a walk gives, and by nothing else. -/
theorem substituted_iff_output (t u : Tree) :
    Substituted (settingOf registry config .production source) t u ↔
      output (settingOf registry config .production source) t = u := by
  induction h : t.size using Nat.strongRecOn generalizing t u with
  | ind n ih =>
    subst h
    -- a handler or a body may stand deep in an argument, so the induction is on the size
    have hargument : ∀ {c a v}, Call.ofTree? t = some c → a ∈ c.arguments → v ∈ a.subtrees →
        ∀ u, Substituted (settingOf registry config .production source) v u ↔
          output (settingOf registry config .production source) v = u :=
      fun hc ha hv u => ih _ (size_lt_of_argument hc ha hv) _ u rfl
    have hchildren : ∀ {k span cs cs'}, t = .node k span cs →
        (List.Forall₂ (Substituted (settingOf registry config .production source)) cs cs' ↔
          cs.map (output (settingOf registry config .production source)) = cs') := by
      rintro k span cs cs' rfl
      exact forall₂_iff_map_eq fun a ha u =>
        ih _ (Tree.size_lt_of_child ha (Tree.self_mem_subtrees a)) a u rfl
    constructor
    · intro hu
      cases hu with
      | registration hc hjudge hhandler hhandler' =>
        rw [output_registration hplatform hevent hfetch hc hjudge hhandler,
          (hargument hc (Call.argument?_mem hhandler) (Tree.self_mem_subtrees _) _).1 hhandler']
      | request hc hjudge hbody =>
        exact output_request hplatform hevent hfetch hc hjudge hbody
      | submission hc hjudge hbody hbody' =>
        obtain ⟨a, ha, hmem⟩ := bodyExpression?_mem_subtrees hbody
        rw [output_request hplatform hevent hfetch hc hjudge hbody, Option.map_some,
          (hargument hc ha hmem _).1 hbody']
      | kept hnone hparts =>
        rw [output_of_not_planned hnone, (hchildren rfl).1 hparts]
    · rintro rfl
      by_cases hplan : ∃ c p, Call.ofTree? t = some c ∧
          judge (settingOf registry config .production source) c = .planned p
      · obtain ⟨c, p, hc, hjudge⟩ := hplan
        cases p with
        | event e m =>
          obtain ⟨handler, hhandler⟩ := handler_of_judge hjudge
          rw [output_registration hplatform hevent hfetch hc hjudge hhandler]
          exact .registration hc hjudge hhandler
            ((hargument hc (Call.argument?_mem hhandler) (Tree.self_mem_subtrees _) _).2 rfl)
        | fetch f method m =>
          obtain ⟨-, hspec⟩ := request_of_judge hjudge
          obtain ⟨body, hbody⟩ := bodyExpression?_bodyOf c
          rw [← hspec] at hbody
          rw [output_request hplatform hevent hfetch hc hjudge hbody]
          cases body with
          | none => exact .request hc hjudge hbody
          | some b =>
            obtain ⟨a, ha, hmem⟩ := bodyExpression?_mem_subtrees hbody
            exact .submission hc hjudge hbody ((hargument hc ha hmem _).2 rfl)
      · obtain ⟨k, span, cs⟩ := t
        have hnone : ∀ c, Call.ofTree? (.node k span cs) = some c →
            ∀ p, judge (settingOf registry config .production source) c ≠ .planned p :=
          fun c hc p hjudge => hplan ⟨c, p, hc, hjudge⟩
        rw [output_of_not_planned hnone]
        exact .kept hnone ((hchildren rfl).2 rfl)

/-- A plan is carried out on the node as its parts have become, and recorded as applied. -/
theorem apply_of_judge {k : Kind} {span : Span} {cs : List Tree} {p : Plan}
    (hc : Call.ofTree? (.node k span cs) = some c)
    (h : judge (settingOf registry config .production source) c = .planned p) :
    apply (settingOf registry config .production source)
        (.node k span (cs.map (output (settingOf registry config .production source)))) p =
      (output (settingOf registry config .production source) (.node k span cs),
        appliedLog (locate (settingOf registry config .production source) c) p) := by
  have hreplacement : p.replacement config.platform
      (walkedCall (settingOf registry config .production source) c) =
        .ok (output (settingOf registry config .production source) (.node k span cs)) := by
    rw [hplatform]
    exact output_of_judge hplatform hevent hfetch hc h
  obtain ⟨optional, ht⟩ := Call.ofTree?_eq_some_iff.1 hc
  obtain ⟨rfl, rfl, rfl⟩ := Tree.node.inj ht
  have hwalked : Call.ofTree? (.node (.call optional) c.span
      ((c.callee :: c.arguments).map (output (settingOf registry config .production source)))) =
        some (walkedCall (settingOf registry config .production source) c) := rfl
  rw [apply, hwalked]
  simp only [settingOf] at hreplacement ⊢
  rw [hreplacement]
  rfl

end Standard

/-- What a walk in production gives, under the platform's own names and with `JSON.stringify` no
callee: the substitution of the tree, which reads nothing but the tree as it is written. Every call
that is planned is replaced when its turn comes and recorded as applied; every other node keeps its
kind and its span, and its parts go through the same walk; a tree without a planned call stays. -/
theorem substituted_iff_walk (registry : Registry) {config : Config}
    (hplatform : config.platform = .standard) (hevent : "JSON.stringify" ∉ config.eventCallees)
    (hfetch : "JSON.stringify" ∉ config.fetchCallees) (source : List Char) (t : Tree) :
    let s := settingOf registry config .production source
    (∀ u, Substituted s t u ↔ (walk s t).1 = u) ∧
    (∀ k span cs, .node k span cs ∈ t.subtrees → ∀ c, Call.ofTree? (.node k span cs) = some c →
      ∀ p, (prepare s c).2 = some p →
        apply s (.node k span (cs.map fun t => (walk s t).1)) p =
          ((walk s (.node k span cs)).1, appliedLog (locate s c) p)) ∧
    (∀ k span cs, .node k span cs ∈ t.subtrees →
      (∀ c, Call.ofTree? (.node k span cs) = some c → (prepare s c).2 = none) →
        (walk s (.node k span cs)).1 = .node k span (cs.map fun t => (walk s t).1)) ∧
    ((∀ v ∈ t.subtrees, ∀ c, Call.ofTree? v = some c → (prepare s c).2 = none) →
      (walk s t).1 = t) := by
  intro s
  have hplan : ∀ {c p}, judge s c = .planned p → (prepare s c).2 = some p :=
    fun h => (prepare_eq_some_iff s).2 ⟨rfl, h⟩
  refine ⟨substituted_iff_output hplatform hevent hfetch t, ?_, ?_, ?_⟩
  · intro k span cs _ c hc p hp
    exact apply_of_judge hplatform hevent hfetch hc ((prepare_eq_some_iff s).1 hp).2
  · intro k span cs _ hnone
    refine output_of_not_planned fun c hc p hjudge => ?_
    have hstays := hnone c hc
    rw [hplan hjudge] at hstays
    cases hstays
  · intro hnone
    refine output_of_settled fun v hv c hc p hjudge => ?_
    have hstays := hnone v hv c hc
    rw [hplan hjudge] at hstays
    cases hstays

/-- A configuration in which texts are fetched by the function that reads them. -/
def readingConfig : Config := { Config.standard with fetchCallees := ["fetch", "JSON.parse"] }

/-- A registration around a request whose body is made of a request. -/
def nestedSource : String :=
  "document.addEventListener('DOMContentLoaded', () => fetch('/api/record', \x7bmethod: 'POST', " ++
    "body: JSON.stringify(fetch('/api/records'))\x7d));"

def nestedOutput : String :=
  "kintone.events.on(\"app.record.index.show\", (event) => \x7b\n\t(() => " ++
    "kintone.api(\"/k/v1/record.json\", \"POST\", \x7b record: " ++
    "kintone.api(\"/k/v1/records.json\", \"GET\", \x7b\x7d) \x7d))(event);\n" ++
    "\treturn event;\n\x7d);\n"

theorem substituted_nested :
    readingConfig.platform = .standard ∧ "JSON.stringify" ∉ readingConfig.eventCallees ∧
      "JSON.stringify" ∉ readingConfig.fetchCallees ∧
      ∃ program u, parseScript (.ofFilename "page.js") nestedSource = .ok program ∧
        Substituted (settingOf .standard readingConfig .production nestedSource.toList)
          program.tree u ∧
        (u.print program.comments).text = nestedOutput := by
  have hplatform : readingConfig.platform = .standard := rfl
  have hevent : "JSON.stringify" ∉ readingConfig.eventCallees := by decide
  have hfetch : "JSON.stringify" ∉ readingConfig.fetchCallees := by decide
  refine ⟨hplatform, hevent, hfetch, ?_⟩
  have houtput : nestedOutput.toList = _ :=
    toList_append_eq (toList_append_eq (toList_append_eq String.toList_ofList String.toList_ofList)
      String.toList_ofList) String.toList_ofList
  obtain ⟨program, hparse, htext⟩ := exists_program_of_any (.ofFilename "page.js") nestedSource
    (toList_append_eq String.toList_ofList String.toList_ofList)
    (p := fun cs program =>
      let s := settingOf .standard readingConfig .production cs
      ((walk s program.tree).1.print program.comments).text.toList == nestedOutput.toList) (by
    simp only [Tree.print, String.toList_ofList, houtput]
    decide +kernel)
  have hwalk := substituted_iff_walk .standard hplatform hevent hfetch nestedSource.toList
    program.tree
  exact ⟨program, _, hparse, (hwalk.1 _).2 rfl, String.toList_inj.1 (beq_iff_eq.1 htext)⟩

end CallBridge.Replacement
