import CallBridge.Proofs.Replacement.Outline

/-!
# Settled trees

A tree is settled when no call in it has a plan. A walk leaves a settled tree as it is and records
no success on it (`walk_of_settled`); what a walk gives is settled, as long as the names that a
replacement brings along are no callees (`settled_output`). Main statement: under the standard
configuration a second walk changes nothing (`walk_output_standard`).
-/

namespace CallBridge.Replacement

open Pattern Script Source

/-- A tree in which no call has a plan. -/
def Settled (s : Setting) (t : Tree) : Prop :=
  ∀ u ∈ t.subtrees, ∀ c, Call.ofTree? u = some c → ∀ p, judge s c ≠ .planned p

def isPlanned (s : Setting) (c : Call) : Bool :=
  match judge s c with
  | .planned _ => true
  | _ => false

theorem isPlanned_eq_false_iff {s : Setting} {c : Call} :
    isPlanned s c = false ↔ ∀ p, judge s c ≠ .planned p := by
  unfold isPlanned
  cases judge s c <;> simp

theorem settled_iff {s : Setting} {t : Tree} :
    Settled s t ↔ callsWhere (isPlanned s) t = 0 := by
  rw [callsWhere_eq_zero_iff]
  simp only [isPlanned_eq_false_iff]
  rfl

/-! ### A walk over a settled tree -/

section Fixed

variable {s : Setting} {t : Tree}

theorem fate_of_not_planned {c : Call} (h : ∀ p, judge s c ≠ .planned p) : fate s c = .kept := by
  have hnone : (prepare s c).2 = none := by
    cases hp : (prepare s c).2 with
    | none => rfl
    | some p => exact absurd ((prepare_eq_some_iff s).1 hp).2 (h p)
  rw [fate, hnone]

theorem output_of_settled (h : Settled s t) : output s t = t := by
  induction t with
  | node k span cs ih =>
    rcases walk_cases s k span cs with ⟨c, p, new, hc, hfate, -⟩ | ⟨-, hout⟩
    · rw [fate_of_not_planned (h _ (Tree.self_mem_subtrees _) c hc)] at hfate
      cases hfate
    · have hcs : cs.map (output s) = cs := by
        refine (List.map_congr_left fun t ht => ?_).trans (List.map_id cs)
        exact ih t ht fun u hu => h u (Tree.mem_subtrees_of_child ht hu)
      rw [hout, hcs]

/-- What is left behind at once, where calls are replaced, is about failures. -/
theorem prepare_log (hmode : s.mode = .production) (c : Call) :
    (∀ r ∈ (prepare s c).1.records, r.2.succeeded = false) ∧ (prepare s c).1.mappings = [] := by
  unfold prepare
  simp only [hmode, Mode.replaces, ↓reduceIte]
  cases judge s c with
  | ignore => exact ⟨fun r hr => absurd hr List.not_mem_nil, rfl⟩
  | ambiguous kinds =>
    refine ⟨fun r hr => ?_, rfl⟩
    obtain ⟨kind, -, rfl⟩ := List.mem_map.1 hr
    rfl
  | unsupported kind web reason method =>
    refine ⟨fun r hr => ?_, rfl⟩
    obtain rfl := List.mem_singleton.1 hr
    rfl
  | planned p => exact ⟨fun r hr => absurd hr List.not_mem_nil, rfl⟩

theorem ownLog_of_settled (hmode : s.mode = .production) (h : Settled s t) {u : Tree}
    (hu : u ∈ t.subtrees) :
    (∀ r ∈ (ownLog s u).records, r.2.succeeded = false) ∧ (ownLog s u).mappings = [] := by
  unfold ownLog
  cases hc : Call.ofTree? u with
  | none => exact ⟨fun r hr => absurd hr List.not_mem_nil, rfl⟩
  | some c =>
    have hfate : fateLog s c = .empty := by
      rw [fateLog, fate_of_not_planned (h u hu c hc)]
    simp only [hfate, Log.append_empty]
    exact prepare_log hmode c

/-- A walk leaves a settled tree as it is and records no success on it. -/
theorem walk_of_settled (hmode : s.mode = .production) (h : Settled s t) :
    ∃ log, walk s t = (t, log) ∧ (∀ r ∈ log.records, r.2.succeeded = false) ∧
      log.mappings = [] := by
  refine ⟨(walk s t).2, Prod.ext (output_of_settled h) rfl, fun r hr => ?_, ?_⟩
  · obtain ⟨u, hu, hru⟩ := List.mem_flatMap.1 ((walk_perm s .records t).mem_iff.1 hr)
    exact (ownLog_of_settled hmode h hu).1 r hru
  · have hnil : (t.subtrees.flatMap fun u => (ownLog s u).mappings) = [] :=
      List.flatMap_eq_nil_iff.2 fun u hu => (ownLog_of_settled hmode h hu).2
    have hperm := walk_perm s .mappings t
    rw [hnil] at hperm
    exact hperm.eq_nil

end Fixed

/-! ### The walk settles a tree -/

/-- Nothing that a replacement brings along, and nothing that is read inside a call, is a callee. -/
structure Clear (config : Config) : Prop where
  dotted : Dotted config.platform
  apart : Apart config ("JSON.stringify" :: config.selectorQueries)
  built : ∀ name ∈ [config.platform.eventRegistration, config.platform.apiInvocation, "JSON.parse"],
    name ∉ config.eventCallees ∧ name ∉ config.fetchCallees

variable {registry : Registry} {config : Config} {mode : Mode} {source : List Char} {c : Call}

/-- A call with a plan has a literal for its first argument. -/
theorem literal_of_judge {p : Plan}
    (h : judge (settingOf registry config mode source) c = .planned p) :
    ∃ text, c.literalArgument? 0 = some text := by
  rcases (judge_eq_planned_iff _).1 h with ⟨e, m, he, -, -⟩ | ⟨f, method, m, hf, -, -, -⟩
  · obtain ⟨_, _, eventType, _, -, htype, -⟩ :=
      recognizeEvent_eq_some_iff.1 (recognizeEvent_of_classify he)
    exact ⟨eventType, htype⟩
  · obtain ⟨_, url, -, -, hurl, -⟩ :=
      recognizeFetch_eq_some_iff.1 (recognizeFetch_of_classify hf)
    exact ⟨url, hurl⟩

/-- The call of a handler in its wrapper has no plan, whatever the handler is. -/
theorem isPlanned_wrapperCall (handler : Tree) (p : String) :
    isPlanned (settingOf registry config mode source) ⟨Span.none, handler, [referenceNode p]⟩ =
      false := by
  refine isPlanned_eq_false_iff.2 fun plan h => ?_
  obtain ⟨text, htext⟩ := literal_of_judge h
  simp [Call.literalArgument?, Call.argument?, referenceNode, bare, plain?, literal?, Tree.kind,
    Tree.unparen] at htext

theorem Clear.isPlanned_built (hclear : Clear config) (name : String)
    (hname : name ∈
      [config.platform.eventRegistration, config.platform.apiInvocation, "JSON.parse"])
    (h : calleePath? c.callee = some name) :
    isPlanned (settingOf registry config mode source) c = false := by
  refine isPlanned_eq_false_iff.2 fun p hp => ?_
  rcases mem_callees_of_judge hp h with hmem | hmem
  · exact (hclear.built name hname).1 hmem
  · exact (hclear.built name hname).2 hmem

/-- The replacement of a call brings along no call with a plan. -/
theorem Clear.settled_replacement (hclear : Clear config) {p : Plan} {new : Tree}
    (hnew : p.replacement config.platform c = .ok new)
    (hc : ∀ a ∈ c.arguments, Settled (settingOf registry config mode source) a) :
    Settled (settingOf registry config mode source) new := by
  rw [settled_iff]
  cases p with
  | event e m =>
    rw [Plan.replacement] at hnew
    cases ha : c.argument? e.handlerIndex with
    | none => simp [ofEvent, ha] at hnew
    | some handler =>
      obtain ⟨t, c', p, hok, -, hpath, hcalls⟩ :=
        callsWhere_ofEvent hclear.dotted.event ha m.platformName
      obtain rfl := Except.ok.inj (hok.symm.trans hnew)
      have hhandler := settled_iff.1 (hc handler (Call.argument?_mem ha))
      rw [hcalls, hclear.isPlanned_built _ (by simp) hpath, isPlanned_wrapperCall, hhandler]
      rfl
  | fetch f method m =>
    rw [Plan.replacement] at hnew
    cases hb : bodyExpression? c f.body with
    | error problem => simp [ofFetch, hb, bind, Except.bind] at hnew
    | ok body =>
      obtain ⟨t, c', hok, -, hpath, hcalls⟩ :=
        callsWhere_ofFetch hclear.dotted.api hb f.url method m
      obtain rfl := Except.ok.inj (hok.symm.trans hnew)
      have hbody : (body.map (callsWhere
          (isPlanned (settingOf registry config mode source)))).getD 0 = 0 := by
        cases body with
        | none => rfl
        | some b =>
          obtain ⟨a, ha, hba⟩ := bodyExpression?_mem_subtrees hb
          exact settled_iff.1 fun u hu => hc a ha u (Tree.mem_subtrees_trans hba hu)
      have hparse : ∀ inside : Tree,
          isPlanned (settingOf registry config mode source) (parseCall inside) = false :=
        fun inside => hclear.isPlanned_built "JSON.parse" (by simp) rfl
      rw [hcalls, hclear.isPlanned_built _ (by simp) hpath, callsWhere_bodyNode, hparse, hbody]
      simp

/-- What the walk gives is settled. -/
theorem Clear.settled_output (hclear : Clear config) (t : Tree) :
    Settled (settingOf registry config .production source)
      (output (settingOf registry config .production source) t) := by
  induction t with
  | node k span cs ih =>
    rcases walk_cases (settingOf registry config .production source) k span cs with
      ⟨c, p, new, hc, hfate, hout⟩ | ⟨hkept, hout⟩
    · rw [hout]
      obtain ⟨-, hnew⟩ := (fate_eq_replaced_iff _).1 hfate
      obtain ⟨optional, hnode⟩ := Call.ofTree?_eq_some_iff.1 hc
      obtain ⟨-, -, rfl⟩ := Tree.node.inj hnode
      refine hclear.settled_replacement hnew fun a ha => ?_
      obtain ⟨t, ht, rfl⟩ := List.mem_map.1 ha
      exact ih t (List.mem_cons_of_mem _ ht)
    · rw [hout]
      refine Tree.forall_mem_subtrees.2 ⟨fun c' hc' p hp => ?_, fun t ht => ?_⟩
      · -- a call that stays is judged as before, and a plan would have been carried out
        cases hc : Call.ofTree? (.node k span cs) with
        | none => rw [Call.ofTree?_map_eq_none hc] at hc'; cases hc'
        | some c =>
          obtain ⟨optional, hnode⟩ := Call.ofTree?_eq_some_iff.1 hc
          obtain ⟨rfl, rfl, rfl⟩ := Tree.node.inj hnode
          obtain rfl : walkedCall _ c = c' := Option.some.inj hc'
          rw [judge_walkedCall hclear.dotted hclear.apart (List.mem_cons_self ..)
            fun q hq => List.mem_cons_of_mem _ hq] at hp
          obtain ⟨new, hnew⟩ :=
            fate_of_judge hclear.dotted hclear.apart (List.mem_cons_self ..) hp
          rw [(rewrite?_eq_some_iff _).2 ⟨hc, new, hnew⟩] at hkept
          cases hkept
      · obtain ⟨u, hu, rfl⟩ := List.mem_map.1 ht
        exact ih u hu

/-! ### Second walks -/

/-- Whether a tree is settled hangs neither on its spans nor on the text it was read from. -/
theorem settled_of_bare {source' : List Char} {t u : Tree} (hbare : u.bare = t.bare)
    (h : Settled (settingOf registry config mode source) t) :
    Settled (settingOf registry config mode source') u := by
  have hjudge : ∀ {v : Tree} {c : Call}, Call.ofTree? v = some c → ∃ c',
      Call.ofTree? v.bare = some c' ∧ ∀ source₁ source₂,
        judge (settingOf registry config mode source₁) c' =
          judge (settingOf registry config mode source₂) c := by
    rintro ⟨k, s, cs⟩ c hc
    obtain ⟨c', hc', hfollows, -⟩ := Call.ofTree?_map hc Tree.bare .none
    refine ⟨c', by rw [Tree.bare_node, hc'], fun source₁ source₂ => ?_⟩
    have hclassify : (Matcher.ofConfig config).classify c' = (Matcher.ofConfig config).classify c :=
      (keepsOutline_bare ("JSON.stringify" :: config.selectorQueries)).classify_eq
        (List.mem_cons_self ..) (fun q hq => List.mem_cons_of_mem _ hq) hfollows
    unfold judge
    simp only [settingOf]
    rw [hclassify]
  intro v hv c hc p hp
  obtain ⟨c', hc', hcc'⟩ := hjudge hc
  have hmem : v.bare ∈ t.bare.subtrees := by
    rw [← hbare, Tree.subtrees_bare]
    exact List.mem_map_of_mem hv
  rw [Tree.subtrees_bare] at hmem
  obtain ⟨w, hw, hwv⟩ := List.mem_map.1 hmem
  -- the same node of the other tree is a call as well, judged alike
  cases hd : Call.ofTree? w with
  | none =>
    rw [← hwv, (keepsOutline_bare []).ofTree?_eq_none hd] at hc'
    cases hc'
  | some d =>
    obtain ⟨d', hd', hdd'⟩ := hjudge hd
    rw [hwv, hc'] at hd'
    obtain rfl := Option.some.inj hd'
    refine h w hw d hd p ?_
    rw [← hdd' source' source, hcc' source' source', hp]

theorem clear_standard : Clear Config.standard where
  dotted := ⟨by decide, by decide⟩
  apart := ⟨by decide, by decide, fun p => by
    cases p <;> simp [Plan.platformCall, Config.standard, PlatformCalls.standard]⟩
  built := by decide

/-- Under the standard configuration a second walk changes nothing. It may go over any tree that
equals the output of the first one up to spans: the tree stays as it is, spans included, no success
and no mapping is recorded, no call in it has a plan. No call is judged differently because its
parts have been walked over. -/
theorem walk_output_standard (registry : Registry) (source source' : List Char) (t u : Tree)
    (hu : u.bare = (walk (settingOf registry .standard .production source) t).1.bare) :
    (∃ log, walk (settingOf registry .standard .production source') u = (u, log) ∧
      (∀ r ∈ log.records, r.2.succeeded = false) ∧ log.mappings = []) ∧
    (∀ v ∈ u.subtrees, ∀ c, Call.ofTree? v = some c → ∀ p,
      judge (settingOf registry .standard .production source') c ≠ .planned p) ∧
    ∀ v ∈ t.subtrees, ∀ c, Call.ofTree? v = some c →
      judge (settingOf registry .standard .production source)
          (walkedCall (settingOf registry .standard .production source) c) =
        judge (settingOf registry .standard .production source) c := by
  have hsettled : Settled (settingOf registry .standard .production source') u :=
    settled_of_bare hu (clear_standard.settled_output t)
  refine ⟨walk_of_settled rfl hsettled, hsettled, fun v _ c _ => ?_⟩
  exact judge_walkedCall clear_standard.dotted clear_standard.apart (List.mem_cons_self ..)
    (fun q hq => List.mem_cons_of_mem _ hq) c

/-- A second walk over the call of the platform that a request for records has become. -/
theorem walk_output_standard_records :
    let source := "fetch('/api/records')".toList
    let t := callNode (referenceNode "fetch") [stringNode "/api/records"]
    let u := callNode (bare (.member "api" false) [referenceNode "kintone"])
      [stringNode "/k/v1/records.json", stringNode "GET", bare .object []]
    u.bare = (walk (settingOf .standard .standard .production source) t).1.bare ∧
      ∃ log, walk (settingOf .standard .standard .production []) u = (u, log) ∧
        (∀ r ∈ log.records, r.2.succeeded = false) ∧ log.mappings = [] := by
  intro source t u
  have hu : u.bare = (walk (settingOf .standard .standard .production source) t).1.bare := by
    decide +kernel
  exact ⟨hu, (walk_output_standard .standard source [] t u hu).1⟩

end CallBridge.Replacement
