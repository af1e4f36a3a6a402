import CallBridge.Pattern.Recognizer
import CallBridge.Proofs.Script.Subtree
import Mathlib.Data.List.Basic

/-!
# What recognition depends on

Recognition reads the outline of a call: dotted names, literals, the keys of an object and, for a
few names, the arguments of a call inside. A map of trees keeps the outline (`KeepsOutline`) when
it changes nothing but spans and calls that are not read through. Main statement: a call is
classified as before when its parts go through such a map (`KeepsOutline.classify_eq`).
-/

namespace CallBridge.Pattern

open Script

/-! ### Calls -/

/-- A call is a node of that kind with a callee. -/
theorem Call.ofTree?_eq_some_iff {t : Tree} {c : Call} :
    Call.ofTree? t = some c ↔
      ∃ optional, t = .node (.call optional) c.span (c.callee :: c.arguments) := by
  constructor
  · intro h
    unfold Call.ofTree? at h
    split at h
    · next optional span callee arguments =>
      obtain rfl := Option.some.inj h
      exact ⟨optional, rfl⟩
    · simp at h
  · rintro ⟨optional, rfl⟩
    rfl

/-- Only calls are taken apart. -/
theorem Call.ofTree?_node_eq_none {k : Kind} {s : Span} {cs : List Tree}
    (h : ∀ optional, k ≠ .call optional) : Call.ofTree? (.node k s cs) = none := by
  unfold Call.ofTree?
  split
  · next optional _ _ _ heq =>
    cases heq
    exact absurd rfl (h optional)
  · rfl

/-- A call whose parts are those of another call under a map. -/
structure Call.Follows (φ : Tree → Tree) (c c' : Call) : Prop where
  callee : c'.callee = φ c.callee
  arguments : c'.arguments = c.arguments.map φ

/-- A node stays a call when its children go through a map. -/
theorem Call.ofTree?_map {k : Kind} {s : Span} {cs : List Tree} {c : Call}
    (h : Call.ofTree? (.node k s cs) = some c) (φ : Tree → Tree) (s' : Span) :
    ∃ c', Call.ofTree? (.node k s' (cs.map φ)) = some c' ∧ c.Follows φ c' ∧ c'.span = s' := by
  obtain ⟨optional, ht⟩ := Call.ofTree?_eq_some_iff.1 h
  obtain ⟨rfl, -, rfl⟩ := Tree.node.inj ht
  exact ⟨⟨s', φ c.callee, c.arguments.map φ⟩, rfl, ⟨rfl, rfl⟩, rfl⟩

/-- What is no call does not become one when its children change. -/
theorem Call.ofTree?_map_eq_none {k : Kind} {s : Span} {cs : List Tree}
    (h : Call.ofTree? (.node k s cs) = none) (φ : Tree → Tree) (s' : Span) :
    Call.ofTree? (.node k s' (cs.map φ)) = none := by
  cases cs with
  | nil => cases k <;> rfl
  | cons callee arguments =>
    refine Call.ofTree?_node_eq_none fun optional hk => ?_
    subst hk
    simp [Call.ofTree?] at h

/-! ### Dotted names -/

@[simp] theorem calleePath?_reference (name : String) (s : Span) (cs : List Tree) :
    calleePath? (.node (.reference name) s cs) = some name := by
  rw [calleePath?, Tree.fold_node]

@[simp] theorem calleePath?_member (property : String) (optional : Bool) (s : Span) (t : Tree) :
    calleePath? (.node (.member property optional) s [t]) =
      (calleePath? t).map fun object => object ++ "." ++ property := by
  rw [calleePath?, Tree.fold_node]
  rfl

@[simp] theorem calleePath?_paren (s : Span) (t : Tree) :
    calleePath? (.node .paren s [t]) = calleePath? t := by
  rw [calleePath?, Tree.fold_node]
  rfl

/-- A call is no path of names. -/
theorem calleePath?_of_call {t : Tree} {c : Call} (h : Call.ofTree? t = some c) :
    calleePath? t = none := by
  obtain ⟨optional, rfl⟩ := Call.ofTree?_eq_some_iff.1 h
  rw [calleePath?, Tree.fold_node]

/-- The dotted name of a node hangs on its kind and on the dotted names of its children. -/
theorem calleePath?_congr (k : Kind) (s s' : Span) {cs cs' : List Tree}
    (h : cs.map calleePath? = cs'.map calleePath?) :
    calleePath? (.node k s cs) = calleePath? (.node k s' cs') := by
  rw [calleePath?, Tree.fold_node, Tree.fold_node]
  match cs, cs', h with
  | [], [], _ => cases k <;> rfl
  | [t], [t'], h =>
    have ht : calleePath? t = calleePath? t' := by simpa using h
    unfold calleePath? at ht
    cases k <;> simp [ht]
  | _ :: _ :: _, _ :: _ :: _, _ => cases k <;> rfl
  | [_], _ :: _ :: _, h => simp at h
  | _ :: _ :: _, [_], h => simp at h

theorem calleePath?_unparen (t : Tree) : calleePath? t.unparen = calleePath? t := by
  induction t with
  | node k s cs ih =>
    by_cases h : ∃ t, k = .paren ∧ cs = [t]
    · obtain ⟨t, rfl, rfl⟩ := h
      rw [Tree.unparen_paren, calleePath?_paren]
      exact ih t (List.mem_singleton_self t)
    · rw [Tree.unparen_node fun t hk hc => h ⟨t, hk, hc⟩]

/-! ### Maps that keep the outline -/

/-- A call whose arguments are not read under any of the names. -/
def Unread (names : List String) (t : Tree) : Prop :=
  ∃ c, Call.ofTree? t = some c ∧ ∀ name ∈ names, calleePath? c.callee ≠ some name

/-- A map that changes spans and puts calls that are not read in place of such calls. -/
def KeepsOutline (names : List String) (φ : Tree → Tree) : Prop :=
  ∀ k s cs, (∃ s', φ (.node k s cs) = .node k s' (cs.map φ)) ∨
    (Unread names (.node k s cs) ∧ Unread names (φ (.node k s cs)))

/-- Options whose values go through a map. -/
def Options.map (φ : Tree → Tree) : Options → Options
  | .absent => .absent
  | .entries es => .entries (es.map fun e => (e.1, φ e.2))
  | .opaqueValue => .opaqueValue

theorem lookup_map_snd (φ : Tree → Tree) (name : String) (es : List (String × Tree)) :
    (es.map fun e => (e.1, φ e.2)).lookup name = (es.lookup name).map φ := by
  induction es with
  | nil => rfl
  | cons e rest ih =>
    rw [List.map_cons, List.lookup_cons, List.lookup_cons, ih]
    cases name == e.1 <;> rfl

section Outline

variable {names : List String} {φ : Tree → Tree} (hφ : KeepsOutline names φ)

include hφ

/-- A call stays a call of the same outline, unless none of its names is read. -/
theorem KeepsOutline.call_or_node {t : Tree} {c : Call} (h : Call.ofTree? t = some c) :
    (∃ c', Call.ofTree? (φ t) = some c' ∧ c.Follows φ c') ∨
      (Unread names t ∧ Unread names (φ t)) := by
  obtain ⟨k, s, cs⟩ := t
  rcases hφ k s cs with ⟨s', hs⟩ | hunread
  · obtain ⟨c', hc', hf, -⟩ := Call.ofTree?_map h φ s'
    exact Or.inl ⟨c', by rw [hs, hc'], hf⟩
  · exact Or.inr hunread

/-- Whatever is no call keeps its kind and its number of children. -/
theorem KeepsOutline.node_of_no_call {k : Kind} {s : Span} {cs : List Tree}
    (h : Call.ofTree? (.node k s cs) = none) : ∃ s', φ (.node k s cs) = .node k s' (cs.map φ) := by
  rcases hφ k s cs with hs | ⟨⟨c, hc, -⟩, -⟩
  · exact hs
  · rw [h] at hc
    cases hc

/-- A node goes to a node of its kind over its children, or a call to a call. -/
theorem KeepsOutline.node_or_call (k : Kind) (s : Span) (cs : List Tree) :
    (∃ s', φ (.node k s cs) = .node k s' (cs.map φ)) ∨
      ∃ o s₁ cs₁ o' s₂ cs₂, (.node k s cs : Tree) = .node (.call o) s₁ cs₁ ∧
        φ (.node k s cs) = .node (.call o') s₂ cs₂ := by
  rcases hφ k s cs with hs | ⟨⟨c, hc, -⟩, ⟨c', hc', -⟩⟩
  · exact Or.inl hs
  · obtain ⟨o, ht⟩ := Call.ofTree?_eq_some_iff.1 hc
    obtain ⟨o', ht'⟩ := Call.ofTree?_eq_some_iff.1 hc'
    exact Or.inr ⟨o, _, _, o', _, _, ht, ht'⟩

theorem KeepsOutline.ofTree?_eq_none {t : Tree} (h : Call.ofTree? t = none) :
    Call.ofTree? (φ t) = none := by
  obtain ⟨k, s, cs⟩ := t
  obtain ⟨s', hs⟩ := hφ.node_of_no_call h
  rw [hs]
  exact Call.ofTree?_map_eq_none h φ s'

theorem KeepsOutline.calleePath?_eq (t : Tree) : calleePath? (φ t) = calleePath? t := by
  induction t with
  | node k s cs ih =>
    rcases hφ k s cs with ⟨s', hs⟩ | ⟨⟨c, hc, -⟩, ⟨c', hc', -⟩⟩
    · rw [hs]
      refine calleePath?_congr k s' s ?_
      rw [List.map_map]
      exact List.map_congr_left ih
    · rw [calleePath?_of_call hc, calleePath?_of_call hc']

theorem KeepsOutline.unparen_eq (t : Tree) : (φ t).unparen = φ t.unparen := by
  induction t with
  | node k s cs ih =>
    by_cases h : ∃ t, k = .paren ∧ cs = [t]
    · obtain ⟨t, rfl, rfl⟩ := h
      obtain ⟨s', hs⟩ := hφ.node_of_no_call (Call.ofTree?_node_eq_none (k := .paren) nofun)
      rw [hs, List.map_singleton, Tree.unparen_paren, Tree.unparen_paren]
      exact ih t (List.mem_singleton_self t)
    · rw [Tree.unparen_node fun t hk hc => h ⟨t, hk, hc⟩]
      rcases hφ k s cs with ⟨s', hs⟩ | ⟨-, c', hc', -⟩
      · rw [hs]
        refine Tree.unparen_node fun t hk hcs => ?_
        obtain ⟨u, rfl, -⟩ := List.map_eq_singleton_iff.1 hcs
        exact h ⟨u, hk, rfl⟩
      · obtain ⟨optional, ht⟩ := Call.ofTree?_eq_some_iff.1 hc'
        rw [ht]
        exact Tree.unparen_node nofun

theorem KeepsOutline.literal?_eq (t : Tree) : literal? (φ t) = literal? t := by
  rw [literal?, literal?, hφ.unparen_eq]
  obtain ⟨k, s, cs⟩ := t.unparen
  rcases hφ.node_or_call k s cs with ⟨s', hs⟩ | ⟨_, _, _, _, _, _, ht, ht'⟩
  · rw [hs]
    cases k with
    | template quasis => cases cs <;> rfl
    | _ => rfl
  · rw [ht', ht]

/-- Only calls change their kind, and only to calls. -/
theorem KeepsOutline.kind_eq_iff {k : Kind} (hk : ∀ optional, k ≠ .call optional) (t : Tree) :
    (φ t).kind = k ↔ t.kind = k := by
  obtain ⟨k', s, cs⟩ := t
  rcases hφ.node_or_call k' s cs with ⟨s', hs⟩ | ⟨o, _, _, o', _, _, ht, ht'⟩
  · rw [hs]
    rfl
  · rw [ht', ht]
    exact ⟨fun h => absurd h.symm (hk o'), fun h => absurd h.symm (hk o)⟩

theorem KeepsOutline.plain?_eq (t : Tree) : plain? (φ t) = (plain? t).map φ := by
  unfold plain?
  simp only [beq_iff_eq, hφ.kind_eq_iff (k := .spread) nofun]
  split <;> rfl

theorem KeepsOutline.keyName?_eq (t : Tree) : keyName? (φ t) = keyName? t := by
  obtain ⟨k, s, cs⟩ := t
  rcases hφ.node_or_call k s cs with ⟨s', hs⟩ | ⟨_, _, _, _, _, _, ht, ht'⟩
  · rw [hs]
    rfl
  · rw [ht', ht]
    rfl

/-- A property keeps its name, and its value is changed as a tree is. -/
theorem KeepsOutline.entry?_eq (t : Tree) :
    entry? (φ t) = ( entry? t).map fun e => (e.1, φ e.2) := by
  obtain ⟨k, s, cs⟩ := t
  rcases hφ.node_or_call k s cs with ⟨s', hs⟩ | ⟨_, _, _, _, _, _, ht, ht'⟩
  · rw [hs]
    cases k with
    | property form computed =>
      match computed, cs with
      | false, [key, value] =>
        cases form <;> simp [hφ.keyName?_eq, entry?, Function.comp_def]
      | true, _ => rfl
      | false, [] => rfl
      | false, [_] => rfl
      | false, _ :: _ :: _ :: _ => rfl
    | _ => rfl
  · rw [ht', ht]
    rfl

/-! ### The parts of a call -/

theorem KeepsOutline.argument?_eq {c c' : Call} (h : c.Follows φ c') (i : Nat) :
    c'.argument? i = (c.argument? i).map φ := by
  rw [Call.argument?, Call.argument?, h.arguments, List.getElem?_map]
  cases c.arguments[i]? with
  | none => rfl
  | some t => exact hφ.plain?_eq t

theorem KeepsOutline.literalArgument?_eq {c c' : Call} (h : c.Follows φ c') (i : Nat) :
    c'.literalArgument? i = c.literalArgument? i := by
  rw [Call.literalArgument?, Call.literalArgument?, hφ.argument?_eq h]
  cases c.argument? i with
  | none => rfl
  | some t => exact hφ.literal?_eq t

theorem KeepsOutline.mapM_entry?_eq (ps : List Tree) :
    (ps.map φ).mapM entry? = (ps.mapM entry?).map fun es => es.map fun e => (e.1, φ e.2) := by
  induction ps with
  | nil => rfl
  | cons p rest ih =>
    rw [List.map_cons, List.mapM_cons, List.mapM_cons, ih, hφ.entry?_eq]
    cases entry? p with
    | none => rfl
    | some e =>
      cases rest.mapM entry? with
      | none => rfl
      | some es => rfl

/-- So do the options of a call. -/
theorem KeepsOutline.options_eq {c c' : Call} (h : c.Follows φ c') :
    c'.options = c.options.map φ := by
  rw [Call.options, Call.options, h.arguments, List.getElem?_map]
  cases c.arguments[1]? with
  | none => rfl
  | some t =>
    simp only [Option.map_some]
    rw [hφ.plain?_eq t]
    cases plain? t with
    | none => rfl
    | some u =>
      simp only [Option.map_some]
      rw [hφ.unparen_eq]
      obtain ⟨k, s, cs⟩ := u.unparen
      rcases hφ.node_or_call k s cs with ⟨s', hs⟩ | ⟨_, _, _, _, _, _, ht, ht'⟩
      · rw [hs]
        cases k with
        | object =>
          simp only
          rw [hφ.mapM_entry?_eq]
          cases cs.mapM entry? with
          | none => rfl
          | some es => rfl
        | _ => rfl
      · rw [ht', ht]
        rfl

theorem KeepsOutline.option?_eq {c c' : Call} (h : c.Follows φ c') (name : String) :
    c'.option? name = (c.option? name).map φ := by
  rw [Call.option?, Call.option?, hφ.options_eq h]
  cases c.options with
  | entries es => exact lookup_map_snd φ name es
  | _ => rfl

/-- A `JSON.stringify` call that is read goes to one around the value that went through the map. -/
theorem KeepsOutline.stringified?_eq (hs : "JSON.stringify" ∈ names) (t : Tree) :
    stringified? (φ t) = (stringified? t).map φ := by
  rw [stringified?, stringified?, hφ.unparen_eq]
  cases hc : Call.ofTree? t.unparen with
  | none => rw [hφ.ofTree?_eq_none hc]; rfl
  | some c =>
    rcases hφ.call_or_node hc with ⟨c', hc', hf⟩ | ⟨⟨d, hd, hd₁⟩, ⟨c', hc', hc₁⟩⟩
    · rw [hc', Option.bind_some, Option.bind_some, hf.callee, hφ.calleePath?_eq]
      split
      · exact hφ.argument?_eq hf 0
      · rfl
    · rw [hc] at hd
      obtain rfl := Option.some.inj hd
      rw [hc', Option.bind_some, Option.bind_some, if_neg, if_neg]
      · rfl
      · exact fun h => hd₁ _ hs (beq_iff_eq.1 h)
      · exact fun h => hc₁ _ hs (beq_iff_eq.1 h)

/-- The method is a literal and stays as it is. -/
theorem KeepsOutline.methodOf_eq {c c' : Call} (h : c.Follows φ c') : methodOf c' = methodOf c := by
  rw [methodOf, methodOf, hφ.option?_eq h]
  cases c.option? "method" with
  | none => rfl
  | some t =>
    simp only [Option.map_some]
    rw [hφ.literal?_eq]

/-- Where the body stands is the same, if calls of `JSON.stringify` are told from others. -/
theorem KeepsOutline.bodyOf_eq (hs : "JSON.stringify" ∈ names) {c c' : Call} (h : c.Follows φ c') :
    bodyOf c' = bodyOf c := by
  rw [bodyOf, bodyOf, hφ.option?_eq h]
  cases c.option? "body" with
  | none => rfl
  | some t =>
    simp only [Option.map_some]
    rw [hφ.stringified?_eq hs, Option.isSome_map]

/-! ### Recognition -/

theorem KeepsOutline.scopedRegistration?_eq {config : Config}
    (hq : ∀ q ∈ config.selectorQueries, q ∈ names) (t : Tree) :
    scopedRegistration? config (φ t) = scopedRegistration? config t := by
  rw [scopedRegistration?, scopedRegistration?, hφ.unparen_eq]
  obtain ⟨k, s, cs⟩ := t.unparen
  rcases hφ.node_or_call k s cs with ⟨s', hs⟩ | ⟨_, _, _, _, _, _, ht, ht'⟩
  · rw [hs]
    cases k with
    | member method optional =>
      match cs with
      | [] => rfl
      | _ :: _ :: _ => rfl
      | [object] =>
        simp only [List.map_cons, List.map_nil]
        rw [hφ.unparen_eq]
        cases hc : Call.ofTree? object.unparen with
        | none => rw [hφ.ofTree?_eq_none hc]
        | some query =>
          rcases hφ.call_or_node hc with ⟨query', hc', hf⟩ | ⟨⟨d, hd, hd₁⟩, ⟨query', hc', hc₁⟩⟩
          · rw [hc']
            simp only [Option.bind_eq_bind, Option.bind_some]
            rw [hf.callee, hφ.calleePath?_eq, hφ.literalArgument?_eq hf]
          · -- a selector query is read, so neither call is one
            obtain rfl := Option.some.inj (hc.symm.trans hd)
            have hno : ∀ c : Call, (∀ name ∈ names, calleePath? c.callee ≠ some name) →
                ((calleePath? c.callee).bind fun path =>
                  if config.selectorQueries.contains path then
                    (c.literalArgument? 0).map fun selector => (method, selector)
                  else none) = none := by
              intro c hc
              cases hp : calleePath? c.callee with
              | none => rfl
              | some path =>
                rw [Option.bind_some, if_neg]
                intro hmem
                exact hc path (hq path (List.contains_iff_mem.1 hmem)) hp
            rw [hc']
            simp only [Option.bind_eq_bind, Option.bind_some, hno _ hd₁, hno _ hc₁]
    | _ => rfl
  · rw [ht', ht]

theorem KeepsOutline.registration?_eq {config : Config}
    (hq : ∀ q ∈ config.selectorQueries, q ∈ names) (t : Tree) :
    registration? config (φ t) = registration? config t := by
  rw [registration?, registration?, hφ.calleePath?_eq, hφ.scopedRegistration?_eq hq]

/-- What is recognised as a registration does not change. -/
theorem KeepsOutline.recognizeEvent_eq {config : Config}
    (hq : ∀ q ∈ config.selectorQueries, q ∈ names) {c c' : Call} (h : c.Follows φ c') :
    recognizeEvent config c' = recognizeEvent config c := by
  unfold recognizeEvent
  rw [h.callee, hφ.registration?_eq hq, hφ.literalArgument?_eq h, hφ.argument?_eq h, h.arguments,
    List.length_map]
  cases c.argument? 1 <;> rfl

/-- Nor does what is recognised as a request. -/
theorem KeepsOutline.recognizeFetch_eq {config : Config} (hs : "JSON.stringify" ∈ names)
    {c c' : Call} (h : c.Follows φ c') : recognizeFetch config c' = recognizeFetch config c := by
  unfold recognizeFetch
  rw [h.callee, hφ.calleePath?_eq, hφ.literalArgument?_eq h, hφ.options_eq h, hφ.methodOf_eq h,
    hφ.bodyOf_eq hs h]
  cases c.options <;> rfl

/-- A call is classified as before when its parts go through a map that keeps the outline. -/
theorem KeepsOutline.classify_eq {config : Config} (hs : "JSON.stringify" ∈ names)
    (hq : ∀ q ∈ config.selectorQueries, q ∈ names) {c c' : Call} (h : c.Follows φ c') :
    (Matcher.ofConfig config).classify c' = (Matcher.ofConfig config).classify c := by
  have hclaims : ∀ r ∈ Matcher.ofConfig config, r.recognize c' = r.recognize c := by
    intro r hr
    rcases List.mem_pair.1 hr with rfl | rfl
    · exact hφ.recognizeEvent_eq hq h
    · exact hφ.recognizeFetch_eq hs h
  rw [Matcher.classify, Matcher.classify,
    List.filterMap_congr fun r hr => by rw [hclaims r hr]]

end Outline

/-- Forgetting spans keeps every outline. -/
theorem keepsOutline_bare (names : List String) : KeepsOutline names Tree.bare :=
  fun k s cs => Or.inl ⟨.none, Tree.bare_node k s cs⟩

end CallBridge.Pattern
