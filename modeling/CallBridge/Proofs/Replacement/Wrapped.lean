import CallBridge.Proofs.Replacement.Placements

/-!
# What a walk does to `await` and `yield`

A walk wraps the handlers of the registrations that it replaces, after it has rewritten them. Main
statements: when no surviving handler needs anything of what is around it, every `await` and `yield`
of the output stands in the source too and belongs to the same function there
(`placed_output_subset`); and when every one of them may stand where it does in the output, no
surviving handler needs anything (`handlers_of_fits_output`).
-/

namespace CallBridge.Replacement

open Pattern Script Source

/-- What is around the parts that a plan takes over. -/
def Plan.around (e : Enclosure) : Plan → Enclosure
  | .event .. => wrapperEnclosure
  | .fetch .. => e

theorem Plan.mem_taken_event {c : Call} {call : EventCall} {m : EventMapping} {u : Tree} :
    u ∈ (Plan.event call m).taken c ↔ c.argument? call.handlerIndex = some u := Option.mem_toList

theorem Plan.mem_taken_fetch {c : Call} {call : FetchCall} {method : String} {m : ApiMapping}
    {u : Tree} :
    u ∈ (Plan.fetch call method m).taken c ↔ bodyExpression? c call.body = .ok (some u) := by
  rw [Plan.taken, Option.mem_toList]
  cases bodyExpression? c call.body with
  | error problem => simp [Except.toOption]
  | ok body => simp [Except.toOption]

/-- What a plan takes over stands in the call, and nothing in between changes what is around it. -/
theorem Plan.placed_taken_subset {t u : Tree} {c : Call} {p : Plan} (hc : Call.ofTree? t = some c)
    (hu : u ∈ p.taken c) (e : Enclosure) : placed u e ⊆ placed t e := by
  cases p with
  | event call m =>
    exact placed_argument_subset hc (Call.argument?_mem (Plan.mem_taken_event.1 hu)) e
  | fetch call method m =>
    obtain ⟨a, ha, hsubset⟩ := placed_body_subset (Plan.mem_taken_fetch.1 hu)
    exact List.Subset.trans (hsubset e) (placed_argument_subset hc ha e)

variable (s : Setting)

/-- A node that is not replaced stays with its parts walked over. -/
theorem output_of_none {k : Kind} {span : Span} {cs : List Tree}
    (h : rewrite? s (.node k span cs) = none) :
    output s (.node k span cs) = .node k span (cs.map (output s)) := by
  rcases walk_cases s k span cs with ⟨c, p, new, hc, hfate, -⟩ | ⟨-, hout⟩
  · rw [(rewrite?_eq_some_iff s).2 ⟨hc, new, hfate⟩] at h
    cases h
  · exact hout

/-- A node that is replaced gives what its plan makes of the call with its parts walked over. -/
theorem output_of_rewrite {t : Tree} {c : Call} {p : Plan} (h : rewrite? s t = some (c, p)) :
    judge s c = .planned p ∧ p.replacement s.platform (walkedCall s c) = .ok (output s t) := by
  obtain ⟨k, span, cs⟩ := t
  obtain ⟨hc, new, hfate⟩ := (rewrite?_eq_some_iff s).1 h
  obtain ⟨hprepare, hnew⟩ := (fate_eq_replaced_iff s).1 hfate
  refine ⟨((prepare_eq_some_iff s).1 hprepare).2, ?_⟩
  rcases walk_cases s k span cs with ⟨c', p', new', hc', hfate', hout⟩ | ⟨hkept, -⟩
  · obtain rfl := Option.some.inj (hc.symm.trans hc')
    rw [hout, ← (Fate.replaced.inj (hfate.symm.trans hfate')).2]
    exact hnew
  · rw [h] at hkept
    cases hkept

/-- The handler that is wrapped in place of a node, if one is. -/
def wrapped? (t : Tree) : Option Tree :=
  (rewrite? s t).bind fun found =>
    match found.2 with
    | .event call _ => found.1.argument? call.handlerIndex
    | .fetch .. => none

theorem wrapped?_eq_some_iff {t handler : Tree} :
    wrapped? s t = some handler ↔
      ∃ c call m, rewrite? s t = some (c, .event call m) ∧
        c.argument? call.handlerIndex = some handler := by
  unfold wrapped?
  cases hrewrite : rewrite? s t with
  | none => simp
  | some found =>
    obtain ⟨c, p⟩ := found
    cases p with
    | event call m => simp
    | fetch call method m => simp

/-- Every handler that ends up in a wrapper has, as it is by then, no `await` or `yield` outside
functions of its own. -/
def HandlersSelfContained (t : Tree) : Prop :=
  ∀ u ∈ survivors s t, ∀ handler ∈ wrapped? s u, SelfContained (output s handler)

variable {s}

theorem HandlersSelfContained.part {t u : Tree} (h : HandlersSelfContained s t)
    (hu : u ∈ parts s t) : HandlersSelfContained s u := by
  intro v hv
  refine h v ?_
  rw [survivors_eq]
  exact List.mem_cons_of_mem _ (List.mem_flatMap.2 ⟨u, hu, hv⟩)

theorem HandlersSelfContained.self {t handler : Tree} (h : HandlersSelfContained s t)
    (hw : wrapped? s t = some handler) : SelfContained (output s handler) := by
  refine h t ?_ handler hw
  rw [survivors_eq]
  exact List.mem_cons_self ..

section Walk

variable {registry : Registry} {config : Config} {source : List Char} {names : List String}
  (hd : Dotted config.platform) (ha : Apart config names) (hs : "JSON.stringify" ∈ names)
  (hbody : ∀ m ∈ registry.apis, CarriesOnce m) {t : Tree}

include hd ha hs hbody

/-- A replacement has the placements of what it takes over, as the walk has left it. -/
theorem mem_placed_rewritten {c : Call} {p : Plan}
    (h : rewrite? (settingOf registry config .production source) t = some (c, p)) {e : Enclosure}
    {q : Placement} :
    q ∈ placed (output (settingOf registry config .production source) t) e ↔
      ∃ u ∈ p.taken c,
        q ∈ placed (output (settingOf registry config .production source) u) (p.around e) := by
  obtain ⟨hjudge, hnew⟩ := output_of_rewrite _ h
  have hkeeps : KeepsOutline names (output (settingOf registry config .production source)) :=
    output_keepsOutline hd ha
  have hfollows := walkedCall_follows (settingOf registry config .production source) c
  cases p with
  | event call m =>
    obtain ⟨handler, hhandler⟩ := handler_of_judge hjudge
    have hwalked := hkeeps.argument?_eq hfollows call.handlerIndex
    rw [hhandler, Option.map_some] at hwalked
    rw [placed_ofEvent hd.event hwalked hnew]
    constructor
    · exact fun hq => ⟨handler, Plan.mem_taken_event.2 hhandler, hq⟩
    · rintro ⟨u, hu, hq⟩
      obtain rfl := Option.some.inj (hhandler.symm.trans (Plan.mem_taken_event.1 hu))
      exact hq
  | fetch call method m =>
    obtain ⟨-, hspec⟩ := request_of_judge hjudge
    obtain ⟨body, hexpression⟩ := bodyExpression?_bodyOf c
    rw [← hspec] at hexpression
    have hwalked := bodyExpression?_eq hkeeps hs hfollows call.body
    rw [hexpression] at hwalked
    rw [mem_placed_ofFetch hd.api hwalked hnew]
    constructor
    · rintro ⟨-, b, hb, hq⟩
      obtain ⟨u, rfl, rfl⟩ := Option.map_eq_some_iff.1 hb
      exact ⟨u, Plan.mem_taken_fetch.2 hexpression, hq⟩
    · rintro ⟨u, hu, hq⟩
      obtain rfl := Except.ok.inj (hexpression.symm.trans (Plan.mem_taken_fetch.1 hu))
      -- the one parameter that carries the body
      have hm : CarriesOnce m := by
        rcases (judge_eq_planned_iff _).1 hjudge with
          ⟨_, _, -, -, hp⟩ | ⟨call', method', m', -, -, hm, hp⟩
        · cases hp
        · obtain ⟨rfl, rfl, rfl⟩ := Plan.fetch.inj hp
          exact hbody _ (Registry.apiByRoute?_mem hm)
      have hcarried : 0 < (m.transform.request
          ⟨call.url, method, some .deferred⟩).params.countP carriesBody := by
        rw [hm.deferred]
        exact Nat.one_pos
      exact ⟨List.countP_pos_iff.1 hcarried, _, rfl, hq⟩

/-- A walk keeps every `await` and `yield` with its function when the wrapped handlers have none of
their own. -/
theorem placed_output_subset
    (h : HandlersSelfContained (settingOf registry config .production source) t) (e : Enclosure) :
    placed (output (settingOf registry config .production source) t) e ⊆ placed t e := by
  induction hn : t.size using Nat.strongRecOn generalizing t e with
  | ind n ih =>
    subst hn
    have hpart {u : Tree} (hu : u ∈ parts (settingOf registry config .production source) t)
        (e : Enclosure) :
        placed (output (settingOf registry config .production source) u) e ⊆ placed u e :=
      ih _ (size_lt_of_mem_parts _ hu) (h.part hu) e rfl
    cases hrewrite : rewrite? (settingOf registry config .production source) t with
    | some found =>
      obtain ⟨c, p⟩ := found
      intro q hq
      obtain ⟨u, hu, hq⟩ := (mem_placed_rewritten hd ha hs hbody hrewrite).1 hq
      have huparts : u ∈ parts (settingOf registry config .production source) t := by
        rw [parts_of_rewrite _ hrewrite]
        exact hu
      have hc := ((rewrite?_eq_some_iff _).1 hrewrite).1
      refine Plan.placed_taken_subset hc hu e (hpart huparts e ?_)
      cases p with
      | event call m =>
        -- what needs nothing of what is around it is the same in the wrapper and in the call
        have hwrapped := (wrapped?_eq_some_iff _).2
          ⟨c, call, m, hrewrite, Plan.mem_taken_event.1 hu⟩
        rw [(h.self hwrapped).placed_eq e wrapperEnclosure]
        exact hq
      | fetch call method m => exact hq
    | none =>
      obtain ⟨k, span, cs⟩ := t
      rw [parts_of_none _ hrewrite] at hpart
      rw [output_of_none _ hrewrite]
      cases cs with
      | nil => exact List.Subset.refl _
      | cons c cs =>
        intro q hq
        rw [List.map_cons] at hq
        refine mem_placed_cons.2 ?_
        rcases mem_placed_cons.1 hq with hq | hq | ⟨u, hu, hq⟩
        · exact Or.inl hq
        · exact Or.inr (Or.inl (hpart (List.mem_cons_self ..) _ hq))
        · obtain ⟨v, hv, rfl⟩ := List.mem_map.1 hu
          exact Or.inr (Or.inr ⟨v, hv, hpart (List.mem_cons_of_mem _ hv) _ hq⟩)

/-- Where every `await` and `yield` of an output may stand, those of its parts may. -/
theorem fits_output_part {u : Tree} {e : Enclosure}
    (h : Fits e (output (settingOf registry config .production source) t))
    (hu : u ∈ parts (settingOf registry config .production source) t) :
    ∃ e', Fits e' (output (settingOf registry config .production source) u) := by
  cases hrewrite : rewrite? (settingOf registry config .production source) t with
  | some found =>
    obtain ⟨c, p⟩ := found
    rw [parts_of_rewrite _ hrewrite] at hu
    refine ⟨p.around e, fun q hq => h q ?_⟩
    exact (mem_placed_rewritten hd ha hs hbody hrewrite).2 ⟨u, hu, hq⟩
  | none =>
    rw [parts_of_none _ hrewrite] at hu
    obtain ⟨k, span, cs⟩ := t
    rw [output_of_none _ hrewrite] at h
    cases cs with
    | nil => cases hu
    | cons c cs =>
      obtain ⟨-, hfirst, hothers⟩ := fits_cons.1 h
      rcases List.mem_cons.1 hu with rfl | hu
      · exact ⟨_, hfirst⟩
      · exact ⟨_, hothers _ (List.mem_map_of_mem hu)⟩

/-- Where every `await` and `yield` of an output may stand, the wrapped handlers have none of their
own. -/
theorem handlers_of_fits_output {e : Enclosure}
    (h : Fits e (output (settingOf registry config .production source) t)) :
    HandlersSelfContained (settingOf registry config .production source) t := by
  induction hn : t.size using Nat.strongRecOn generalizing t e with
  | ind n ih =>
    subst hn
    intro u hu handler hhandler
    rw [survivors_eq] at hu
    rcases List.mem_cons.1 hu with rfl | hu
    · obtain ⟨c, call, m, hrewrite, hargument⟩ := (wrapped?_eq_some_iff _).1 hhandler
      have hwrapper : Fits wrapperEnclosure
          (output (settingOf registry config .production source) handler) := fun q hq =>
        h q ((mem_placed_rewritten hd ha hs hbody hrewrite).2
          ⟨handler, Plan.mem_taken_event.2 hargument, hq⟩)
      exact hwrapper.covers ⟨nofun, nofun⟩
    · obtain ⟨v, hv, hu⟩ := List.mem_flatMap.1 hu
      obtain ⟨e', hpart⟩ := fits_output_part hd ha hs hbody h hv
      exact ih _ (size_lt_of_mem_parts _ hv) hpart rfl u hu handler hhandler

end Walk

end CallBridge.Replacement
