import CallBridge.Proofs.Pattern.Outline

/-!
# Parts of a call

Whatever is read off a call as an expression stands in it: an argument is one of its arguments, the
value of an option stands in the second one (`option?_mem_subtrees`), the value that a
`JSON.stringify` call writes stands in that call (`stringified?_mem_subtrees`).
-/

namespace CallBridge.Pattern

open Script

theorem plain?_eq_some {t u : Tree} (h : plain? t = some u) : u = t := by
  unfold plain? at h
  split at h
  · simp at h
  · exact (Option.some.inj h).symm

theorem Call.argument?_eq_some {c : Call} {i : Nat} {t : Tree} (h : c.argument? i = some t) :
    c.arguments[i]? = some t := by
  obtain ⟨u, hu, ht⟩ := Option.bind_eq_some_iff.1 h
  rw [hu, plain?_eq_some ht]

theorem Call.argument?_mem {c : Call} {i : Nat} {t : Tree} (h : c.argument? i = some t) :
    t ∈ c.arguments :=
  List.mem_of_getElem? (Call.argument?_eq_some h)

/-- The value of a property stands below it. -/
theorem entry?_eq_some {t value : Tree} {name : String} (h : entry? t = some (name, value)) :
    ∃ form s key, t = .node (.property form false) s [key, value] := by
  unfold entry? at h
  split at h
  · next form s key v =>
    split at h
    · simp at h
    · simp at h
    · obtain ⟨_, -, heq⟩ := Option.map_eq_some_iff.1 h
      obtain ⟨-, rfl⟩ := Prod.mk.inj heq
      exact ⟨form, s, key, rfl⟩
  · simp at h

theorem mem_of_mapM_entries {ps : List Tree} {es : List (String × Tree)} {e : String × Tree}
    (h : ps.mapM entry? = some es) (he : e ∈ es) : ∃ p ∈ ps, entry? p = some e := by
  induction ps generalizing es with
  | nil =>
    obtain rfl : es = [] := by simpa using h.symm
    cases he
  | cons p rest ih =>
    rw [List.mapM_cons] at h
    obtain ⟨first, hfirst, h⟩ := Option.bind_eq_some_iff.1 h
    obtain ⟨more, hmore, h⟩ := Option.bind_eq_some_iff.1 h
    obtain rfl := Option.some.inj h
    rcases List.mem_cons.1 he with rfl | he
    · exact ⟨p, List.mem_cons_self .., hfirst⟩
    · obtain ⟨q, hq, hqe⟩ := ih hmore he
      exact ⟨q, List.mem_cons_of_mem _ hq, hqe⟩

/-- Options that can be read are an object literal in the second argument. -/
theorem Call.options_eq_entries {c : Call} {es : List (String × Tree)}
    (h : c.options = .entries es) :
    ∃ t s properties, c.arguments[1]? = some t ∧ plain? t = some t ∧
      t.unparen = .node .object s properties ∧ properties.mapM entry? = some es := by
  unfold Call.options at h
  split at h
  · simp at h
  · next t ht =>
    split at h
    · next s properties hobject =>
      obtain ⟨u, hu, hun⟩ := Option.map_eq_some_iff.1 hobject
      obtain rfl := plain?_eq_some hu
      split at h
      · next es' hes =>
        obtain rfl := Options.entries.inj h
        exact ⟨u, s, properties, ht, hu, hun, hes⟩
      · simp at h
    · simp at h

/-- The value of an option stands in the second argument. -/
theorem Call.option?_mem_subtrees {c : Call} {name : String} {t : Tree}
    (h : c.option? name = some t) : ∃ a, c.arguments[1]? = some a ∧ t ∈ a.subtrees := by
  unfold Call.option? at h
  split at h
  · next es hes =>
    obtain ⟨a, s, properties, ha, -, hobject, hentries⟩ := Call.options_eq_entries hes
    obtain ⟨before, after, rfl, -⟩ := List.lookup_eq_some_iff.1 h
    obtain ⟨p, hp, hentry⟩ := mem_of_mapM_entries (e := (name, t)) hentries (by simp)
    obtain ⟨form, s', key, rfl⟩ := entry?_eq_some hentry
    have hvalue : t ∈ (.node (.property form false) s' [key, t] : Tree).subtrees :=
      Tree.mem_subtrees_of_child (by simp) (Tree.self_mem_subtrees t)
    have hunparen : t ∈ a.unparen.subtrees := by
      rw [hobject]
      exact Tree.mem_subtrees_of_child hp hvalue
    exact ⟨a, ha, Tree.mem_subtrees_trans (Tree.unparen_mem_subtrees a) hunparen⟩
  · simp at h

/-- What a `JSON.stringify` call writes is its first argument. -/
theorem stringified?_eq_some {t u : Tree} (h : stringified? t = some u) :
    ∃ c, Call.ofTree? t.unparen = some c ∧ calleePath? c.callee = some "JSON.stringify" ∧
      c.argument? 0 = some u := by
  obtain ⟨c, hc, h⟩ := Option.bind_eq_some_iff.1 h
  split at h
  · next hpath => exact ⟨c, hc, beq_iff_eq.1 hpath, h⟩
  · simp at h

theorem stringified?_mem_subtrees {t u : Tree} (h : stringified? t = some u) :
    u ∈ t.subtrees := by
  obtain ⟨c, hc, -, hu⟩ := stringified?_eq_some h
  obtain ⟨optional, hcall⟩ := Call.ofTree?_eq_some_iff.1 hc
  refine Tree.mem_subtrees_trans (Tree.unparen_mem_subtrees t) ?_
  rw [hcall]
  exact Tree.mem_subtrees_of_child (List.mem_cons_of_mem _ (Call.argument?_mem hu))
    (Tree.self_mem_subtrees u)

end CallBridge.Pattern
