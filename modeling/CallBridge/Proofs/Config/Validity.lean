import CallBridge.Config.Basic

/-!
# Valid configurations

What a configuration is accepted for: no callee is one of events and of fetches, no platform call
is a callee, no platform call is blank (`isValid_iff`).
-/

namespace CallBridge.Config

/-- A configuration is in order if and only if its three kinds of names are told apart and both
platform names are there. -/
theorem isValid_iff {config : Config} :
    config.isValid ↔
      (∀ name ∈ config.fetchCallees, name ∉ config.eventCallees) ∧
      (∀ name ∈ [config.platform.eventRegistration, config.platform.apiInvocation],
        name ∉ config.eventCallees ∧ name ∉ config.fetchCallees) ∧
      isBlankText config.platform.eventRegistration = false ∧
      isBlankText config.platform.apiInvocation = false := by
  unfold isValid problem?
  cases hshared : config.fetchCallees.find? config.eventCallees.contains with
  | some shared =>
    have hmem := List.mem_of_find?_eq_some hshared
    have hcallee := List.contains_iff_mem.1 (List.find?_some hshared)
    simp only [Option.isNone_some, Bool.false_eq_true, false_iff]
    rintro ⟨hdisjoint, -⟩
    exact hdisjoint shared hmem hcallee
  | none =>
    have hdisjoint : ∀ name ∈ config.fetchCallees, name ∉ config.eventCallees := by
      intro name hname hevent
      have := List.find?_eq_none.1 hshared name hname
      exact this (List.contains_iff_mem.2 hevent)
    simp only [List.forall_mem_cons, List.not_mem_nil, Bool.or_eq_true, List.contains_iff_mem]
    split
    · next hevent =>
      simp only [Option.isNone_some, Bool.false_eq_true, false_iff]
      rintro ⟨-, ⟨hfree, -⟩, -⟩
      exact hevent.elim hfree.1 hfree.2
    · next hevent =>
      split
      · next hapi =>
        simp only [Option.isNone_some, Bool.false_eq_true, false_iff]
        rintro ⟨-, ⟨-, hfree, -⟩, -⟩
        exact hapi.elim hfree.1 hfree.2
      · next hapi =>
        split
        · next hblank => simp [hblank]
        · next hblank =>
          split
          · next hblank' => simp [hblank']
          · next hblank' => simp_all

theorem isValid_standard : standard.isValid := by
  decide +kernel

end CallBridge.Config
