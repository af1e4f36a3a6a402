import CallBridge.Proofs.Config.Validity
import CallBridge.Proofs.Replacement.Outline

/-!
# Replacements that are recognised again

A valid configuration compares the names of platform calls with callees as texts; a matcher compares
the dotted name that it reads off a parsed callee. The two agree on dotted names, so a call of such
a name is never recognised again. Any other name is parsed together with its arguments and may read
as a callee that the validation has not seen (`Misread`). Main statement: a replacement is
recognised again exactly when it is misread (`classify_replacement_iff`).
-/

namespace CallBridge.Replacement

open Pattern Script

/-- A call that reads as a registration or as a request, not as what its name says. -/
structure Misread (config : Config) (name : String) (c : Call) : Prop where
  callee : calleePath? c.callee ≠ some name
  recognized :
    (((∃ path ∈ config.eventCallees, calleePath? c.callee = some path) ∨
        (scopedRegistration? config c.callee).isSome) ∧
      (c.literalArgument? 0).isSome ∧ (c.argument? 1).isSome) ∨
    (∃ path ∈ config.fetchCallees, calleePath? c.callee = some path) ∧
      ∃ url, c.literalArgument? 0 = some url ∧ isAllowed config url

variable {config : Config} {c c' : Call} {p : Plan} {new : Tree}

/-- A call is recognised when its callee is a configured one and its arguments can be read. -/
theorem classify_ne_irrelevant_iff :
    (Matcher.ofConfig config).classify c ≠ .irrelevant ↔
      (((∃ path ∈ config.eventCallees, calleePath? c.callee = some path) ∨
          (scopedRegistration? config c.callee).isSome) ∧
        (c.literalArgument? 0).isSome ∧ (c.argument? 1).isSome) ∨
      (∃ path ∈ config.fetchCallees, calleePath? c.callee = some path) ∧
        ∃ url, c.literalArgument? 0 = some url ∧ isAllowed config url := by
  have hfetch : recognizeFetch config c ≠ none ↔
      (∃ path ∈ config.fetchCallees, calleePath? c.callee = some path) ∧
        ∃ url, c.literalArgument? 0 = some url ∧ isAllowed config url := by
    rw [Option.ne_none_iff_exists']
    constructor
    · rintro ⟨m, hm⟩
      obtain ⟨path, url, hp, hmem, hu, ha, -⟩ := recognizeFetch_eq_some_iff.1 hm
      exact ⟨⟨path, hmem, hp⟩, url, hu, ha⟩
    · rintro ⟨⟨path, hmem, hp⟩, url, hu, ha⟩
      exact ⟨_, recognizeFetch_eq_some_iff.2 ⟨path, url, hp, hmem, hu, ha, rfl⟩⟩
  have hevent : recognizeEvent config c ≠ none ↔
      ((∃ path ∈ config.eventCallees, calleePath? c.callee = some path) ∨
        (scopedRegistration? config c.callee).isSome) ∧
      (c.literalArgument? 0).isSome ∧ (c.argument? 1).isSome := by
    rw [← Option.isSome_iff_ne_none, isSome_recognizeEvent_iff, isSome_registration?_iff]
  rw [Ne, classify_ofConfig_eq_irrelevant_iff, not_and_or]
  exact or_congr hevent hfetch

/-- A call whose dotted name is that of a platform call is not recognised. -/
theorem classify_of_platformCall (hvalid : config.isValid)
    (hpath : calleePath? c.callee = some (p.platformCall config.platform)) :
    (Matcher.ofConfig config).classify c = .irrelevant := by
  have hname : p.platformCall config.platform ∉ config.eventCallees ∧
      p.platformCall config.platform ∉ config.fetchCallees :=
    (Config.isValid_iff.1 hvalid).2.1 _ (by cases p <;> simp [Plan.platformCall])
  by_contra h
  rcases classify_ne_irrelevant_iff.1 h with ⟨⟨path, hmem, hp⟩ | hscoped, -⟩ | ⟨⟨path, hmem, hp⟩, -⟩
  · obtain rfl := Option.some.inj (hpath.symm.trans hp)
    exact hname.1 hmem
  · obtain ⟨r, hr⟩ := Option.isSome_iff_exists.1 hscoped
    rw [calleePath?_of_scopedRegistration hr] at hpath
    cases hpath
  · obtain rfl := Option.some.inj (hpath.symm.trans hp)
    exact hname.2 hmem

/-- With a name that is no dotted path, a replacement is what the parser reads of that name with its
arguments, its holes filled. -/
theorem replacement_of_undotted {platform : PlatformCalls}
    (hname : dottedPath? (p.platformCall platform) = none)
    (hnew : p.replacement platform c = .ok new) :
    ∃ arguments holes e,
      parseExpression ((p.platformCall platform).toList ++ '(' :: arguments ++ [')']) = .ok e ∧
        new = anchor c (fill holes e) := by
  have hinvoke : ∀ {name : String} {nodes : List Tree} {text : List Char} {holes : Holes},
      dottedPath? name = none → invoke name c nodes text holes = .ok new →
        ∃ e, parseExpression (name.toList ++ '(' :: text ++ [')']) = .ok e ∧
          new = anchor c (fill holes e) := by
    intro name nodes text holes hname h
    rw [invoke, hname] at h
    simp only at h
    split at h
    · next e he => exact ⟨e, he, (Except.ok.inj h).symm⟩
    · cases h
  cases p with
  | event e m =>
    rw [Plan.replacement, ofEvent] at hnew
    split at hnew
    · cases hnew
    · obtain ⟨e, he, hnew⟩ := hinvoke hname hnew
      exact ⟨_, _, e, he, hnew⟩
  | fetch f method m =>
    rw [Plan.replacement, ofFetch] at hnew
    cases hbody : bodyExpression? c f.body with
    | error problem => simp [hbody, bind, Except.bind] at hnew
    | ok body =>
      rw [hbody] at hnew
      obtain ⟨e, he, hnew⟩ := hinvoke hname hnew
      exact ⟨_, _, e, he, hnew⟩

/-- A replacement is recognised again exactly when it is misread. A dotted name never is; any other
name is read by the parser together with its arguments. -/
theorem classify_replacement_iff (hvalid : config.isValid)
    (hnew : p.replacement config.platform c = .ok new) (hc' : Call.ofTree? new = some c') :
    ((Matcher.ofConfig config).classify c' = .irrelevant ↔
      ¬ Misread config (p.platformCall config.platform) c') ∧
    ((dottedPath? (p.platformCall config.platform)).isSome →
      ¬ Misread config (p.platformCall config.platform) c') ∧
    (dottedPath? (p.platformCall config.platform) = none →
      ∃ arguments holes e,
        parseExpression ((p.platformCall config.platform).toList ++ '(' :: arguments ++ [')']) =
          .ok e ∧ new = anchor c (fill holes e)) := by
  refine ⟨⟨fun h hmisread => ?_, fun h => ?_⟩, fun hdotted hmisread => ?_,
    fun hname => replacement_of_undotted hname hnew⟩
  · exact classify_ne_irrelevant_iff.2 hmisread.recognized h
  · by_contra hne
    refine h ⟨fun hpath => ?_, classify_ne_irrelevant_iff.1 hne⟩
    exact hne (classify_of_platformCall hvalid hpath)
  · obtain ⟨d, hd, hpath⟩ := callee_of_replacement hdotted hnew
    obtain rfl := Option.some.inj (hd.symm.trans hc')
    exact hmisread.callee hpath

/-! ### A call that is recognised again -/

/-- The registration of a handler once a page has loaded. -/
def loadedCall : Call :=
  ⟨Span.none, bare (.member "addEventListener" false) [referenceNode "document"],
    [stringNode "DOMContentLoaded", referenceNode "h"]⟩

def loadedPlan : Plan :=
  .event ⟨"document.addEventListener", "DOMContentLoaded", none, 1, 0⟩
    (.ofNames "app.record.index.show" "DOMContentLoaded")

/-- A platform call that is the name of a callee in parentheses. -/
def enclosedConfig : Config :=
  { Config.standard with platform := ⟨"(document.addEventListener)", "kintone.api"⟩ }

theorem classify_replacement_standard :
    ∃ new c', loadedPlan.replacement Config.standard.platform loadedCall = .ok new ∧
      Call.ofTree? new = some c' ∧ (Matcher.ofConfig .standard).classify c' = .irrelevant := by
  obtain ⟨new, hnew⟩ : ∃ new,
      loadedPlan.replacement Config.standard.platform loadedCall = .ok new := by
    cases h : loadedPlan.replacement Config.standard.platform loadedCall with
    | ok new => exact ⟨new, rfl⟩
    | error problem =>
      have hsome :
          (loadedPlan.replacement Config.standard.platform loadedCall).toOption.isSome := by
        decide +kernel
      rw [h] at hsome
      cases hsome
  have hdotted : (dottedPath? (loadedPlan.platformCall Config.standard.platform)).isSome := by
    decide +kernel
  obtain ⟨c', hc', -⟩ := callee_of_replacement hdotted hnew
  obtain ⟨hiff, hnever, -⟩ := classify_replacement_iff Config.isValid_standard hnew hc'
  exact ⟨new, c', hnew, hc', hiff.2 (hnever hdotted)⟩

/-- The configuration is valid, and what replaces a registration is one again. -/
theorem enclosed_recognized_again :
    enclosedConfig.isValid ∧
      (Matcher.ofConfig enclosedConfig).classify loadedCall =
        .matched (.event ⟨"document.addEventListener", "DOMContentLoaded", none, 1, 0⟩) ∧
      ((loadedPlan.replacement enclosedConfig.platform loadedCall).toOption.bind
        Call.ofTree?).map (Matcher.ofConfig enclosedConfig).classify =
          some (.matched
            (.event ⟨"document.addEventListener", "app.record.index.show", none, 1, 0⟩)) := by
  refine ⟨?_, ?_, ?_⟩ <;> decide +kernel

end CallBridge.Replacement
