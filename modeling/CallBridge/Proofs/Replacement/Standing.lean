import CallBridge.Proofs.Replacement.Walk

/-!
# Where calls stand

A call is claimed by nobody, by several recognisers, or matched; a matched call is mapped or nothing
on the platform stands for it. The verdict on a call says no more than this (`judge_cases`), and the
verdict and the mode say what a walk leaves behind at the call (`callLog_production`). All that a
walk leaves behind comes from the calls of the tree, each on its own (`walk_perm_calls`).
-/

namespace CallBridge.Pattern

/-- A method that is known before the call is made. -/
def MethodSpec.known? : MethodSpec → Option String
  | static method => some method
  | dynamic | unreadable => none

/-- The method of a request, if it is known. -/
def CallMatch.method? : CallMatch → Option String
  | event _ => none
  | fetch call => call.method.known?

/-- Only several claims make a call ambiguous. -/
theorem Matcher.kinds_of_classify {m : Matcher} {c : Call} {kinds : List PatternKind}
    (h : m.classify c = .ambiguous kinds) : ∃ kind others, kinds = kind :: others := by
  unfold classify at h
  split at h
  · cases h
  · cases h
  · next hnone _ =>
    obtain ⟨claim, rest, hclaims⟩ := List.exists_cons_of_ne_nil hnone
    rw [← Classification.ambiguous.inj h, hclaims]
    exact ⟨claim.1, rest.map Prod.fst, rfl⟩

end CallBridge.Pattern

namespace CallBridge.Replacement

open Pattern Script Source

/-- The calls of a tree, each before those below it. -/
def callsOf (t : Tree) : List Call := t.subtrees.filterMap Call.ofTree?

variable (s : Setting)

/-! ### The standing of a call -/

/-- The platform's name for a matched call, as the registry has it. -/
def platformName? (c : Call) : Option String :=
  match s.matcher.classify c with
  | .matched (.event e) => (s.registry.eventByTrigger? e.eventType e.selector).map (·.platformName)
  | .matched (.fetch f) =>
    f.method.known?.bind fun method => (s.registry.apiByRoute? method f.url).map (·.platformName)
  | _ => none

/-- A call that some recogniser claims. -/
def isRecognized (c : Call) : Bool := s.matcher.classify c != .irrelevant

/-- A matched call that the platform has a name for. -/
def isMapped (c : Call) : Bool := (platformName? s c).isSome

/-- A matched call that nothing on the platform stands for: without a mapping, or a request whose
method is not known. -/
def isUnsupported (c : Call) : Bool :=
  match s.matcher.classify c with
  | .matched _ => (platformName? s c).isNone
  | _ => false

/-- A call with several claims. -/
def isAmbiguous (c : Call) : Bool :=
  match s.matcher.classify c with
  | .ambiguous _ => true
  | _ => false

/-- A claimed call is mapped, or nothing stands for it, or it has several claims. -/
theorem isRecognized_eq (c : Call) :
    isRecognized s c = (isMapped s c || isUnsupported s c || isAmbiguous s c) := by
  unfold isRecognized isMapped isUnsupported isAmbiguous
  cases h : s.matcher.classify c with
  | irrelevant => simp [platformName?, h]
  | ambiguous kinds => simp
  | matched m => cases platformName? s c <;> simp

/-- A plan for a match under a name of the platform. -/
structure Plan.Fits (p : Plan) (m : CallMatch) (name : String) : Prop where
  kind : p.kind = m.kind
  web : p.web = m.webConstruct
  method : p.method? = m.method?
  platform : p.platform = name

/-- A matched call is planned when the platform has a name for it. -/
theorem judge_of_matched {c : Call} {m : CallMatch} (h : s.matcher.classify c = .matched m) :
    (platformName? s c = none ∧
      ∃ reason, judge s c = .unsupported m.kind m.webConstruct reason m.method?) ∨
    ∃ name p, platformName? s c = some name ∧ p.Fits m name ∧ judge s c = .planned p := by
  cases m with
  | event e =>
    have hjudge : judge s c = judgeEvent s.registry e := by rw [judge, h]
    have hname : platformName? s c = (s.registry.eventByTrigger? e.eventType e.selector).map
        (·.platformName) := by rw [platformName?, h]
    rw [hjudge, hname, judgeEvent]
    cases s.registry.eventByTrigger? e.eventType e.selector with
    | none => exact Or.inl ⟨rfl, _, rfl⟩
    | some mapping => exact Or.inr ⟨_, .event e mapping, rfl, ⟨rfl, rfl, rfl, rfl⟩, rfl⟩
  | fetch f =>
    have hjudge : judge s c = judgeFetch s.registry f := by rw [judge, h]
    have hname : platformName? s c = f.method.known?.bind fun method =>
        (s.registry.apiByRoute? method f.url).map (·.platformName) := by rw [platformName?, h]
    have hknown : (CallMatch.fetch f).method? = f.method.known? := rfl
    rw [hjudge, hname, judgeFetch, hknown]
    cases hmethod : f.method with
    | dynamic => exact Or.inl ⟨rfl, _, rfl⟩
    | unreadable => exact Or.inl ⟨rfl, _, rfl⟩
    | static method =>
      rw [hmethod] at hknown
      have hbind : (MethodSpec.static method).known?.bind (fun method =>
          (s.registry.apiByRoute? method f.url).map (·.platformName)) =
            (s.registry.apiByRoute? method f.url).map (·.platformName) := rfl
      simp only [hbind]
      cases s.registry.apiByRoute? method f.url with
      | none => exact Or.inl ⟨rfl, _, rfl⟩
      | some mapping =>
        exact Or.inr ⟨_, .fetch f method mapping, rfl, ⟨rfl, rfl, hknown.symm, rfl⟩, rfl⟩

/-- What is decided on a call is where it stands. -/
theorem judge_cases (c : Call) :
    (s.matcher.classify c = .irrelevant ∧ judge s c = .ignore) ∨
    (∃ kinds, s.matcher.classify c = .ambiguous kinds ∧ judge s c = .ambiguous kinds) ∨
    (∃ m reason, s.matcher.classify c = .matched m ∧ platformName? s c = none ∧
      judge s c = .unsupported m.kind m.webConstruct reason m.method?) ∨
    ∃ m name p, s.matcher.classify c = .matched m ∧ platformName? s c = some name ∧
      p.Fits m name ∧ judge s c = .planned p := by
  cases h : s.matcher.classify c with
  | irrelevant => exact Or.inl ⟨rfl, by rw [judge, h]⟩
  | ambiguous kinds => exact Or.inr (Or.inl ⟨kinds, rfl, by rw [judge, h]⟩)
  | matched m =>
    rcases judge_of_matched s h with ⟨hname, reason, hjudge⟩ | ⟨name, p, hname, hfits, hjudge⟩
    · exact Or.inr (Or.inr (Or.inl ⟨m, reason, rfl, hname, hjudge⟩))
    · exact Or.inr (Or.inr (Or.inr ⟨m, name, p, rfl, hname, hfits, hjudge⟩))

/-! ### What is left behind at a call -/

/-- What a walk leaves behind at a call by itself. -/
def callLog (c : Call) : Log := (prepare s c).1 ++ fateLog s c

section Verdicts

variable {s} {c : Call}

theorem callLog_of_no_plan (h : (prepare s c).2 = none) : callLog s c = (prepare s c).1 := by
  rw [callLog, fateLog, fate, h]
  exact Log.append_empty _

theorem callLog_of_ignored (h : judge s c = .ignore) : callLog s c = .empty := by
  have hprepare : prepare s c = (.empty, none) := by rw [prepare, h]
  rw [callLog_of_no_plan (by rw [hprepare]), hprepare]

theorem callLog_of_ambiguous {kinds : List PatternKind} (h : judge s c = .ambiguous kinds) :
    callLog s c = ambiguousLog (locate s c) c kinds := by
  have hprepare : prepare s c = (ambiguousLog (locate s c) c kinds, none) := by rw [prepare, h]
  rw [callLog_of_no_plan (by rw [hprepare]), hprepare]

/-- Where calls stay, nothing is said of a call without a mapping. -/
theorem callLog_of_unsupported {kind : PatternKind} {web reason : String} {method : Option String}
    (h : judge s c = .unsupported kind web reason method) :
    callLog s c =
      if s.mode.replaces then unsupportedLog (locate s c) kind web reason method else .empty := by
  have hprepare : prepare s c =
      (if s.mode.replaces then unsupportedLog (locate s c) kind web reason method else .empty,
        none) := by rw [prepare, h]
  rw [callLog_of_no_plan (by rw [hprepare]), hprepare]

theorem callLog_of_matched (hmode : s.mode = .development) {p : Plan}
    (h : judge s c = .planned p) : callLog s c = matchedLog (locate s c) p := by
  have hprepare : prepare s c = (matchedLog (locate s c) p, none) := by
    rw [prepare, h]
    simp [hmode, Mode.replaces]
  rw [callLog_of_no_plan (by rw [hprepare]), hprepare]

theorem callLog_of_planned (hmode : s.mode = .production) {p : Plan}
    (h : judge s c = .planned p) :
    callLog s c = appliedLog (locate s c) p ∨
      ∃ problem, callLog s c = failedLog (locate s c) p problem := by
  have hprepare : prepare s c = (.empty, some p) := by
    rw [prepare, h]
    simp [hmode, Mode.replaces]
  have hlog : callLog s c = fateLog s c := by
    rw [callLog, hprepare]
    rfl
  rw [hlog, fateLog, fate, hprepare]
  cases hnew : p.replacement s.platform (walkedCall s c) with
  | ok new => exact Or.inl (by simp only [hnew])
  | error problem => exact Or.inr ⟨problem, by simp only [hnew]⟩

end Verdicts

/-- What a walk in production leaves behind at a call, by where the call stands. -/
theorem callLog_production (hmode : s.mode = .production) (c : Call) :
    (s.matcher.classify c = .irrelevant ∧ callLog s c = .empty) ∨
    (∃ kind others, s.matcher.classify c = .ambiguous (kind :: others) ∧
      callLog s c = ambiguousLog (locate s c) c (kind :: others)) ∨
    (∃ m reason, s.matcher.classify c = .matched m ∧ platformName? s c = none ∧
      callLog s c = unsupportedLog (locate s c) m.kind m.webConstruct reason m.method?) ∨
    ∃ m name p, s.matcher.classify c = .matched m ∧ platformName? s c = some name ∧
      p.Fits m name ∧ (callLog s c = appliedLog (locate s c) p ∨
        ∃ problem, callLog s c = failedLog (locate s c) p problem) := by
  rcases judge_cases s c with ⟨hc, h⟩ | ⟨kinds, hc, h⟩ | ⟨m, reason, hc, hname, h⟩ |
    ⟨m, name, p, hc, hname, hfits, h⟩
  · exact Or.inl ⟨hc, callLog_of_ignored h⟩
  · obtain ⟨kind, others, rfl⟩ := Matcher.kinds_of_classify hc
    exact Or.inr (Or.inl ⟨kind, others, hc, callLog_of_ambiguous h⟩)
  · refine Or.inr (Or.inr (Or.inl ⟨m, reason, hc, hname, ?_⟩))
    rw [callLog_of_unsupported h, hmode]
    rfl
  · exact Or.inr (Or.inr (Or.inr ⟨m, name, p, hc, hname, hfits, callLog_of_planned hmode h⟩))

/-- What is left behind at nodes is what is left behind at the calls among them. -/
theorem flatMap_ownLog {α : Type} {part : Log → List α} (hpart : LogPart part) (ts : List Tree) :
    ts.flatMap (fun u => part (ownLog s u)) =
      (ts.filterMap Call.ofTree?).flatMap fun c => part (callLog s c) := by
  induction ts with
  | nil => rfl
  | cons t rest ih =>
    rw [List.flatMap_cons, ih, ownLog, List.filterMap_cons]
    cases Call.ofTree? t with
    | none =>
      simp only [hpart.empty]
      rfl
    | some c => rfl

/-- Whatever a walk leaves behind is, up to order, what it leaves behind at each call. -/
theorem walk_perm_calls {α : Type} {part : Log → List α} (hpart : LogPart part) (t : Tree) :
    (part (walk s t).2).Perm ((callsOf t).flatMap fun c => part (callLog s c)) := by
  rw [callsOf, ← flatMap_ownLog s hpart]
  exact walk_perm s hpart t

end CallBridge.Replacement
