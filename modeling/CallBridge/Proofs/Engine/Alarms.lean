import CallBridge.Proofs.Engine.Development
import CallBridge.Proofs.Marker.Layout
import CallBridge.Proofs.Script.Printing.Spans

/-!
# Alarms in development

A run in development prints its program again, and the check compares how many calls of the platform
it counts in the two texts. It counts them without reading the script, so that a call may be found
in one layout of a program and not in another. The printed text does not depend on the layout of the
source. Main statement: an alarm is raised exactly when fewer calls are counted in the source than
in the text that all layouts of its program are printed as, and none where a source differs from
that text in its layout alone and keeps its calls (`alarms_inDevelopment`).
-/

namespace CallBridge

open Replacement Script Source

/-- How many calls of the platform the check counts in a text. -/
def platformCalls (config : Config) (text : String) : Nat :=
  Marker.countPlatformEvents config text + Marker.countPlatformApis config text

/-- How many more calls of the platform are counted in an output than in its source. -/
def gainedCalls (config : Config) (source generated : String) : Nat :=
  platformCalls config generated - platformCalls config source

/-- The finding that an output has calls of the platform that its source has not. -/
def alarm (gained : Nat) : Diagnostic :=
  Marker.finding .error ("Development output gained " ++ toString gained ++ " platform call(s)")
    "Development mode must not rewrite calls"

/-- A source whose layout keeps the calls of the platform. -/
structure KeepsPlatformCalls (config : Config) (layout : Char → Bool) (source : String) : Prop where
  events : Marker.KeepsCalls (Marker.markerNames [config.platform.eventRegistration])
    Marker.beforeVariable layout source.toList
  apis : Marker.KeepsCalls (Marker.markerNames [config.platform.apiInvocation])
    Marker.beforeVariable layout source.toList

/-- What is recorded of a check. -/
def Completion.warnings (c : Completion) : List Diagnostic :=
  c.recorded.errors.filter fun d => d.code == .validationWarning

/-- No other layout has more calls of the platform than one that keeps them. -/
theorem KeepsPlatformCalls.platformCalls_le {config : Config} {layout : Char → Bool}
    {source other : String} (h : KeepsPlatformCalls config layout source)
    (hsame : Marker.ink layout source.toList = Marker.ink layout other.toList) :
    platformCalls config other ≤ platformCalls config source :=
  Nat.add_le_add (h.events.countCalls_le hsame) (h.apis.countCalls_le hsame)

/-! ### What is recorded of a check -/

section Walk

variable (s : Setting)

/-- The check has codes of its own: a walk in development leaves no diagnostic with them. -/
theorem code_of_callLog_inDevelopment (c : Pattern.Call) :
    ∀ d ∈ (callLog s.inDevelopment c).diagnostics, d.code ≠ .validationWarning := by
  rcases callLog_inDevelopment s c with ⟨-, hlog⟩ | ⟨kind, others, -, hlog, -⟩ |
    ⟨m, -, -, hlog⟩ | ⟨m, name, p, -, -, -, hlog⟩
  all_goals
    rw [hlog]
    intro d hd
  · cases hd
  · obtain rfl := List.mem_singleton.1 hd
    exact nofun
  · cases hd
  · cases hd

theorem code_of_walk_inDevelopment (t : Tree) :
    ∀ d ∈ (walk s.inDevelopment t).2.diagnostics, d.code ≠ .validationWarning := by
  intro d hd
  have hperm := walk_perm_calls s.inDevelopment .diagnostics t
  obtain ⟨c, -, hdc⟩ := List.mem_flatMap.1 (hperm.mem_iff.1 hd)
  exact code_of_callLog_inDevelopment s c d hdc

end Walk

namespace Engine

variable {e : Engine} {r : Request} (program : Program)

/-- What is recorded of the check of a run in development is what the check has found. -/
theorem warnings_complete (hmode : r.mode = .development) :
    (e.complete r program).warnings = (e.complete r program).findings := by
  have hsetting : (e.setting r).inDevelopment = e.setting r := by
    rw [Setting.inDevelopment, ← hmode]
    rfl
  have herrors : (e.complete r program).recorded.errors =
      (walk (e.setting r) program.tree).2.diagnostics ++ (e.complete r program).findings := by
    rw [← errors_walkedInfo r]
    rfl
  have hwalk : ((walk (e.setting r) program.tree).2.diagnostics.filter
      fun d => d.code == .validationWarning) = [] := by
    rw [List.filter_eq_nil_iff]
    intro d hd hcode
    rw [← hsetting] at hd
    exact code_of_walk_inDevelopment _ _ d hd (beq_iff_eq.1 hcode)
  rw [Completion.warnings, herrors, List.filter_append, hwalk, List.nil_append,
    List.filter_eq_self]
  intro d hd
  exact beq_iff_eq.2 (code_of_check hd)

/-- A run in development is warned about by one alarm, with the number of calls that its text has
over its source, unless there are none. -/
theorem warnings_inDevelopment (hmode : r.mode = .development) :
    let c := e.complete r program
    let gained := gainedCalls e.config r.source c.result.generatedText
    c.warnings = if gained = 0 then [] else [alarm gained] := by
  have hfindings : (e.complete r program).findings =
      Marker.check e.config r.mode r.source (e.complete r program).result.generatedText := rfl
  simp only [warnings_complete program hmode, hfindings, hmode]
  rfl

theorem warnings_eq_nil_iff (hmode : r.mode = .development) :
    (e.complete r program).warnings = [] ↔
      platformCalls e.config (e.complete r program).result.generatedText ≤
        platformCalls e.config r.source := by
  rw [warnings_inDevelopment program hmode]
  split
  · next hnone => exact ⟨fun _ => Nat.sub_eq_zero_iff_le.1 hnone, fun _ => rfl⟩
  · next hsome => exact ⟨nofun, fun hle => absurd (Nat.sub_eq_zero_of_le hle) hsome⟩

end Engine

/-! ### Alarms -/

/-- A run in development prints its program again. It is warned about by one alarm if more calls of
the platform are counted in the printed text than in the source, and not at all otherwise. There is
none if the two texts differ in their layout alone and the source keeps its calls: each that it
spells stands in one piece, with nothing in front that could be part of its name, apart from the
others. Every other layout of the program, under the same configuration, is printed as the same
text, if neither has comments; so it depends on the layout alone whether there is an alarm, and a
source that is laid out as it is printed raises none. -/
theorem alarms_inDevelopment (e : Engine) (r : Request) {program : Program}
    (hmode : r.mode = .development)
    (hparse : parseScript (.ofFilename r.filename) r.source = .ok program) :
    ∃ c, e.run r = .ok c ∧ Untouched (e.setting r) program c ∧
      (∀ gained, gained = gainedCalls e.config r.source c.result.generatedText →
        c.warnings = if gained = 0 then [] else [alarm gained]) ∧
      (c.warnings = [] ↔
        platformCalls e.config c.result.generatedText ≤ platformCalls e.config r.source) ∧
      (∀ layout, KeepsPlatformCalls e.config layout r.source →
        Marker.ink layout r.source.toList = Marker.ink layout c.result.generatedText.toList →
        c.warnings = []) ∧
      ∀ (e' : Engine) (r' : Request) (program' : Program), e'.config = e.config →
        r'.mode = .development →
        parseScript (.ofFilename r'.filename) r'.source = .ok program' →
        program'.tree.bare = program.tree.bare → program.comments = [] → program'.comments = [] →
        ∃ c', e'.run r' = .ok c' ∧ c'.result.generatedText = c.result.generatedText ∧
          (c'.warnings = [] ↔
            platformCalls e.config c.result.generatedText ≤ platformCalls e.config r'.source) ∧
          (r'.source = c.result.generatedText → c'.warnings = []) := by
  have huntouched := Engine.untouched_complete (e := e) program hmode
  refine ⟨e.complete r program, Engine.run_eq_ok_iff.2 ⟨program, hparse, rfl⟩, huntouched,
    fun _ hgained => hgained ▸ Engine.warnings_inDevelopment program hmode,
    Engine.warnings_eq_nil_iff program hmode,
    fun layout hkeeps hsame =>
      (Engine.warnings_eq_nil_iff program hmode).2 (hkeeps.platformCalls_le hsame), ?_⟩
  intro e' r' program' hconfig hmode' hparse' hbare hcomments hcomments'
  have hsame : (e'.complete r' program').result.generatedText =
      (e.complete r program).result.generatedText := by
    rw [(Engine.untouched_complete program' hmode').text, huntouched.text, hcomments, hcomments']
    exact Tree.print_text_of_bare hbare
  have hiff := Engine.warnings_eq_nil_iff (e := e') program' hmode'
  rw [hsame, hconfig] at hiff
  refine ⟨_, Engine.run_eq_ok_iff.2 ⟨program', hparse', rfl⟩, hsame, hiff, fun hsource => ?_⟩
  rw [hiff, hsource]

/-- One call of the platform, as it is printed, with a line break in front of a point, and with line
breaks around its argument. -/
def printedCall : Request := ⟨"kintone.api(url);\n", "page.js", .development, false⟩

def brokenCall : Request := ⟨"kintone\n  .api(url);\n", "page.js", .development, false⟩

def spacedCall : Request := ⟨"kintone.api(\n  url\n)", "page.js", .development, false⟩

/-- Blanks and the semicolons that end statements. -/
def separates (c : Char) : Bool := Text.isBlank c || c == ';'

theorem isLayout_separates {names : List (List Char)} (h : Marker.Plain names separates) :
    Marker.IsLayout names separates where
  blank c hc := by rw [separates, hc, Bool.true_or]
  names := h
  paren := by decide

theorem keepsPlatformCalls_spacedCall :
    KeepsPlatformCalls .standard separates spacedCall.source where
  events := ⟨isLayout_separates (by decide), by decide,
    (Marker.counts_countCalls ..).eq_card_iff.1 (by decide)⟩
  apis := ⟨isLayout_separates (by decide), by decide,
    (Marker.counts_countCalls ..).eq_card_iff.1 (by decide)⟩

theorem alarms_inDevelopment_broken :
    ∃ e c c' c'', Engine.ofConfig .standard .standard = .ok e ∧ e.run printedCall = .ok c ∧
      c.result.generatedText = printedCall.source ∧ c.warnings = [] ∧ e.run brokenCall = .ok c' ∧
      c'.result.generatedText = printedCall.source ∧ e.run spacedCall = .ok c'' ∧
      c''.warnings = [] := by
  obtain ⟨e, he⟩ := Engine.exists_standard
  -- The first two texts are read as one program, of which the first is the printed text.
  let agrees (program other : Program) : Bool :=
    decide (other.tree.bare = program.tree.bare ∧ program.comments = [] ∧ other.comments = [] ∧
      (program.tree.print program.comments).text = printedCall.source)
  obtain ⟨program, hparse, hprogram⟩ := exists_ok_of_any
    (x := parseScript (.ofFilename printedCall.filename) printedCall.source)
    (p := fun program => (parseScript (.ofFilename brokenCall.filename)
      brokenCall.source).toOption.any (agrees program)) (by decide +kernel)
  obtain ⟨other, hother, hall⟩ := exists_ok_of_any hprogram
  obtain ⟨hbare, hcomments, hcomments', htext⟩ := of_decide_eq_true hall
  obtain ⟨third, hthird, htexts⟩ := exists_ok_of_any
    (x := parseScript (.ofFilename spacedCall.filename) spacedCall.source)
    (p := fun third => (third.tree.print third.comments).text == printedCall.source)
    (by decide +kernel)
  obtain ⟨c, hrun, huntouched, -, hiff, -, hlayouts⟩ :=
    alarms_inDevelopment e printedCall rfl hparse
  have htext : c.result.generatedText = printedCall.source := huntouched.text.trans htext
  obtain ⟨c', hrun', hsame, -, -⟩ :=
    hlayouts e brokenCall other rfl rfl hother hbare hcomments hcomments'
  obtain ⟨c'', hrun'', hspaced, -, -, hkept, -⟩ := alarms_inDevelopment e spacedCall rfl hthird
  have hprinted : c''.result.generatedText = printedCall.source :=
    hspaced.text.trans (beq_iff_eq.1 htexts)
  refine ⟨e, c, c', c'', he, hrun, htext, hiff.2 ?_, hrun', hsame.trans htext, hrun'',
    hkept separates ?_ ?_⟩
  · rw [htext]
  · rw [Engine.config_of_ofConfig he]
    exact keepsPlatformCalls_spacedCall
  · rw [hprinted]
    decide

/-- The call is in the source as well, but it is counted in the output alone. -/
theorem brokenCall_raises_alarm :
    ∃ e program c, Engine.ofConfig .standard .standard = .ok e ∧
      parseScript (.ofFilename brokenCall.filename) brokenCall.source = .ok program ∧
      e.run brokenCall = .ok c ∧ (walk (e.setting brokenCall) program.tree).1 = program.tree ∧
      c.warnings = [alarm 1] := by
  obtain ⟨e, he⟩ := Engine.exists_standard
  obtain ⟨program, hparse, hcounts⟩ := exists_ok_of_any
    (x := parseScript (.ofFilename brokenCall.filename) brokenCall.source)
    (p := fun program => decide (gainedCalls .standard brokenCall.source
      (program.tree.print program.comments).text = 1)) (by decide +kernel)
  have hgained := of_decide_eq_true hcounts
  have huntouched := Engine.untouched_complete (e := e) program (r := brokenCall) rfl
  have hwarnings := Engine.warnings_inDevelopment (e := e) program (r := brokenCall) rfl
  simp only [huntouched.text, Engine.config_of_ofConfig he, hgained] at hwarnings
  exact ⟨e, program, _, he, hparse, Engine.run_eq_ok_iff.2 ⟨program, hparse, rfl⟩,
    huntouched.tree, hwarnings⟩

end CallBridge
