import CallBridge.Proofs.Engine.Run
import CallBridge.Proofs.Replacement.Settled
import CallBridge.Proofs.Replacement.Wrapped
import CallBridge.Proofs.Script.Enclosure.Scripts

/-!
# `await` and `yield` after a transform

A handler that is wrapped moves into a plain function, whatever it is. Main statement: under the
standard configuration and registry a transform leaves every `await` and `yield` in its function
exactly when no surviving handler has one of its own, and exactly then each may stand where it does;
otherwise no text at all reads as the output (`placed_kept_iff_standard`).
-/

namespace CallBridge.Replacement

open Pattern Script Source

section Standard

variable {source : List Char} {t : Tree} {e : Enclosure}

theorem placed_output_subset_standard
    (h : HandlersSelfContained (settingOf .standard .standard .production source) t) :
    placed (output (settingOf .standard .standard .production source) t) e ⊆ placed t e :=
  placed_output_subset clear_standard.dotted clear_standard.apart (List.mem_cons_self ..)
    (fun _ hm => ApiCatalogue.carriesOnce_of_mem_all (Registry.mem_apis_standard hm)) h e

theorem handlers_of_fits_output_standard
    (h : Fits e (output (settingOf .standard .standard .production source) t)) :
    HandlersSelfContained (settingOf .standard .standard .production source) t :=
  handlers_of_fits_output clear_standard.dotted clear_standard.apart (List.mem_cons_self ..)
    (fun _ hm => ApiCatalogue.carriesOnce_of_mem_all (Registry.mem_apis_standard hm)) h

end Standard

/-- Every production transform of a file that can be read. All `await` and `yield` expressions of
the output are those of the source in their functions, and all of them may stand where they do,
exactly when no surviving handler has one outside functions of its own; if one has, no text is read
as a tree that is the output up to spans and parentheses. -/
theorem placed_kept_iff_standard {e : Engine} (he : Engine.ofConfig .standard .standard = .ok e)
    {r : Request} (hr : r.mode = .production) {program : Program}
    (hparse : parseScript (.ofFilename r.filename) r.source = .ok program) :
    let s := e.setting r
    let out := (walk s program.tree).1
    (placed out .top ⊆ placed program.tree .top ↔ HandlersSelfContained s program.tree) ∧
    (Fits .top out ↔ HandlersSelfContained s program.tree) ∧
    ∀ dialect text reread, parseScript dialect text = .ok reread → reread.tree.core = out.core →
      HandlersSelfContained s program.tree := by
  intro s out
  have hs : s = settingOf .standard .standard .production r.source.toList := by
    rw [← hr]
    exact Engine.setting_of_ofConfig he r
  have hkept (h : HandlersSelfContained s program.tree) :
      placed out .top ⊆ placed program.tree .top := by
    rw [hs] at h
    have hsubset := placed_output_subset_standard (e := .top) h
    rw [← hs] at hsubset
    exact hsubset
  have hallowed (h : placed out .top ⊆ placed program.tree .top) : Fits .top out :=
    fun p hp => fits_of_parseScript hparse p (h hp)
  have hhandlers (h : Fits .top out) : HandlersSelfContained s program.tree := by
    rw [hs]
    refine handlers_of_fits_output_standard (e := .top) ?_
    rw [← hs]
    exact h
  refine ⟨⟨fun h => hhandlers (hallowed h), hkept⟩, ⟨hhandlers, fun h => hallowed (hkept h)⟩, ?_⟩
  intro dialect text reread hreread hcore
  have hfits := fits_core.2 (fits_of_parseScript hreread)
  rw [hcore] at hfits
  exact hhandlers (fits_core.1 hfits)

/-- The text of the output of a transform under the standard configuration and registry. -/
def standardText (r : Request) (program : Program) : String :=
  ((output (settingOf .standard .standard .production r.source.toList) program.tree).print
    program.comments).text

theorem generatedText_eq_standardText {e : Engine}
    (he : Engine.ofConfig .standard .standard = .ok e) {r : Request} (hr : r.mode = .production)
    (program : Program) :
    (e.complete r program).result.generatedText = standardText r program := by
  have hs := Engine.setting_of_ofConfig he r
  rw [hr] at hs
  rw [standardText, ← hs]
  rfl

/-- A handler with a function of its own, in which a request waits for its body. -/
def waitingRequest : Request where
  source := "document.addEventListener('DOMContentLoaded', async () => \x7b
    fetch('/api/records', \x7bbody: JSON.stringify(await load())\x7d); \x7d);"
  filename := "page.js"
  mode := .production
  wantsSourceMap := false

set_option maxRecDepth 2000 in
theorem placed_kept_iff_standard_waiting :
    ∃ e program reread, Engine.ofConfig .standard .standard = .ok e ∧
      parseScript (.ofFilename waitingRequest.filename) waitingRequest.source = .ok program ∧
      placed program.tree .top ≠ [] ∧
      parseScript (.ofFilename waitingRequest.filename)
        (e.complete waitingRequest program).result.generatedText = .ok reread ∧
      HandlersSelfContained (e.setting waitingRequest) program.tree ∧
      placed (walk (e.setting waitingRequest) program.tree).1 .top ⊆ placed program.tree .top := by
  obtain ⟨e, he⟩ := Engine.exists_standard
  have hsource : waitingRequest.source.toList = _ := String.toList_ofList
  obtain ⟨program, hparse, hprogram⟩ := exists_ok_of_any
    (x := parseScript (.ofFilename waitingRequest.filename) waitingRequest.source)
    (p := fun program => decide (placed program.tree .top ≠ []) &&
      (parseScript (.ofFilename waitingRequest.filename)
        (standardText waitingRequest program)).toOption.any fun reread =>
          decide (reread.tree.core = (output (settingOf .standard .standard .production
            waitingRequest.source.toList) program.tree).core)) (by
    simp only [parseScript_of_toList hsource, parseScript_ofList, standardText, Tree.print, hsource]
    decide +kernel)
  obtain ⟨hplaced, hreads⟩ := Bool.and_eq_true_iff.1 hprogram
  obtain ⟨reread, hreread, hcore⟩ := exists_ok_of_any hreads
  have hs : e.setting waitingRequest =
      settingOf .standard .standard .production waitingRequest.source.toList :=
    Engine.setting_of_ofConfig he waitingRequest
  have hkept := placed_kept_iff_standard he (r := waitingRequest) rfl hparse
  have hhandlers : HandlersSelfContained (e.setting waitingRequest) program.tree := by
    refine hkept.2.2 _ _ reread hreread ?_
    rw [hs]
    exact of_decide_eq_true hcore
  refine ⟨e, program, reread, he, hparse, of_decide_eq_true hplaced, ?_, hhandlers,
    hkept.1.2 hhandlers⟩
  rw [generatedText_eq_standardText he rfl]
  exact hreread

/-- A handler that the top level of a module waits for. -/
def awaitedRequest : Request :=
  ⟨"document.addEventListener(\"DOMContentLoaded\", await load());", "page.mjs", .production, false⟩

/-- The `await` in front of the handler ends up in the wrapper, where it may not stand, and what is
printed cannot be read. -/
theorem awaited_handler_misplaced :
    ∃ e program f, Engine.ofConfig .standard .standard = .ok e ∧
      parseScript (.ofFilename awaitedRequest.filename) awaitedRequest.source = .ok program ∧
      ¬ placed (walk (e.setting awaitedRequest) program.tree).1 .top ⊆ placed program.tree .top ∧
      ¬ Fits .top (walk (e.setting awaitedRequest) program.tree).1 ∧
      parseScript (.ofFilename awaitedRequest.filename)
        (e.complete awaitedRequest program).result.generatedText = .error f := by
  obtain ⟨e, he⟩ := Engine.exists_standard
  have hsource : awaitedRequest.source.toList = _ := String.toList_ofList
  obtain ⟨program, hparse, hprogram⟩ := exists_ok_of_any
    (x := parseScript (.ofFilename awaitedRequest.filename) awaitedRequest.source)
    (p := fun program =>
      let out := output (settingOf .standard .standard .production awaitedRequest.source.toList)
        program.tree
      decide (¬ placed out .top ⊆ placed program.tree .top ∧ ¬ Fits .top out) &&
        (parseScript (.ofFilename awaitedRequest.filename)
          (standardText awaitedRequest program)).toOption.isNone) (by
    simp only [parseScript_of_toList hsource, parseScript_ofList, standardText, Tree.print, hsource]
    decide +kernel)
  obtain ⟨hmisplaced, hfails⟩ := Bool.and_eq_true_iff.1 hprogram
  obtain ⟨f, hf⟩ := exists_error_of_isNone hfails
  have hs : e.setting awaitedRequest =
      settingOf .standard .standard .production awaitedRequest.source.toList :=
    Engine.setting_of_ofConfig he awaitedRequest
  obtain ⟨hsubset, hfits⟩ := of_decide_eq_true hmisplaced
  refine ⟨e, program, f, he, hparse, ?_, ?_, ?_⟩
  · rw [hs]
    exact hsubset
  · rw [hs]
    exact hfits
  · rw [generatedText_eq_standardText he rfl]
    exact hf

end CallBridge.Replacement
