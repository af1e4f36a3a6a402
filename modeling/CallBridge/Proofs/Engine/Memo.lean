import CallBridge.Engine.Transform
import CallBridge.Proofs.Cache.Retained
import CallBridge.Proofs.Engine.Run
import CallBridge.Proofs.Script.Literals

/-!
# Remembered results

A cache knows a request by its source and its mode. Beyond these a result depends on what the file
name makes of the source, and a source map names the file. Main statement: for requests that agree
in that the remembered result is the one a transform gives, and results with a map are the same for
no others (`remembered_result`).
-/

namespace CallBridge

open Collection Replacement Script Source

/-! ### Maps -/

/-- The text of a map has the name of its file in it. -/
theorem file_eq_of_render_eq {m m' : SourceMap} (h : m.render = m'.render) : m.file = m'.file := by
  have hlists := String.ofList_injective h
  simp only [List.append_assoc, List.append_cancel_left_eq] at hlists
  exact String.toList_injective (quoteJson_append_inj hlists).1

theorem file_of_sourceMapOf {r : Request} {printed : Printed} {mappings : List Mapping}
    {m : SourceMap} (h : sourceMapOf r printed mappings = .ok m) : m.file = r.filename := by
  simp only [sourceMapOf, SourceMap.build] at h
  split at h
  · cases h
  · split at h
    · cases h
    · rw [← Except.ok.inj h]

theorem sourceMapOf_congr {r₁ r₂ : Request} (hsource : r₁.source = r₂.source)
    (hfile : r₁.filename = r₂.filename) (printed : Printed) (mappings : List Mapping) :
    sourceMapOf r₁ printed mappings = sourceMapOf r₂ printed mappings := by
  rw [sourceMapOf, sourceMapOf, hsource, hfile]

/-! ### Requests with one result -/

/-- Requests of one source and one mode whose file names have the source read the same. -/
structure Request.ReadsLike (r₁ r₂ : Request) : Prop where
  source : r₁.source = r₂.source
  mode : r₁.mode = r₂.mode
  reading : parseScript (.ofFilename r₁.filename) r₁.source =
    parseScript (.ofFilename r₂.filename) r₂.source

/-- Requests that ask for no map, or for the map of one file. -/
structure Request.MapsLike (r₁ r₂ : Request) : Prop where
  wants : r₁.wantsSourceMap = r₂.wantsSourceMap
  file : r₁.wantsSourceMap → r₁.filename = r₂.filename

/-- A source is read the same under file names of one dialect. -/
theorem Request.ReadsLike.of_dialect {r₁ r₂ : Request} (hsource : r₁.source = r₂.source)
    (hmode : r₁.mode = r₂.mode)
    (hdialect : Dialect.ofFilename r₁.filename = Dialect.ofFilename r₂.filename) :
    r₁.ReadsLike r₂ :=
  ⟨hsource, hmode, by rw [hsource, hdialect]⟩

namespace Engine

variable (e : Engine) (r : Request) (program : Program)

/-- What is printed of a program that has been read. -/
def printed : Printed := (walk (e.setting r) program.tree).1.print program.comments

/-- The map of what is printed, if it can be written. -/
def printedMap? : Option SourceMap :=
  (sourceMapOf r (e.printed r program) (walk (e.setting r) program.tree).2.mappings).toOption

theorem result_complete :
    (e.complete r program).result =
      { generatedText := (e.printed r program).text
        sourceMap := if r.wantsSourceMap then (e.printedMap? r program).map SourceMap.render else none
        dependencies := dependencies (walk (e.setting r) program.tree).1 } := by
  unfold complete printedMap? printed
  generalize walk (e.setting r) program.tree = walked
  rfl

variable {e r program} {r₁ r₂ : Request}

theorem setting_eq (h : r₁.ReadsLike r₂) : e.setting r₁ = e.setting r₂ := by
  rw [setting, setting, h.source, h.mode]

theorem printed_eq (h : r₁.ReadsLike r₂) : e.printed r₁ program = e.printed r₂ program := by
  rw [printed, printed, setting_eq h]

/-- Requests with one file name have one map. -/
theorem printedMap?_eq (h : r₁.ReadsLike r₂) (hfile : r₁.filename = r₂.filename) :
    e.printedMap? r₁ program = e.printedMap? r₂ program := by
  rw [printedMap?, printedMap?, printed_eq h, setting_eq h, sourceMapOf_congr h.source hfile]

theorem result_complete_eq (h : r₁.ReadsLike r₂) (hmap : r₁.MapsLike r₂) :
    (e.complete r₁ program).result = (e.complete r₂ program).result := by
  rw [result_complete, result_complete, printed_eq h, setting_eq h, hmap.wants]
  cases hwants : r₂.wantsSourceMap with
  | false => simp only [Bool.false_eq_true, ↓reduceIte]
  | true => rw [printedMap?_eq h (hmap.file (hmap.wants.trans hwants))]

/-- A result with a map names the file of its request. -/
theorem exists_map_of_result {m : String} (h : (e.complete r program).result.sourceMap = some m) :
    r.wantsSourceMap ∧ ∃ map : SourceMap, map.file = r.filename ∧ map.render = m := by
  rw [result_complete] at h
  dsimp only at h
  split at h
  · next hwants =>
    obtain ⟨map, hmap, hrender⟩ := Option.map_eq_some_iff.1 h
    refine ⟨hwants, map, ?_, hrender⟩
    rw [printedMap?] at hmap
    cases hbuilt : sourceMapOf r (e.printed r program)
        (walk (e.setting r) program.tree).2.mappings with
    | error problem => rw [hbuilt] at hmap; cases hmap
    | ok built =>
      rw [hbuilt] at hmap
      rw [← Option.some.inj hmap]
      exact file_of_sourceMapOf hbuilt
  · cases h

/-- Results with one map are of requests that ask for the map of one file. -/
theorem mapsLike_of_result {program₁ program₂ : Program} {m : String}
    (h₁ : (e.complete r₁ program₁).result.sourceMap = some m)
    (h₂ : (e.complete r₂ program₂).result.sourceMap = some m) : r₁.MapsLike r₂ := by
  obtain ⟨hwants₁, map₁, hfile₁, hrender₁⟩ := exists_map_of_result h₁
  obtain ⟨hwants₂, map₂, hfile₂, hrender₂⟩ := exists_map_of_result h₂
  refine ⟨hwants₁.trans hwants₂.symm, fun _ => ?_⟩
  rw [← hfile₁, ← hfile₂]
  exact file_eq_of_render_eq (hrender₁.trans hrender₂.symm)

theorem transform_eq_ok_iff {rec : Recorder} {t : Timing} {R : TransformResult} :
    (e.transform rec t r).1 = .ok R ↔
      ∃ p, parseScript (.ofFilename r.filename) r.source = .ok p ∧ (e.complete r p).result = R := by
  rw [transform, run]
  cases parseScript (.ofFilename r.filename) r.source with
  | error f => simp [Except.map]
  | ok p => simp [Except.map]

end Engine

/-! ### Caches -/

/-- What a cache returns was set for the same source and mode, unless two sources share a digest. -/
theorem Cache.set_mem_of_get? {capacity : ℕ} {ops : List Operation} {p : Pair}
    {R : TransformResult} (hdigest : ∀ s ∈ sources ops, hash s = hash p.1 → s = p.1)
    (h : ((empty capacity).after ops).get? p.1 p.2 = some R) : .set p R ∈ ops := by
  obtain ⟨q, hq, hkey⟩ := exists_set_of_mem capacity ops (Ordered.mem_of_get? h)
  obtain ⟨hhash, hmode⟩ := Prod.mk.inj hkey
  have hsource : q.1 ∈ sources ops := List.mem_filterMap.2 ⟨_, hq, rfl⟩
  have hpair : q = p := Prod.ext (hdigest q.1 hsource hhash) hmode
  rwa [hpair] at hq

/-- The result of a request is that of every request of its source and mode whose file name has
the source read the same and which asks for the same map, if for any; with another file name or
another wish for a map, output and dependencies are the same, but a map never is. So what a cache
returns for a request is what a transform of it gives, if every result that was set for its source
and mode is one of such a request and no other source has its digest. -/
theorem remembered_result (e : Engine) (r : Request) :
    (∀ r₁ rec₁ t₁ R₁, r₁.ReadsLike r → (e.transform rec₁ t₁ r₁).1 = .ok R₁ →
      ∃ R, (∀ rec t, (e.transform rec t r).1 = .ok R) ∧
        R.generatedText = R₁.generatedText ∧ R.dependencies = R₁.dependencies ∧
        (r₁.MapsLike r → R = R₁) ∧ (R₁.sourceMap.isSome → R = R₁ → r₁.MapsLike r)) ∧
    ∀ capacity ops R,
      (∀ s ∈ Cache.sources ops, Cache.hash s = Cache.hash r.source → s = r.source) →
      (∀ R₁, .set (r.source, r.mode) R₁ ∈ ops → ∃ r₁ rec₁ t₁,
        r₁.ReadsLike r ∧ r₁.MapsLike r ∧ (e.transform rec₁ t₁ r₁).1 = .ok R₁) →
      ((Cache.empty capacity).after ops).get? r.source r.mode = some R →
      ∀ rec t, (e.transform rec t r).1 = .ok R := by
  constructor
  · intro r₁ rec₁ t₁ R₁ hreads hrun
    obtain ⟨p, hparse, rfl⟩ := Engine.transform_eq_ok_iff.1 hrun
    rw [hreads.reading] at hparse
    refine ⟨(e.complete r p).result, fun _ _ => Engine.transform_eq_ok_iff.2 ⟨p, hparse, rfl⟩, ?_,
      ?_, fun hmaps => (Engine.result_complete_eq hreads hmaps).symm, fun hsome heq => ?_⟩
    · rw [Engine.result_complete, Engine.result_complete, Engine.printed_eq hreads]
    · rw [Engine.result_complete, Engine.result_complete, Engine.setting_eq hreads]
    · obtain ⟨m, hm⟩ := Option.isSome_iff_exists.1 hsome
      exact Engine.mapsLike_of_result hm (heq ▸ hm)
  · intro capacity ops R hdigest hops hget rec t
    have hset := Cache.set_mem_of_get? (p := (r.source, r.mode)) hdigest hget
    obtain ⟨r₁, rec₁, t₁, hreads, hmaps, hrun⟩ := hops R hset
    obtain ⟨p, hparse, rfl⟩ := Engine.transform_eq_ok_iff.1 hrun
    rw [hreads.reading] at hparse
    exact Engine.transform_eq_ok_iff.2 ⟨p, hparse, (Engine.result_complete_eq hreads hmaps).symm⟩

def pageRequest : Request := ⟨"fetch('/api/records');", "page.js", .production, false⟩

theorem remembered_result_renamed :
    ∃ e R, Engine.ofConfig .standard .standard = .ok e ∧
      let other : Request := { pageRequest with filename := "lib/other.js" }
      let memo := (Cache.empty 1).after [.set (pageRequest.source, pageRequest.mode) R]
      pageRequest.ReadsLike other ∧ pageRequest.MapsLike other ∧
        (∀ rec t, (e.transform rec t pageRequest).1 = .ok R) ∧
        memo.get? other.source other.mode = some R ∧
        ∀ rec t, (e.transform rec t other).1 = .ok R := by
  obtain ⟨e, he⟩ := Engine.exists_standard
  obtain ⟨p, hparse⟩ := exists_ok_of_isSome
    (x := parseScript (.ofFilename pageRequest.filename) pageRequest.source) (by decide +kernel)
  refine ⟨e, (e.complete pageRequest p).result, he, ?_⟩
  intro other memo
  have hreads : pageRequest.ReadsLike other := .of_dialect rfl rfl (by decide +kernel)
  have hmaps : pageRequest.MapsLike other := ⟨rfl, nofun⟩
  have hrun : ∀ rec t, (e.transform rec t pageRequest).1 = .ok (e.complete pageRequest p).result :=
    fun _ _ => Engine.transform_eq_ok_iff.2 ⟨p, hparse, rfl⟩
  have hget : memo.get? other.source other.mode = some (e.complete pageRequest p).result := by
    simp [memo, other, Cache.after, Cache.apply, Cache.empty, Cache.set, Cache.get?, Cache.trim,
      Cache.evict, Ordered.get?, Ordered.set]
  refine ⟨hreads, hmaps, hrun, hget, ?_⟩
  refine (remembered_result e other).2 1 _ _ ?_ ?_ hget
  · rintro s hs -
    exact List.mem_singleton.1 hs
  · intro R₁ hR₁
    obtain ⟨-, rfl⟩ := Cache.Operation.set.inj (List.mem_singleton.1 hR₁)
    exact ⟨pageRequest, .standard, ⟨⟨0, 0⟩, .zero⟩, hreads, hmaps, hrun _ _⟩

def mappedRequest : Request := { pageRequest with wantsSourceMap := true }

def typedRequest : Request := ⟨"const x: number = 1;", "page.ts", .production, false⟩

def untypedRequest : Request := { typedRequest with filename := "page.js" }

theorem exists_results_differ {e : Engine} (he : Engine.ofConfig .standard .standard = .ok e) :
    ∃ R R', (∀ rec t, (e.transform rec t pageRequest).1 = .ok R) ∧
      (∀ rec t, (e.transform rec t mappedRequest).1 = .ok R') ∧ R ≠ R' := by
  obtain ⟨p, hparse, hmap⟩ := exists_ok_of_any
    (x := parseScript (.ofFilename mappedRequest.filename) mappedRequest.source)
    (p := fun p =>
      let walked := walk (settingOf .standard .standard .production mappedRequest.source.toList) p.tree
      (sourceMapOf mappedRequest (walked.1.print p.comments) walked.2.mappings).toOption.isSome)
    (by decide +kernel)
  refine ⟨(e.complete pageRequest p).result, (e.complete mappedRequest p).result,
    fun _ _ => Engine.transform_eq_ok_iff.2 ⟨p, hparse, rfl⟩,
    fun _ _ => Engine.transform_eq_ok_iff.2 ⟨p, hparse, rfl⟩, fun heq => ?_⟩
  have hsome : (e.printedMap? mappedRequest p).isSome := by
    rw [Engine.printedMap?, Engine.printed, Engine.setting_of_ofConfig he]
    exact hmap
  have hmaps := congrArg TransformResult.sourceMap heq
  rw [Engine.result_complete, Engine.result_complete] at hmaps
  have hnone : (e.printedMap? mappedRequest p).map SourceMap.render = none := hmaps.symm
  rw [Option.map_eq_none_iff.1 hnone] at hsome
  cases hsome

theorem exists_result_and_failure (e : Engine) :
    ∃ R f, (∀ rec t, (e.transform rec t typedRequest).1 = .ok R) ∧
      ∀ rec t, (e.transform rec t untypedRequest).1 = .error f := by
  obtain ⟨p, hparse⟩ := exists_ok_of_isSome
    (x := parseScript (.ofFilename typedRequest.filename) typedRequest.source) (by decide +kernel)
  obtain ⟨f, hfails⟩ := exists_error_of_isNone
    (x := parseScript (.ofFilename untypedRequest.filename) untypedRequest.source)
    (by decide +kernel)
  refine ⟨_, parseFailure untypedRequest f,
    fun _ _ => Engine.transform_eq_ok_iff.2 ⟨p, hparse, rfl⟩, fun _ _ => ?_⟩
  rw [Engine.transform, e.run_error hfails]
  rfl

/-- The source and the mode do not decide a result: it has a map or not as the request asks, and a
file name of another dialect can make the source unreadable. -/
theorem same_source_and_mode_differ :
    ∃ e, Engine.ofConfig .standard .standard = .ok e ∧
      (pageRequest.source = mappedRequest.source ∧ pageRequest.mode = mappedRequest.mode ∧
        ∃ R R', (∀ rec t, (e.transform rec t pageRequest).1 = .ok R) ∧
          (∀ rec t, (e.transform rec t mappedRequest).1 = .ok R') ∧ R ≠ R') ∧
      typedRequest.source = untypedRequest.source ∧ typedRequest.mode = untypedRequest.mode ∧
        ∃ R f, (∀ rec t, (e.transform rec t typedRequest).1 = .ok R) ∧
          ∀ rec t, (e.transform rec t untypedRequest).1 = .error f := by
  obtain ⟨e, he⟩ := Engine.exists_standard
  exact ⟨e, he, ⟨rfl, rfl, exists_results_differ he⟩, rfl, rfl, exists_result_and_failure e⟩

end CallBridge
