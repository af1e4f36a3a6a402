import CallBridge.Proofs.Url.Origin
import CallBridge.Registry.Lookup

/-!
# Origin and path of a URL

The head of a URL is its longest beginning without a question mark or a number sign (`IsHead`). An
origin that is found in it stays one whatever path, query or fragment stands behind it
(`origin?_append`), and the path is what the head goes on with. Main statement: origin and path make
up the head, and a lookup of a local path answers the same behind any origin
(`origin_and_path_agree`).
-/

namespace CallBridge.Url

open Collection

/-- A text without a question mark and without a number sign. -/
def Unmarked (cs : List Char) : Prop := '?' ∉ cs ∧ '#' ∉ cs

/-- The longest unmarked beginning of a URL. -/
structure IsHead (url cs : List Char) : Prop where
  begins : cs <+: url
  unmarked : Unmarked cs
  longest : ∀ other, other <+: url → Unmarked other → other <+: cs

/-- What may stand behind an origin in a URL: nothing, a path, a query or a fragment. -/
def EndsOrigin (cs : List Char) : Prop := ∀ c ∈ cs.head?, c = '/' ∨ c = '?' ∨ c = '#'

/-- A path from a single slash. -/
def IsLocal (cs : List Char) : Prop := ∃ rest, cs = '/' :: rest ∧ rest.head? ≠ some '/'

variable {url cs rest origin p : List Char}

/-! ### Heads -/

theorem endsHead_eq_false_iff {c : Char} : endsHead c = false ↔ c ≠ '?' ∧ c ≠ '#' := by
  simp [endsHead]

theorem unmarked_iff : Unmarked cs ↔ ∀ c ∈ cs, (!endsHead c) = true := by
  simp only [Bool.not_eq_true', endsHead_eq_false_iff]
  constructor
  · rintro ⟨hquery, hfragment⟩ c hc
    exact ⟨fun heq => hquery (heq ▸ hc), fun heq => hfragment (heq ▸ hc)⟩
  · intro h
    exact ⟨fun hmem => (h _ hmem).1 rfl, fun hmem => (h _ hmem).2 rfl⟩

theorem unmarked_append : Unmarked (cs ++ rest) ↔ Unmarked cs ∧ Unmarked rest := by
  simp only [unmarked_iff, List.forall_mem_append]

theorem head_append (h : Unmarked cs) (rest : List Char) : head (cs ++ rest) = cs ++ head rest :=
  List.takeWhile_append_of_pos (unmarked_iff.1 h)

theorem unmarked_head (url : List Char) : Unmarked (head url) :=
  unmarked_iff.2 fun _ hc => List.mem_takeWhile_imp (p := fun c => !endsHead c) hc

theorem isHead_head (url : List Char) : IsHead url (head url) where
  begins := List.takeWhile_prefix _
  unmarked := unmarked_head url
  longest := by
    rintro other ⟨rest, rfl⟩ h
    rw [head_append h]
    exact List.prefix_append ..

/-- Behind an origin, the head of a URL goes on as a path does. -/
theorem beginsPath_head (h : EndsOrigin cs) : BeginsPath (head cs) := by
  cases cs with
  | nil => exact stops_nil
  | cons c cs =>
    rcases h c rfl with rfl | rfl | rfl
    · exact stops_cons.2 rfl
    · exact stops_nil
    · exact stops_nil

/-! ### Origins -/

/-- The origin of a URL is what its head begins with. -/
theorem origin?_eq_some_iff :
    origin? url = some origin ↔
      IsOrigin origin ∧ ∃ rest, BeginsPath rest ∧ head url = origin ++ rest := by
  rw [origin?, Option.map_eq_some_iff]
  constructor
  · rintro ⟨⟨origin, rest⟩, hsplit, rfl⟩
    obtain ⟨hhead, ho, hrest⟩ := splitOrigin?_eq_some_iff.1 hsplit
    exact ⟨ho, rest, hrest, hhead⟩
  · rintro ⟨ho, rest, hrest, hhead⟩
    exact ⟨(origin, rest), splitOrigin?_eq_some_iff.2 ⟨hhead, ho, hrest⟩, rfl⟩

theorem unmarked_of_origin? (h : origin? url = some origin) : Unmarked origin := by
  obtain ⟨-, rest, -, hhead⟩ := origin?_eq_some_iff.1 h
  exact (unmarked_append.1 (hhead ▸ unmarked_head url)).1

/-- An origin is split from whatever stands behind it. -/
theorem splitOrigin?_behind (h : origin? url = some origin) (hcs : EndsOrigin cs) :
    splitOrigin? (head (origin ++ cs)) = some (origin, head cs) := by
  obtain ⟨ho, -⟩ := origin?_eq_some_iff.1 h
  rw [head_append (unmarked_of_origin? h)]
  exact splitOrigin?_append_of_isOrigin ho (beginsPath_head hcs)

theorem origin?_append (h : origin? url = some origin) (hcs : EndsOrigin cs) :
    origin? (origin ++ cs) = some origin := by
  rw [origin?, splitOrigin?_behind h hcs]
  rfl

/-! ### Paths -/

theorem path_of_splitOrigin? (h : splitOrigin? (head url) = some (origin, rest)) :
    path url = if rest = [] then ['/'] else rest := by
  rw [path, h]
  cases rest with
  | nil => rfl
  | cons c rest => rfl

theorem path_of_no_origin (h : origin? url = none) : path url = head url := by
  rw [path, Option.map_eq_none_iff.1 h]

theorem path_of_origin (h : origin? url = some origin) :
    ∃ rest, BeginsPath rest ∧ head url = origin ++ rest ∧
      path url = if rest = [] then ['/'] else rest := by
  obtain ⟨ho, rest, hrest, hhead⟩ := origin?_eq_some_iff.1 h
  exact ⟨rest, hrest, hhead, path_of_splitOrigin? (splitOrigin?_eq_some_iff.2 ⟨hhead, ho, hrest⟩)⟩

theorem unmarked_path (url : List Char) : Unmarked (path url) := by
  cases h : origin? url with
  | none =>
    rw [path_of_no_origin h]
    exact unmarked_head url
  | some origin =>
    obtain ⟨rest, -, hhead, hpath⟩ := path_of_origin h
    rw [hpath]
    split
    · exact ⟨by decide, by decide⟩
    · exact (unmarked_append.1 (hhead ▸ unmarked_head url)).2

/-- A path from a single slash has no origin. -/
theorem origin?_of_isLocal (h : IsLocal p) : origin? p = none := by
  obtain ⟨rest, rfl, hrest⟩ := h
  refine Option.eq_none_iff_forall_ne_some.2 fun origin horigin => ?_
  obtain ⟨ho, back, -, hhead⟩ := origin?_eq_some_iff.1 horigin
  have hbegins : origin <+: '/' :: rest := by
    refine List.IsPrefix.trans ?_ (isHead_head ('/' :: rest)).begins
    exact hhead ▸ List.prefix_append ..
  cases ho with
  | relative ha =>
    obtain ⟨more, hmore⟩ := (List.cons_prefix_cons.1 hbegins).2
    exact hrest (by rw [← hmore]; rfl)
  | absolute hl hs ha =>
    obtain ⟨rfl, -⟩ := List.cons_prefix_cons.1 hbegins
    exact absurd hl (by decide)

/-- Behind an origin, a path from a slash is the path of the URL. -/
theorem path_append (h : origin? url = some origin) (hp : IsLocal p) :
    path (origin ++ p) = path p := by
  rw [path_of_no_origin (origin?_of_isLocal hp)]
  obtain ⟨rest, rfl, -⟩ := hp
  have hends : EndsOrigin ('/' :: rest) := fun c hc => Or.inl (Option.some.inj hc).symm
  rw [path_of_splitOrigin? (splitOrigin?_behind h hends)]
  exact if_neg (List.cons_ne_nil '/' (head rest))

/-- Looking up a local path behind an origin goes through the same beginnings. -/
theorem routePath_append {origin p : String} (h : origin? url = some origin.toList)
    (hp : IsLocal p.toList) : Registry.routePath (origin ++ p) = Registry.routePath p := by
  rw [Registry.routePath, String.toList_append, path_append h hp, Registry.routePath]

/-- The head of a URL is its longest beginning without marks, and the path has none. There is an
origin exactly when the head begins with one; then the head goes on with the path, or ends where the
path is a slash, and the origin is found again in front of any other path, query or fragment. Without
an origin the path is the head. So both lookups of any registry answer the same for a path from a
single slash with an origin in front of it. -/
theorem origin_and_path_agree :
    (∀ url,
      IsHead url (head url) ∧ Unmarked (path url) ∧
      (∀ origin, origin? url = some origin ↔
        IsOrigin origin ∧ ∃ rest, BeginsPath rest ∧ head url = origin ++ rest) ∧
      (∀ origin, origin? url = some origin →
        (∃ rest, BeginsPath rest ∧ head url = origin ++ rest ∧
          path url = if rest = [] then ['/'] else rest) ∧
        ∀ cs, EndsOrigin cs → origin? (origin ++ cs) = some origin) ∧
      (origin? url = none → path url = head url)) ∧
    ∀ (r : Registry) (url : List Char) (origin p : String),
      origin? url = some origin.toList → IsLocal p.toList →
        (∀ method, r.apiByRoute? method (origin ++ p) = r.apiByRoute? method p) ∧
        r.apiByPrefix? (origin ++ p) = r.apiByPrefix? p := by
  refine ⟨fun url => ⟨isHead_head url, unmarked_path url, fun origin => origin?_eq_some_iff,
    fun origin h => ⟨path_of_origin h, fun cs hcs => origin?_append h hcs⟩, path_of_no_origin⟩, ?_⟩
  intro r url origin p h hp
  have hroute := routePath_append h hp
  refine ⟨fun method => ?_, ?_⟩
  · rw [Registry.apiByRoute?, Registry.apiByRoute?, Registry.apiUnder?, Registry.apiUnder?, hroute]
  · rw [Registry.apiByPrefix?, Registry.apiByPrefix?, Registry.apiUnder?, Registry.apiUnder?, hroute]

/-- A registry of one mapping, its method in upper case and its prefix cut as they are kept. -/
def recordRegistry : Registry :=
  Registry.empty.registerAll
    [.api { ApiMapping.ofRoute "record.get" "" "" "/k" (ApiCatalogue.reading "/k") with
      httpMethod := "GET", pathPrefix := "/api/record" }]

theorem origin_and_path_agree_shop :
    let url := "https://shop:80?to=//x/y#top".toList
    let lookup (url : String) := recordRegistry.apiByRoute? "get" url
    origin? url = some "https://shop:80".toList ∧ path url = ['/'] ∧
      EndsOrigin "#/a://b".toList ∧
      origin? ("https://shop:80".toList ++ "#/a://b".toList) = some "https://shop:80".toList ∧
      origin? "/a://b?c".toList = none ∧ path "/a://b?c".toList = head "/a://b?c".toList ∧
      IsLocal "/api/record?to=//x".toList ∧
      lookup ("https://shop:80" ++ "/api/record?to=//x") = lookup "/api/record?to=//x" ∧
      (lookup "/api/record?to=//x").isSome := by
  intro url lookup
  have horigin : origin? url = some "https://shop:80".toList := by decide +kernel
  have hnone : origin? "/a://b?c".toList = none := by decide +kernel
  have hends : EndsOrigin "#/a://b".toList := fun c hc => by
    have hsharp : "#/a://b".toList.head? = some '#' := by decide +kernel
    rw [hsharp] at hc
    obtain rfl := Option.some.inj hc
    simp
  have hlocal : IsLocal "/api/record?to=//x".toList :=
    ⟨"api/record?to=//x".toList, by decide +kernel, by decide +kernel⟩
  obtain ⟨hurls, hlookups⟩ := origin_and_path_agree
  obtain ⟨-, -, -, hsome, -⟩ := hurls url
  obtain ⟨-, -, -, -, hpath⟩ := hurls "/a://b?c".toList
  obtain ⟨⟨rest, -, hhead, hslash⟩, hagain⟩ := hsome _ horigin
  have hrest : rest = [] := by
    have hall : head url = "https://shop:80".toList := by decide +kernel
    exact List.self_eq_append_right.1 (hall.symm.trans hhead)
  exact ⟨horigin, hslash.trans (if_pos hrest), hends, hagain _ hends, hnone, hpath hnone, hlocal,
    (hlookups recordRegistry url _ _ horigin hlocal).1 "get", by decide +kernel⟩

end CallBridge.Url
