import CallBridge.Proofs.Collection.Distinct
import CallBridge.Proofs.Script.Given
import CallBridge.Proofs.Script.Shape.Scripts
import CallBridge.Script.Dependencies

/-!
# Dependencies of scripts

Which nodes of a script name a file (`Names`), and that the files a script depends on are the ones
that its nodes name, each once, in the order in which they are first named. Main statement:
`dependencies_inOrder`.
-/

namespace CallBridge.Script

open Collection Pattern

/-! ### Nodes that name files -/

/-- A string, or a template without substitutions, with any parentheses around it. -/
inductive IsLiteral : Tree → String → Prop where
  | string (value : Text) (s : Span) (cs : List Tree) :
      IsLiteral (.node (.string value) s cs) value.value
  | template (raw : String) (cooked : Text) (s : Span) :
      IsLiteral (.node (.template [⟨raw, some cooked⟩]) s []) cooked.value
  | paren {t : Tree} {file : String} (s : Span) (h : IsLiteral t file) :
      IsLiteral (.node .paren s [t]) file

/-- The nodes that name a file: imports, exports from elsewhere, and calls of `import` with a
literal. -/
inductive Names : Tree → String → Prop where
  | importDeclaration (source : Text) (hasList : Bool) (s : Span) (cs : List Tree) :
      Names (.node (.importDeclaration source hasList) s cs) source.value
  | exportList (source : Text) (s : Span) (cs : List Tree) :
      Names (.node (.exportList (some source)) s cs) source.value
  | exportAll (source : Text) (name : Option ModuleName) (s : Span) (cs : List Tree) :
      Names (.node (.exportAll source name) s cs) source.value
  | importCall {specifier : Tree} {file : String} (h : IsLiteral specifier file) (s : Span)
      (options : List Tree) : Names (.node .importCall s (specifier :: options)) file

variable {t u : Tree} {file : String}

theorem IsLiteral.literal?_eq (h : IsLiteral t file) : literal? t = some file := by
  induction h with
  | string value s cs => rw [literal?, Tree.unparen_node (by rintro _ ⟨⟩)]
  | template raw cooked s =>
    rw [literal?, Tree.unparen_node (by rintro _ ⟨⟩)]
    rfl
  | paren s h ih => rwa [literal?, Tree.unparen_paren, ← literal?]

theorem isLiteral_of_unparen (h : IsLiteral t.unparen file) : IsLiteral t file := by
  induction t with
  | node k s cs ih =>
    by_cases hparen : ∃ t, k = .paren ∧ cs = [t]
    · obtain ⟨t, rfl, rfl⟩ := hparen
      rw [Tree.unparen_paren] at h
      exact .paren s (ih t (List.mem_singleton_self t) h)
    · rwa [Tree.unparen_node fun t hk hc => hparen ⟨t, hk, hc⟩] at h

/-- In a script, the literals are those whose text can be read. -/
theorem literal?_eq_some_iff (ht : WellShaped t) : literal? t = some file ↔ IsLiteral t file := by
  refine ⟨fun h => isLiteral_of_unparen ?_, IsLiteral.literal?_eq⟩
  have hinside : WellShaped t.unparen := ht.of_mem_subtrees (Tree.unparen_mem_subtrees t)
  unfold literal? at h
  split at h
  · next value s cs hstring =>
    obtain rfl := Option.some.inj h
    rw [hstring]
    exact .string value s cs
  · next quasis s htemplate =>
    rw [htemplate] at hinside ⊢
    -- one piece more than substitutions
    have hlength : [].length + 1 = quasis.length := beq_iff_eq.1 (wellShaped_node.1 hinside).1
    obtain ⟨⟨raw, cooked?⟩, rfl⟩ := List.length_eq_one_iff.1 hlength.symm
    obtain ⟨cooked, hcooked, rfl⟩ := Option.map_eq_some_iff.1 h
    obtain rfl : cooked? = some cooked := hcooked
    exact .template raw cooked s
  · cases h

/-- The file that a node names itself. -/
def Tree.file? (u : Tree) : Option String := namedFile? u.kind u.children

theorem file?_eq_some_iff (hu : WellShaped u) : u.file? = some file ↔ Names u file := by
  constructor
  · intro h
    obtain ⟨k, s, cs⟩ := u
    change namedFile? k cs = some file at h
    unfold namedFile? at h
    split at h
    · obtain rfl := Option.some.inj h
      exact .importDeclaration ..
    · obtain rfl := Option.some.inj h
      exact .exportAll ..
    · obtain rfl := Option.some.inj h
      exact .exportList ..
    · next specifier options =>
      have hspecifier := (wellShaped_node.1 hu).2.2 specifier (List.mem_cons_self ..)
      exact .importCall ((literal?_eq_some_iff hspecifier).1 h) s options
    · cases h
  · rintro (_ | _ | _ | ⟨h, s, options⟩)
    · rfl
    · rfl
    · rfl
    · exact h.literal?_eq

/-! ### Mentions -/

theorem mentions_node (k : Kind) (s : Span) (cs : List Tree) :
    mentions (.node k s cs) =
      (namedFile? k cs).toList ++ if isSearched k then cs.flatMap mentions else [] := by
  simp only [mentions, Tree.fold_node, List.map_map, Function.comp_def, List.map_id',
    List.flatMap_map]

/-- A name in the list of an import or export names no file. -/
theorem file?_of_isSpecifier (h : u.kind.isSpecifier) : u.file? = none := by
  obtain ⟨k, s, cs⟩ := u
  cases k <;> first | rfl | cases h

theorem subtrees_of_isLeaf (ht : WellShaped t) (h : t.kind.isLeaf) : t.subtrees = [t] := by
  obtain ⟨k, s, cs⟩ := t
  rw [ht.eq_nil_of_isLeaf h, Tree.subtrees_node, List.flatMap_nil]

/-- Where no mentions are looked for, there are none. -/
theorem filterMap_file?_of_not_searched {k : Kind} {s : Span} {cs : List Tree}
    (ht : WellShaped (.node k s cs)) (hk : isSearched k = false) :
    (cs.flatMap Tree.subtrees).filterMap Tree.file? = [] := by
  obtain ⟨-, hplace, hbelow⟩ := wellShaped_node.1 ht
  cases k with
  | importDeclaration source hasList =>
    refine List.filterMap_eq_nil_iff.2 fun u hu => ?_
    obtain ⟨c, hc, hu⟩ := List.mem_flatMap.1 hu
    have hspecifier : c.kind.isSpecifier := List.all_eq_true.1 hplace _ (List.mem_map_of_mem hc)
    rw [subtrees_of_isLeaf (hbelow c hc) (Kind.isLeaf_of_isSpecifier hspecifier)] at hu
    rw [List.mem_singleton.1 hu, file?_of_isSpecifier hspecifier]
  | exportAll source name =>
    rw [ht.eq_nil_of_isLeaf rfl]
    rfl
  | _ => cases hk

/-- The mentions of a script are the files that its nodes name, in the order of the text. -/
theorem mentions_eq_filterMap (ht : WellShaped t) :
    mentions t = t.subtrees.filterMap Tree.file? := by
  induction t with
  | node k s cs ih =>
    have hbelow : cs.flatMap mentions = (cs.flatMap Tree.subtrees).filterMap Tree.file? := by
      rw [List.filterMap_flatMap]
      exact List.flatMap_congr fun c hc => ih c hc ((wellShaped_node.1 ht).2.2 c hc)
    -- what is not searched has nothing to find, so the two agree at every node
    have hsearched : (if isSearched k then cs.flatMap mentions else []) =
        (cs.flatMap Tree.subtrees).filterMap Tree.file? := by
      cases hk : isSearched k with
      | true => exact hbelow
      | false => exact (filterMap_file?_of_not_searched ht hk).symm
    have hself : (Tree.node k s cs).file? = namedFile? k cs := rfl
    rw [mentions_node, hsearched, Tree.subtrees_node, List.filterMap_cons, hself]
    cases namedFile? k cs <;> rfl

theorem mem_mentions_iff (ht : WellShaped t) :
    file ∈ mentions t ↔ ∃ u ∈ t.subtrees, Names u file := by
  rw [mentions_eq_filterMap ht, List.mem_filterMap]
  exact exists_congr fun u => and_congr_right fun hu =>
    file?_eq_some_iff (ht.of_mem_subtrees hu)

/-! ### Dependencies -/

/-- Whether a list of nodes names one file before it names another for the first time. -/
def NamedBefore (us : List Tree) (file other : String) : Prop :=
  ∃ front u behind, us = front ++ u :: behind ∧ Names u file ∧
    (∀ v ∈ front ++ [u], ¬ Names v other) ∧ ∃ v ∈ behind, Names v other

/-- A call of `import` whose specifier is no literal. -/
def IsComputedImport (t : Tree) : Prop :=
  ∃ s specifier options, t = .node .importCall s (specifier :: options) ∧
    ∀ file, ¬ IsLiteral specifier file

theorem IsComputedImport.not_names (h : IsComputedImport t) (file : String) : ¬ Names t file := by
  obtain ⟨s, specifier, options, rfl, hcomputed⟩ := h
  rintro (_ | _ | _ | ⟨hliteral, -, -⟩)
  exact hcomputed file hliteral

theorem isComputedImport_of_file?_eq_none (hkind : u.kind = .importCall)
    (hchildren : u.children.isEmpty = false) (hfile : u.file? = none) : IsComputedImport u := by
  obtain ⟨k, s, cs⟩ := u
  obtain rfl : k = .importCall := hkind
  cases cs with
  | nil => cases hchildren
  | cons specifier options =>
    refine ⟨s, specifier, options, rfl, fun file hliteral => ?_⟩
    have hnone : literal? specifier = none := hfile
    cases hnone.symm.trans hliteral.literal?_eq

/-- Files first mentioned in an order are first named in that order. -/
theorem namedBefore_of_firstBefore {us : List Tree} {other : String}
    (hus : ∀ u ∈ us, WellShaped u) (h : FirstBefore (us.filterMap Tree.file?) file other) :
    NamedBefore us file other := by
  obtain ⟨mentioned, rest, hsplit, hnew, hlater⟩ := h
  obtain ⟨front, tail, rfl, rfl, htail⟩ := List.filterMap_eq_append_iff.1 hsplit
  obtain ⟨skipped, u, behind, rfl, hskipped, hu, rfl⟩ := List.filterMap_eq_cons_iff.1 htail
  refine ⟨front ++ skipped, u, behind, by simp, ?_, fun v hv hother => hnew ?_, ?_⟩
  · exact (file?_eq_some_iff (hus u (by simp))).1 hu
  · have hshaped : WellShaped v := hus v (by
      rw [← List.append_assoc, List.append_cons]
      exact List.mem_append_left _ hv)
    have hfile := (file?_eq_some_iff hshaped).2 hother
    have hmem : other ∈ (front ++ skipped ++ [u]).filterMap Tree.file? :=
      List.mem_filterMap.2 ⟨v, hv, hfile⟩
    rwa [List.filterMap_append, List.filterMap_append, List.filterMap_eq_nil_iff.2 hskipped,
      List.append_nil, List.filterMap_cons_some hu] at hmem
  · obtain ⟨v, hv, hfile⟩ := List.mem_filterMap.1 hlater
    exact ⟨v, hv, (file?_eq_some_iff (hus v (by simp [hv]))).1 hfile⟩

/-- A script depends on the files that its nodes name, however deep they are, and on no others. Each
is listed once, in the order in which they are first named. An `import` of a computed file names
none, and what is inside it is listed like all else. -/
theorem dependencies_inOrder (h : WellShaped t) :
    (dependencies t).Nodup ∧
    (∀ file, file ∈ dependencies t ↔ ∃ u ∈ t.subtrees, Names u file) ∧
    (dependencies t).Pairwise (NamedBefore t.subtrees) ∧
    ∀ u ∈ t.subtrees, IsComputedImport u → (∀ file, ¬ Names u file) ∧
      ∀ v ∈ u.subtrees, ∀ file, Names v file → file ∈ dependencies t := by
  have hmem (file : String) : file ∈ dependencies t ↔ ∃ u ∈ t.subtrees, Names u file :=
    mem_distinct.trans (mem_mentions_iff h)
  refine ⟨nodup_distinct _, hmem, ?_, fun u hu hcomputed => ⟨hcomputed.not_names, ?_⟩⟩
  · refine (pairwise_distinct (mentions t)).imp_of_mem fun ha hb hlt => ?_
    have hbefore := firstBefore_of_idxOf_lt (mem_distinct.1 ha) (mem_distinct.1 hb) hlt
    rw [mentions_eq_filterMap h] at hbefore
    exact namedBefore_of_firstBefore (fun u hu => h.of_mem_subtrees hu) hbefore
  · intro v hv file hfile
    exact (hmem file).2 ⟨v, Tree.mem_subtrees_trans hu hv, hfile⟩

/-- Imports of all kinds, one of them of a file that is only known when it runs. -/
def lazyImports : String :=
  "import \x7b a \x7d from './a'; export const load = () => import(a(import(`./b`)) + '.js'); " ++
    "export \x7b c \x7d from './a'; export * from './c'; if (a) import(('./d'), import('./b'));"

theorem dependencies_inOrder_lazy :
    ∃ program, parseScript (.ofFilename "page.js") lazyImports = .ok program ∧
      WellShaped program.tree ∧
      (∀ file, (∃ u ∈ program.tree.subtrees, Names u file) ↔ file ∈ ["./a", "./b", "./c", "./d"]) ∧
      ["./a", "./b", "./c", "./d"].Pairwise (NamedBefore program.tree.subtrees) ∧
      ∃ u ∈ program.tree.subtrees, IsComputedImport u ∧ ∀ file, ¬ Names u file := by
  obtain ⟨program, hparse, hread⟩ := exists_program_of_any (.ofFilename "page.js") lazyImports
    (toList_append_eq String.toList_ofList String.toList_ofList)
    (p := fun _ program =>
      dependencies program.tree = ["./a", "./b", "./c", "./d"] ∧
      ∃ u ∈ program.tree.subtrees,
        u.kind = .importCall ∧ u.children.isEmpty = false ∧ u.file? = none)
    (by decide +kernel)
  obtain ⟨hfiles, u, hu, hkind, hchildren, hnone⟩ := of_decide_eq_true hread
  have hshaped := wellShaped_of_parseScript hparse
  obtain ⟨-, hmem, horder, hinside⟩ := dependencies_inOrder hshaped
  rw [hfiles] at hmem horder
  refine ⟨program, hparse, hshaped, fun file => (hmem file).symm, horder, u, hu, ?_⟩
  have himport := isComputedImport_of_file?_eq_none hkind hchildren hnone
  exact ⟨himport, (hinside u hu himport).1⟩

end CallBridge.Script
