import CallBridge.Proofs.Replacement.Substitution
import CallBridge.Proofs.Script.Phrases

/-!
# Texts of replacements

A dotted name is called with nodes as arguments; any other name is read together with the texts of
its arguments, and its holes are filled afterwards. Main statement: both ways give the same call of
a dotted name, whatever the arguments are, as long as their texts are phrases
(`parseExpression_callText`).
-/

namespace CallBridge.Replacement

open Json Pattern Script CallBridge.Text

/-! ### Holes -/

variable {holes : Holes} {name : String}

/-- Holes are names. Any other node is filled below. -/
theorem fill_node {k : Kind} (hk : ∀ name, k ≠ .reference name) (s : Span) (cs : List Tree) :
    fill holes (.node k s cs) = bare k (cs.map (fill holes)) := by
  rw [fill, Tree.fold_node]
  cases k with
  | reference name => exact absurd rfl (hk name)
  | _ => exact congrArg (bare _) List.map_map

theorem fill_bareNode {k : Kind} (hk : ∀ name, k ≠ .reference name) (cs : List Tree) :
    fill holes (bare k cs) = bare k (cs.map (fill holes)) := fill_node hk _ cs

/-- A name that is a hole gives way to what fills it. -/
theorem fill_reference (name : String) (s : Span) (cs : List Tree) :
    fill holes (.node (.reference name) s cs) = (holes.get? name).getD (referenceNode name) := by
  rw [fill, Tree.fold_node]
  rfl

/-- Filling the holes of a tree forgets its spans first. -/
theorem fill_bare (t : Tree) : fill holes t.bare = fill holes t := by
  induction t with
  | node k s cs ih =>
    rw [Tree.bare_node]
    by_cases h : ∃ name, k = .reference name
    · obtain ⟨name, rfl⟩ := h
      rw [fill_reference, fill_reference]
    · have hk : ∀ name, k ≠ .reference name := fun name hname => h ⟨name, hname⟩
      rw [fill_node hk, fill_node hk, List.map_map]
      exact congrArg (bare k) (List.map_congr_left ih)

theorem fill_referenceNode_eq (h : holes.get? name = none) :
    fill holes (referenceNode name) = referenceNode name := by
  rw [referenceNode, bare, fill_reference, h]
  rfl

/-- There are no other holes than these two. -/
theorem get?_eq_none (hhandler : name ≠ handlerHole) (hbody : name ≠ bodyHole) :
    holes.get? name = none := by
  rw [Holes.get?, if_neg hhandler, if_neg hbody]

theorem fill_propertyNode (key value : Tree) :
    fill holes (propertyNode key value) = propertyNode (fill holes key) (fill holes value) :=
  fill_node (by nofun) _ _

theorem fill_callNode (callee : Tree) (arguments : List Tree) :
    fill holes (callNode callee arguments) =
      callNode (fill holes callee) (arguments.map (fill holes)) := fill_node (by nofun) _ _

theorem fill_stringNode (s : String) : fill holes (stringNode s) = stringNode s := fill_node (by nofun) _ _

/-- No hole stands in a dotted name but as its variable. -/
theorem fill_memberTree (object : Tree) (members : List String) :
    fill holes (memberTree object members) = pathNode (fill holes object) members := by
  induction members generalizing object with
  | nil => rfl
  | cons m members ih =>
    have hmember : fill holes (.node (.member m false) .none [object]) =
        bare (.member m false) [fill holes object] := fill_node (by nofun) _ _
    rw [memberTree, List.foldl_cons, ← memberTree, ih, hmember]
    rfl

/-- What leads a dotted name is what its members are attached to. -/
theorem anchorLeading_pathNode (s : Span) (object : Tree) (members : List String) :
    anchorLeading s (pathNode object members) = pathNode (anchorLeading s object) members := by
  induction members generalizing object with
  | nil => rfl
  | cons m members ih =>
    have hmember : anchorLeading s (bare (.member m false) [object]) =
        bare (.member m false) [anchorLeading s object] := by
      rw [bare, anchorLeading, Tree.fold_node]
      rfl
    rw [pathNode, List.foldl_cons, ← pathNode, ih, hmember]
    rfl

/-- A path begins where its first name does. -/
theorem anchorLeading_referenceNode (s : Span) (name : String) :
    anchorLeading s (referenceNode name) = .node (.reference name) s [] := by
  rw [referenceNode, bare, anchorLeading, Tree.fold_node]

/-! ### Counting names -/

/-- How often a tree refers to a name. -/
def occurrences (name : String) (t : Tree) : Nat :=
  t.subtrees.countP fun u => u.kind == .reference name

/-- How often a name stands in a tree, counted node by node. -/
theorem occurrences_node (k : Kind) (s : Span) (cs : List Tree) :
    occurrences name (.node k s cs) =
      (if k == .reference name then 1 else 0) + (cs.map (occurrences name)).sum :=
  Tree.countP_subtrees ..

/-- Spans do not matter to what a tree refers to. -/
theorem occurrences_bare (t : Tree) : occurrences name t.bare = occurrences name t := by
  have hkind : ∀ u : Tree, u.bare.kind = u.kind := by
    rintro ⟨k, s, cs⟩
    rw [Tree.bare_node]
    rfl
  rw [occurrences, Tree.subtrees_bare, List.countP_map]
  exact List.countP_congr fun u _ => by rw [Function.comp_apply, hkind]

/-- A node that is no reference refers to what its children refer to. -/
theorem occurrences_bareNode {k : Kind} (hk : ∀ name, k ≠ .reference name) (cs : List Tree) :
    occurrences name (bare k cs) = (cs.map (occurrences name)).sum := by
  rw [bare, occurrences_node, beq_false_of_ne (hk name)]
  exact Nat.zero_add _

theorem occurrences_referenceNode (other : String) :
    occurrences name (referenceNode other) = if other = name then 1 else 0 := by
  rw [referenceNode, bare, occurrences_node]
  simp

theorem occurrences_propertyNode (key value : Tree) :
    occurrences name (propertyNode key value) = occurrences name key + occurrences name value := by
  rw [propertyNode, occurrences_bareNode (by simp)]
  simp

theorem occurrences_callNode (callee : Tree) (arguments : List Tree) :
    occurrences name (callNode callee arguments) =
      occurrences name callee + (arguments.map (occurrences name)).sum :=
  occurrences_bareNode (by nofun) _

theorem occurrences_stringNode (s : String) : occurrences name (stringNode s) = 0 :=
  occurrences_bareNode (by nofun) _

/-- The members of a path are no names of their own. -/
theorem occurrences_pathNode (object : Tree) (members : List String) :
    occurrences name (pathNode object members) = occurrences name object := by
  induction members generalizing object with
  | nil => rfl
  | cons m members ih =>
    rw [pathNode, List.foldl_cons, ← pathNode, ih, occurrences_bareNode (by simp)]
    simp

/-! ### Dotted names -/

/-- An identifier is a name that the reader takes as one. -/
theorem isName_of_isIdentifier {cs : List Char} (h : isIdentifier cs) :
    IsName (String.ofList cs) := by
  cases cs with
  | nil => cases h
  | cons c cs =>
    obtain ⟨hc, hcs⟩ := Bool.and_eq_true_iff.1 h
    exact ⟨c, cs, String.toList_ofList, hc, List.all_eq_true.1 hcs⟩

theorem intercalate_point (cs : List Char) (css : List (List Char)) :
    ['.'].intercalate (cs :: css) = cs ++ css.flatMap ('.' :: ·) := by
  induction css generalizing cs with
  | nil => simp [List.intercalate]
  | cons ds css ih =>
    have hhead : ['.'].intercalate (cs :: ds :: css) = cs ++ '.' :: ['.'].intercalate (ds :: css) := by
      simp [List.intercalate]
    rw [hhead, ih]
    rfl

/-- What a dotted name is made of. -/
structure IsPath (name first : String) (members : List String) : Prop where
  text : name.toList = pathText first members
  leading : IsName first
  others : ∀ m ∈ members, IsName m
  keyword : isKeyword first = false
  handler : first ≠ handlerHole
  body : first ≠ bodyHole

/-- The names of a configuration that can be split at their points are paths. -/
theorem isPath_of_dottedPath? {name first : String} {members : List String}
    (h : dottedPath? name = some (first, members)) : IsPath name first members := by
  unfold dottedPath? at h
  simp only at h
  split at h
  · cases h
  · next hall =>
    split at h
    · next head rest heq =>
      split at h
      · cases h
      · next hfirst =>
        obtain ⟨rfl, rfl⟩ := Prod.mk.inj (Option.some.inj h)
        obtain ⟨cs, css, hparts, rfl, rfl⟩ := List.map_eq_cons_iff.1 heq
        simp only [hparts, List.all_cons, Bool.not_eq_true', Bool.not_eq_false,
          Bool.and_eq_true, List.all_eq_true] at hall
        simp only [Bool.or_eq_true, beq_iff_eq, not_or, Bool.not_eq_true] at hfirst
        obtain ⟨⟨hkeyword, hhandler⟩, hbody⟩ := hfirst
        refine ⟨?_, isName_of_isIdentifier hall.1, ?_, hkeyword, hhandler, hbody⟩
        · have hjoin : ['.'].intercalate (name.toList.splitOn '.') = name.toList :=
            List.intercalate_splitOn '.'
          rw [hparts, intercalate_point] at hjoin
          rw [pathText, ← hjoin, String.toList_ofList, List.flatMap_map]
          simp
        · intro m hm
          obtain ⟨ds, hds, rfl⟩ := List.mem_map.1 hm
          exact isName_of_isIdentifier (hall.2 ds hds)
    · cases h

/-! ### Calls from texts -/

/-- The text of a call of the platform. -/
def callText (name : String) (argumentsText : List Char) : List Char :=
  name.toList ++ '(' :: argumentsText ++ [')']

/-- A dotted name with phrases for arguments is read as a call of its path, and is that call with
the holes of the arguments filled. -/
theorem parseExpression_callText {first : String} {members : List String}
    (h : dottedPath? name = some (first, members)) {css : List (List Char)} {ts : List Tree}
    (hphrases : List.Forall₂ Phrase css ts) (c : Call) (holes : Holes) :
    ∃ u, parseExpression (callText name ([',', ' '].intercalate css)) = .ok u ∧
      u.bare = callNode (pathNode (referenceNode first) members) ts ∧
      anchor c (fill holes u) = platformNode first members c (ts.map (fill holes)) := by
  have hpath := isPath_of_dottedPath? h
  have htext : callText name ([',', ' '].intercalate css) =
      pathText first members ++ '(' :: ([',', ' '].intercalate css ++ [')']) := by
    rw [callText, hpath.text, List.append_assoc]
    rfl
  have hphrase := Phrase.call hpath.leading hpath.keyword hpath.others separates_comma_space hphrases
  rw [← htext] at hphrase
  obtain ⟨u, hu, hbare⟩ := hphrase.parses
  refine ⟨u, hu, hbare, ?_⟩
  have hfill : fill holes u = callNode (pathNode (referenceNode first) members)
      (ts.map (fill holes)) := by
    have hcall : fill holes (callNode (memberTree (referenceNode first) members) ts) =
        callNode (pathNode (referenceNode first) members) (ts.map (fill holes)) := by
      rw [fill_callNode, fill_memberTree,
        fill_referenceNode_eq (get?_eq_none hpath.handler hpath.body)]
    rw [← fill_bare, hbare]
    exact hcall
  rw [hfill, callNode, bare, anchor, anchorLeading_pathNode, anchorLeading_referenceNode,
    platformNode]

end CallBridge.Replacement
