import CallBridge.Proofs.Api.Body
import CallBridge.Proofs.Api.Values
import CallBridge.Proofs.Number.Exact
import CallBridge.Proofs.Replacement.Template

/-!
# Texts of parameters

Keys, literals and the body of a request, each as the text of a replacement has it and as the node
that is built. Main statements: the text of parameters is read as the object literal of their nodes
(`phrase_params`), the body goes where its hole stands and nothing else changes (`fill_params`), the
hole stands there as often as a body is carried (`occurrences_params`), and a literal says which
value it was made of (`isLiteral_literalNode`).
-/

namespace CallBridge.Replacement

open Json Number Pattern Script CallBridge.Text

variable {bound : Nat} {v : Value} {holes : Holes} {name key : String}

/-! ### Literals -/

theorem literalItems_eq_map (vs : List Value) : literalItems vs = vs.map literalNode := by
  induction vs with
  | nil => rfl
  | cons v vs ih => rw [literalItems, ih, List.map_cons]

theorem writeItems_eq_map (vs : List Value) : writeItems vs = vs.map Value.write := by
  induction vs with
  | nil => rfl
  | cons v vs ih => rw [writeItems, ih, List.map_cons]

/-- A relation between the images of each member of a list is one between the images of the list. -/
theorem forall₂_map {α β γ : Type} {p : β → γ → Prop} {f : α → β} {g : α → γ} {as : List α}
    (h : ∀ a ∈ as, p (f a) (g a)) : List.Forall₂ p (as.map f) (as.map g) := by
  rw [List.forall₂_map_left_iff, List.forall₂_map_right_iff]
  exact List.forall₂_same.2 h

theorem length_digitsOf_le {n : Nat} (hn : n ≤ queryBound) : (digitsOf n).length ≤ 400 := by
  have hbound : queryBound < 10 ^ 63 := Nat.pow_lt_pow_left (by decide) (by decide)
  have hdigits : (digitsOf n).length ≤ 63 :=
    (Nat.length_toDigits_le_iff (by decide) (by decide)).2 (Nat.lt_of_le_of_lt hn hbound)
  exact Nat.le_trans hdigits (by decide)

/-- The text of a value of a query is read as its literal. -/
theorem phrase_literalNode (h : IsQueryValue queryBound v) : Phrase v.write (literalNode v) := by
  induction h with
  | bool b =>
    have hname : ∀ w ∈ ["true", "false"], IsName w := by
      intro w hw
      simp only [List.mem_cons, List.not_mem_nil, or_false] at hw
      rcases hw with rfl | rfl
      · exact ⟨'t', "rue".toList, rfl, by decide, by decide⟩
      · exact ⟨'f', "alse".toList, rfl, by decide, by decide⟩
    cases b with
    | true => exact .leaf (hname _ (by simp)).taken .true
    | false => exact .leaf (hname _ (by simp)).taken .false
  | string s => exact phrase_quoteJson s
  | @integer n hn =>
    have hlength := length_digitsOf_le hn
    by_cases hneg : n < 0
    · have htext : (Value.number (.int n)).write = '-' :: digitsOf n.natAbs := if_pos hneg
      have hnode : literalNode (.number (.int n)) =
          bare (.unary .negate) [bare (.number (.ofNat n.natAbs)) []] := by
        rw [literalNode, numberNode, decide_eq_true hneg]
        rfl
      rw [htext, hnode]
      exact phrase_minus_digitsOf hlength
    · have htext : (Value.number (.int n)).write = digitsOf n.natAbs := if_neg hneg
      have hnode : literalNode (.number (.int n)) = bare (.number (.ofNat n.natAbs)) [] := by
        rw [literalNode, numberNode, decide_eq_false hneg]
        rfl
      rw [htext, hnode]
      exact phrase_digitsOf hlength
  | array _ ih =>
    rw [Value.write, literalNode, literalItems_eq_map, writeItems_eq_map]
    exact .array (forall₂_map ih)

/-- A quoted text is read as the string of its characters, whatever they are. -/
theorem phrase_stringNode (s : String) : Phrase (quoteJson s.toList) (stringNode s) :=
  phrase_quoteJson s

/-- No hole stands in a literal. -/
theorem fill_literalNode (h : IsQueryValue bound v) : fill holes (literalNode v) = literalNode v := by
  have hnumber : ∀ x, fill holes (bare (.number x) []) = bare (.number x) [] :=
    fun _ => fill_node (by nofun) _ _
  induction h with
  | bool b => exact fill_node (by nofun) _ _
  | string s => exact fill_stringNode s
  | @integer n _ =>
    rw [literalNode, numberNode]
    split
    · rw [fill_bareNode (by nofun), List.map_singleton, hnumber]
    · exact hnumber _
  | array _ ih =>
    rw [literalNode, literalItems_eq_map, fill_bareNode (by nofun), List.map_map]
    exact congrArg (bare .array) (List.map_congr_left ih)

/-- A literal that says exactly which value it was made of. -/
inductive IsLiteral : Value → Tree → Prop where
  | bool (b : Bool) : IsLiteral (.bool b) (bare (.boolean b) [])
  | string (s : String) : IsLiteral (.string s) (stringNode s)
  | natural {n : Nat} {x : Magnitude} : x.toNat? = some n →
      IsLiteral (.number (.int n)) (bare (.number x) [])
  | negative {n : Nat} {x : Magnitude} : x.toNat? = some n →
      IsLiteral (.number (.int (-(n : Int)))) (bare (.unary .negate) [bare (.number x) []])
  | array {vs : List Value} {ts : List Tree} : List.Forall₂ IsLiteral vs ts →
      IsLiteral (.array vs) (bare .array ts)

/-- Integers up to `2 ^ 53` in magnitude are kept as they are, wherever they stand in a value. -/
theorem isLiteral_literalNode (h : IsQueryValue (Nat.pow 2 53) v) : IsLiteral v (literalNode v) := by
  induction h with
  | bool b => exact .bool b
  | string s => exact .string s
  | @integer n hn =>
    have hvalue : (Magnitude.ofNat n.natAbs).toNat? = some n.natAbs := Magnitude.toNat?_ofNat hn
    rw [literalNode, numberNode]
    by_cases hneg : n < 0
    · have hsign : n = -(n.natAbs : Int) := by omega
      rw [decide_eq_true hneg]
      have hliteral := IsLiteral.negative hvalue
      rwa [← hsign] at hliteral
    · have hsign : n = (n.natAbs : Int) := by omega
      rw [decide_eq_false hneg]
      have hliteral := IsLiteral.natural hvalue
      rwa [← hsign] at hliteral
  | array _ ih =>
    rw [literalNode, literalItems_eq_map]
    refine .array ?_
    rw [List.forall₂_map_right_iff]
    exact List.forall₂_same.2 ih

/-! ### Keys -/

theorem isIdentifierStart_of_isAlpha {c : Char} (h : c.isAlpha) : isIdentifierStart c := by
  have hletters : ∀ k < 26, isIdentifierStart (Char.ofNat (65 + k)) ∧
      isIdentifierStart (Char.ofNat (97 + k)) := by decide
  have hbounds : (65 ≤ c.toNat ∧ c.toNat ≤ 90) ∨ (97 ≤ c.toNat ∧ c.toNat ≤ 122) := by
    have hcases : (decide (65 ≤ c.val ∧ c.val ≤ 90) ||
        decide (97 ≤ c.val) && decide (c.val ≤ 122)) = true := h
    simpa [UInt32.le_iff_toNat_le] using hcases
  rcases hbounds with ⟨hlow, hhigh⟩ | ⟨hlow, hhigh⟩
  · obtain ⟨k, hk⟩ := Nat.exists_eq_add_of_le hlow
    have hletter := (hletters k (by omega)).1
    rwa [← hk, Char.ofNat_toNat] at hletter
  · obtain ⟨k, hk⟩ := Nat.exists_eq_add_of_le hlow
    have hletter := (hletters k (by omega)).2
    rwa [← hk, Char.ofNat_toNat] at hletter

/-- A key that may stand without quotes is a word. -/
theorem isName_of_isPlainKey (h : isPlainKey key) : IsName key := by
  have hstart : ∀ c : Char, (c.isAlpha || c == '_' || c == '$') = true → isIdentifierStart c := by
    intro c hc
    simp only [Bool.or_eq_true, beq_iff_eq] at hc
    rcases hc with (hc | rfl) | rfl
    · exact isIdentifierStart_of_isAlpha hc
    · decide
    · decide
  unfold isPlainKey at h
  simp only at h
  split at h
  · next c cs hkey =>
    obtain ⟨hc, hcs⟩ := Bool.and_eq_true_iff.1 h
    refine ⟨c, cs, hkey, hstart c hc, fun d hd => ?_⟩
    rcases Bool.or_eq_true_iff.1 (List.all_eq_true.1 hcs d hd) with hd | hd
    · exact isIdentifierPart_of_isIdentifierStart (hstart d hd)
    · exact isIdentifierPart_of_isDigit hd
  · cases h

/-- The text of a key in front of a phrase is read as a property of that key. -/
theorem item_property {cs : List Char} {t : Tree} (key : String) (h : Phrase cs t) :
    Item ((if isPlainKey key then key.toList else quoteJson key.toList) ++ ':' :: ' ' :: cs)
      (propertyNode (keyNode key) t) := by
  rw [keyNode]
  split
  · next hplain => exact .property (isName_of_isPlainKey hplain).taken (.word key) h
  · have htaken := taken_quoteJson key.toList
    rw [String.ofList_toList] at htaken
    exact .property htaken (.string ..) h

theorem fill_keyNode (key : String) : fill holes (keyNode key) = keyNode key := by
  unfold keyNode
  split
  · exact fill_node (by nofun) _ _
  · exact fill_stringNode key

/-! ### Parameters -/

/-- The text of a body is read as its node, a hole in place of the body. -/
theorem phrase_bodyNode (spec : BodySpec) : Phrase (bodyText spec) (bodyNode spec none) := by
  have hbody : IsName bodyHole := ⟨'_', "_ktn_body".toList, rfl, by decide, by decide⟩
  have hhole : Phrase bodyHole.toList (referenceNode bodyHole) := phrase_name hbody (by decide)
  cases spec with
  | absent => exact hhole
  | stringified => exact hhole
  | raw =>
    have hjson : IsName "JSON" := ⟨'J', "SON".toList, rfl, by decide, by decide⟩
    have hparse : ∀ m ∈ ["parse"], IsName m :=
      List.forall_mem_singleton.2 ⟨'p', "arse".toList, rfl, by decide, by decide⟩
    have hcall := Phrase.call hjson (by decide) hparse separates_comma (.cons hhole .nil)
    have htext : bodyText .raw = pathText "JSON" ["parse"] ++
        '(' :: ([','].intercalate [bodyHole.toList] ++ [')']) := by decide
    rw [htext]
    exact hcall

theorem fill_bodyNode (spec : BodySpec) (body : Option Tree) :
    fill ⟨none, body⟩ (bodyNode spec none) = bodyNode spec body := by
  have hhole : fill ⟨none, body⟩ (referenceNode bodyHole) = body.getD (referenceNode bodyHole) :=
    fill_reference bodyHole _ _
  have hjson : fill ⟨none, body⟩ (bare (.member "parse" false) [referenceNode "JSON"]) =
      bare (.member "parse" false) [referenceNode "JSON"] := by
    rw [fill_bareNode (by nofun), List.map_singleton,
      fill_referenceNode_eq (get?_eq_none (by decide) (by decide))]
  cases spec with
  | absent => exact hhole
  | stringified => exact hhole
  | raw =>
    rw [bodyNode, bodyNode, fill_callNode, List.map_singleton, hjson]
    exact congrArg (fun t => callNode _ [t]) hhole

/-- The text of a parameter is read as its node. -/
theorem item_paramNode (spec : BodySpec) {e : String × Param}
    (h : ∀ v, e.2 = .json v → IsQueryValue queryBound v) :
    Item (paramText (bodyText spec) e) (paramNode (bodyNode spec none) e) := by
  obtain ⟨key, p⟩ := e
  cases p with
  | json v => exact item_property key (phrase_literalNode (h v rfl))
  | body => exact item_property key (phrase_bodyNode spec)
  | spread => exact .spread (phrase_bodyNode spec)

/-- Filling the hole of a parameter puts the body in its place. -/
theorem fill_paramNode (spec : BodySpec) (body : Option Tree) {e : String × Param}
    (h : ∀ v, e.2 = .json v → IsQueryValue queryBound v) :
    fill ⟨none, body⟩ (paramNode (bodyNode spec none) e) = paramNode (bodyNode spec body) e := by
  obtain ⟨key, p⟩ := e
  cases p with
  | json v => rw [paramNode, fill_propertyNode, fill_keyNode, fill_literalNode (h v rfl), paramNode]
  | body => rw [paramNode, fill_propertyNode, fill_keyNode, fill_bodyNode, paramNode]
  | spread =>
    rw [paramNode, fill_bareNode (by simp), List.map_singleton, fill_bodyNode, paramNode]

/-- The text of parameters is read as the object literal of their nodes. -/
theorem phrase_params (spec : BodySpec) {params : List (String × Param)}
    (h : ∀ e ∈ params, ∀ v, e.2 = .json v → IsQueryValue queryBound v) :
    Phrase (paramsText (bodyText spec) params)
      (bare .object (params.map (paramNode (bodyNode spec none)))) :=
  .object (forall₂_map fun e he => item_paramNode spec (h e he))

theorem fill_params (spec : BodySpec) (body : Option Tree) {params : List (String × Param)}
    (h : ∀ e ∈ params, ∀ v, e.2 = .json v → IsQueryValue queryBound v) :
    fill ⟨none, body⟩ (bare .object (params.map (paramNode (bodyNode spec none)))) =
      bare .object (params.map (paramNode (bodyNode spec body))) := by
  rw [fill_bareNode (by nofun), List.map_map]
  exact congrArg (bare .object) (List.map_congr_left fun e he => fill_paramNode spec body (h e he))

/-! ### How often a body is carried -/

theorem occurrences_literalNode (h : IsQueryValue bound v) : occurrences name (literalNode v) = 0 := by
  have hnumber : ∀ x, occurrences name (bare (.number x) []) = 0 :=
    fun _ => occurrences_bareNode (by nofun) _
  induction h with
  | bool b => exact occurrences_bareNode (by nofun) _
  | string s => exact occurrences_stringNode s
  | @integer n _ =>
    rw [literalNode, numberNode]
    split
    · rw [occurrences_bareNode (by nofun), List.map_singleton, hnumber]
      rfl
    · exact hnumber _
  | @array items _ ih =>
    have hzero : items.map (occurrences name ∘ literalNode) = items.map fun _ => 0 :=
      List.map_congr_left ih
    rw [literalNode, literalItems_eq_map, occurrences_bareNode (by nofun), List.map_map, hzero]
    simp

theorem occurrences_keyNode (key : String) : occurrences name (keyNode key) = 0 := by
  unfold keyNode
  split
  · exact occurrences_bareNode (by nofun) _
  · exact occurrences_stringNode key

theorem occurrences_bodyNode (spec : BodySpec) : occurrences bodyHole (bodyNode spec none) = 1 := by
  cases spec <;> decide

theorem occurrences_paramNode (spec : BodySpec) {e : String × Param}
    (h : ∀ v, e.2 = .json v → IsQueryValue queryBound v) :
    occurrences bodyHole (paramNode (bodyNode spec none) e) = if carriesBody e then 1 else 0 := by
  obtain ⟨key, p⟩ := e
  cases p with
  | json v =>
    rw [paramNode, occurrences_propertyNode, occurrences_keyNode, occurrences_literalNode (h v rfl)]
    rfl
  | body =>
    rw [paramNode, occurrences_propertyNode, occurrences_keyNode, occurrences_bodyNode]
    rfl
  | spread =>
    rw [paramNode, occurrences_bareNode (by simp), List.map_singleton, occurrences_bodyNode]
    rfl

/-- The hole stands in the parameters as often as they carry a body. -/
theorem occurrences_params (spec : BodySpec) {params : List (String × Param)}
    (h : ∀ e ∈ params, ∀ v, e.2 = .json v → IsQueryValue queryBound v) :
    occurrences bodyHole (bare .object (params.map (paramNode (bodyNode spec none)))) =
      params.countP carriesBody := by
  rw [occurrences_bareNode (by nofun), List.map_map]
  induction params with
  | nil => rfl
  | cons e rest ih =>
    obtain ⟨he, hrest⟩ := List.forall_mem_cons.1 h
    rw [List.map_cons, List.sum_cons, ih hrest, List.countP_cons, Nat.add_comm,
      Function.comp_apply, occurrences_paramNode spec he]

end CallBridge.Replacement
