import CallBridge.Proofs.Collection.Ordered
import CallBridge.Proofs.Collection.Span
import CallBridge.Proofs.Number.Digits
import CallBridge.Proofs.Url.Decoding
import Mathlib.Algebra.Group.Int.Defs
import Mathlib.Algebra.Group.Nat.Defs
import Mathlib.Data.List.Forall2

/-!
# Query strings of typed values

A list of parameters is written as a query: integers, truth values and texts form-encoded, the items
of a list joined by commas, keys and values by equals signs, pairs by ampersands (`EncodesPair`). Each
layer of the reader cuts at its own separators, which no encoded text holds. Main statement:
`parameters_of_encodesPair`, the parameters that are read are the ones that were written.
-/

namespace CallBridge.Url

open CallBridge.Collection CallBridge.Json CallBridge.Number CallBridge.Text

/-! ### What is written -/

/-- A single value and its text. A text stands for itself where it does not look like a value of
another type. -/
inductive ScalarText : Value → List Char → Prop where
  | int {n : Int} (hlow : -2 ^ 63 ≤ n) (hhigh : n < 2 ^ 63) : ScalarText (.int n) (toString n).toList
  | bool (b : Bool) : ScalarText (.bool b) (toString b).toList
  | string {s : String} (h : coerceScalar s.toList = .string s) : ScalarText (.string s) s.toList

/-- A text that neither begins nor ends with white space. -/
def Unpadded (cs : List Char) : Prop := Stops isBlank cs ∧ Stops isBlank cs.reverse

/-- An item of a list, form-encoded. -/
def EncodesItem (v : Value) (cs : List Char) : Prop :=
  ∃ text, ScalarText v text ∧ (∀ s, v = .string s → Unpadded s.toList) ∧ FormEncodes text cs

/-- The value of a parameter: a single one, or a list of at least two items joined by commas. -/
inductive EncodesValue : Value → List Char → Prop where
  | scalar {v : Value} {text cs : List Char} (htext : ScalarText v text) (hcs : FormEncodes text cs) :
    EncodesValue v cs
  | list {vs : List Value} {items : List (List Char)} (htwo : 2 ≤ vs.length)
    (hitems : List.Forall₂ EncodesItem vs items) :
    EncodesValue (.array vs) ([','].intercalate items)

/-- A parameter: key and value with an equals sign between them. -/
def EncodesPair (entry : String × Value) (pair : List Char) : Prop :=
  ∃ key value, FormEncodes entry.1.toList key ∧ EncodesValue entry.2 value ∧
    pair = key ++ '=' :: value

/-! ### Single values -/

variable {n : Nat} {v : Value} {text cs : List Char}

theorem readDigits?_digitsOf (n : Nat) : readDigits? (digitsOf n) = some n := by
  have hdigits : (digitsOf n).all Char.isDigit = true :=
    List.all_eq_true.2 fun c => isDigit_of_mem_digitsOf
  rw [readDigits?, foldl_digitsOf, hdigits, List.isEmpty_eq_false_iff.2 (digitsOf_ne_nil n)]
  rfl

/-- The digits of a number do not begin with a sign. -/
theorem digitsOf_eq_cons (n : Nat) : ∃ c ds, digitsOf n = c :: ds ∧ c ≠ '-' ∧ c ≠ '+' := by
  obtain ⟨c, ds, hds⟩ := List.exists_cons_of_ne_nil (digitsOf_ne_nil n)
  have hc : c.isDigit := isDigit_of_mem_digitsOf (hds ▸ List.mem_cons_self ..)
  refine ⟨c, ds, hds, ?_, ?_⟩
  · exact forall_isDigit (p := fun c => c ≠ '-') (by decide) hc
  · exact forall_isDigit (p := fun c => c ≠ '+') (by decide) hc

theorem readInteger?_digitsOf (h : n < 2 ^ 63) : readInteger? (digitsOf n) = some (n : Int) := by
  have hdigits := readDigits?_digitsOf n
  obtain ⟨c, ds, hds, hminus, hplus⟩ := digitsOf_eq_cons n
  rw [hds] at hdigits ⊢
  rw [readInteger?.eq_3 _ (fun _ heq => hminus (List.cons.inj heq).1)
    (fun _ heq => hplus (List.cons.inj heq).1), hdigits]
  exact if_pos h

theorem readInteger?_minus (h : n ≤ 2 ^ 63) :
    readInteger? ('-' :: digitsOf n) = some (-(n : Int)) := by
  rw [readInteger?, readDigits?_digitsOf]
  exact if_pos h

/-- A number begins with a zero only where it is zero, and then it has one digit. -/
theorem keepsText_digitsOf (n : Nat) : keepsText (digitsOf n) = false := by
  rcases Nat.eq_zero_or_pos n with rfl | hn
  · rfl
  · have hhead := digitsOf_head hn
    obtain ⟨c, ds, hds, -, hplus⟩ := digitsOf_eq_cons n
    rw [hds] at hhead ⊢
    have hzero : c ≠ '0' := hhead c rfl
    exact keepsText.eq_3 _ (fun _ _ heq => hzero (List.cons.inj heq).1)
      (fun _ heq => hplus (List.cons.inj heq).1)

theorem toString_toList (n : Int) : (toString n).toList =
    if n < 0 then '-' :: digitsOf n.natAbs else digitsOf n.natAbs := by
  cases n with
  | ofNat n => simp [toString, Int.repr, Nat.repr, digitsOf]
  | negSucc n => simp [toString, Int.repr, Nat.repr, digitsOf]

theorem coerceScalar_int {n : Int} (hlow : -2 ^ 63 ≤ n) (hhigh : n < 2 ^ 63) :
    coerceScalar (toString n).toList = .int n := by
  rw [toString_toList]
  split
  · next hneg =>
    rw [coerceScalar, readInteger?_minus (by omega), Int.ofNat_natAbs_of_nonpos (by omega),
      Int.neg_neg]
    rfl
  · next hpos =>
    rw [coerceScalar, keepsText_digitsOf, readInteger?_digitsOf (by omega),
      Int.natAbs_of_nonneg (by omega)]
    rfl

/-- The text of a value is read as the value. -/
theorem coerceScalar_of_scalarText (h : ScalarText v text) : coerceScalar text = v := by
  cases h with
  | int hlow hhigh => exact coerceScalar_int hlow hhigh
  | bool b => cases b <;> rfl
  | string h => exact h

/-! ### Items of a list -/

theorem trimBlank_of_unpadded (h : Unpadded cs) : trimBlank cs = cs := by
  rw [trimBlank, dropWhile_of_stops h.1, dropWhile_of_stops h.2, List.reverse_reverse]

theorem unpadded_of_forall (h : ∀ c ∈ cs, isBlank c = false) : Unpadded cs :=
  ⟨fun c hc => h c (List.mem_of_mem_head? hc),
    fun c hc => h c (List.mem_reverse.1 (List.mem_of_mem_head? hc))⟩

/-- Only a text can have white space at its ends. -/
theorem unpadded_of_scalarText (h : ScalarText v text) (hs : ∀ s, v = .string s → Unpadded s.toList) :
    Unpadded text := by
  cases h with
  | @int n hlow hhigh =>
    have hdigit : ∀ c ∈ digitsOf n.natAbs, isBlank c = false := fun c hc =>
      forall_isDigit (p := fun c => isBlank c = false) (by decide) (isDigit_of_mem_digitsOf hc)
    refine unpadded_of_forall ?_
    rw [toString_toList]
    split
    · exact List.forall_mem_cons.2 ⟨rfl, hdigit⟩
    · exact hdigit
  | bool b => cases b <;> exact unpadded_of_forall (by decide)
  | string h => exact hs _ rfl

/-- An item of a list is read as the value that it was written for. -/
theorem coerceScalar_of_encodesItem (h : EncodesItem v cs) :
    coerceScalar (trimBlank (percentDecode cs)) = v := by
  obtain ⟨text, htext, hs, hcs⟩ := h
  rw [percentDecode_of_formEncodes hcs, trimBlank_of_unpadded (unpadded_of_scalarText htext hs),
    coerceScalar_of_scalarText htext]

theorem map_encodesItem {vs : List Value} {items : List (List Char)}
    (h : List.Forall₂ EncodesItem vs items) :
    items.map (fun item => coerceScalar (trimBlank (percentDecode item))) = vs := by
  induction h with
  | nil => rfl
  | cons hitem _ ih => rw [List.map_cons, coerceScalar_of_encodesItem hitem, ih]

theorem notMem_of_encodesItem (h : EncodesItem v cs) {c : Char} (hc : c ∈ separators) : c ∉ cs := by
  obtain ⟨text, -, -, hcs⟩ := h
  exact notMem_of_formEncodes hcs hc

/-! ### Separators -/

/-- Joined parts hold only what the parts hold and what joins them. -/
theorem mem_intercalate {c d : Char} : ∀ {parts : List (List Char)}, c ∈ [d].intercalate parts →
    c = d ∨ ∃ part ∈ parts, c ∈ part
  | [], h => absurd h List.not_mem_nil
  | [part], h => Or.inr ⟨part, List.mem_singleton_self part, by simpa [List.intercalate] using h⟩
  | part :: next :: rest, h => by
    have hcons : [d].intercalate (part :: next :: rest) =
        part ++ d :: [d].intercalate (next :: rest) := by simp [List.intercalate]
    rw [hcons, List.mem_append, List.mem_cons] at h
    rcases h with hpart | rfl | hlater
    · exact Or.inr ⟨part, List.mem_cons_self .., hpart⟩
    · exact Or.inl rfl
    · exact (mem_intercalate hlater).imp_right fun ⟨later, hmem, hc⟩ =>
        ⟨later, List.mem_cons_of_mem _ hmem, hc⟩

/-- What joins the parts stands between the first two of them. -/
theorem mem_intercalate_of_two {d : Char} {parts : List (List Char)} (h : 2 ≤ parts.length) :
    d ∈ [d].intercalate parts := by
  obtain ⟨first, second, rest, rfl⟩ : ∃ first second rest, parts = first :: second :: rest := by
    match parts, h with
    | first :: second :: rest, _ => exact ⟨first, second, rest, rfl⟩
  simp [List.intercalate]

/-- What no pair of related items allows stands nowhere on the right. -/
theorem forall_right {α β : Type} {r : α → β → Prop} {p : β → Prop} {as : List α} {bs : List β}
    (h : List.Forall₂ r as bs) (hp : ∀ a b, r a b → p b) : ∀ b ∈ bs, p b := by
  induction h with
  | nil => exact fun b hb => absurd hb List.not_mem_nil
  | cons hr _ ih => exact List.forall_mem_cons.2 ⟨hp _ _ hr, ih⟩

/-- A separator in a value is one of the commas of a list. -/
theorem notMem_of_encodesValue (h : EncodesValue v cs) {c : Char} (hc : c ∈ separators)
    (hcomma : c ≠ ',') : c ∉ cs := by
  cases h with
  | scalar _ hcs => exact notMem_of_formEncodes hcs hc
  | list _ hitems =>
    intro hmem
    rcases mem_intercalate hmem with rfl | ⟨item, hitem, hmem⟩
    · exact hcomma rfl
    · exact forall_right hitems (fun _ _ h => notMem_of_encodesItem h hc) item hitem hmem

/-- The value of a parameter is read as it was written: a list where there are commas, a single
value where there are none. -/
theorem coerceValue_of_encodesValue (h : EncodesValue v cs) : coerceValue cs = v := by
  cases h with
  | scalar htext hcs =>
    have hcomma : cs.contains ',' = false := by
      simpa using notMem_of_formEncodes hcs (c := ',') (by decide)
    rw [coerceValue, hcomma, percentDecode_of_formEncodes hcs, coerceScalar_of_scalarText htext]
    rfl
  | @list vs items htwo hitems =>
    have htwo' : 2 ≤ items.length := hitems.length_eq ▸ htwo
    have hne : items ≠ [] := List.ne_nil_of_length_pos (by omega)
    have hcomma : ([','].intercalate items).contains ',' = true := by
      simpa using mem_intercalate_of_two htwo'
    rw [coerceValue, hcomma, if_pos rfl, List.splitOn_intercalate ',' _ hne, map_encodesItem hitems]
    exact forall_right hitems fun _ _ h => notMem_of_encodesItem h (by decide)

/-! ### Pairs -/

variable {entry : String × Value} {pair : List Char}

theorem readPair_of_encodesPair (h : EncodesPair entry pair) : readPair pair = entry := by
  obtain ⟨key, value, hkey, hvalue, rfl⟩ := h
  have hplain : ∀ c ∈ key, (c != '=') = true := fun c hc =>
    bne_iff_ne.2 fun heq => notMem_of_formEncodes hkey (c := '=') (by decide) (heq ▸ hc)
  rw [readPair, span_append_stops hplain (stops_cons.2 rfl)]
  simp only [List.drop_succ_cons, List.drop_zero, percentDecode_of_formEncodes hkey,
    String.ofList_toList, coerceValue_of_encodesValue hvalue]

theorem notMem_of_encodesPair (h : EncodesPair entry pair) {c : Char} (hc : c ∈ ['&', '?', '#']) :
    c ∉ pair := by
  obtain ⟨key, value, hkey, hvalue, rfl⟩ := h
  have hother : ∀ c ∈ ['&', '?', '#'], c ∈ separators ∧ c ≠ ',' ∧ c ≠ '=' := by
    simp [separators]
  obtain ⟨hseparator, hcomma, hequals⟩ := hother c hc
  rw [List.mem_append, List.mem_cons, not_or, not_or]
  exact ⟨notMem_of_formEncodes hkey hseparator, hequals,
    notMem_of_encodesValue hvalue hseparator hcomma⟩

theorem isEmpty_of_encodesPair (h : EncodesPair entry pair) : pair.isEmpty = false := by
  obtain ⟨key, value, -, -, rfl⟩ := h
  simp

/-! ### Parameters -/

variable {entries : List (String × Value)} {pairs : List (List Char)}

theorem map_readPair (h : List.Forall₂ EncodesPair entries pairs) : pairs.map readPair = entries := by
  induction h with
  | nil => rfl
  | cons hpair _ ih => rw [List.map_cons, readPair_of_encodesPair hpair, ih]

/-- The query of a URL stands between its first question mark and its fragment. -/
theorem query?_append {path query fragment : List Char} (hpath : '?' ∉ path ∧ '#' ∉ path)
    (hquery : '#' ∉ query) (hfragment : Stops (· != '#') fragment) :
    query? (path ++ '?' :: query ++ fragment) = if query = [] then none else some query := by
  have hhead : ∀ c ∈ path ++ '?' :: query, (c != '#') = true := by
    intro c hc
    refine bne_iff_ne.2 ?_
    rintro rfl
    rcases List.mem_append.1 hc with hc | hc
    · exact hpath.2 hc
    · exact hquery ((List.mem_cons.1 hc).resolve_left (by decide))
  have hbefore : ∀ c ∈ path, (c != '?') = true :=
    fun c hc => bne_iff_ne.2 fun heq => hpath.1 (heq ▸ hc)
  rw [query?, takeWhile_append_stops hhead hfragment,
    dropWhile_append_stops hbefore (stops_cons.2 rfl)]
  cases query <;> rfl

theorem splitOn_encodesPair (h : List.Forall₂ EncodesPair entries pairs) (hne : pairs ≠ []) :
    (['&'].intercalate pairs).splitOn '&' = pairs :=
  List.splitOn_intercalate '&' (forall_right h fun _ _ h => notMem_of_encodesPair h (by decide)) hne

/-- A query with parameters is not empty. -/
theorem intercalate_ne_nil (h : List.Forall₂ EncodesPair entries pairs) (hne : pairs ≠ []) :
    ['&'].intercalate pairs ≠ [] := by
  intro hnil
  have hsplit := splitOn_encodesPair h hne
  rw [hnil] at hsplit
  have hempty := forall_right h (fun _ _ h => isEmpty_of_encodesPair h) [] (hsplit ▸ by simp)
  exact Bool.false_ne_true hempty.symm

/-- The parameters of a URL are the ones that its query was written for, in the same order. -/
theorem parameters_of_encodesPair {path fragment : List Char} (hpath : '?' ∉ path ∧ '#' ∉ path)
    (hfragment : fragment = [] ∨ fragment.head? = some '#') (hkeys : (entries.map Prod.fst).Nodup)
    (hpairs : List.Forall₂ EncodesPair entries pairs) :
    parameters (path ++ '?' :: ['&'].intercalate pairs ++ fragment) = entries := by
  have hstops : Stops (· != '#') fragment := by
    rcases hfragment with rfl | hhead
    · exact stops_nil
    · exact fun c hc => by rw [← Option.some.inj (hhead.symm.trans hc)]; rfl
  have hhash : '#' ∉ ['&'].intercalate pairs := by
    intro hmem
    rcases mem_intercalate hmem with heq | ⟨pair, hpair, hmem⟩
    · cases heq
    · exact forall_right hpairs (fun _ _ h => notMem_of_encodesPair h (by decide)) pair hpair hmem
  rw [parameters, query?_append hpath hhash hstops]
  rcases eq_or_ne pairs [] with rfl | hne
  · cases hpairs
    rfl
  · have hkept : pairs.filter (!·.isEmpty) = pairs :=
      List.filter_eq_self.2 <| forall_right hpairs fun _ _ h => by
        rw [isEmpty_of_encodesPair h]
        rfl
    rw [if_neg (intercalate_ne_nil hpairs hne)]
    simp only [splitOn_encodesPair hpairs hne, hkept, map_readPair hpairs]
    exact Ordered.ofList_of_nodup hkeys

theorem parameters_of_encodesPair_ids :
    parameters "/k/v1/records.json?app=7&caf%C3%A9=x%3D1%2C+y&ids=-1,true,a%2Cb#top".toList =
      [("app", .int 7), ("café", .string "x=1, y"),
        ("ids", .array [.int (-1), .bool true, .string "a,b"])] := by
  have hpath : '?' ∉ "/k/v1/records.json".toList ∧ '#' ∉ "/k/v1/records.json".toList := by decide
  have hfragment : "#top".toList = [] ∨ "#top".toList.head? = some '#' := Or.inr rfl
  have happ : EncodesPair ("app", .int 7) "app=7".toList :=
    ⟨"app".toList, "7".toList, formEncodes_of_eq (by decide +kernel),
      .scalar (.int (n := 7) (by decide) (by decide)) (formEncodes_of_eq (by decide +kernel)), rfl⟩
  have hcafe : EncodesPair ("café", .string "x=1, y") "caf%C3%A9=x%3D1%2C+y".toList :=
    ⟨"caf%C3%A9".toList, "x%3D1%2C+y".toList, formEncodes_of_eq (by decide +kernel),
      .scalar (.string (s := "x=1, y") rfl) (formEncodes_of_eq (by decide +kernel)), rfl⟩
  have hminus : EncodesItem (.int (-1)) "-1".toList :=
    ⟨_, .int (n := -1) (by decide) (by decide), by rintro _ ⟨⟩, formEncodes_of_eq (by decide +kernel)⟩
  have htrue : EncodesItem (.bool true) "true".toList :=
    ⟨_, .bool true, by rintro _ ⟨⟩, formEncodes_of_eq (by decide +kernel)⟩
  have htext : EncodesItem (.string "a,b") "a%2Cb".toList :=
    ⟨_, .string (s := "a,b") rfl, by rintro _ ⟨⟩; exact unpadded_of_forall (by decide),
      formEncodes_of_eq (by decide +kernel)⟩
  have hids : EncodesPair ("ids", .array [.int (-1), .bool true, .string "a,b"])
      "ids=-1,true,a%2Cb".toList :=
    ⟨"ids".toList, "-1,true,a%2Cb".toList, formEncodes_of_eq (by decide +kernel),
      .list (by decide) (.cons hminus (.cons htrue (.cons htext .nil))), rfl⟩
  have hurl : "/k/v1/records.json?app=7&caf%C3%A9=x%3D1%2C+y&ids=-1,true,a%2Cb#top".toList =
      "/k/v1/records.json".toList ++ '?' :: ['&'].intercalate
        ["app=7".toList, "caf%C3%A9=x%3D1%2C+y".toList, "ids=-1,true,a%2Cb".toList] ++
          "#top".toList := String.toList_ofList.trans (by decide +kernel)
  rw [hurl]
  exact parameters_of_encodesPair hpath hfragment (by decide)
    (.cons happ (.cons hcafe (.cons hids .nil)))

end CallBridge.Url
