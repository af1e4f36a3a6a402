import CallBridge.Json.Printer
import CallBridge.Proofs.Number.Digits
import CallBridge.Proofs.Script.Scanning
import Mathlib.Data.List.Basic

/-!
# Literals and their lexemes

A quoted text is taken as the string it quotes, whatever its characters (`takes_quoteJson`): every
escape stands for the character it was written for, and no character of a text is half a surrogate
pair. The digits of a whole number are taken as that number (`takes_digitsOf`).
-/

namespace CallBridge.Script

open CallBridge.Text Collection Number

variable {rest : List Char}

/-! ### Strings -/

/-- A control character is spelt by four hexadecimal digits. -/
theorem readUnicode?_control {n : Nat} (hn : n < 32) (rest : List Char) :
    readUnicode? ('0' :: '0' :: hexDigit (n / 16) :: hexDigit (n % 16) :: rest) = some (n, rest) := by
  have hdigits : ∀ n < 32, ([ '0', '0', hexDigit (n / 16), hexDigit (n % 16)].all
      fun c => (hexOf? c).isSome) = true ∧
      valueIn 16 ['0', '0', hexDigit (n / 16), hexDigit (n % 16)] = n := by decide
  obtain ⟨hall, hvalue⟩ := hdigits n hn
  rw [readUnicode?, if_pos hall, hvalue]
  exact fun h => absurd h (by decide)

/-- What is scanned behind a character, with the character in front. -/
def consUnit (n : Nat) (found : Except Problem (List Nat × List Char)) :
    Except Problem (List Nat × List Char) :=
  found.map fun (ns, r) => (n :: ns, r)

theorem scanString_escape {n budget : Nat} {cs tail : List Char}
    (h : readEscape? true cs = some (.unit n, tail)) :
    scanString '"' (budget + 1) ('\\' :: cs) = consUnit n (scanString '"' budget tail) := by
  have hslash : ('\\' == '"') = false := rfl
  rw [scanString, hslash]
  simp only [h, consUnit]
  cases scanString '"' budget tail <;> rfl

theorem scanString_plain {c : Char} (hquote : c ≠ '"') (hslash : c ≠ '\\') (hfeed : c ≠ '\n')
    (hreturn : c ≠ '\r') (budget : Nat) (tail : List Char) :
    scanString '"' (budget + 1) (c :: tail) = consUnit c.toNat (scanString '"' budget tail) := by
  rw [scanString]
  simp only [beq_iff_eq, hquote, hslash, hfeed, hreturn, Bool.or_eq_true, or_self, ↓reduceIte,
    consUnit]
  cases scanString '"' budget tail <;> rfl

/-- The escape of a character is scanned as the character. -/
theorem scanString_escapeJson (c : Char) (budget : Nat) (tail : List Char) :
    scanString '"' (budget + 1) (escapeJson c ++ tail) =
      consUnit c.toNat (scanString '"' budget tail) := by
  unfold escapeJson
  split
  · next h => rw [h]; exact scanString_escape rfl
  split
  · next h => rw [h]; exact scanString_escape rfl
  split
  · next h => rw [h]; exact scanString_escape rfl
  split
  · next h => rw [h]; exact scanString_escape rfl
  split
  · next h => rw [h]; exact scanString_escape rfl
  split
  · next h => rw [h]; exact scanString_escape rfl
  split
  · next h => rw [h]; exact scanString_escape rfl
  split
  · next h =>
    have hread : readEscape? true ('u' :: '0' :: '0' :: hexDigit (c.toNat / 16) ::
        hexDigit (c.toNat % 16) :: tail) = some (.unit c.toNat, tail) := by
      rw [readEscape?, readUnicode?_control h]
      rfl
    exact scanString_escape hread
  · next hquote hslash hfeed hreturn _ _ _ _ =>
    exact scanString_plain hquote hslash hfeed hreturn budget tail

/-- A quoted text is scanned as its characters. -/
theorem scanString_quoted {cs : List Char} {budget : Nat} (hbudget : cs.length < budget)
    (rest : List Char) :
    scanString '"' budget (cs.flatMap escapeJson ++ '"' :: rest) = .ok (cs.map Char.toNat, rest) := by
  induction cs generalizing budget with
  | nil =>
    obtain ⟨budget, rfl⟩ := Nat.exists_eq_add_of_lt hbudget
    rfl
  | cons c cs ih =>
    cases budget with
    | zero => exact absurd hbudget (Nat.not_lt_zero _)
    | succ budget =>
      rw [List.flatMap_cons, List.append_assoc, scanString_escapeJson,
        ih (Nat.lt_of_succ_lt_succ hbudget)]
      rfl

/-- Where a quoted text begins, it is known which one and what stands behind it. -/
theorem quoteJson_append_inj {cs ds rest' : List Char}
    (h : quoteJson cs ++ rest = quoteJson ds ++ rest') : cs = ds ∧ rest = rest' := by
  have hinside : ∀ es tail, quoteJson es ++ tail = '"' :: (es.flatMap escapeJson ++ '"' :: tail) :=
    fun es tail => congrArg ('"' :: ·) (List.append_assoc ..)
  rw [hinside, hinside, List.cons_inj_right] at h
  have hcs : cs.length < cs.length + ds.length + 1 := by omega
  have hds : ds.length < cs.length + ds.length + 1 := by omega
  have hscan := scanString_quoted hcs rest
  rw [h, scanString_quoted hds rest', Except.ok.injEq, Prod.mk.injEq] at hscan
  have hunits := (List.map_inj_right fun _ _ => Char.toNat_inj.1).1 hscan.1
  exact ⟨hunits.symm, hscan.2.symm⟩

/-- No character is half a surrogate pair. -/
theorem not_isHalf (c : Char) : isHighHalf c.toNat = false ∧ isLowHalf c.toNat = false := by
  have hvalid : c.toNat < 0xd800 ∨ 0xdfff < c.toNat ∧ c.toNat < 0x110000 := c.valid
  simp only [isHighHalf, isLowHalf, Bool.and_eq_false_iff, decide_eq_false_iff_not]
  omega

theorem joinHalves_toNat (cs : List Char) : joinHalves (cs.map Char.toNat) = cs.map Char.toNat := by
  induction cs with
  | nil => rfl
  | cons c cs ih =>
    cases cs with
    | nil => rfl
    | cons d cs =>
      rw [List.map_cons] at ih
      rw [List.map_cons, List.map_cons, joinHalves, (not_isHalf c).1, ih]
      rfl

theorem textOf_toNat (cs : List Char) : textOf (cs.map Char.toNat) = ⟨String.ofList cs, false⟩ := by
  have hnone : (cs.map Char.toNat).any (fun n => isHighHalf n || isLowHalf n) = false := by
    simp [List.any_eq_false, not_isHalf]
  have hback : (cs.map Char.toNat).map Char.ofNat = cs := by
    simp [List.map_map, Function.comp_def, Char.ofNat_toNat]
  simp only [textOf, joinHalves_toNat, hnone, hback]
  rfl

theorem length_le_flatMap_escapeJson (cs : List Char) :
    cs.length ≤ (cs.flatMap escapeJson).length := by
  induction cs with
  | nil => exact Nat.le_refl _
  | cons c cs ih =>
    have hc : 1 ≤ (escapeJson c).length := by
      unfold escapeJson
      grind
    rw [List.flatMap_cons, List.length_append, List.length_cons, Nat.add_comm]
    exact Nat.add_le_add hc ih

/-- A quoted text is taken as the string of its characters. -/
theorem takes_quoteJson (cs rest : List Char) :
    Takes (quoteJson cs)
      [.string ⟨String.ofList cs, false⟩ (String.ofList (cs.flatMap escapeJson))] rest := by
  refine takes_of_otherToken rfl fun s hs hrest => ?_
  have hscan : scanString '"' ((cs.flatMap escapeJson ++ '"' :: rest).length + 1)
      (cs.flatMap escapeJson ++ '"' :: rest) = .ok (cs.map Char.toNat, rest) := by
    have hlength := length_le_flatMap_escapeJson cs
    refine scanString_quoted ?_ rest
    rw [List.length_append]
    omega
  have hraw : (cs.flatMap escapeJson ++ '"' :: rest).take
      ((cs.flatMap escapeJson ++ '"' :: rest).length - rest.length - 1) =
        cs.flatMap escapeJson := by
    have hlength : (cs.flatMap escapeJson ++ '"' :: rest).length - rest.length - 1 =
        (cs.flatMap escapeJson).length := by
      rw [List.length_append, List.length_cons]
      omega
    rw [hlength, List.take_left]
  have htoken : s.otherToken '"' ((cs.flatMap escapeJson).append ['"'] ++ rest) =
      s.pushTo (.string (textOf (cs.map Char.toNat)) (String.ofList (cs.flatMap escapeJson)))
        rest := by
    have hinside : (cs.flatMap escapeJson).append ['"'] ++ rest =
        cs.flatMap escapeJson ++ '"' :: rest := List.append_assoc ..
    rw [hinside]
    simp only [Scan.otherToken, Scan.stringToken, hscan, hraw]
    rfl
  rw [htoken, textOf_toNat]
  exact hs.pushTo _ _

/-! ### Whole numbers -/

theorem isIdentifierPart_of_isDigit {c : Char} (hc : c.isDigit) : isIdentifierPart c :=
  forall_isDigit (p := fun c => isIdentifierPart c) (by decide) hc

/-- A text in front of which a number ends. -/
def EndsNumber (rest : List Char) : Prop :=
  Stops (fun c => isIdentifierPart c || c == '\\' || c == '.') rest

theorem EndsNumber.head {c : Char} (h : EndsNumber (c :: rest)) :
    isIdentifierPart c = false ∧ c ≠ '\\' ∧ c ≠ '.' := by
  have hc := h c rfl
  simp only [Bool.or_eq_false_iff, beq_eq_false_iff_ne] at hc
  exact ⟨hc.1.1, hc.1.2, hc.2⟩

theorem EndsNumber.head_ne {c : Char} (h : EndsNumber (c :: rest)) {d : Char}
    (hd : isIdentifierPart d) : c ≠ d := by
  rintro rfl
  exact Bool.false_ne_true (h.head.1.symm.trans hd)

theorem EndsNumber.endsWord (h : EndsNumber rest) : EndsWord rest := fun c hc =>
  (Bool.or_eq_false_iff.1 (h c hc)).1

theorem valueIn_digitsOf (n : Nat) : valueIn 10 (digitsOf n) = n := by
  have hdigit : ∀ c : Char, c.isDigit → (hexOf? c).getD 0 = c.toNat - 48 :=
    fun c hc => forall_isDigit (p := fun c => (hexOf? c).getD 0 = c.toNat - 48) (by decide) hc
  have hfold := List.foldl_ext (fun m c => m * 10 + (hexOf? c).getD 0)
    (fun m c => m * 10 + (c.toNat - 48)) 0 fun m c (hc : c ∈ digitsOf n) => by
      rw [hdigit c (isDigit_of_mem_digitsOf hc)]
  rw [valueIn, hfold, foldl_digitsOf]

/-- A number is read without a prefix in front of its digits. -/
theorem scanNumber_digitsOf (n : Nat) (hrest : EndsNumber rest) :
    scanNumber (digitsOf n ++ rest) = scanDecimal (digitsOf n ++ rest) := by
  rcases Nat.eq_zero_or_pos n with rfl | hn
  · have hzero : digitsOf 0 = ['0'] := rfl
    rw [hzero]
    cases rest with
    | nil => rfl
    | cons x rest =>
      have hdigit : x.isDigit = false :=
        Bool.eq_false_iff.2 fun h => hrest.head_ne (isIdentifierPart_of_isDigit h) rfl
      have hbase : ∀ d ∈ ['x', 'X', 'o', 'O', 'b', 'B'], x ≠ d := by
        intro d hd
        refine hrest.head_ne ?_
        revert d
        decide
      simp [scanNumber, hbase, hdigit]
  · have hhead := digitsOf_head hn
    cases hds : digitsOf n with
    | nil => exact absurd hds Nat.toDigits_ne_nil
    | cons c ds =>
      rw [hds] at hhead
      have hc : c ≠ '0' := hhead c rfl
      rw [List.cons_append]
      unfold scanNumber
      split
      · next heq => exact absurd (List.cons.inj heq).1 hc
      · rfl

theorem spanNumeral_digitsOf (n : Nat) (hrest : EndsNumber rest) :
    spanNumeral Char.isDigit (digitsOf n ++ rest) = (digitsOf n, rest) := by
  have hdigits : ∀ c ∈ digitsOf n, (c.isDigit || c == '_') = true := fun c hc => by
    rw [isDigit_of_mem_digitsOf hc, Bool.true_or]
  have hstops : Stops (fun c => c.isDigit || c == '_') rest := by
    cases rest with
    | nil => exact stops_nil
    | cons c rest =>
      have hdigit : c.isDigit = false :=
        Bool.eq_false_iff.2 fun h => hrest.head_ne (isIdentifierPart_of_isDigit h) rfl
      have hline : c ≠ '_' := hrest.head_ne (by decide)
      exact stops_cons.2 (by rw [hdigit, beq_false_of_ne hline]; rfl)
  have hkept : (digitsOf n).filter (· != '_') = digitsOf n := by
    refine List.filter_eq_self.2 fun c hc => ?_
    exact forall_isDigit (p := fun c => (c != '_') = true) (by decide) (isDigit_of_mem_digitsOf hc)
  simp only [spanNumeral, span_append_stops hdigits hstops, hkept]

theorem decimalMagnitude_digitsOf {n : Nat} (hn : (digitsOf n).length ≤ 400) :
    decimalMagnitude (digitsOf n) 0 = .ofNat n := by
  have hlength : (Nat.toDigits 10 n).length ≤ 400 := hn
  have hone : n * Nat.pow 10 (Int.toNat 0) = n := Nat.mul_one n
  unfold decimalMagnitude
  simp only [valueIn_digitsOf]
  split
  · next hzero =>
    subst hzero
    rfl
  · rw [if_neg (by omega), if_neg (by omega), if_pos (Int.le_refl 0), hone]

theorem scanDecimal_digitsOf {n : Nat} (hn : (digitsOf n).length ≤ 400)
    (hrest : EndsNumber rest) :
    scanDecimal (digitsOf n ++ rest) = (.number (.ofNat n) true, rest) := by
  have hmagnitude := decimalMagnitude_digitsOf hn
  unfold scanDecimal
  simp only [spanNumeral_digitsOf n hrest]
  cases rest with
  | nil => simp [scanExponent, hmagnitude]
  | cons c rest =>
    have hraised : ∀ d ∈ ['n', 'e', 'E'], c ≠ d := by
      intro d hd
      refine hrest.head_ne ?_
      revert d
      decide
    simp [scanExponent, hmagnitude, hraised, hrest.head.2.2]

/-- The digits of a number are taken as the double nearest to it. -/
theorem takes_digitsOf {n : Nat} (hn : (digitsOf n).length ≤ 400) (hrest : EndsNumber rest) :
    Takes (digitsOf n) [.number (.ofNat n) true] rest := by
  cases hds : digitsOf n with
  | nil => exact absurd hds Nat.toDigits_ne_nil
  | cons c ds =>
    have hc : c.isDigit := isDigit_of_mem_digitsOf (hds ▸ List.mem_cons_self ..)
    have hbegins : beginsToken c := forall_isDigit (p := fun c => beginsToken c) (by decide) hc
    refine takes_of_otherToken hbegins fun s hs hrest' => ?_
    have hother : ∀ d ∈ ['\'', '"', '`', '\x7b', '\x7d', '#'], c ≠ d := by
      rintro d hd rfl
      have hnone : ∀ d ∈ ['\'', '"', '`', '\x7b', '\x7d', '#'], d.isDigit = false := by decide
      exact Bool.false_ne_true ((hnone c hd).symm.trans hc)
    have hscan : scanWholeNumber s.rest = (.number (.ofNat n) true, rest) := by
      rw [hrest', ← hds, scanWholeNumber, scanNumber_digitsOf n hrest, scanDecimal_digitsOf hn hrest]
      cases rest with
      | nil => rfl
      | cons d rest =>
        obtain ⟨hpart, hslash, -⟩ := hrest.head
        simp [hpart, hslash]
    have htoken : s.otherToken c (ds ++ rest) = s.pushTo (.number (.ofNat n) true) rest := by
      have hnumber : s.otherToken c (ds ++ rest) = s.numberToken := by
        unfold Scan.otherToken
        simp [hother, hc]
      rw [hnumber, Scan.numberToken, hscan]
    rw [htoken]
    exact hs.pushTo _ _

end CallBridge.Script
