import CallBridge.Proofs.Url.Decoding

/-!
# Escapes in any text

The decoder looks for signs among bytes, and only the signs themselves have their bytes
(`notSign_of_mem`); so what it finds stands in the text as characters. Main statement:
`percentDecode_any`, every writing of a text is read as the text, and a text without a plus and
without an escape is read as it is.
-/

namespace CallBridge.Url

open CallBridge.Text

/-- A hexadecimal digit of either case. -/
def isHexDigit (c : Char) : Bool :=
  c.isDigit || ('a' ≤ c && c ≤ 'f') || ('A' ≤ c && c ≤ 'F')

/-- Somewhere in a text, a percent sign stands in front of two hexadecimal digits. -/
def HasEscape (cs : List Char) : Prop :=
  ∃ high low, isHexDigit high ∧ isHexDigit low ∧ ['%', high, low] <:+: cs

variable {c : Char} {cs : List Char} {b : UInt8} {bs ws : List UInt8}

/-! ### Digits and escapes -/

theorem isHexDigit_of_hexValue? (hc : c.toNat < 128)
    (h : (hexValue? (UInt8.ofNat c.toNat)).isSome) : isHexDigit c :=
  forall_ascii (p := fun c => (hexValue? (UInt8.ofNat c.toNat)).isSome → isHexDigit c) (by decide)
    hc h

theorem lt_of_hexValue? (h : (hexValue? b).isSome) : b.toNat < 128 := by
  unfold hexValue? at h
  simp only [UInt8.le_iff_toNat_le] at h
  split at h
  · next hdigit => exact Nat.lt_of_le_of_lt hdigit.2 (by decide)
  split at h
  · next hlower => exact Nat.lt_of_le_of_lt hlower.2 (by decide)
  split at h
  · next hupper => exact Nat.lt_of_le_of_lt hupper.2 (by decide)
  · cases h

theorem not_hasEscape_nil : ¬ HasEscape [] := by
  rintro ⟨high, low, -, -, hinside⟩
  cases List.eq_nil_of_infix_nil hinside

theorem hasEscape_cons_iff :
    HasEscape (c :: cs) ↔
      (c = '%' ∧ ∃ high low, isHexDigit high ∧ isHexDigit low ∧ [high, low] <+: cs) ∨ HasEscape cs := by
  constructor
  · rintro ⟨high, low, hhigh, hlow, hinside⟩
    rcases List.infix_cons_iff.1 hinside with hfront | hbehind
    · obtain ⟨rfl, hdigits⟩ := List.cons_prefix_cons.1 hfront
      exact Or.inl ⟨rfl, high, low, hhigh, hlow, hdigits⟩
    · exact Or.inr ⟨high, low, hhigh, hlow, hbehind⟩
  · rintro (⟨rfl, high, low, hhigh, hlow, hdigits⟩ | ⟨high, low, hhigh, hlow, hbehind⟩)
    · refine ⟨high, low, hhigh, hlow, List.infix_cons_iff.2 (Or.inl ?_)⟩
      exact List.cons_prefix_cons.2 ⟨rfl, hdigits⟩
    · exact ⟨high, low, hhigh, hlow, List.infix_cons_iff.2 (Or.inr hbehind)⟩

/-! ### What stays -/

/-- Bytes that are no signs of the decoder stay. -/
theorem decodeForm_append (h : ∀ b ∈ bs, b ≠ 0x25 ∧ b ≠ 0x2b) :
    decodeForm (bs ++ ws) = bs ++ decodeForm ws := by
  induction bs with
  | nil => rfl
  | cons b bs ih =>
    obtain ⟨⟨hpercent, hplus⟩, hrest⟩ := List.forall_mem_cons.1 h
    rw [List.cons_append, decodeForm_plain hpercent hplus, ih hrest, List.cons_append]

/-- A percent sign stays unless two hexadecimal digits follow. -/
theorem decodeForm_percent
    (h : ∀ high low rest, ws = high :: low :: rest →
      ¬ ((hexValue? high).isSome ∧ (hexValue? low).isSome)) :
    decodeForm (0x25 :: ws) = 0x25 :: decodeForm ws := by
  match ws with
  | [] => rfl
  | [b] => rfl
  | high :: low :: rest =>
    have hno := h high low rest rfl
    rw [decodeForm]
    split
    · next hhigh hlow => exact absurd ⟨by rw [hhigh]; rfl, by rw [hlow]; rfl⟩ hno
    · rfl

/-- No byte of a character but a percent sign and a plus is one of these signs. -/
theorem notSign_of_mem (hpercent : c ≠ '%') (hplus : c ≠ '+') (hb : b ∈ String.utf8EncodeChar c) :
    b ≠ 0x25 ∧ b ≠ 0x2b := by
  by_cases hc : c.toNat < 128
  · rw [utf8EncodeChar_ascii hc, List.mem_singleton] at hb
    rw [hb]
    exact forall_ascii (p := fun c => c ≠ '%' → c ≠ '+' →
      UInt8.ofNat c.toNat ≠ 0x25 ∧ UInt8.ofNat c.toNat ≠ 0x2b) (by decide) hc hpercent hplus
  · have hlarge := le_of_mem_utf8EncodeChar (by omega) hb
    constructor
    · rintro rfl
      exact absurd hlarge (by decide)
    · rintro rfl
      exact absurd hlarge (by decide)

/-- Two hexadecimal digits that the bytes of a text begin with are the beginning of the text. -/
theorem hasEscape_of_encodeBytes {high low : UInt8} (h : encodeBytes cs = high :: low :: bs)
    (hhigh : (hexValue? high).isSome) (hlow : (hexValue? low).isSome) : HasEscape ('%' :: cs) := by
  obtain ⟨c, rest, rfl, hc, rfl, hrest⟩ := exists_of_encodeBytes_eq_cons (lt_of_hexValue? hhigh) h
  obtain ⟨d, more, rfl, hd, rfl, -⟩ := exists_of_encodeBytes_eq_cons (lt_of_hexValue? hlow) hrest
  refine hasEscape_cons_iff.2 (Or.inl ⟨rfl, c, d, ?_, ?_, more, rfl⟩)
  · exact isHexDigit_of_hexValue? hc hhigh
  · exact isHexDigit_of_hexValue? hd hlow

/-- Without a plus and without an escape, all bytes of a text stay. -/
theorem decodeForm_encodeBytes (hplus : '+' ∉ cs) (hescape : ¬ HasEscape cs) :
    decodeForm (encodeBytes cs) = encodeBytes cs := by
  induction cs with
  | nil => rfl
  | cons c rest ih =>
    obtain ⟨hc, hrest⟩ := not_or.1 fun h => hplus (List.mem_cons.2 h)
    have htail := ih hrest fun h => hescape (hasEscape_cons_iff.2 (Or.inr h))
    rw [encodeBytes_cons]
    by_cases hpercent : c = '%'
    · subst hpercent
      change decodeForm (0x25 :: encodeBytes rest) = 0x25 :: encodeBytes rest
      rw [decodeForm_percent, htail]
      rintro high low more hbytes ⟨hhigh, hlow⟩
      exact hescape (hasEscape_of_encodeBytes hbytes hhigh hlow)
    · rw [decodeForm_append fun b hb => notSign_of_mem hpercent (Ne.symm hc) hb, htail]

/-- A text that writes the bytes of another one, each as it stands (no percent sign and no plus), as a
percent sign with two hexadecimal digits of either case, or, for a space, as a plus, is read as the
other one. A text without a plus and without an escape is read as it is. -/
theorem percentDecode_any :
    (∀ text cs, Writes (fun b => b ≠ 0x25 ∧ b ≠ 0x2b) (encodeBytes text) (encodeBytes cs) →
      percentDecode cs = text) ∧
    ∀ cs, '+' ∉ cs → ¬ HasEscape cs → percentDecode cs = cs := by
  refine ⟨fun text cs h => percentDecode_of_writes (fun _ hb => hb) h, fun cs hplus hescape => ?_⟩
  rw [percentDecode, decodeForm_encodeBytes hplus hescape, decodeBytes_encodeBytes]

/-- Escapes of either case, of a percent sign and of a character of two bytes, which also stands for
itself, and a plus; then percent signs in front of too few digits. -/
theorem percentDecode_any_mixed :
    let text := ['é', ' ', '%', 'é']
    let written := ['%', 'C', '3', '%', 'a', '9', '+', '%', '2', '5', 'é']
    let plain := ['%', '4', 'é', '%', '%', 'f']
    Writes (fun b => b ≠ 0x25 ∧ b ≠ 0x2b) (encodeBytes text) (encodeBytes written) ∧
      percentDecode written = text ∧
      '+' ∉ plain ∧ ¬ HasEscape plain ∧ percentDecode plain = plain := by
  intro text written plain
  have hwrites : Writes (fun b => b ≠ 0x25 ∧ b ≠ 0x2b) (encodeBytes text) (encodeBytes written) := by
    change Writes _ [0xc3, 0xa9, 0x20, 0x25, 0xc3, 0xa9]
      [0x25, 0x43, 0x33, 0x25, 0x61, 0x39, 0x2b, 0x25, 0x32, 0x35, 0xc3, 0xa9]
    refine .escape (by decide) (by decide) (.escape (by decide) (by decide) (.space ?_))
    exact .escape (by decide) (by decide) (.plain (by decide) (.plain (by decide) .nil))
  have hplus : '+' ∉ plain := by decide
  have hescape : ¬ HasEscape plain := by
    have hpercent : ¬ isHexDigit '%' := by decide
    have hletter : ¬ isHexDigit 'é' := by decide
    simp [plain, hasEscape_cons_iff, not_hasEscape_nil, List.cons_prefix_cons, hpercent, hletter]
  exact ⟨hwrites, percentDecode_any.1 _ _ hwrites, hplus, hescape,
    percentDecode_any.2 _ hplus hescape⟩

end CallBridge.Url
