import CallBridge.Proofs.Text.Bytes
import CallBridge.Url.Query

/-!
# Form-encoded texts

A text is form-encoded byte by byte: as it stands where its kind of byte may stand, as a percent sign
with two hexadecimal digits of either case, or, for a space, as a plus (`Writes`). The decoder takes
every such writing back (`percentDecode_of_writes`), and no writing holds a character that is neither
one it may leave as it stands nor part of an escape (`notMem_of_formEncodes`), so that the separators
of a query can stand between encoded texts.
-/

namespace CallBridge.Url

open CallBridge.Text

/-- The hexadecimal digit of a number below 16, in lower and in upper case. -/
def hexSpellings (d : Nat) : List UInt8 :=
  [d.digitChar.toUInt8, d.digitChar.toUpper.toUInt8]

/-- The second list writes the bytes of the first; bytes that are `raw` may stand for themselves. -/
inductive Writes (raw : UInt8 → Prop) : List UInt8 → List UInt8 → Prop where
  | nil : Writes raw [] []
  | plain {b : UInt8} {bs ws : List UInt8} (hb : raw b) (h : Writes raw bs ws) :
      Writes raw (b :: bs) (b :: ws)
  | space {bs ws : List UInt8} (h : Writes raw bs ws) : Writes raw (0x20 :: bs) (0x2b :: ws)
  | escape {b high low : UInt8} {bs ws : List UInt8} (hhigh : high ∈ hexSpellings (b.toNat / 16))
      (hlow : low ∈ hexSpellings (b.toNat % 16)) (h : Writes raw bs ws) :
      Writes raw (b :: bs) (0x25 :: high :: low :: ws)

variable {raw : UInt8 → Prop} {bs ws : List UInt8} {cs text : List Char}

/-! ### Decoding a writing -/

theorem hexValue?_hexSpellings {d : Nat} (hd : d < 16) {w : UInt8} (hw : w ∈ hexSpellings d) :
    hexValue? w = some (UInt8.ofNat d) := by
  have hall : ∀ d < 16, (hexSpellings d).all fun w => hexValue? w = some (UInt8.ofNat d) := by
    decide
  exact of_decide_eq_true (List.all_eq_true.1 (hall d hd) w hw)

theorem sixteens (b : UInt8) :
    UInt8.ofNat (b.toNat / 16) * 16 + UInt8.ofNat (b.toNat % 16) = b := by
  have hb : b.toNat < 256 := b.toNat_lt
  apply UInt8.toNat_inj.1
  rw [UInt8.toNat_add, UInt8.toNat_mul, toNat_ofNat_lt (by omega), toNat_ofNat_lt (by omega)]
  exact (by omega : (b.toNat / 16 * 16 % 256 + b.toNat % 16) % 256 = b.toNat)

theorem decodeForm_plain {b : UInt8} (hpercent : b ≠ 0x25) (hplus : b ≠ 0x2b) :
    decodeForm (b :: ws) = b :: decodeForm ws := by
  rw [decodeForm.eq_4 b ws (fun h => hplus h) (fun _ _ _ h => absurd h hpercent)]

theorem decodeForm_escape {b high low : UInt8} (hhigh : high ∈ hexSpellings (b.toNat / 16))
    (hlow : low ∈ hexSpellings (b.toNat % 16)) :
    decodeForm (0x25 :: high :: low :: ws) = b :: decodeForm ws := by
  have hb : b.toNat < 256 := b.toNat_lt
  rw [decodeForm, hexValue?_hexSpellings (by omega) hhigh, hexValue?_hexSpellings (by omega) hlow]
  exact congrArg (· :: decodeForm ws) (sixteens b)

/-- The decoder takes every writing back to the bytes that it writes. -/
theorem decodeForm_of_writes (hraw : ∀ b, raw b → b ≠ 0x25 ∧ b ≠ 0x2b) (h : Writes raw bs ws) :
    decodeForm ws = bs := by
  induction h with
  | nil => rfl
  | plain hb _ ih => rw [decodeForm_plain (hraw _ hb).1 (hraw _ hb).2, ih]
  | space _ ih => rw [decodeForm, ih]
  | escape hhigh hlow _ ih => rw [decodeForm_escape hhigh hlow, ih]

/-- A text that writes the bytes of another one is decoded to it. -/
theorem percentDecode_of_writes (hraw : ∀ b, raw b → b ≠ 0x25 ∧ b ≠ 0x2b)
    (h : Writes raw (encodeBytes text) (encodeBytes cs)) : percentDecode cs = text := by
  rw [percentDecode, decodeForm_of_writes hraw h, decodeBytes_encodeBytes]

/-! ### Texts of a form -/

/-- Letters and digits of ASCII and four marks stand for themselves in a form. -/
def isUnreserved (b : UInt8) : Bool :=
  let c := Char.ofNat b.toNat
  c.isAlphanum || ['-', '_', '.', '~'].contains c

/-- The second text form-encodes the first. -/
def FormEncodes (text cs : List Char) : Prop :=
  Writes (fun b => isUnreserved b) (encodeBytes text) (encodeBytes cs)

theorem percentDecode_of_formEncodes (h : FormEncodes text cs) : percentDecode cs = text := by
  refine percentDecode_of_writes (fun b hb => ⟨?_, ?_⟩) h
  · rintro rfl
    exact absurd hb (by decide)
  · rintro rfl
    exact absurd hb (by decide)

theorem isUnreserved_of_mem_hexSpellings {d : Nat} (hd : d < 16) {w : UInt8}
    (hw : w ∈ hexSpellings d) : isUnreserved w := by
  have hall : ∀ d < 16, (hexSpellings d).all isUnreserved := by decide
  exact List.all_eq_true.1 (hall d hd) w hw

/-- A writing consists of bytes that stand for themselves, plus and percent signs. -/
theorem mem_of_writes (h : Writes (fun b => isUnreserved b) bs ws) {w : UInt8} (hw : w ∈ ws) :
    isUnreserved w ∨ w = 0x2b ∨ w = 0x25 := by
  induction h with
  | nil => cases hw
  | plain hb _ ih =>
    rcases List.mem_cons.1 hw with rfl | hw
    · exact Or.inl hb
    · exact ih hw
  | space _ ih =>
    rcases List.mem_cons.1 hw with rfl | hw
    · exact Or.inr (Or.inl rfl)
    · exact ih hw
  | @escape b _ _ _ _ hhigh hlow _ ih =>
    have hb : b.toNat < 256 := b.toNat_lt
    rcases List.mem_cons.1 hw with rfl | hw
    · exact Or.inr (Or.inr rfl)
    rcases List.mem_cons.1 hw with rfl | hw
    · exact Or.inl (isUnreserved_of_mem_hexSpellings (by omega) hhigh)
    rcases List.mem_cons.1 hw with rfl | hw
    · exact Or.inl (isUnreserved_of_mem_hexSpellings (by omega) hlow)
    · exact ih hw

/-- The usual writing: escapes in upper case, a plus for a space. -/
def writeForm (bs : List UInt8) : List UInt8 :=
  bs.flatMap fun b =>
    if isUnreserved b then [b]
    else if b = 0x20 then [0x2b]
    else [0x25, (b.toNat / 16).digitChar.toUpper.toUInt8, (b.toNat % 16).digitChar.toUpper.toUInt8]

theorem writes_writeForm (bs : List UInt8) : Writes (fun b => isUnreserved b) bs (writeForm bs) := by
  induction bs with
  | nil => exact .nil
  | cons b bs ih =>
    rw [writeForm, List.flatMap_cons]
    split
    · next hb => exact .plain hb ih
    split
    · next hb =>
      subst hb
      exact .space ih
    · exact .escape (by simp [hexSpellings]) (by simp [hexSpellings]) ih

theorem formEncodes_of_eq (h : encodeBytes cs = writeForm (encodeBytes text)) :
    FormEncodes text cs := by
  rw [FormEncodes, h]
  exact writes_writeForm _

/-- The characters that structure a URL and its query. -/
def separators : List Char := ['&', '=', ',', '?', '#']

/-- No separator stands in a form-encoded text. -/
theorem notMem_of_formEncodes (h : FormEncodes text cs) {c : Char} (hc : c ∈ separators) :
    c ∉ cs := by
  have hnone : ∀ c ∈ separators, c.toNat < 128 ∧
      ¬ (isUnreserved (UInt8.ofNat c.toNat) ∨ UInt8.ofNat c.toNat = 0x2b ∨
        UInt8.ofNat c.toNat = 0x25) := by
    decide
  exact fun hmem => (hnone c hc).2 (mem_of_writes h (mem_encodeBytes (hnone c hc).1 hmem))

end CallBridge.Url
