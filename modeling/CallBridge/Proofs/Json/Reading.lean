import CallBridge.Json.Printer
import CallBridge.Proofs.Json.Grammar
import Mathlib.Algebra.Group.Int.Defs
import Mathlib.Algebra.Group.Nat.Defs
import Mathlib.Data.List.Forall2

/-!
# Reading what was written

The text of a value spells the document of the value, as long as its numbers are whole ones of 64
bits (`Integral`): a quoted text character by character (`stringSpelling_quoteJson`), a number by
its digits (`spelling_writeInt`), items and fields with their commas (`spelling_write`). Main
statement: it is read as that document (`read?_write`).
-/

namespace CallBridge.Json

open CallBridge.Number CallBridge.Text

/-! ### Strings -/

/-- A piece that stands for a character by itself. -/
inductive Piece.Spells : Piece → Char → Prop where
  | char (c : Char) : Piece.Spells (.char c) c
  | unit (c : Char) : Piece.Spells (.unit c.toNat) c

/-- Every digit of an escape is read back. -/
theorem hexValue?_hexDigit : ∀ d < 16, hexValue? (hexDigit d) = some d := by
  decide

/-- The escape of a character is a piece that stands for it. -/
theorem exists_pieceSpelling_escapeJson (c : Char) :
    ∃ p : Piece, p.Spells c ∧ PieceSpelling p (escapeJson c) := by
  unfold escapeJson
  split
  · next h => exact ⟨_, .char c, .escape (by rw [h]; rfl)⟩
  split
  · next h => exact ⟨_, .char c, .escape (by rw [h]; rfl)⟩
  split
  · next h => exact ⟨_, .char c, .escape (by rw [h]; rfl)⟩
  split
  · next h => exact ⟨_, .char c, .escape (by rw [h]; rfl)⟩
  split
  · next h => exact ⟨_, .char c, .escape (by rw [h]; rfl)⟩
  split
  · next h =>
    have hc : c = '\x08' := Char.toNat_inj.1 h
    exact ⟨_, .char c, .escape (by rw [hc]; rfl)⟩
  split
  · next h =>
    have hc : c = '\x0c' := Char.toNat_inj.1 h
    exact ⟨_, .char c, .escape (by rw [hc]; rfl)⟩
  split
  · next h =>
    have hvalue : ((0 * 16 + 0) * 16 + c.toNat / 16) * 16 + c.toNat % 16 = c.toNat := by omega
    have hzero : hexValue? '0' = some 0 := rfl
    have hhigh := hexValue?_hexDigit (c.toNat / 16) (by omega)
    have hlow := hexValue?_hexDigit (c.toNat % 16) (by omega)
    have hunit := PieceSpelling.unit hzero hzero hhigh hlow
    rw [hvalue] at hunit
    exact ⟨_, .unit c, hunit⟩
  · next hquote hslash _ _ _ _ _ h => exact ⟨_, .char c, .plain hquote hslash h⟩

/-- The escapes that the printer writes spell what they were made from. -/
theorem exists_piecesSpelling_escapes (cs : List Char) :
    ∃ ps, List.Forall₂ Piece.Spells ps cs ∧ PiecesSpelling ps (cs.flatMap escapeJson) := by
  induction cs with
  | nil => exact ⟨[], .nil, .nil⟩
  | cons c cs ih =>
    obtain ⟨ps, hps, hcs⟩ := ih
    obtain ⟨p, hp, hc⟩ := exists_pieceSpelling_escapeJson c
    exact ⟨p :: ps, .cons hp hps, .cons hc hcs⟩

/-- No character is half a surrogate pair, so pieces are joined one by one. -/
theorem joinPieces?_of_spells {ps : List Piece} {cs : List Char}
    (h : List.Forall₂ Piece.Spells ps cs) : joinPieces? ps = some cs := by
  induction h with
  | nil => rfl
  | @cons p c ps cs hp _ ih =>
    cases hp with
    | char => rw [joinPieces?, ih]; rfl
    | unit =>
      have hvalid : c.toNat < 0xd800 ∨ 0xdfff < c.toNat ∧ c.toNat < 0x110000 := c.valid
      have hback : (some cs).map (Char.ofNat c.toNat :: ·) = some (c :: cs) := by
        rw [Char.ofNat_toNat]
        rfl
      cases ps with
      | nil => rw [joinPieces?, if_neg (by omega), ih, hback]; exact fun _ _ h => by cases h
      | cons next ps =>
        cases next with
        | char d => rw [joinPieces?, if_neg (by omega), ih, hback]; exact fun _ _ h => by cases h
        | unit n => rw [joinPieces?, if_neg (by omega), if_neg (by omega), ih, hback]

/-- A quoted text spells the text. -/
theorem stringSpelling_quoteJson (cs : List Char) :
    StringSpelling (some (String.ofList cs)) (quoteJson cs) := by
  obtain ⟨ps, hps, hcs⟩ := exists_piecesSpelling_escapes cs
  have hstring := StringSpelling.mk hcs
  rwa [joinPieces?_of_spells hps] at hstring

/-- A text in quotes is a spelling of it, whatever characters it has. -/
theorem stringSpelling_render (s : String) : StringSpelling (some s) (quoteJson s.toList) := by
  have hquoted := stringSpelling_quoteJson s.toList
  rwa [String.ofList_toList] at hquoted

/-! ### Whole values -/

mutual

/-- Whether the numbers of a value are whole ones of 64 bits, with a sign or without. -/
def Value.Integral : Value → Prop
  | .number n => ∃ i : Int, n = .int i ∧ -2 ^ 63 ≤ i ∧ i < 2 ^ 64
  | .array items => IntegralItems items
  | .object fields => IntegralFields fields
  | _ => True

/-- All items are integral. -/
def IntegralItems : List Value → Prop
  | [] => True
  | v :: rest => v.Integral ∧ IntegralItems rest

/-- All fields are. -/
def IntegralFields : List (String × Value) → Prop
  | [] => True
  | (_, v) :: rest => v.Integral ∧ IntegralFields rest

end

theorem integralItems_strings (xs : List String) : IntegralItems (xs.map .string) := by
  induction xs with
  | nil => trivial
  | cons x xs ih => exact ⟨trivial, ih⟩

theorem integralFields_iff {fields : List (String × Value)} :
    IntegralFields fields ↔ ∀ f ∈ fields, f.2.Integral := by
  induction fields with
  | nil => exact iff_of_true trivial nofun
  | cons f rest ih => rw [IntegralFields, ih, List.forall_mem_cons]

/-- Naturals of 64 bits are read as what they are. -/
theorem toNumber?_digitsOf {n : Nat} (h : n < 2 ^ 64) :
    Numeral.toNumber? ⟨false, digitsOf n, none, none⟩ = some (.int n) := by
  have hvalue : ofDigits (digitsOf n) = n := foldl_digitsOf n
  have hfits : n < Nat.pow 2 64 := h
  simp [Numeral.toNumber?, hvalue, hfits]

/-- Below zero there is one bit less, and the least number is among them. -/
theorem toNumber?_minus {n : Nat} (hpos : 0 < n) (h : n ≤ 2 ^ 63) :
    Numeral.toNumber? ⟨true, digitsOf n, none, none⟩ = some (.int (-n)) := by
  have hvalue : ofDigits (digitsOf n) = n := foldl_digitsOf n
  have hfits : n ≤ Nat.pow 2 63 := h
  have hlarge : n < Nat.pow 2 64 := Nat.lt_of_le_of_lt h (by decide)
  simp [Numeral.toNumber?, hvalue, hfits, hlarge, hpos]

/-! ### Documents -/

theorem numeralSpelling_digitsOf (negative : Bool) (n : Nat) :
    NumeralSpelling negative ⟨negative, digitsOf n, none, none⟩ (digitsOf n) := by
  have hzero : (digitsOf n).head? = some '0' → digitsOf n = ['0'] := by
    intro hhead
    rcases Nat.eq_zero_or_pos n with rfl | hn
    · rfl
    · exact absurd rfl (digitsOf_head hn '0' hhead)
  have hdigits : IsDigits (digitsOf n) := ⟨digitsOf_ne_nil n, fun _ => isDigit_of_mem_digitsOf⟩
  have hnumeral : NumeralSpelling negative ⟨negative, digitsOf n, none, none⟩
      (digitsOf n ++ ([] ++ [])) := .mk hdigits hzero .none .none
  rwa [List.append_nil, List.append_nil] at hnumeral

/-- What is written for an integer of 64 bits spells it. -/
theorem spelling_writeInt {i : Int} (hlow : -2 ^ 63 ≤ i) (hhigh : i < 2 ^ 64) :
    Spelling (.document (.number (some (.int i)))) (writeInt i) := by
  unfold writeInt
  split
  · next hneg =>
    have hnumber : Numeral.toNumber? ⟨true, digitsOf i.natAbs, none, none⟩ = some (.int i) := by
      rw [toNumber?_minus (by omega) (by omega), Int.ofNat_natAbs_of_nonpos (by omega), Int.neg_neg]
    rw [← hnumber]
    exact .negative (numeralSpelling_digitsOf true i.natAbs)
  · next hpos =>
    have hnumber : Numeral.toNumber? ⟨false, digitsOf i.natAbs, none, none⟩ = some (.int i) := by
      rw [toNumber?_digitsOf (by omega), Int.natAbs_of_nonneg (by omega)]
    rw [← hnumber]
    exact .natural (numeralSpelling_digitsOf false i.natAbs)

theorem nameSpelling_quoteJson (k : String) :
    NameSpelling (some k) (quoteJson k.toList ++ [':']) := by
  have hblanks : IsBlanks [] := nofun
  exact .mk hblanks (stringSpelling_render k) hblanks

mutual

/-- The text of a value spells its document. -/
theorem spelling_write : ∀ v : Value, v.Integral → Spelling (.document (.ofValue v)) v.write
  | .null, _ => .null
  | .bool true, _ => .true
  | .bool false, _ => .false
  | .number n, h => by
    obtain ⟨i, rfl, hlow, hhigh⟩ := h
    exact spelling_writeInt hlow hhigh
  | .string s, _ => .string (stringSpelling_render s)
  | .array [], _ => .emptyArray nofun
  | .array (v :: vs), h => .array (spelling_writeItems (v :: vs) h nofun)
  | .object [], _ => .emptyObject nofun
  | .object (f :: fields), h => .object (spelling_writeFields (f :: fields) h nofun)

/-- Items stand behind each other with commas between, by induction on the list. -/
theorem spelling_writeItems : ∀ vs : List Value, IntegralItems vs → vs ≠ [] →
    Spelling (.items (Document.ofItems vs)) (withCommas (writeItems vs))
  | [v], h, _ => .lastItem (spelling_write v h.1)
  | v :: next :: vs, h, _ =>
    .nextItem (spelling_write v h.1) (spelling_writeItems (next :: vs) h.2 nofun)

/-- So do fields, each behind its name. -/
theorem spelling_writeFields : ∀ fields : List (String × Value), IntegralFields fields →
    fields ≠ [] → Spelling (.members (Document.ofFields fields)) (withCommas (writeFields fields))
  | [(k, v)], h, _ => by
    have hfield := Spelling.lastMember (nameSpelling_quoteJson k) (spelling_write v h.1)
    rwa [List.append_assoc] at hfield
  | (k, v) :: next :: fields, h, _ => by
    have hmore := spelling_writeFields (next :: fields) h.2 nofun
    have hfield := Spelling.nextMember (nameSpelling_quoteJson k) (spelling_write v h.1) hmore
    rwa [List.append_assoc, List.singleton_append, ← List.cons_append,
      ← List.append_assoc] at hfield

end

/-- The text of a value is a spelling of it. -/
theorem spelling_render (v : Value) (h : v.Integral) :
    Spelling (.document (.ofValue v)) v.render.toList := by
  rw [Value.render, String.toList_ofList]
  exact spelling_write v h

/-- The text of a value is read as its document. -/
theorem read?_write (v : Value) (h : v.Integral) : read? v.write = some (.ofValue v) :=
  read?_of_spelling (spelling_write v h)

/-- So what is written is read again, as far as the nesting allows. -/
theorem readValue?_render (v : Value) (h : v.Integral) :
    readValue? v.render = (Document.ofValue v).value? := by
  rw [readValue?, Value.render, String.toList_ofList, read?_write v h]
  rfl

end CallBridge.Json
