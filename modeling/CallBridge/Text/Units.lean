/-!
# Bytes and units of a text

A position in a text is counted in bytes of UTF-8 or in units of UTF-16. Bytes come back to text
with `decodeBytes`, which writes one replacement character for every longest piece that cannot be
continued to a character.
-/

namespace CallBridge.Text

/-- The number of UTF-16 units of a character. -/
def unitsOf (c : Char) : Nat := if c.toNat < 0x10000 then 1 else 2

/-- The number of UTF-16 units of a text. -/
def units (cs : List Char) : Nat := cs.foldr (fun c n => unitsOf c + n) 0

/-- The number of UTF-8 bytes of a text. -/
def bytes (cs : List Char) : Nat := cs.foldr (fun c n => c.utf8Size + n) 0

@[simp] theorem units_nil : units [] = 0 := rfl

@[simp] theorem units_cons (c : Char) (cs : List Char) : units (c :: cs) = unitsOf c + units cs :=
  rfl

@[simp] theorem bytes_nil : bytes [] = 0 := rfl

@[simp] theorem bytes_cons (c : Char) (cs : List Char) :
    bytes (c :: cs) = c.utf8Size + bytes cs := rfl

theorem bytes_append (xs ys : List Char) : bytes (xs ++ ys) = bytes xs + bytes ys := by
  induction xs with
  | nil => simp
  | cons c rest ih => simp [ih, Nat.add_assoc]

/-- The UTF-8 bytes of a text. -/
def encodeBytes (cs : List Char) : List UInt8 := cs.flatMap String.utf8EncodeChar

/-! ### Decoding -/

/-- A character whose first bytes have been read: the bits so far, the number of bytes to come and
the bounds of the next one. -/
structure Pending where
  bits : Nat
  missing : Nat
  low : Nat
  high : Nat

/-- Reads the first byte of a character: a whole character, the start of a longer one, or a byte
that begins none. -/
inductive Lead where
  | whole (c : Char)
  | start (p : Pending)
  | invalid

def lead (b : UInt8) : Lead :=
  let n := b.toNat
  if n < 0x80 then .whole (Char.ofNat n)
  else if n < 0xc2 then .invalid
  else if n < 0xe0 then .start ⟨n - 0xc0, 1, 0x80, 0xbf⟩
  else if n = 0xe0 then .start ⟨0, 2, 0xa0, 0xbf⟩
  else if n = 0xed then .start ⟨0xd, 2, 0x80, 0x9f⟩
  else if n < 0xf0 then .start ⟨n - 0xe0, 2, 0x80, 0xbf⟩
  else if n = 0xf0 then .start ⟨0, 3, 0x90, 0xbf⟩
  else if n < 0xf4 then .start ⟨n - 0xf0, 3, 0x80, 0xbf⟩
  else if n = 0xf4 then .start ⟨4, 3, 0x80, 0x8f⟩
  else .invalid

/-- The character that stands for bytes that form none. -/
def replacement : Char := Char.ofNat 0xfffd

/-- Decodes with the bytes of an unfinished character at hand. -/
def decodeFrom : Option Pending → List UInt8 → List Char
  | none, [] => []
  | some _, [] => [replacement]
  | none, b :: rest =>
    match lead b with
    | .whole c => c :: decodeFrom none rest
    | .start p => decodeFrom (some p) rest
    | .invalid => replacement :: decodeFrom none rest
  | some p, b :: rest =>
    if p.low ≤ b.toNat ∧ b.toNat ≤ p.high then
      let bits := p.bits * 64 + b.toNat % 64
      if p.missing ≤ 1 then Char.ofNat bits :: decodeFrom none rest
      else decodeFrom (some ⟨bits, p.missing - 1, 0x80, 0xbf⟩) rest
    else
      match lead b with
      | .whole c => replacement :: c :: decodeFrom none rest
      | .start q => replacement :: decodeFrom (some q) rest
      | .invalid => replacement :: replacement :: decodeFrom none rest

/-- The text of a list of UTF-8 bytes. -/
def decodeBytes (bs : List UInt8) : List Char := decodeFrom none bs

end CallBridge.Text
