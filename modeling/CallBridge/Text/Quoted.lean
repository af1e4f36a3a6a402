import CallBridge.Text.Hidden
import CallBridge.Text.Ranges

/-!
# Quoted text

Two ways of writing a text between double quotes. `quoteJson` is the JSON form: it escapes quotes,
backslashes and controls, and leaves every other character as it is. `quoteVisible` is the form of
messages: it spells out every character that a reader would not see.
-/

namespace CallBridge.Text

def hexDigit (n : Nat) : Char :=
  if n < 10 then Char.ofNat (48 + n) else Char.ofNat (87 + n)

/-- Lower-case hexadecimal digits, at least one. -/
def hexDigits (n : Nat) : List Char := Nat.toDigits 16 n

/-- The JSON escape of one character. -/
def escapeJson (c : Char) : List Char :=
  if c = '"' then ['\\', '"']
  else if c = '\\' then ['\\', '\\']
  else if c = '\n' then ['\\', 'n']
  else if c = '\r' then ['\\', 'r']
  else if c = '\t' then ['\\', 't']
  else if c.toNat = 8 then ['\\', 'b']
  else if c.toNat = 12 then ['\\', 'f']
  else if c.toNat < 32 then
    ['\\', 'u', '0', '0', hexDigit (c.toNat / 16), hexDigit (c.toNat % 16)]
  else [c]

/-- A text as a JSON string. -/
def quoteJson (cs : List Char) : List Char := '"' :: cs.flatMap escapeJson ++ ['"']

/-- Whether a message shows a character by its number. -/
def isHidden (c : Char) : Bool :=
  c.toNat < 32 || c.toNat == 127 || (128 ≤ c.toNat && inRanges c.toNat hiddenRanges)

/-- The escape of one character in a message. -/
def escapeVisible (c : Char) : List Char :=
  if c = '"' then ['\\', '"']
  else if c = '\\' then ['\\', '\\']
  else if c = '\n' then ['\\', 'n']
  else if c = '\r' then ['\\', 'r']
  else if c = '\t' then ['\\', 't']
  else if c.toNat = 0 then ['\\', '0']
  else if isHidden c then ['\\', 'u', '\x7b'] ++ hexDigits c.toNat ++ ['\x7d']
  else [c]

/-- A text as a message shows it. -/
def quoteVisible (s : String) : String :=
  String.ofList ('"' :: s.toList.flatMap escapeVisible ++ ['"'])

end CallBridge.Text
