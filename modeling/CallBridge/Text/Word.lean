import CallBridge.Text.Letters
import CallBridge.Text.Ranges

/-!
# Character classes

Words, blanks and identifier characters by the properties of the Unicode standard. Below 128 each
class is a plain rule; above, it is read from the range tables of `Text/Letters` and the few
characters that the properties add to or take from the general categories.
-/

namespace CallBridge.Text

def isLetter (c : Char) : Bool :=
  if c.toNat < 128 then c.isAlpha else inRanges c.toNat letterRanges

def isMark (c : Char) : Bool := 128 ≤ c.toNat && inRanges c.toNat markRanges

def isDecimalDigit (c : Char) : Bool :=
  if c.toNat < 128 then c.isDigit else inRanges c.toNat digitRanges

/-- Punctuation that joins two words into one, the low line above all. -/
def isConnector (c : Char) : Bool :=
  c == '_' || [0x203f, 0x2040, 0x2054, 0xfe33, 0xfe34, 0xfe4d, 0xfe4e, 0xfe4f, 0xff3f].contains
    c.toNat

/-- The two joiners without width. -/
def isJoiner (c : Char) : Bool := c.toNat == 0x200c || c.toNat == 0x200d

/-- Letters in circles and squares: symbols that count as alphabetic. -/
def isEnclosedLetter (c : Char) : Bool :=
  inRanges c.toNat [(9398, 9449), (127280, 127305), (127312, 127337), (127344, 127369)]

/-- A character of a word: alphabetic, a mark, a digit, a connector or a joiner. -/
def isWord (c : Char) : Bool :=
  isLetter c || isMark c || isDecimalDigit c || isConnector c || isJoiner c || isEnclosedLetter c

/-- White space: the controls from tab to carriage return and every separator. -/
def isBlank (c : Char) : Bool :=
  let n := c.toNat
  (9 ≤ n && n ≤ 13) || n == 32 || n == 0x85 || n == 0xa0 || n == 0x1680 ||
    (0x2000 ≤ n && n ≤ 0x200a) || n == 0x2028 || n == 0x2029 || n == 0x202f || n == 0x205f ||
    n == 0x3000

/-- A character that may begin an identifier of a script, signs and the low line apart. -/
def isIdentifierLetter (c : Char) : Bool :=
  (isLetter c && c.toNat != 11823) ||
    [6277, 6278, 8472, 8494, 12443, 12444].contains c.toNat

/-- A character that may begin an identifier of a script. -/
def isIdentifierStart (c : Char) : Bool := c == '$' || c == '_' || isIdentifierLetter c

/-- A character that may continue an identifier of a script. Enclosing marks are not among them. -/
def isIdentifierPart (c : Char) : Bool :=
  isIdentifierStart c || isDecimalDigit c || isConnector c || isJoiner c ||
    (isMark c && !inRanges c.toNat
      [(1160, 1161), (6846, 6846), (8413, 8416), (8418, 8420), (42608, 42610)]) ||
    inRanges c.toNat [(183, 183), (903, 903), (4969, 4977), (6618, 6618)]

/-- The text without blanks at its ends. -/
def trimBlank (cs : List Char) : List Char :=
  ((cs.dropWhile isBlank).reverse.dropWhile isBlank).reverse

theorem isIdentifierPart_of_isIdentifierStart {c : Char} (h : isIdentifierStart c) :
    isIdentifierPart c := by
  simp [isIdentifierPart, h]

end CallBridge.Text
