import CallBridge.Script.Lines
import CallBridge.Script.Token
import CallBridge.Text.Units
import CallBridge.Text.Word

/-!
# Splitting a script into tokens

Scanners work on the characters still to be read and give back what they found and the rest. The
main loop takes one blank, one comment or one token a step and counts bytes as it goes; the stack
of open braces tells the brace that ends a substitution of a template from the one that ends a
block.
-/

namespace CallBridge.Script

open CallBridge.Text

/-- Blanks between tokens, line ends apart. -/
def isSpace (c : Char) : Bool :=
  let n := c.toNat
  n == 9 || n == 11 || n == 12 || n == 32 || n == 0x85 || n == 0xa0 || n == 0xfeff ||
    n == 0x1680 || n == 0x180e || (0x2000 ≤ n && n ≤ 0x200b) || n == 0x202f || n == 0x205f ||
    n == 0x3000

/-! ### Escapes -/

def hexOf? (c : Char) : Option Nat :=
  if c.isDigit then some (c.toNat - 48)
  else if 'a' ≤ c ∧ c ≤ 'f' then some (c.toNat - 87)
  else if 'A' ≤ c ∧ c ≤ 'F' then some (c.toNat - 55)
  else none

/-- The value of digits in a base. -/
def valueIn (base : Nat) (ds : List Char) : Nat :=
  ds.foldl (fun n c => n * base + (hexOf? c).getD 0) 0

/-- The digits inside the braces of a code point escape. -/
def readBraced? (cs : List Char) : Option (Nat × List Char) :=
  let (ds, rest) := cs.span fun c => (hexOf? c).isSome
  match rest with
  | '\x7d' :: rest =>
    let n := valueIn 16 ds
    if ds.isEmpty || 0x10ffff < n then none else some (n, rest)
  | _ => none

/-- The code point or unit of an escape whose `\u` has been read. -/
def readUnicode? : List Char → Option (Nat × List Char)
  | '\x7b' :: rest => readBraced? rest
  | a :: b :: c :: d :: rest =>
    if [a, b, c, d].all fun c => (hexOf? c).isSome then some (valueIn 16 [a, b, c, d], rest)
    else none
  | _ => none

/-- What an escape stands for. -/
inductive Escaped where
  /-- A code point or half a surrogate pair. -/
  | unit (n : Nat)
  /-- A line that goes on. -/
  | nothing

/-- At most two further octal digits of an escape, its value staying below 256. -/
def readOctal (first : Char) : List Char → Nat × List Char
  | b :: c :: rest =>
    let n := first.toNat - 48
    if '0' ≤ b ∧ b ≤ '7' then
      let m := n * 8 + (b.toNat - 48)
      if n ≤ 3 ∧ '0' ≤ c ∧ c ≤ '7' then (m * 8 + (c.toNat - 48), rest) else (m, c :: rest)
    else (n, b :: c :: rest)
  | [b] =>
    let n := first.toNat - 48
    if '0' ≤ b ∧ b ≤ '7' then (n * 8 + (b.toNat - 48), []) else (n, [b])
  | [] => (first.toNat - 48, [])

/-- Reads an escape whose backslash has been read. The flag allows octal escapes. -/
def readEscape? (octal : Bool) : List Char → Option (Escaped × List Char)
  | [] => none
  | 'n' :: rest => some (.unit 10, rest)
  | 't' :: rest => some (.unit 9, rest)
  | 'r' :: rest => some (.unit 13, rest)
  | 'b' :: rest => some (.unit 8, rest)
  | 'v' :: rest => some (.unit 11, rest)
  | 'f' :: rest => some (.unit 12, rest)
  | 'x' :: a :: b :: rest =>
    if (hexOf? a).isSome && (hexOf? b).isSome then some (.unit (valueIn 16 [a, b]), rest) else none
  | 'x' :: _ => none
  | 'u' :: rest => (readUnicode? rest).map fun (n, r) => (.unit n, r)
  | '\r' :: '\n' :: rest => some (.nothing, rest)
  | c :: rest =>
    if isLineEnd c then some (.nothing, rest)
    else if c == '0' && !(rest.head?.any Char.isDigit) then some (.unit 0, rest)
    else if '0' ≤ c ∧ c ≤ '7' then
      if octal then
        let (n, r) := readOctal c rest
        some (.unit n, r)
      else none
    else if c.isDigit && !octal then none
    else some (.unit c.toNat, rest)

/-! ### Values of strings -/

/-- The four hexadecimal digits of a unit. -/
def fourHex (n : Nat) : List Char :=
  let ds := Nat.toDigits 16 n
  List.replicate (4 - ds.length) '0' ++ ds

def isHighHalf (n : Nat) : Bool := 0xd800 ≤ n && n < 0xdc00

def isLowHalf (n : Nat) : Bool := 0xdc00 ≤ n && n < 0xe000

/-- Joins halves of surrogate pairs that stand side by side. -/
def joinHalves : List Nat → List Nat
  | a :: b :: rest =>
    if isHighHalf a && isLowHalf b then
      (0x10000 + (a - 0xd800) * 0x400 + (b - 0xdc00)) :: joinHalves rest
    else a :: joinHalves (b :: rest)
  | ns => ns

/-- The value of a literal from its code points and halves. -/
def textOf (units : List Nat) : Text :=
  let points := joinHalves units
  let isHalf (n : Nat) : Bool := isHighHalf n || isLowHalf n
  if points.any isHalf then
    let spell (n : Nat) : List Char :=
      if isHalf n || n == 0xfffd then replacement :: fourHex n else [Char.ofNat n]
    ⟨String.ofList (points.flatMap spell), true⟩
  else ⟨String.ofList (points.map Char.ofNat), false⟩

/-- The code points of a string up to its closing quote, within a budget. -/
def scanString (quote : Char) : Nat → List Char → Except Problem (List Nat × List Char)
  | 0, _ => .error .unterminatedString
  | _, [] => .error .unterminatedString
  | budget + 1, c :: rest =>
    if c == quote then .ok ([], rest)
    else if c == '\\' then
      match readEscape? true rest with
      | none => .error (if rest.isEmpty then .unterminatedString else .invalidEscape)
      | some (.nothing, r) => scanString quote budget r
      | some (.unit n, r) =>
        match scanString quote budget r with
        | .ok (ns, r) => .ok (n :: ns, r)
        | .error e => .error e
    else if c == '\n' || c == '\r' then .error .unterminatedString
    else
      match scanString quote budget rest with
      | .ok (ns, r) => .ok (c.toNat :: ns, r)
      | .error e => .error e

/-! ### Templates -/

/-- The text of a template piece as written, up to a closing backtick or the opening of a
substitution; the flag says which. -/
def scanTemplate : List Char → Option (List Char × Bool × List Char)
  | [] => none
  | '`' :: rest => some ([], true, rest)
  | '$' :: '\x7b' :: rest => some ([], false, rest)
  | '\\' :: c :: rest => (scanTemplate rest).map fun (cs, e, r) => ('\\' :: c :: cs, e, r)
  | c :: rest => (scanTemplate rest).map fun (cs, e, r) => (c :: cs, e, r)

/-- Every line end of a template counts as a line feed. -/
def unifyLineEnds : List Char → List Char
  | '\r' :: '\n' :: rest => '\n' :: unifyLineEnds rest
  | '\r' :: rest => '\n' :: unifyLineEnds rest
  | c :: rest => c :: unifyLineEnds rest
  | [] => []

/-- The code points of a template piece; none when an escape has no value. -/
def cookTemplate : Nat → List Char → Option (List Nat)
  | _, [] => some []
  | 0, _ => none
  | budget + 1, '\\' :: rest =>
    match readEscape? false rest with
    | some (.nothing, r) => cookTemplate budget r
    | some (.unit n, r) => (cookTemplate budget r).map (n :: ·)
    | none => none
  | budget + 1, c :: rest => (cookTemplate budget rest).map (c.toNat :: ·)

def quasiOf (raw : List Char) : Quasi :=
  let cs := unifyLineEnds raw
  ⟨String.ofList cs, (cookTemplate cs.length cs).map textOf⟩

/-! ### Numbers -/

/-- Digits with separators between them. -/
def spanNumeral (isDigit : Char → Bool) (cs : List Char) : List Char × List Char :=
  let (ds, rest) := cs.span fun c => isDigit c || c == '_'
  (ds.filter (· != '_'), rest)

/-- The double nearest to `digits * 10 ^ exponent`. Far exponents need no exact power. -/
def decimalMagnitude (digits : List Char) (exponent : Int) : Number.Magnitude :=
  let n := valueIn 10 digits
  let size : Int := (Nat.toDigits 10 n).length + exponent
  if n = 0 then .zero
  else if 400 < size then .infinite
  else if size < -400 then .zero
  else if 0 ≤ exponent then .ofNat (n * Nat.pow 10 exponent.toNat)
  else .ofQuotient n (Nat.pow 10 (-exponent).toNat)

/-- The exponent part of a number: its value, and whether there is one. -/
def scanExponent (cs : List Char) : Int × Bool × List Char :=
  match cs with
  | e :: rest =>
    if e == 'e' || e == 'E' then
      let (negative, rest) :=
        match rest with
        | '-' :: r => (true, r)
        | '+' :: r => (false, r)
        | r => (false, r)
      let (ds, rest) := spanNumeral Char.isDigit rest
      let n : Int := valueIn 10 ds
      (if negative then -n else n, true, rest)
    else (0, false, cs)
  | [] => (0, false, [])

/-- A number without prefix. -/
def scanDecimal (cs : List Char) : Lexeme × List Char :=
  let (whole, rest) := spanNumeral Char.isDigit cs
  match rest with
  | 'n' :: r => (.bigint (String.ofList whole), r)
  | rest =>
    let (fraction, pointed, rest) :=
      match rest with
      | '.' :: r =>
        let (ds, r) := spanNumeral Char.isDigit r
        (ds, true, r)
      | r => ([], false, r)
    let (exponent, raised, rest) := scanExponent rest
    (.number (decimalMagnitude (whole ++ fraction) (exponent - fraction.length))
      (!pointed && !raised), rest)

/-- A number whose prefix names its base. -/
def scanBased (base : Nat) (letter : Char) (isDigit : Char → Bool) (cs : List Char) :
    Lexeme × List Char :=
  let (ds, rest) := spanNumeral isDigit cs
  match rest with
  | 'n' :: r => (.bigint (String.ofList ('0' :: letter :: ds)), r)
  | rest => (.number (.ofNat (valueIn base ds)) true, rest)

def isOctalDigit (c : Char) : Bool := '0' ≤ c && c ≤ '7'

/-- A number at the front of a text that begins with a digit, or a point and a digit. -/
def scanNumber (cs : List Char) : Lexeme × List Char :=
  match cs with
  | '0' :: x :: rest =>
    if x == 'x' || x == 'X' then scanBased 16 x (fun c => (hexOf? c).isSome) rest
    else if x == 'o' || x == 'O' then scanBased 8 x isOctalDigit rest
    else if x == 'b' || x == 'B' then scanBased 2 x (fun c => c == '0' || c == '1') rest
    else if x.isDigit then
      let (ds, r) := (x :: rest).span Char.isDigit
      if ds.all isOctalDigit then (.number (.ofNat (valueIn 8 ds)) true, r)
      else scanDecimal cs
    else scanDecimal cs
  | cs => scanDecimal cs

/-- A number must not run into a word. -/
def scanWholeNumber (cs : List Char) : Lexeme × List Char :=
  let (found, rest) := scanNumber cs
  match rest with
  | c :: _ =>
    if isIdentifierPart c || c == '\\' then
      (.invalid .invalidNumberEnd, rest.dropWhile isIdentifierPart)
    else (found, rest)
  | [] => (found, rest)

/-! ### Words and marks -/

/-- The characters of a word, escapes replaced, and whether there was one. -/
def scanWord : Nat → List Char → Option (List Char × Bool × List Char)
  | 0, cs => some ([], false, cs)
  | budget + 1, '\\' :: 'u' :: rest =>
    match readUnicode? rest with
    | some (n, r) =>
      if isIdentifierPart (Char.ofNat n) then
        (scanWord budget r).map fun (cs, _, r) => (Char.ofNat n :: cs, true, r)
      else none
    | none => none
  | _, '\\' :: _ => none
  | budget + 1, c :: rest =>
    if isIdentifierPart c then (scanWord budget rest).map fun (cs, e, r) => (c :: cs, e, r)
    else some ([], false, c :: rest)
  | _, [] => some ([], false, [])

/-- Marks of two to four characters, longer ones first. -/
def longMarks : List String :=
  [">>>=", "...", "===", "!==", "**=", "<<=", ">>=", ">>>", "&&=", "||=", "??=", "=>", "==", "!=",
    "<=", ">=", "&&", "||", "??", "?.", "++", "--", "+=", "-=", "*=", "/=", "%=", "&=", "|=", "^=",
    "<<", ">>", "**"]

/-- Marks of one character, braces apart. -/
def shortMarks : List Char := "()[];,<>+-*/%&|^!~?:=.@".toList

/-- The text after a mark, if it begins with it. -/
def afterMark? : List Char → List Char → Option (List Char)
  | [], cs => some cs
  | m :: ms, c :: cs => if m = c then afterMark? ms cs else none
  | _ :: _, [] => none

/-- The longest mark at the front. A question mark and a point before a digit are two marks. -/
def scanMark (cs : List Char) : Option (String × List Char) :=
  let long := longMarks.findSome? fun m =>
    match afterMark? m.toList cs with
    | some rest => if m == "?." && rest.head?.any Char.isDigit then none else some (m, rest)
    | none => none
  match long, cs with
  | some found, _ => some found
  | none, c :: rest => if shortMarks.contains c then some (c.toString, rest) else none
  | none, [] => none

/-! ### Comments -/

/-- The inside of a block comment up to its end. -/
def scanBlock : List Char → Option (List Char × List Char)
  | [] => none
  | '*' :: '/' :: rest => some ([], rest)
  | c :: rest => (scanBlock rest).map fun (cs, r) => (c :: cs, r)

/-! ### The main loop -/

/-- The state of the main loop. -/
structure Scan where
  rest : List Char
  /-- The byte offset of `rest`. -/
  offset : Nat
  /-- Whether a line has ended since the last token. -/
  newline : Bool
  /-- Whether the last comment or token was followed by the end of a line. -/
  lineOpen : Bool
  /-- Comments since the last token that go with the next one, the latest first. -/
  pending : List Comment
  /-- Open braces; true for the substitution of a template. -/
  braces : List Bool
  /-- The tokens so far, the latest first. -/
  tokens : List Token
  /-- The comments in front of tokens, the latest first. -/
  comments : List Comment

namespace Scan

def start (cs : List Char) : Scan := ⟨cs, 0, false, false, [], [], [], []⟩

/-- Adds a token of the given text, which the pending comments belong to. -/
def push (s : Scan) (lexeme : Lexeme) (length : Nat) (rest : List Char) : Scan :=
  let owned := s.pending.map fun c => { c with owner := s.offset }
  { s with
    rest
    offset := s.offset + length
    newline := false
    lineOpen := true
    pending := []
    tokens := ⟨lexeme, ⟨s.offset, s.offset + length⟩, s.newline⟩ :: s.tokens
    comments := owned ++ s.comments }

/-- The bytes between the current text and a rest of it. -/
def lengthTo (s : Scan) (rest : List Char) : Nat :=
  bytes (s.rest.take (s.rest.length - rest.length))

def pushTo (s : Scan) (lexeme : Lexeme) (rest : List Char) : Scan :=
  s.push lexeme (s.lengthTo rest) rest

/-- A text that cannot be split ends the tokens. -/
def fail (s : Scan) (problem : Problem) : Scan := s.push (.invalid problem) 0 []

/-- The end of a line. A block comment on the line of a token goes with neither neighbour. -/
def endLine (s : Scan) (rest : List Char) (length : Nat) : Scan :=
  let pending :=
    match s.pending with
    | c :: others => if s.lineOpen then [] else { c with beforeNewline := true } :: others
    | [] => []
  { s with rest, offset := s.offset + length, newline := true, lineOpen := false, pending }

/-- A comment up to the end of its line. On the line of a token it goes with neither neighbour. -/
def lineComment (s : Scan) : Scan :=
  let (text, rest) := s.rest.span fun c => !isLineEnd c
  let comment : Comment := ⟨.line, String.ofList text, !s.lineOpen, true, 0⟩
  { s with
    rest
    offset := s.offset + bytes text
    newline := true
    lineOpen := false
    pending := if s.lineOpen then [] else comment :: s.pending }

def blockComment (s : Scan) (inside rest : List Char) : Scan :=
  let broken := inside.any isLineEnd
  let text := '/' :: '*' :: inside ++ ['*', '/']
  let comment : Comment :=
    ⟨if broken then .lines else .block, String.ofList text, !s.lineOpen, false, 0⟩
  { s with
    rest
    offset := s.offset + bytes text
    newline := s.newline || broken
    pending := comment :: s.pending }

/-- A template piece that begins at the current offset with one character. -/
def templatePiece (s : Scan) (opens : Bool) (inside : List Char) : Scan :=
  match scanTemplate inside with
  | none => s.fail .unterminatedString
  | some (raw, closes, rest) =>
    let s := s.pushTo (.template (quasiOf raw) opens closes) rest
    if closes then s else { s with braces := true :: s.braces }

def wordToken (s : Scan) : Scan :=
  match scanWord s.rest.length s.rest with
  | some (cs, escaped, rest) => s.pushTo (.word (String.ofList cs) escaped) rest
  | none => s.fail .invalidEscape

def privateToken (s : Scan) (inside : List Char) : Scan :=
  match scanWord inside.length inside with
  | some ([], _, _) => s.fail (.invalidCharacter '#')
  | some (cs, _, rest) => s.pushTo (.privateName (String.ofList cs)) rest
  | none => s.fail .invalidEscape

def stringToken (s : Scan) (quote : Char) (inside : List Char) : Scan :=
  match scanString quote (inside.length + 1) inside with
  | .error p => s.fail p
  | .ok (units, rest) =>
    let raw := inside.take (inside.length - rest.length - 1)
    s.pushTo (.string (textOf units) (String.ofList raw)) rest

def numberToken (s : Scan) : Scan :=
  let (lexeme, rest) := scanWholeNumber s.rest
  match lexeme with
  | .invalid p =>
    let s := { s with offset := s.offset + s.lengthTo rest, rest }
    s.fail p
  | lexeme => s.pushTo lexeme rest

/-- Every other token by its first character. -/
def otherToken (s : Scan) (c : Char) (rest : List Char) : Scan :=
  if c == '\'' || c == '"' then s.stringToken c rest
  else if c == '`' then s.templatePiece true rest
  else if c == '\x7b' then
    let s := s.pushTo (.mark "\x7b") rest
    { s with braces := false :: s.braces }
  else if c == '\x7d' then
    match s.braces with
    | true :: outer => { s with braces := outer }.templatePiece false rest
    | _ => { s with braces := s.braces.tail }.pushTo (.mark "\x7d") rest
  else if c == '#' then s.privateToken rest
  else if c.isDigit || (c == '.' && rest.head?.any Char.isDigit) then s.numberToken
  else if isIdentifierStart c || c == '\\' then s.wordToken
  else
    match scanMark s.rest with
    | some (m, rest) => s.pushTo (.mark m) rest
    | none => s.fail (.invalidCharacter c)

/-- One blank, one comment or one token. -/
def step (s : Scan) : Scan :=
  match s.rest with
  | [] => s
  | '\r' :: '\n' :: rest => s.endLine rest 2
  | '/' :: '/' :: _ => s.lineComment
  | '/' :: '*' :: rest =>
    match scanBlock rest with
    | some (inside, rest) => s.blockComment inside rest
    | none => s.fail .unterminatedComment
  | c :: rest =>
    if isLineEnd c then s.endLine rest c.utf8Size
    else if isSpace c then { s with rest, offset := s.offset + c.utf8Size }
    else s.otherToken c rest

/-- Steps until the text is used up. -/
def run : Nat → Scan → Scan
  | 0, s => s
  | budget + 1, s => if s.rest.isEmpty then s else run budget s.step

end Scan

/-- The tokens of a text, the end of it last, and the comments in front of them. -/
def tokenize (cs : List Char) : List Token × List Comment :=
  let s := (Scan.run cs.length (Scan.start cs)).push .eof 0 []
  (s.tokens.reverse, s.comments.reverse)

end CallBridge.Script
