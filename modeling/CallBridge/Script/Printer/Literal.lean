import CallBridge.Number.Shortest
import CallBridge.Script.Token
import CallBridge.Text.Quoted

/-!
# Literals as printed

Strings stand in double quotes, and a text that could end a surrounding `script` element is broken
up. A number is written in the shortest of its spellings: decimal, hexadecimal or with an exponent.
-/

namespace CallBridge.Script

open CallBridge.Number CallBridge.Text

/-! ### Strings -/

/-- Whether a text continues `<` to the end tag of a `script` element. -/
def closesScript (rest : List Char) : Bool :=
  (rest.take 7).map Char.toLower == "/script".toList

/-- A text with a backslash in each end tag of a `script` element. -/
def breakScript : List Char → List Char
  | [] => []
  | '<' :: rest =>
    if closesScript rest then '<' :: '\\' :: breakScript rest else '<' :: breakScript rest
  | c :: rest => c :: breakScript rest

/-- The escape of a character inside double quotes; the character after it tells whether a NUL
needs two digits. -/
def escapeChar (c : Char) (next : Option Char) : List Char :=
  match c.toNat with
  | 0 => if next.any Char.isDigit then "\\x00".toList else "\\0".toList
  | 7 => "\\x07".toList
  | 8 => "\\b".toList
  | 10 => "\\n".toList
  | 11 => "\\v".toList
  | 12 => "\\f".toList
  | 13 => "\\r".toList
  | 27 => "\\x1B".toList
  | 34 => "\\\"".toList
  | 92 => "\\\\".toList
  | 0xa0 => "\\xA0".toList
  | 0x2028 => "\\u2028".toList
  | 0x2029 => "\\u2029".toList
  | _ => [c]

/-- The inside of a string. In a text with half surrogate pairs each replacement character stands
for the unit that the four digits after it spell, which may be the character itself. -/
def escapeString (halves : Bool) : List Char → List Char
  | [] => []
  | '\ufffd' :: a :: b :: c :: d :: rest =>
    if halves then
      (if [a, b, c, d] == "fffd".toList then ['\ufffd'] else '\\' :: 'u' :: [a, b, c, d]) ++
        escapeString halves rest
    else '\ufffd' :: escapeString halves (a :: b :: c :: d :: rest)
  | '<' :: rest =>
    if closesScript rest then '<' :: '\\' :: escapeString halves rest
    else '<' :: escapeString halves rest
  | c :: rest => escapeChar c rest.head? ++ escapeString halves rest

def quoteString (t : Text) : List Char :=
  '"' :: escapeString t.halves t.value.toList ++ ['"']

/-- A directive as written, in single quotes if it has a double quote before any single one. -/
def quoteDirective (raw : String) : List Char :=
  let mark := if singleQuoted raw.toList then '\'' else '"'
  mark :: raw.toList ++ [mark]
where
  singleQuoted : List Char → Bool
    | [] => false
    | '\\' :: _ :: rest => singleQuoted rest
    | '"' :: _ => true
    | '\'' :: _ => false
    | _ :: rest => singleQuoted rest

/-! ### Numbers -/

/-- The usual text of a decimal, positional from `1e-6` up to `1e21`, less the zero in front of
the point. -/
def decimalText (d : Decimal) : List Char :=
  let n := d.digits.length
  let k := d.point
  if n ≤ k ∧ k ≤ 21 then d.digits ++ List.replicate (k - n).toNat '0'
  else if 0 < k ∧ k ≤ 21 then d.digits.take k.toNat ++ '.' :: d.digits.drop k.toNat
  else if -6 < k ∧ k ≤ 0 then '.' :: List.replicate (-k).toNat '0' ++ d.digits
  else
    let exponent := 'e' :: (toString (k - 1)).toList
    match d.digits with
    | c :: rest => if rest.isEmpty then c :: exponent else c :: '.' :: rest ++ exponent
    | [] => exponent

/-- The first text unless the second is shorter. -/
def shorter (best candidate : List Char) : List Char :=
  if candidate.length < best.length then candidate else best

/-- Zeros at the end as an exponent, if that is shorter. -/
def foldZeros (best : List Char) : List Char :=
  let base := (best.reverse.dropWhile (· == '0')).reverse
  let zeros := best.length - base.length
  if zeros = 0 ∨ base.isEmpty then best else shorter best (base ++ 'e' :: digitsOf zeros)

/-- Zeros behind the point as an exponent, if that is shorter. -/
def foldLeading (best : List Char) : List Char :=
  match best with
  | '.' :: '0' :: rest =>
    let digits := rest.dropWhile (· == '0')
    shorter best (digits ++ 'e' :: '-' :: digitsOf (best.length - 1))
  | _ => best

/-- A point in front of an exponent taken into it, if that is shorter. -/
def foldPoint (best : List Char) : List Char :=
  let (whole, rest) := best.span (· != '.')
  let (fraction, rest) := (rest.drop 1).span (· != 'e')
  match rest with
  | 'e' :: exponent =>
    match (String.ofList exponent).toInt? with
    | some n =>
      shorter best (whole ++ fraction ++ 'e' :: (toString (n - fraction.length)).toList)
    | none => best
  | _ => best

/-- The text of a number. -/
def numberText (x : Magnitude) : List Char :=
  match x with
  | .infinite => "Infinity".toList
  | .finite m e =>
    let decimal := decimalText (shortest m e)
    match x.toNat? with
    | some n =>
      if n < 1000 then digitsOf n
      else
        let hex := '0' :: 'x' :: hexDigits n
        if hex.length < decimal.length then hex else foldPoint (foldZeros decimal)
    | none => foldPoint (foldZeros (foldLeading decimal))

/-- Whether a point behind the text of a number would be read as its decimal point. -/
def takesPoint (x : Magnitude) : Bool :=
  x != .infinite && !(numberText x).any fun c => c == '.' || c == 'e' || c == 'x'

end CallBridge.Script
