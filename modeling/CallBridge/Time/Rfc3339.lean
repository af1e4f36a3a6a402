import CallBridge.Text.Word
import CallBridge.Time.Instant

/-!
# Instants as text

Instants are written as RFC 3339 in UTC, with as many groups of three digits behind the point as
are needed. Reading is looser: blanks may stand around the parts, numbers may lack leading zeros, a
space may stand for the `T`, and the offset may be `Z`, `UTC` or hours and minutes.
-/

namespace CallBridge.Time

open Text

/-! ### Reading -/

/-- A scanner over the text still to be read. -/
abbrev Scan := StateT (List Char) Option

namespace Scan

def skipBlanks : Scan Unit := modify (·.dropWhile isBlank)

def fail {α : Type} : Scan α := fun _ => none

/-- Takes a character that is one of some. -/
def oneOf (cs : List Char) : Scan Char := do
  match ← get with
  | c :: rest =>
    if cs.contains c then
      set rest
      return c
    else fail
  | [] => fail

/-- Takes a character, blanks in front of it. -/
def mark (c : Char) : Scan Unit := do
  skipBlanks
  let _ ← oneOf [c]

/-- At least one digit and at most `width` of them. -/
def digits (width : Nat) : Scan (List Char) := do
  let ds := ((← get).take width).takeWhile Char.isDigit
  if ds.isEmpty then fail
  set ((← get).drop ds.length)
  return ds

def valueOf (ds : List Char) : Nat := ds.foldl (fun n c => n * 10 + (c.toNat - 48)) 0

/-- A number of at most `width` digits within bounds, blanks in front of it. -/
def number (width low high : Nat) : Scan Nat := do
  skipBlanks
  let n := valueOf (← digits width)
  if low ≤ n && n ≤ high then return n else fail

/-- A year: four digits, or any number of them behind a sign. -/
def year : Scan Int := do
  skipBlanks
  let y : Int ←
    match ← get with
    | '-' :: rest => do
      set rest
      pure (-(valueOf (← digits rest.length) : Int))
    | '+' :: rest => do
      set rest
      pure (valueOf (← digits rest.length) : Int)
    | _ => pure (valueOf (← digits 4) : Int)
  if -262143 ≤ y && y ≤ 262142 then return y else fail

/-- The nanoseconds behind a point; further digits are dropped. -/
def fraction : Scan Nat := do
  match ← get with
  | '.' :: rest =>
    set rest
    let ds ← digits 9
    modify (·.dropWhile Char.isDigit)
    return valueOf ds * Nat.pow 10 (9 - ds.length)
  | _ => return 0

/-- Exactly two digits, the first one within bounds. -/
def twoDigits (highest : Char) : Scan Nat := do
  match ← get with
  | a :: b :: rest =>
    if a.isDigit && b.isDigit && a ≤ highest then
      set rest
      return valueOf [a, b]
    else fail
  | _ => fail

/-- The seconds that local time is ahead of UTC. -/
def offset : Scan Int := do
  skipBlanks
  match ← get with
  | 'Z' :: rest | 'z' :: rest =>
    set rest
    return 0
  | cs =>
    if (cs.take 3).map Char.toLower == "utc".toList then
      set (cs.drop 3)
      return 0
    else
      let sign ← oneOf ['+', '-', '−']
      let hours ← twoDigits '9'
      modify (·.dropWhile fun c => c == ':' || isBlank c)
      let minutes ← twoDigits '5'
      let seconds : Int := hours * 3600 + minutes * 60
      if 86400 ≤ seconds then fail
      return if sign == '+' then seconds else -seconds

/-- A date, a time of day and an offset. -/
def instant : Scan Instant := do
  let y ← year
  mark '-'
  let m ← number 2 1 12
  mark '-'
  let d ← number 2 1 31
  if daysInMonth y m < d then fail
  let _ ← oneOf ['T', 't', ' ']
  let hour ← number 2 0 23
  mark ':'
  let minute ← number 2 0 59
  mark ':'
  let second ← number 2 0 60
  let nanos ← fraction
  let ahead ← offset
  skipBlanks
  unless (← get).isEmpty do fail
  let day : Int := hour * 3600 + minute * 60 + (if second = 60 then 59 else second)
  let leap := if second = 60 then 1000000000 else 0
  return ⟨daysBefore ⟨y, m, d⟩ * 86400 + day - ahead, nanos + leap⟩

end Scan

/-- Reads an instant. -/
def readInstant? (text : String) : Option Instant := (Scan.instant.run text.toList).map Prod.fst

/-! ### Writing -/

/-- A number with leading zeros. -/
def padded (width n : Nat) : List Char :=
  let ds := Nat.toDigits 10 n
  List.replicate (width - ds.length) '0' ++ ds

/-- Years of four digits have no sign. -/
def writeYear (y : Int) : List Char :=
  if 0 ≤ y && y ≤ 9999 then padded 4 y.toNat
  else (if y < 0 then '-' else '+') :: padded 4 y.natAbs

/-- Nanoseconds behind a point, without trailing groups of zeros. -/
def writeFraction (nanos : Nat) : List Char :=
  if nanos = 0 then []
  else if nanos % 1000000 = 0 then '.' :: padded 3 (nanos / 1000000)
  else if nanos % 1000 = 0 then '.' :: padded 6 (nanos / 1000)
  else '.' :: padded 9 nanos

/-- The text of an instant. -/
def Instant.write (t : Instant) : String :=
  let date := dateOf (t.seconds / 86400)
  let time := (t.seconds % 86400).toNat
  let leap := 1000000000 ≤ t.nanos
  let second := time % 60 + if leap then 1 else 0
  String.ofList <|
    writeYear date.year ++ '-' :: padded 2 date.month ++ '-' :: padded 2 date.day ++
      'T' :: padded 2 (time / 3600) ++ ':' :: padded 2 (time / 60 % 60) ++ ':' :: padded 2 second ++
      writeFraction (t.nanos % 1000000000) ++ "+00:00".toList

end CallBridge.Time
