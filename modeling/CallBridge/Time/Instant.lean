/-!
# Instants

A point in time is a count of seconds since the start of 1970 and nanoseconds, both in UTC. A leap
second is the second before it with a billion nanoseconds more. Dates follow the Gregorian
calendar; `daysBefore` and `dateOf` turn them into days and back.
-/

namespace CallBridge.Time

structure Instant where
  seconds : Int
  /-- Below two billion; from one billion on, a leap second. -/
  nanos : Nat
  deriving DecidableEq, Repr

namespace Instant

/-- The order of time. -/
def atOrAfter (a b : Instant) : Bool :=
  b.seconds < a.seconds || (a.seconds == b.seconds && b.nanos ≤ a.nanos)

/-- The instant a number of seconds earlier. -/
def minusSeconds (a : Instant) (n : Int) : Instant := ⟨a.seconds - n, a.nanos⟩

end Instant

/-! ### Dates -/

structure Date where
  year : Int
  month : Nat
  day : Nat
  deriving DecidableEq, Repr

def isLeapYear (y : Int) : Bool := y % 4 == 0 && (y % 100 != 0 || y % 400 == 0)

def daysInMonth (y : Int) (m : Nat) : Nat :=
  match m with
  | 2 => if isLeapYear y then 29 else 28
  | 4 | 6 | 9 | 11 => 30
  | _ => 31

/-- The days of the months before one. -/
def daysBeforeMonth (y : Int) : Nat → Nat
  | 0 => 0
  | m + 1 => daysBeforeMonth y m + if m = 0 then 0 else daysInMonth y m

/-- The days from the first day of the year 0 to that of another year. -/
def daysBeforeYear (y : Int) : Int := 365 * y + (y + 3) / 4 - (y + 99) / 100 + (y + 399) / 400

/-- The days from the first day of the year 0 to the start of 1970. -/
def epochDay : Int := daysBeforeYear 1970

/-- The days from the start of 1970 to a date. -/
def daysBefore (d : Date) : Int :=
  daysBeforeYear d.year + daysBeforeMonth d.year d.month + d.day - 1 - epochDay

/-- The month and day of a day of a year, counted from zero, from a month on. -/
def monthAndDay (y : Int) : Nat → Nat → Nat → Nat × Nat
  | 0, m, day => (m, day + 1)
  | fuel + 1, m, day =>
    if day < daysInMonth y m then (m, day + 1)
    else monthAndDay y fuel (m + 1) (day - daysInMonth y m)

/-- The date of a day since the start of 1970. -/
def dateOf (days : Int) : Date :=
  let n := days + epochDay
  -- the estimate is at most one year off
  let guess := n * 400 / 146097
  let y := if n < daysBeforeYear guess then guess - 1
    else if daysBeforeYear (guess + 1) ≤ n then guess + 1 else guess
  let (m, d) := monthAndDay y 11 1 (n - daysBeforeYear y).toNat
  ⟨y, m, d⟩

/-! ### Spans -/

/-- Why there is no instant a number of seconds earlier. -/
inductive SpanProblem where
  /-- The milliseconds of the span leave 64 bits. -/
  | tooLong
  /-- The instant is outside the calendar. -/
  | outsideCalendar
  deriving DecidableEq, Repr

def SpanProblem.message : SpanProblem → String
  | tooLong => "TimeDelta::seconds out of bounds"
  | outsideCalendar => "`DateTime - TimeDelta` overflowed"

/-- The years of the calendar. -/
def isCalendarYear (y : Int) : Bool := -262143 ≤ y && y ≤ 262142

def spanProblem? (now : Instant) (seconds : Int) : Option SpanProblem :=
  if 9223372036854775 < seconds.natAbs then some .tooLong
  else if !isCalendarYear (dateOf ((now.seconds - seconds) / 86400)).year then
    some .outsideCalendar
  else none

end CallBridge.Time
