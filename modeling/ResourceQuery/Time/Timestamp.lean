/-! # Timestamps

A calendar date and a time of day to the nanosecond, with the offset from universal time at which they
were read. Two timestamps are the same, and are ordered, by the instant they denote; the offset only
matters for how a timestamp is written.
-/

namespace ResourceQuery

/-- A local date and time and the offset it is local to. -/
structure Timestamp where
  year : Nat
  month : Nat
  day : Nat
  hour : Nat
  minute : Nat
  second : Nat
  nanosecond : Nat
  /-- Minutes east of universal time. -/
  offset : Int
  deriving DecidableEq

namespace Timestamp

/-! ## The calendar -/

/-- Whether `year` has 366 days. -/
def isLeapYear (year : Nat) : Bool :=
  year % 4 == 0 && (year % 100 != 0 || year % 400 == 0)

/-- Days of `month`, which counts from 1. -/
def daysInMonth (year month : Nat) : Nat :=
  match month with
  | 2 => if isLeapYear year then 29 else 28
  | 4 | 6 | 9 | 11 => 30
  | _ => 31

/-- Days from the first of January of year 0 to the first of January of `year`. -/
def daysBeforeYear (year : Nat) : Int :=
  let leapYears : Int := if year = 0 then 0 else
    let last : Int := (year : Int) - 1
    last / 4 - last / 100 + last / 400 + 1
  365 * year + leapYears

/-- Days from the first of January to the first of `month`. -/
def daysBeforeMonth (year month : Nat) : Nat :=
  (List.range (month - 1)).foldl (fun days m => days + daysInMonth year (m + 1)) 0

/-- Days from the first of January of year 0. -/
def dayNumber (t : Timestamp) : Int :=
  daysBeforeYear t.year + daysBeforeMonth t.year t.month + (t.day - 1)

/-! ## Instants -/

/-- Seconds of universal time from the start of year 0. -/
def universalSeconds (t : Timestamp) : Int :=
  ((dayNumber t * 24 + t.hour) * 60 + t.minute - t.offset) * 60 + t.second

/-- The instant denoted, in nanoseconds from the start of year 0 in universal time. -/
def instant (t : Timestamp) : Int :=
  universalSeconds t * 1000000000 + t.nanosecond

/-- Whether two timestamps denote the same instant. -/
def sameInstant (a b : Timestamp) : Bool :=
  a.instant == b.instant

/-- Order of the instants denoted. -/
def compare (a b : Timestamp) : Ordering :=
  Ord.compare a.instant b.instant

/-- Whether `t` falls into the last second of a month of universal time, the only place where a leap
second may be. -/
def endsUniversalMonth (t : Timestamp) : Bool :=
  let next := universalSeconds t + 1
  let day := next / 86400
  next % 86400 == 0 && (isFirstOfMonth t.year day || isFirstOfMonth (t.year + 1) day)
where
  /-- Whether day number `day` is the first of a month of `year`. -/
  isFirstOfMonth (year : Nat) (day : Int) : Bool :=
    (List.range 12).any fun m => daysBeforeYear year + daysBeforeMonth year (m + 1) == day

end Timestamp

end ResourceQuery
