import ResourceQuery.Number.Decimal
import ResourceQuery.Time.Timestamp

/-! # RFC 3339 texts

Timestamps in texts: `2020-01-02T03:04:05.25+01:00`. Reading takes any one ASCII character between
date and time, either case of `Z`, and one or more fraction digits, of which nine count. A second of
60 is only read at the end of a month of universal time and then stands for the last nanosecond before
it. Writing uses `T`, `Z` for offset zero and no trailing zeros in the fraction.
-/

namespace ResourceQuery

namespace Timestamp

/-! ## Reading -/

/-- The number written by exactly `n` digits at the start of `cs`, and what follows. -/
def fixedDigits (n : Nat) (cs : List Char) : Option (Nat × List Char) :=
  (Decimal.natural? (cs.take n)).bind fun value =>
    if (cs.take n).length = n then some (value, cs.drop n) else none

/-- What follows the character `c` at the start of `cs`. -/
def afterChar (c : Char) : List Char → Option (List Char)
  | [] => none
  | d :: rest => if c = d then some rest else none

/-- The nanoseconds of an optional fraction, and what follows. -/
def fraction? : List Char → Option (Nat × List Char)
  | '.' :: rest =>
    let (digits, after) := Decimal.spanDigits rest
    if digits.isEmpty then none
    else
      let nine := (digits ++ List.replicate 9 '0').take 9
      some (Decimal.valueFrom 0 nine, after)
  | cs => some (0, cs)

/-- The offset that `cs` writes, in minutes: `Z`, or a sign, hours and minutes. -/
def offset? : List Char → Option Int
  | [c] => if c = 'Z' ∨ c = 'z' then some 0 else none
  | sign :: rest => do
    let (hours, rest) ← fixedDigits 2 rest
    let rest ← afterChar ':' rest
    let (minutes, rest) ← fixedDigits 2 rest
    if hours ≤ 23 ∧ minutes ≤ 59 ∧ rest.isEmpty then
      let total : Int := (hours * 60 + minutes : Nat)
      if sign = '+' then some total
      else if sign = '-' then some (-total)
      else none
    else none
  | [] => none

/-- Whether the fields of `t` name a day of the calendar and a time of day. -/
def isValid (t : Timestamp) : Bool :=
  1 ≤ t.month && t.month ≤ 12 && 1 ≤ t.day && t.day ≤ daysInMonth t.year t.month &&
    t.hour ≤ 23 && t.minute ≤ 59 && t.second ≤ 59

/-- The timestamp that `s` writes. -/
def parse? (s : String) : Option Timestamp := do
  let (year, cs) ← fixedDigits 4 s.toList
  let cs ← afterChar '-' cs
  let (month, cs) ← fixedDigits 2 cs
  let cs ← afterChar '-' cs
  let (day, cs) ← fixedDigits 2 cs
  let cs ← match cs with
    | c :: rest => if c.toNat < 128 then some rest else none
    | [] => none
  let (hour, cs) ← fixedDigits 2 cs
  let cs ← afterChar ':' cs
  let (minute, cs) ← fixedDigits 2 cs
  let cs ← afterChar ':' cs
  let (second, cs) ← fixedDigits 2 cs
  let (nanosecond, cs) ← fraction? cs
  let offset ← offset? cs
  let leap := second == 60
  let t : Timestamp :=
    if leap then ⟨year, month, day, hour, minute, 59, 999999999, offset⟩
    else ⟨year, month, day, hour, minute, second, nanosecond, offset⟩
  if t.isValid && (!leap || t.endsUniversalMonth) then some t else none

/-! ## Writing -/

/-- `n` with at least `width` digits. -/
def padded (width n : Nat) : String :=
  Text.padLeft '0' width (Decimal.naturalText n)

/-- Nine fraction digits without trailing zeros, but at least `least` of them. -/
def fractionDigits (least nanosecond : Nat) : String :=
  let nine := (padded 9 nanosecond).toList
  let kept := (nine.reverse.dropWhile (· == '0')).reverse
  String.ofList (if kept.length < least then nine.take least else kept)

/-- Sign, hours and minutes of an offset. -/
def offsetText (offset : Int) : String :=
  (if offset < 0 then "-" else "+") ++ padded 2 (offset.natAbs / 60) ++ ":" ++
    padded 2 (offset.natAbs % 60)

/-- The RFC 3339 text of `t`. -/
def format (t : Timestamp) : String :=
  padded 4 t.year ++ "-" ++ padded 2 t.month ++ "-" ++ padded 2 t.day ++ "T" ++
    padded 2 t.hour ++ ":" ++ padded 2 t.minute ++ ":" ++ padded 2 t.second ++
    (if t.nanosecond = 0 then "" else "." ++ fractionDigits 1 t.nanosecond) ++
    (if t.offset = 0 then "Z" else offsetText t.offset)

/-- The long text of `t`, as messages show it: `2020-01-02 3:04:05.0 +00:00:00`. -/
def describe (t : Timestamp) : String :=
  padded 4 t.year ++ "-" ++ padded 2 t.month ++ "-" ++ padded 2 t.day ++ " " ++
    Decimal.naturalText t.hour ++ ":" ++ padded 2 t.minute ++ ":" ++ padded 2 t.second ++ "." ++
    fractionDigits 1 t.nanosecond ++ " " ++ offsetText t.offset ++ ":00"

end Timestamp

end ResourceQuery
