import ResourceQuery.Number.Decimal
import ResourceQuery.Time.Rfc3339
import ResourceQuery.Toml.Basic

/-! # TOML scalars

Numbers, dates, times and strings of a configuration file. Numbers and dates are read from the longest
run of characters that can belong to one, so each reader below takes a whole word or refuses it.
-/

namespace ResourceQuery

namespace Toml

/-! ## Numbers -/

/-- Digits of a base, with single underscores between them: the digits alone. -/
def digitRun? (isDigit : Char → Bool) : List Char → Option (List Char)
  | [] => none
  | [c] => if isDigit c then some [c] else none
  | c :: '_' :: d :: rest =>
    if isDigit c then (digitRun? isDigit (d :: rest)).map (c :: ·) else none
  | c :: rest => if isDigit c then (digitRun? isDigit rest).map (c :: ·) else none

/-- The value of a hexadecimal digit. -/
def hexValue (c : Char) : Nat :=
  if c.isDigit then c.toNat - 48 else c.toLower.toNat - 87

/-- Whether `c` is a hexadecimal digit. -/
def isHexDigit (c : Char) : Bool :=
  c.isDigit || ('a' ≤ c.toLower && c.toLower ≤ 'f')

/-- The number written by `digits` in `base`. -/
def valueIn (base : Nat) (digits : List Char) : Nat :=
  digits.foldl (fun n c => base * n + hexValue c) 0

/-- A whole number in `base`. -/
def radix? (base : Nat) (isDigit : Char → Bool) (cs : List Char) : Option Int64 :=
  (digitRun? isDigit cs).bind fun ds => Word.int64? (valueIn base ds)

/-- Sign and rest of `cs`. -/
def sign (cs : List Char) : Bool × List Char :=
  match cs with
  | '-' :: rest => (true, rest)
  | '+' :: rest => (false, rest)
  | _ => (false, cs)

/-- Decimal digits without a leading zero. -/
def decimalRun? (cs : List Char) : Option (List Char) :=
  match cs with
  | '0' :: _ :: _ => none
  | _ => digitRun? Char.isDigit cs

/-- A whole number: decimal with an optional sign, or hexadecimal, octal or binary without one. -/
def integer? (cs : List Char) : Option Int64 :=
  match cs with
  | '0' :: 'x' :: rest => radix? 16 isHexDigit rest
  | '0' :: 'o' :: rest => radix? 8 (fun c => '0' ≤ c && c ≤ '7') rest
  | '0' :: 'b' :: rest => radix? 2 (fun c => c == '0' || c == '1') rest
  | _ =>
    let (negative, digits) := sign cs
    (decimalRun? digits).bind fun ds =>
      let n : Int := Decimal.valueFrom 0 ds
      Word.int64? (if negative then -n else n)

/-- The digits of an exponent after its `e`, signed. -/
def exponent? (cs : List Char) : Option Int :=
  let (negative, digits) := sign cs
  (digitRun? Char.isDigit digits).map fun ds =>
    let n : Int := Decimal.valueFrom 0 ds
    if negative then -n else n

/-- Splits `cs` before its first `e` of either case, which is dropped. -/
def splitExponent (cs : List Char) : List Char × Option (List Char) :=
  let isMark (c : Char) : Bool := c == 'e' || c == 'E'
  match cs.dropWhile (!isMark ·) with
  | [] => (cs, none)
  | _ :: rest => (cs.takeWhile (!isMark ·), some rest)

/-- A number with a fraction, an exponent or both, or a signed `inf` or `nan`. -/
def float? (cs : List Char) : Option Float := do
  let (negative, body) := sign cs
  if body = ['i', 'n', 'f'] then some (Binary64.infinity negative)
  else if body = ['n', 'a', 'n'] then some (Binary64.notANumber negative)
  else
    let (mantissa, exponentDigits) := splitExponent body
    let whole ← decimalRun? (mantissa.takeWhile (· != '.'))
    let fraction ← match mantissa.dropWhile (· != '.') with
      | [] => some []
      | _ :: rest => digitRun? Char.isDigit rest
    let exponent ← match exponentDigits with
      | none => if fraction.isEmpty then none else some 0
      | some ds => exponent? ds
    let x := Decimal.clamped negative (Decimal.valueFrom 0 (whole ++ fraction))
      (whole.length + fraction.length) (exponent - fraction.length)
    if x.isInf && !negative then none else some x

/-! ## Dates and times -/

/-- A date, and what follows it. -/
def date? (cs : List Char) : Option (String × List Char) := do
  let (year, cs) ← Timestamp.fixedDigits 4 cs
  let cs ← Timestamp.afterChar '-' cs
  let (month, cs) ← Timestamp.fixedDigits 2 cs
  let cs ← Timestamp.afterChar '-' cs
  let (day, cs) ← Timestamp.fixedDigits 2 cs
  if 1 ≤ month ∧ month ≤ 12 ∧ 1 ≤ day ∧ day ≤ Timestamp.daysInMonth year month then
    let text := Timestamp.padded 4 year ++ "-" ++ Timestamp.padded 2 month ++ "-" ++
      Timestamp.padded 2 day
    some (text, cs)
  else none

/-- How dates are read. -/
inductive DateStyle where
  /-- Written as they are: hours up to 23, also in offsets, and minutes up to 59. -/
  | bare
  /-- Written in a text: hour 24 may stand, and an offset may be any number of hours and minutes up to
  a day. -/
  | quoted
  deriving DecidableEq

/-- The last hour of a day. -/
def DateStyle.lastHour : DateStyle → Nat
  | .bare => 23
  | .quoted => 24

/-- The offset that all of `cs` writes: `Z`, or a sign, hours and minutes. -/
def DateStyle.offset? (style : DateStyle) (cs : List Char) : Option Int :=
  match style, cs with
  | .quoted, mark :: rest@(_ :: _) => do
    let (hours, rest) ← Timestamp.fixedDigits 2 rest
    let rest ← Timestamp.afterChar ':' rest
    let (minutes, rest) ← Timestamp.fixedDigits 2 rest
    let total := hours * 60 + minutes
    if rest.isEmpty && total ≤ 24 * 60 then
      if mark = '+' then some total
      else if mark = '-' then some (-total)
      else none
    else none
  | _, cs => Timestamp.offset? cs

/-- A time of day, and what follows it. -/
def time? (style : DateStyle) (cs : List Char) : Option (String × List Char) := do
  let (hour, cs) ← Timestamp.fixedDigits 2 cs
  let cs ← Timestamp.afterChar ':' cs
  let (minute, cs) ← Timestamp.fixedDigits 2 cs
  let cs ← Timestamp.afterChar ':' cs
  let (second, cs) ← Timestamp.fixedDigits 2 cs
  let (nanosecond, cs) ← Timestamp.fraction? cs
  if hour ≤ style.lastHour ∧ minute ≤ 59 ∧ second ≤ 60 then
    let text := Timestamp.padded 2 hour ++ ":" ++ Timestamp.padded 2 minute ++ ":" ++
      Timestamp.padded 2 second ++
      (if nanosecond = 0 then "" else "." ++ Timestamp.fractionDigits 1 nanosecond)
    some (text, cs)
  else none

/-- A date, a time of day, or a date and a time with or without an offset, in normal form. -/
def dateTime? (style : DateStyle) (cs : List Char) : Option String :=
  match date? cs with
  | some (date, []) => some date
  | some (date, mark :: rest) =>
    if mark = 'T' ∨ mark = 't' ∨ mark = ' ' then do
      let (time, rest) ← time? style rest
      if rest.isEmpty then some (date ++ "T" ++ time)
      else
        let offset ← style.offset? rest
        let zone := match rest with
          | [_] => "Z"
          | _ => Timestamp.offsetText offset
        some (date ++ "T" ++ time ++ zone)
    else none
  | none =>
    match time? style cs with
    | some (time, []) => some time
    | _ => none

/-- A date, a number or a truth value, from all of `cs`. -/
def word? (cs : List Char) : Option Toml :=
  if cs = ['t', 'r', 'u', 'e'] then some (.boolean true)
  else if cs = ['f', 'a', 'l', 's', 'e'] then some (.boolean false)
  else
    match dateTime? .bare cs with
    | some text => some (.dateTime text)
    | none =>
      match integer? cs with
      | some n => some (.integer n)
      | none => (float? cs).map .float

/-! ## Strings -/

/-- Whether `c` may stand in a string or a comment. -/
def isPrintable (c : Char) : Bool :=
  c == '\t' || (32 ≤ c.toNat && c.toNat != 127)

/-- The character of a `\u` or `\U` escape with `n` hexadecimal digits. -/
def unicodeEscape? (n : Nat) (cs : List Char) : Option (Char × List Char) :=
  let digits := cs.take n
  if digits.length = n && digits.all isHexDigit then
    let code := valueIn 16 digits
    if Nat.isValidChar code then some (Char.ofNat code, cs.drop n) else none
  else none

/-- The character of an escape, read after its backslash. -/
def escape? : List Char → Option (Char × List Char)
  | 'b' :: rest => some ('\x08', rest)
  | 't' :: rest => some ('\t', rest)
  | 'n' :: rest => some ('\n', rest)
  | 'f' :: rest => some ('\x0c', rest)
  | 'r' :: rest => some ('\r', rest)
  | '"' :: rest => some ('"', rest)
  | '\\' :: rest => some ('\\', rest)
  | 'u' :: rest => unicodeEscape? 4 rest
  | 'U' :: rest => unicodeEscape? 8 rest
  | _ => none

/-- A string on one line, after its opening `quote`; in a literal string a backslash is nothing
special. -/
def line? (quote : Char) (literal : Bool) :
    (fuel : Nat) → (done : List Char) → List Char → Option (String × List Char)
  | 0, _, _ => none
  | _ + 1, _, [] => none
  | fuel + 1, done, c :: rest =>
    if c = quote then some (String.ofList done.reverse, rest)
    else if c = '\\' ∧ !literal then
      (escape? rest).bind fun (d, rest) => line? quote literal fuel (d :: done) rest
    else if isPrintable c then line? quote literal fuel (c :: done) rest
    else none

/-- `cs` after a line end at its start. -/
def afterLineEnd? : List Char → Option (List Char)
  | '\n' :: rest => some rest
  | '\r' :: '\n' :: rest => some rest
  | _ => none

/-- `cs` without the blanks and line ends at its start. -/
def skipBlankLines : List Char → List Char
  | ' ' :: rest => skipBlankLines rest
  | '\t' :: rest => skipBlankLines rest
  | '\n' :: rest => skipBlankLines rest
  | '\r' :: '\n' :: rest => skipBlankLines rest
  | cs => cs

/-- `cs` after a backslash at the end of a line: blanks and line ends up to the next other character,
at least one line end among them. -/
def continuation? (cs : List Char) : Option (List Char) :=
  (afterLineEnd? (cs.dropWhile fun c => c == ' ' || c == '\t')).map skipBlankLines

/-- How many `quote`s start `cs`. -/
def countQuotes (quote : Char) (cs : List Char) : Nat :=
  (cs.takeWhile (· == quote)).length

/-- A string over several lines, after its three opening quotes. Up to two quotes may stand before the
three that close it. -/
def block? (quote : Char) (literal : Bool) :
    (fuel : Nat) → (done : List Char) → List Char → Option (String × List Char)
  | 0, _, _ => none
  | _ + 1, _, [] => none
  | fuel + 1, done, c :: rest =>
    if c = quote then
      let n := countQuotes quote (c :: rest)
      if 6 ≤ n then none
      else if 3 ≤ n then
        some (String.ofList (done.reverse ++ List.replicate (n - 3) quote), rest.drop (n - 1))
      else block? quote literal fuel (c :: done) rest
    else if c = '\\' ∧ !literal then
      match continuation? rest with
      | some rest => block? quote literal fuel done rest
      | none => (escape? rest).bind fun (d, rest) => block? quote literal fuel (d :: done) rest
    else
      match afterLineEnd? (c :: rest) with
      | some after => block? quote literal fuel ('\n' :: done) after
      | none => if isPrintable c then block? quote literal fuel (c :: done) rest else none

/-- A string of any of the four kinds, after its first quote. -/
def string? (quote : Char) (rest : List Char) : Option (String × List Char) :=
  let literal := quote == '\''
  match rest with
  | a :: b :: more =>
    if a = quote ∧ b = quote then
      block? quote literal (more.length + 1) [] ((afterLineEnd? more).getD more)
    else line? quote literal (rest.length + 1) [] rest
  | _ => line? quote literal (rest.length + 1) [] rest

end Toml

end ResourceQuery
