import ResourceQuery.Json.Basic
import ResourceQuery.Number.Decimal

/-! # Reading JSON

`Json.parse?` reads a document from a text. Of two members with one name the later stays; nesting is
limited; a number with a point or an exponent, beyond 64 bits, or `-0` is a float.

The value of a float comes from at most 64 bits of its digits, scaled by a power of ten in one
floating-point multiplication or division. That is not always the float nearest to the digits.
-/

namespace ResourceQuery

namespace Json

/-! ## Numbers -/

/-- The digits at the start of `cs` taken into a 64-bit number for as long as it holds them: the
number, how many digits went into it, how many were left out, and what follows. -/
def takeDigits : List Char → (value taken dropped : Nat) → Nat × Nat × Nat × List Char
  | c :: rest, value, taken, dropped =>
    if c.isDigit then
      let next := 10 * value + (c.toNat - 48)
      if dropped = 0 ∧ next < Word.uint64Bound then takeDigits rest next (taken + 1) 0
      else takeDigits rest value taken (dropped + 1)
    else (value, taken, dropped, c :: rest)
  | [], value, taken, dropped => (value, taken, dropped, [])

/-- Divides by ten to the `exponent`, in steps of at most 308. -/
def divideByPower : Nat → Float → Nat → Float
  | 0, x, _ => x
  | fuel + 1, x, exponent =>
    if exponent ≤ 308 then x / Binary64.ofDecimal false 1 exponent
    else divideByPower fuel (x / Binary64.ofDecimal false 1 308) (exponent - 308)

/-- `digits * 10 ^ exponent` in floating point; `none` if that is out of range. -/
def scale? (negative : Bool) (digits : Nat) (exponent : Int) : Option Float :=
  let start := (UInt64.ofNat digits).toFloat
  let signed (x : Float) := if negative then -x else x
  if 0 ≤ exponent then
    if 308 < exponent then if digits = 0 then some (signed start) else none
    else
      let x := start * Binary64.ofDecimal false 1 exponent
      if x.isInf then none else some (signed x)
  else if exponent < -1000 then some (signed 0.0)
  else some (signed (divideByPower 8 start (-exponent).toNat))

/-- Reads the exponent after `e`: a sign and at least one digit. -/
def exponent? (cs : List Char) : Option (Int × List Char) :=
  let (negative, cs) :=
    match cs with
    | '+' :: rest => (false, rest)
    | '-' :: rest => (true, rest)
    | _ => (false, cs)
  let (digits, rest) := Decimal.spanDigits cs
  if digits.isEmpty then none
  else
    let value : Int := Decimal.valueFrom 0 digits
    some (if negative then -value else value, rest)

/-- Reads the number whose digits start `cs`, after a minus sign if `negative`. -/
def number? (negative : Bool) (cs : List Char) : Option (JsonNumber × List Char) := do
  let (digits, _) := Decimal.spanDigits cs
  if digits.isEmpty || (digits.head? == some '0' && 1 < digits.length) then none
  else
    let (value, _, dropped, rest) := takeDigits cs 0 0 0
    let point : Bool := rest.head? == some '.'
    let (value, exponent, rest) ←
      if point then
        let fraction := rest.drop 1
        if (Decimal.spanDigits fraction).1.isEmpty then none
        else
          let (value, taken, _, rest) := takeDigits fraction value 0 0
          some (value, (dropped : Int) - taken, rest)
      else some (value, (dropped : Int), rest)
    match rest with
    | e :: more =>
      if e = 'e' ∨ e = 'E' then
        let (shift, rest) ← exponent? more
        let x ← scale? negative value (exponent + shift)
        some (.float x, rest)
      else finish negative point dropped value exponent rest
    | [] => finish negative point dropped value exponent rest
where
  /-- A number without exponent: whole if it has no point and fits, else a float. -/
  finish (negative point : Bool) (dropped value : Nat) (exponent : Int) (rest : List Char) :
      Option (JsonNumber × List Char) :=
    if point || 0 < dropped then (scale? negative value exponent).map fun x => (.float x, rest)
    else if !negative then some (.whole value, rest)
    else if value = 0 then some (.float (-0.0), rest)
    else if (value : Int) ≤ Word.int64Bound then some (.whole (-value), rest)
    else some (.float (-(UInt64.ofNat value).toFloat), rest)

/-! ## Strings -/

/-- The value of four hexadecimal digits. -/
def hexFour? : List Char → Option (Nat × List Char)
  | a :: b :: c :: d :: rest => do
    let a ← digit? a
    let b ← digit? b
    let c ← digit? c
    let d ← digit? d
    some (((a * 16 + b) * 16 + c) * 16 + d, rest)
  | _ => none
where
  /-- The value of one hexadecimal digit. -/
  digit? (c : Char) : Option Nat :=
    if c.isDigit then some (c.toNat - 48)
    else if 'a' ≤ c ∧ c ≤ 'f' then some (c.toNat - 87)
    else if 'A' ≤ c ∧ c ≤ 'F' then some (c.toNat - 55)
    else none

/-- The character of an escape, read after its backslash. A character beyond the basic plane is
written as two surrogates; a surrogate alone is an error. -/
def escape? : List Char → Option (Char × List Char)
  | '"' :: rest => some ('"', rest)
  | '\\' :: rest => some ('\\', rest)
  | '/' :: rest => some ('/', rest)
  | 'b' :: rest => some ('\x08', rest)
  | 'f' :: rest => some ('\x0c', rest)
  | 'n' :: rest => some ('\n', rest)
  | 'r' :: rest => some ('\r', rest)
  | 't' :: rest => some ('\t', rest)
  | 'u' :: rest => do
    let (high, rest) ← hexFour? rest
    if 0xDC00 ≤ high ∧ high ≤ 0xDFFF then none
    else if 0xD800 ≤ high ∧ high ≤ 0xDBFF then
      match rest with
      | '\\' :: 'u' :: rest =>
        let (low, rest) ← hexFour? rest
        if 0xDC00 ≤ low ∧ low ≤ 0xDFFF then
          some (Char.ofNat (0x10000 + (high - 0xD800) * 0x400 + (low - 0xDC00)), rest)
        else none
      | _ => none
    else some (Char.ofNat high, rest)
  | _ => none

/-- Reads a string after its opening quote; `done` holds the characters read, last first. -/
def string? : (fuel : Nat) → (done : List Char) → List Char → Option (String × List Char)
  | 0, _, _ => none
  | _ + 1, _, [] => none
  | fuel + 1, done, c :: rest =>
    if c = '"' then some (String.ofList done.reverse, rest)
    else if c = '\\' then
      (escape? rest).bind fun (d, rest) => string? fuel (d :: done) rest
    else if c.toNat < 32 then none
    else string? fuel (c :: done) rest

/-! ## Documents -/

/-- The characters allowed between tokens. -/
def isBlank (c : Char) : Bool :=
  c == ' ' || c == '\n' || c == '\t' || c == '\r'

/-- `cs` without blanks at its start. -/
def skipBlanks (cs : List Char) : List Char :=
  cs.dropWhile isBlank

/-- Reads the items of an array after its opening bracket, each with `item`. -/
def items? (item : List Char → Option (Json × List Char)) :
    (fuel : Nat) → (done : List Json) → List Char → Option (Json × List Char)
  | 0, _, _ => none
  | fuel + 1, done, cs => do
    let (value, rest) ← item cs
    match skipBlanks rest with
    | ',' :: rest => items? item fuel (value :: done) rest
    | ']' :: rest => some (.array (value :: done).reverse, rest)
    | _ => none

/-- Reads the members of an object after its opening brace, their values with `item`. -/
def members? (item : List Char → Option (Json × List Char)) :
    (fuel : Nat) → (done : Entries Json) → List Char → Option (Json × List Char)
  | 0, _, _ => none
  | fuel + 1, done, cs => do
    match skipBlanks cs with
    | '"' :: rest =>
      let (name, rest) ← string? (rest.length + 1) [] rest
      match skipBlanks rest with
      | ':' :: rest =>
        let (value, rest) ← item rest
        let done := Entries.insert name value done
        match skipBlanks rest with
        | ',' :: rest => members? item fuel done rest
        | '\x7d' :: rest => some (.object done, rest)
        | _ => none
      | _ => none
    | _ => none

/-- Reads one value; `depth` arrays and objects may be open at once. -/
def value? : (depth : Nat) → List Char → Option (Json × List Char)
  | depth, cs =>
    match skipBlanks cs with
    | 'n' :: 'u' :: 'l' :: 'l' :: rest => some (.null, rest)
    | 't' :: 'r' :: 'u' :: 'e' :: rest => some (.bool true, rest)
    | 'f' :: 'a' :: 'l' :: 's' :: 'e' :: rest => some (.bool false, rest)
    | '"' :: rest => (string? (rest.length + 1) [] rest).map fun (s, rest) => (.string s, rest)
    | '[' :: rest =>
      match depth with
      | 0 => none
      | depth + 1 =>
        match skipBlanks rest with
        | ']' :: rest => some (.array [], rest)
        | rest => items? (value? depth) (rest.length + 1) [] rest
    | '\x7b' :: rest =>
      match depth with
      | 0 => none
      | depth + 1 =>
        match skipBlanks rest with
        | '\x7d' :: rest => some (.object [], rest)
        | rest => members? (value? depth) (rest.length + 1) [] rest
    | '-' :: rest => (number? true rest).map fun (n, rest) => (.number n, rest)
    | rest => (number? false rest).map fun (n, rest) => (.number n, rest)

/-- The document that `text` writes, with at most `depth` arrays and objects inside each other. -/
def parseWithin? (depth : Nat) (text : String) : Option Json := do
  let (json, rest) ← value? depth text.toList
  if (skipBlanks rest).isEmpty then some json else none

/-- The document that `text` writes. -/
def parse? (text : String) : Option Json :=
  parseWithin? 127 text

end Json

end ResourceQuery
