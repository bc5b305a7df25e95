import ResourceQuery.Json.Basic
import ResourceQuery.Number.Decimal

/-! # Writing JSON

`Json.compact` writes a document on one line without blanks, `Json.pretty` with one member or item to
a line. A float is written with the fewest digits that read back, a tie going to the even digit;
whole floats keep `.0`, and outside `1e-5 ≤ |x| < 1e16` an exponent is written.
-/

namespace ResourceQuery

namespace Json

/-! ## Scalars -/

/-- A small hexadecimal digit. -/
def hexDigit (n : Nat) : Char :=
  Char.ofNat (if n < 10 then 48 + n else 87 + n)

/-- One character of a string: quotes, backslashes and control characters are escaped. -/
def escapedChar (c : Char) : List Char :=
  match c with
  | '"' => ['\\', '"']
  | '\\' => ['\\', '\\']
  | '\x08' => ['\\', 'b']
  | '\x0c' => ['\\', 'f']
  | '\n' => ['\\', 'n']
  | '\r' => ['\\', 'r']
  | '\t' => ['\\', 't']
  | c =>
    if c.toNat < 32 then
      ['\\', 'u', '0', '0', hexDigit (c.toNat / 16), hexDigit (c.toNat % 16)]
    else [c]

/-- A text in quotes. -/
def quoted (s : String) : String :=
  String.ofList ('"' :: s.toList.flatMap escapedChar ++ ['"'])

/-- `digits * 10 ^ exponent`: positional for moderate sizes, else with an exponent. -/
def floatDigits (digits : Nat) (exponent : Int) : String :=
  let cs := Nat.toDigits 10 digits
  let point : Int := cs.length + exponent
  if 0 ≤ exponent ∧ point ≤ 16 then Decimal.positional digits exponent ++ ".0"
  else if -5 < point ∧ point ≤ 16 then Decimal.positional digits exponent
  else
    let fraction := if cs.length = 1 then [] else '.' :: cs.drop 1
    String.ofList (cs.take 1 ++ fraction ++ ['e']) ++ Decimal.intText (point - 1)

/-- The text of a number. -/
def numberText : JsonNumber → String
  | .whole n => Decimal.intText n
  | .float x =>
    match Binary64.ofFloat x with
    | .finite negative mantissa exponent =>
      let sign := if negative then "-" else ""
      if mantissa = 0 then sign ++ "0.0"
      else
        let (digits, k) := Shortest.decimal .toEven mantissa exponent
        sign ++ floatDigits digits k
    | _ => "null"

/-! ## Documents -/

mutual

/-- The document on one line, without blanks. -/
def compact : Json → String
  | .null => "null"
  | .bool b => if b then "true" else "false"
  | .number n => numberText n
  | .string s => quoted s
  | .array items => "[" ++ Text.join "," (compactItems items) ++ "]"
  | .object members => "\x7b" ++ Text.join "," (compactMembers members) ++ "\x7d"

/-- The items of an array, each compact. -/
def compactItems : List Json → List String
  | [] => []
  | item :: rest => compact item :: compactItems rest

/-- The members of an object, each compact. -/
def compactMembers : List (String × Json) → List String
  | [] => []
  | (name, value) :: rest => (quoted name ++ ":" ++ compact value) :: compactMembers rest

end

/-- `lines` between brackets, indented one step beyond `indent`. -/
def block (openMark closeMark indent : String) (lines : List String) : String :=
  if lines.isEmpty then openMark ++ closeMark
  else
    openMark ++ "\n" ++ Text.join ",\n" (lines.map fun line => indent ++ "  " ++ line) ++ "\n" ++
      indent ++ closeMark

mutual

/-- The document with one item or member to a line, for a place indented by `indent`. -/
def prettyAt (indent : String) : Json → String
  | .array items => block "[" "]" indent (prettyItems (indent ++ "  ") items)
  | .object members => block "\x7b" "\x7d" indent (prettyMembers (indent ++ "  ") members)
  | .null => "null"
  | .bool b => if b then "true" else "false"
  | .number n => numberText n
  | .string s => quoted s

/-- The items of an array, each for a place indented by `indent`. -/
def prettyItems (indent : String) : List Json → List String
  | [] => []
  | item :: rest => prettyAt indent item :: prettyItems indent rest

/-- The members of an object, each for a place indented by `indent`. -/
def prettyMembers (indent : String) : List (String × Json) → List String
  | [] => []
  | (name, value) :: rest =>
    (quoted name ++ ": " ++ prettyAt indent value) :: prettyMembers indent rest

end

/-- The document with one item or member to a line. -/
def pretty (json : Json) : String :=
  prettyAt "" json

end Json

end ResourceQuery
