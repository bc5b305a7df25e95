import ResourceQuery.Json.Reader

/-! # Passing over JSON

`Json.skip?` finds the end of a value without reading it. Only the form of the text counts, so more is
let through than a reader takes: values may be nested to any depth, a number may be out of range, and a
string may hold half of a surrogate pair.
-/

namespace ResourceQuery

namespace Json

/-! ## Values without parts -/

/-- What follows one or more digits. -/
def skipDigits? (cs : List Char) : Option (List Char) :=
  let (digits, rest) := Decimal.spanDigits cs
  if digits.isEmpty then none else some rest

/-- What follows an exponent, if there is one. -/
def skipExponent? : List Char → Option (List Char)
  | [] => some []
  | e :: rest =>
    if e = 'e' ∨ e = 'E' then
      match rest with
      | '+' :: rest => skipDigits? rest
      | '-' :: rest => skipDigits? rest
      | rest => skipDigits? rest
    else some (e :: rest)

/-- What follows a number, after its sign. The first of several digits is not zero. -/
def skipNumber? (cs : List Char) : Option (List Char) := do
  let (digits, rest) := Decimal.spanDigits cs
  if digits.isEmpty || (digits.head? == some '0' && 1 < digits.length) then none
  else
    match rest with
    | '.' :: rest => skipExponent? (← skipDigits? rest)
    | rest => skipExponent? rest

/-- Whether `c` after a backslash stands for a character by itself. -/
def isShortEscape (c : Char) : Bool :=
  ['"', '\\', '/', 'b', 'f', 'n', 'r', 't'].contains c

/-- What follows a string, after its opening quote. -/
def skipString? : List Char → Option (List Char)
  | '"' :: rest => some rest
  | '\\' :: 'u' :: a :: b :: c :: d :: rest =>
    if (hexFour? [a, b, c, d]).isSome then skipString? rest else none
  | '\\' :: c :: rest => if isShortEscape c then skipString? rest else none
  | c :: rest => if c = '\\' ∨ c.toNat < 32 then none else skipString? rest
  | [] => none

/-- What follows a value that is no array and no object. -/
def skipScalar? : List Char → Option (List Char)
  | 'n' :: 'u' :: 'l' :: 'l' :: rest => some rest
  | 't' :: 'r' :: 'u' :: 'e' :: rest => some rest
  | 'f' :: 'a' :: 'l' :: 's' :: 'e' :: rest => some rest
  | '"' :: rest => skipString? rest
  | '-' :: rest => skipNumber? rest
  | rest => skipNumber? rest

/-! ## Nested values -/

/-- What is open around a place in a text. -/
inductive Bracket where
  | array
  | object

/-- What follows the name of a member and its colon. -/
def skipName? (cs : List Char) : Option (List Char) :=
  match skipBlanks cs with
  | '"' :: rest =>
    (skipString? rest).bind fun rest =>
      match skipBlanks rest with
      | ':' :: rest => some rest
      | _ => none
  | _ => none

/-- Goes on after a value inside `opened`, the innermost bracket first: closes brackets up to a comma,
and answers what is open then and what follows. If all are closed, no value follows. -/
def settle? : (opened : List Bracket) → List Char → Option (List Bracket × List Char)
  | [], cs => some ([], cs)
  | bracket :: opened, cs =>
    match bracket, skipBlanks cs with
    | .array, ',' :: rest => some (.array :: opened, rest)
    | .array, ']' :: rest => settle? opened rest
    | .object, ',' :: rest => (skipName? rest).map fun rest => (.object :: opened, rest)
    | .object, '\x7d' :: rest => settle? opened rest
    | _, _ => none

/-- Goes on before a value inside `opened`: what is open after it, up to where the next one starts. -/
def step? (opened : List Bracket) (cs : List Char) : Option (List Bracket × List Char) :=
  match skipBlanks cs with
  | '[' :: rest =>
    match skipBlanks rest with
    | ']' :: rest => settle? opened rest
    | rest => some (.array :: opened, rest)
  | '\x7b' :: rest =>
    match skipBlanks rest with
    | '\x7d' :: rest => settle? opened rest
    | rest => (skipName? rest).map fun rest => (.object :: opened, rest)
  | cs => (skipScalar? cs).bind (settle? opened)

/-- What follows a value and all that is `opened` around it. -/
def skipWithin? : (fuel : Nat) → (opened : List Bracket) → List Char → Option (List Char)
  | 0, _, _ => none
  | fuel + 1, opened, cs =>
    match step? opened cs with
    | none => none
    | some ([], rest) => some rest
    | some (opened, rest) => skipWithin? fuel opened rest

/-- What follows the value at the start of `cs`. -/
def skip? (cs : List Char) : Option (List Char) :=
  skipWithin? (cs.length + 1) [] cs

end Json

end ResourceQuery
