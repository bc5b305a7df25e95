import ResourceQuery.Error
import ResourceQuery.Expr.Basic

/-! # Tokens

The words, numbers, texts and marks of an expression's text, each with the number of bytes before it.
Blanks, tabs and line ends separate tokens and are dropped. `scan` takes the longest token at each
place and fails at the first place where there is none.
-/

namespace ResourceQuery

/-- A punctuation mark. -/
inductive Mark where
  | leftParen
  | rightParen
  | comma
  | dot
  | colon
  | minus
  deriving DecidableEq

/-- The character of a mark. -/
def Mark.char : Mark → Char
  | .leftParen => '('
  | .rightParen => ')'
  | .comma => ','
  | .dot => '.'
  | .colon => ':'
  | .minus => '-'

/-- The mark that a character is. -/
def Mark.ofChar? (c : Char) : Option Mark :=
  [Mark.leftParen, .rightParen, .comma, .dot, .colon, .minus].find? (·.char = c)

/-- The mark as messages show it. -/
def Mark.describe (m : Mark) : String :=
  String.ofList ['\'', m.char, '\'']

/-- A token. -/
inductive Token where
  | word (text : String)
  | int (magnitude : Nat)
  | float (magnitude : Float)
  | string (text : String)
  | dateTime (t : Timestamp)
  | mark (m : Mark)

/-- A token and the number of bytes before it. -/
structure Lexeme where
  token : Token
  offset : Nat

namespace Token

/-- The token as messages show it. -/
def describe : Token → String
  | .word text => s!"'{text}'"
  | .int magnitude => Decimal.naturalText magnitude
  | .float magnitude => Decimal.floatText magnitude
  | .string text => s!"string '{text}'"
  | .dateTime t => "datetime " ++ t.describe
  | .mark m => m.describe

/-! ## Scanning -/

/-- Whether `c` separates tokens. -/
def isBlank (c : Char) : Bool :=
  c == ' ' || c == '\t' || c == '\r' || c == '\n'

/-- The content of a quoted text after its opening quote, and what follows the closing one. A quote in
the content is written twice. -/
def quoted? : List Char → Option (List Char × List Char)
  | [] => none
  | '\'' :: '\'' :: rest => (quoted? rest).map fun (content, after) => ('\'' :: content, after)
  | c :: rest =>
    if c = '\'' then some ([], rest)
    else (quoted? rest).map fun (content, after) => (c :: content, after)

/-- How many bytes a content takes between quotes. -/
def quotedWidth (content : List Char) : Nat :=
  Text.byteLength content + content.count '\'' + 2

/-- A point and digits at the start of `cs`, and what follows. -/
def spanFraction : List Char → List Char × List Char
  | '.' :: rest =>
    match Decimal.spanDigits rest with
    | ([], _) => ([], '.' :: rest)
    | (digits, after) => ('.' :: digits, after)
  | cs => ([], cs)

/-- An `e`, an optional sign and digits at the start of `cs`, and what follows. -/
def spanExponent (cs : List Char) : List Char × List Char :=
  match cs with
  | e :: rest =>
    if e = 'e' ∨ e = 'E' then
      let (sign, unsigned) :=
        match rest with
        | '+' :: more => (['+'], more)
        | '-' :: more => (['-'], more)
        | more => ([], more)
      match Decimal.spanDigits unsigned with
      | ([], _) => ([], cs)
      | (digits, after) => (e :: sign ++ digits, after)
    else ([], cs)
  | [] => ([], [])

/-- The number at the start of `cs`, which starts with a digit. -/
def number (cs : List Char) : Except SyntaxFault (Token × Nat × List Char) :=
  let (whole, afterWhole) := Decimal.spanDigits cs
  let (fraction, afterFraction) := spanFraction afterWhole
  let (exponent, after) := spanExponent afterFraction
  let digits := whole ++ fraction ++ exponent
  let text := String.ofList digits
  if fraction.isEmpty && exponent.isEmpty then
    match Decimal.uint64? text with
    | some magnitude => .ok (.int magnitude.toNat, Text.byteLength digits, after)
    | none => .error (.wideInteger text)
  else .ok (.float ((Decimal.float? text).getD 0), Text.byteLength digits, after)

/-- The token at the start of `c :: rest`, where `c` is no blank, how many bytes it takes, and what
follows. A failure comes with the number of bytes before its place. -/
def next (c : Char) (rest : List Char) :
    Except (SyntaxFault × Nat) (Token × Nat × List Char) :=
  match Mark.ofChar? c with
  | some m => .ok (.mark m, 1, rest)
  | none =>
    if c = '\'' then
      match quoted? rest with
      | some (content, after) =>
        .ok (.string (String.ofList content), quotedWidth content, after)
      | none => .error (.unterminatedString, 0)
    else if c.isDigit then (number (c :: rest)).mapError fun fault => (fault, 0)
    else if CharClass.isIdentifierStart c then
      let letters := c :: rest.takeWhile CharClass.isIdentifierRest
      let text := String.ofList letters
      match Text.sameIgnoringCase text "datetime", rest.dropWhile CharClass.isIdentifierRest with
      | true, '\'' :: more =>
        match quoted? more with
        | none => .error (.unterminatedString, Text.byteLength letters)
        | some (content, after) =>
          match Timestamp.parse? (String.ofList content) with
          | some t => .ok (.dateTime t, Text.byteLength letters + quotedWidth content, after)
          | none => .error (.dateTime (String.ofList content), 0)
      | _, after => .ok (.word text, Text.byteLength letters, after)
    else .error (.character c, 0)

/-- The tokens of `cs`, before which there are `offset` bytes. A token takes at least one character, so
their number bounds the steps. -/
def scanFrom : (fuel : Nat) → (offset : Nat) → List Char → Except Error (List Lexeme)
  | 0, _, _ => .ok []
  | _, _, [] => .ok []
  | fuel + 1, offset, c :: rest =>
    if isBlank c then scanFrom fuel (offset + 1) rest
    else
      match next c rest with
      | .error (fault, before) => .error (.invalidQuery (.syntaxAt fault (offset + before)))
      | .ok (token, bytes, after) =>
        (scanFrom fuel (offset + bytes) after).map (⟨token, offset⟩ :: ·)

/-- The tokens of `text`. -/
def scan (text : String) : Except Error (List Lexeme) :=
  scanFrom text.toList.length 0 text.toList

end Token

end ResourceQuery
