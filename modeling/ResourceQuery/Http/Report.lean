import ResourceQuery.Json.Skip

/-! # Reports of failures

The body of a response that tells of a failure: a document with the code of the failure and its message,
as the members `code` and `message` of an object or as an array of the two. Both are texts and stand
once. Other members are passed over, whatever they hold.
-/

namespace ResourceQuery

/-- What a response tells of a failure. -/
structure Report where
  code : String
  message : String
  deriving DecidableEq

namespace Report

/-- A text at the start of `cs`, and what follows. -/
def text? (cs : List Char) : Option (String × List Char) :=
  match Json.skipBlanks cs with
  | '"' :: rest => Json.string? (rest.length + 1) [] rest
  | _ => none

/-- The character `mark` behind blanks, and what follows it. -/
def mark? (mark : Char) (cs : List Char) : Option (List Char) :=
  match Json.skipBlanks cs with
  | c :: rest => if c = mark then some rest else none
  | [] => none

/-- The members of an object after its opening brace, with the code and the message found before. -/
def members? : (fuel : Nat) → (code message : Option String) → List Char →
    Option (Report × List Char)
  | 0, _, _, _ => none
  | fuel + 1, code, message, cs => do
    let (name, rest) ← text? cs
    let rest ← mark? ':' rest
    let (code, message, rest) ←
      if name = "code" then
        if code.isSome then none
        else (text? rest).map fun (s, rest) => (some s, message, rest)
      else if name = "message" then
        if message.isSome then none
        else (text? rest).map fun (s, rest) => (code, some s, rest)
      else (Json.skip? rest).map fun rest => (code, message, rest)
    match Json.skipBlanks rest with
    | ',' :: rest => members? fuel code message rest
    | '\x7d' :: rest => some (⟨← code, ← message⟩, rest)
    | _ => none

/-- The two texts of an array after its opening bracket. -/
def pair? (cs : List Char) : Option (Report × List Char) := do
  let (code, rest) ← text? cs
  let (message, rest) ← text? (← mark? ',' rest)
  some (⟨code, message⟩, ← mark? ']' rest)

/-- The report that `body` writes. -/
def parse? (body : String) : Option Report := do
  let (report, rest) ←
    match Json.skipBlanks body.toList with
    | '\x7b' :: rest => members? (rest.length + 1) none none rest
    | '[' :: rest => pair? rest
    | _ => none
  if (Json.skipBlanks rest).isEmpty then some report else none

end Report

end ResourceQuery
