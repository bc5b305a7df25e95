import ResourceQuery.Error
import ResourceQuery.Type.Native

/-! # Reading type names

The grammar of type expressions: a name, arguments between angle brackets, and question marks for
optional values, with white space before every token. `T` and digits is a parameter.

```
type ::= name ('<' type (',' type)* '>')? '?'*
```
-/

namespace ResourceQuery

namespace NativeType

/-- Whether `c` may stand in a type's name. -/
def isNameChar (c : Char) : Bool :=
  CharClass.isAlphanumeric c || c == '_' || c == '.'

/-- `cs` without white space at its start. -/
def skipSpace (cs : List Char) : List Char :=
  cs.dropWhile CharClass.isWhiteSpace

/-- What follows `c`, if it is the first character of `cs` after white space. -/
def eat? (c : Char) (cs : List Char) : Option (List Char) :=
  match skipSpace cs with
  | d :: rest => if d = c then some rest else none
  | [] => none

/-- The number of a parameter that is called `name`. -/
def parameterIndex? (name : List Char) : Option Nat :=
  match name with
  | 'T' :: digits =>
    (Decimal.natural? digits).bind fun n => if n < Word.uint64Bound then some n else none
  | _ => none

/-- A type whose name is read, without arguments. -/
def ofName (name : List Char) : NativeType :=
  match parameterIndex? name with
  | some index => .parameter index
  | none => .named (String.ofList name)

/-- Takes the question marks at the start of `cs`. -/
def marks : (fuel : Nat) → NativeType → List Char → NativeType × List Char
  | 0, t, cs => (t, cs)
  | fuel + 1, t, cs =>
    match eat? '?' cs with
    | some rest => marks fuel (.nullable t) rest
    | none => (t, cs)

/-- Reads further arguments after commas, each with `argument`. -/
def moreArguments (argument : List Char → Except Error (NativeType × List Char)) :
    (fuel : Nat) → (done : List NativeType) → List Char →
    Except Error (List NativeType × List Char)
  | 0, done, cs => .ok (done.reverse, cs)
  | fuel + 1, done, cs =>
    match eat? ',' cs with
    | none => .ok (done.reverse, cs)
    | some rest => do
      let (t, rest) ← argument rest
      moreArguments argument fuel (t :: done) rest

/-- Reads one type from `cs`, the end of `source`; offsets in messages count the bytes of `source`. A
type inside angle brackets starts after at least one character of its own, so the length of `source`
bounds the nesting. -/
def parseAt (source : String) : (depth : Nat) → List Char → Except Error (NativeType × List Char)
  | 0, _ => .error (.config (.unterminatedArguments source))
  | depth + 1, cs => do
    let start := skipSpace cs
    let name := start.takeWhile isNameChar
    let rest := start.dropWhile isNameChar
    if name.isEmpty then
      .error (.config (.typeNameExpected (source.utf8ByteSize - Text.byteLength start) source))
    else
      match eat? '<' rest with
      | none => .ok (marks rest.length (ofName name) rest)
      | some rest =>
        let (first, rest) ← parseAt source depth rest
        let (arguments, rest) ← moreArguments (parseAt source depth) rest.length [first] rest
        match eat? '>' rest with
        | none => .error (.config (.unterminatedArguments source))
        | some rest => .ok (marks rest.length (.generic (String.ofList name) arguments) rest)

/-- The type that `source` writes, in canonical form. -/
def parse (source : String) : Except Error NativeType := do
  let (t, rest) ← parseAt source (source.length + 1) source.toList
  if (skipSpace rest).isEmpty then .ok t.canonical
  else .error (.config (.trailingTypeName source))

end NativeType

end ResourceQuery
