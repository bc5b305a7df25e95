import ResourceQuery.Error
import ResourceQuery.Json.Basic

/-! # Notation

A JSON form of what the library works with: types, values, expressions, plans. It is for tools that
look at these things, and loses nothing on the way: whole numbers that a reader with floats would round
are `{"$i": digits}`, and floats are `{"$f": text}`.

This module holds what the forms of all things share.
-/

namespace ResourceQuery

namespace Notation

/-- An object of members in any order. -/
def members (pairs : List (String × Json)) : Json :=
  .object (Entries.ofList pairs)

/-- An array of texts. -/
def strings (texts : List String) : Json :=
  .array (texts.map Json.string)

/-- The form of something optional: null if it is missing. -/
def orNull {α : Type} (form : α → Json) : Option α → Json
  | none => .null
  | some a => form a

/-- The least size of a whole number that is written as a text, `2 ^ 53`. -/
def textBound : Nat := 9007199254740992

/-- The form of a whole number: digits in a text if it is large. -/
def int (n : Int) : Json :=
  if n.natAbs < textBound then .ofInt n else members [("$i", .string (Decimal.intText n))]

/-- The form of a natural number. -/
def nat (n : Nat) : Json :=
  int n

/-- The form of a float. -/
def float (x : Float) : Json :=
  members [("$f", .string (Decimal.floatText x))]

/-- The form of a count. -/
def count (n : UInt64) : Json :=
  nat n.toNat

/-- The form of a failure. -/
def failure (e : Error) : Json :=
  members [("error", .string e.code), ("message", .string e.message)]

/-- The form of an outcome. -/
def outcome {α : Type} (form : α → Json) : Except Error α → Json
  | .ok a => form a
  | .error e => failure e

mutual

/-- A document with its numbers in this notation. -/
def document : Json → Json
  | .number (.whole n) => int n
  | .number (.float x) => float x
  | .array items => .array (documents items)
  | .object entries => .object (documentMembers entries)
  | .null => .null
  | .bool b => .bool b
  | .string s => .string s

/-- The items of an array, each in this notation. -/
def documents : List Json → List Json
  | [] => []
  | item :: rest => document item :: documents rest

/-- The members of an object, each in this notation. -/
def documentMembers : List (String × Json) → List (String × Json)
  | [] => []
  | (name, value) :: rest => (name, document value) :: documentMembers rest

end

end Notation

end ResourceQuery
