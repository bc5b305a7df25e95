import ResourceQuery.Data.Entries
import ResourceQuery.Number.Word

/-! # JSON documents

The tree of a document. A number is a whole number of at most 64 bits, with or without sign, or a
float; the two are kept apart because reading a document into a typed slot does. The members of an
object are sorted by name.
-/

namespace ResourceQuery

/-- A number in a document. -/
inductive JsonNumber where
  | whole (n : Int)
  | float (x : Float)

/-- A document. -/
inductive Json where
  | null
  | bool (b : Bool)
  | number (n : JsonNumber)
  | string (s : String)
  | array (items : List Json)
  | object (members : List (String × Json))

namespace Json

/-- What a document is, in words. -/
def kindName : Json → String
  | .null => "null"
  | .bool _ => "boolean"
  | .number _ => "number"
  | .string _ => "string"
  | .array _ => "array"
  | .object _ => "object"

/-- Whether the document is `null`. -/
def isNull : Json → Bool
  | .null => true
  | _ => false

/-- A whole number as a document. -/
def ofInt (n : Int) : Json := .number (.whole n)

/-- The text of a document that is one. -/
def asString? : Json → Option String
  | .string s => some s
  | _ => none

/-- The number as a signed 64-bit number, if it is one. -/
def asInt64? : Json → Option Int64
  | .number (.whole n) => Word.int64? n
  | _ => none

/-- The number as an unsigned 64-bit number, if it is one. -/
def asUInt64? : Json → Option UInt64
  | .number (.whole n) => if n < 0 then none else Word.uint64? n.toNat
  | _ => none

/-- The number as a float; whole numbers are rounded to the nearest one. -/
def asFloat? : Json → Option Float
  | .number (.whole n) =>
    some (if n < 0 then (Int64.ofInt n).toFloat else (UInt64.ofNat n.toNat).toFloat)
  | .number (.float x) => some x
  | _ => none

/-- The items of an array. -/
def asArray? : Json → Option (List Json)
  | .array items => some items
  | _ => none

/-- The members of an object. -/
def asObject? : Json → Option (Entries Json)
  | .object members => some members
  | _ => none

/-! ## Depth -/

mutual

/-- How deep arrays and objects are nested. -/
def depth : Json → Nat
  | .array items => depthOfItems items + 1
  | .object members => depthOfMembers members + 1
  | .null => 0
  | .bool _ => 0
  | .number _ => 0
  | .string _ => 0

/-- The greatest depth of an item. -/
def depthOfItems : List Json → Nat
  | [] => 0
  | item :: rest => max (depth item) (depthOfItems rest)

/-- The greatest depth of a member. -/
def depthOfMembers : List (String × Json) → Nat
  | [] => 0
  | (_, value) :: rest => max (depth value) (depthOfMembers rest)

end

end Json

end ResourceQuery
