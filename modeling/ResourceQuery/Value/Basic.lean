import ResourceQuery.Data.Entries
import ResourceQuery.Text.Basic
import ResourceQuery.Number.Decimal
import ResourceQuery.Time.Rfc3339

/-! # Values

What the fields of objects, the rows of a query and the slots of a document hold. Objects and
references to remote resources have an identity: a value holds their number in a `Heap`, so two
values can share an object and objects can form cycles.

This module holds what can be said of a value alone: its kind, its text and the order of scalars.
Equality follows object handles and is in `ResourceQuery.Value.Equality`.
-/

namespace ResourceQuery

/-- The number of a descriptor in a type graph. -/
structure TypeId where
  index : Nat
  deriving DecidableEq

/-- The number of an object in a heap. -/
structure ObjectId where
  index : Nat
  deriving DecidableEq

/-- The number of a reference's state in a heap. -/
structure CellId where
  index : Nat
  deriving DecidableEq

/-- A reference to a resource that is loaded when it is asked for: where it is, what it should be, and
the cell that holds what became of it. -/
structure LazyRef where
  uri : String
  target : TypeId
  cell : CellId
  deriving DecidableEq

/-- A value. -/
inductive Value where
  | null
  | bool (b : Bool)
  | int (n : Int64)
  | float (x : Float)
  | string (s : String)
  | dateTime (t : Timestamp)
  /-- A member of an enum. -/
  | enum (member : String)
  | list (items : List Value)
  /-- A dictionary, sorted by key. -/
  | map (entries : List (String × Value))
  | object (id : ObjectId)
  /-- The rows of a query that share a key. -/
  | group (key : Value) (items : List Value)
  | reference (ref : LazyRef)

/-- A type's number as messages show it. -/
def TypeId.text (id : TypeId) : String :=
  "#" ++ Decimal.naturalText id.index

namespace Value

/-! ## Kinds and contents -/

/-- Whether the value is null. -/
def isNull : Value → Bool
  | .null => true
  | _ => false

/-- Whether the value is the truth value `true`. -/
def isTrue : Value → Bool
  | .bool true => true
  | _ => false

/-- What the value is, in words. -/
def kindName : Value → String
  | .null => "null"
  | .bool _ => "boolean"
  | .int _ => "integer"
  | .float _ => "number"
  | .string _ => "string"
  | .dateTime _ => "datetime"
  | .enum _ => "enum"
  | .list _ => "list"
  | .map _ => "map"
  | .object _ => "object"
  | .group .. => "group"
  | .reference _ => "reference"

/-- The truth value. -/
def asBool? : Value → Option Bool
  | .bool b => some b
  | _ => none

/-- The whole number. -/
def asInt? : Value → Option Int64
  | .int n => some n
  | _ => none

/-- The number as a float. -/
def asFloat? : Value → Option Float
  | .int n => some n.toFloat
  | .float x => some x
  | _ => none

/-- The text of a string or the name of an enum member. -/
def asText? : Value → Option String
  | .string s => some s
  | .enum member => some member
  | _ => none

/-- The object. -/
def asObject? : Value → Option ObjectId
  | .object id => some id
  | _ => none

/-- The text of a scalar. -/
def text? : Value → Option String
  | .bool b => some (if b then "true" else "false")
  | .int n => some (Decimal.intText n.toInt)
  | .float x => some (Decimal.floatText x)
  | .string s => some s
  | .enum member => some member
  | .dateTime t => some t.format
  | _ => none

/-! ## Order -/

/-- Order of two floats; a NaN is not ordered. -/
def compareFloats (x y : Float) : Option Ordering :=
  if x < y then some .lt
  else if x == y then some .eq
  else if y < x then some .gt
  else none

/-- Order of scalars. Null is below everything. Whole numbers and floats are ordered with each other
through the nearest floats, strings and enum members by their texts; other kinds are not ordered with
one another. -/
def compare : Value → Value → Option Ordering
  | .null, .null => some .eq
  | .null, _ => some .lt
  | _, .null => some .gt
  | .bool a, .bool b => some (Ord.compare a.toNat b.toNat)
  | .int a, .int b => some (Ord.compare a.toInt b.toInt)
  | .int a, .float y => compareFloats a.toFloat y
  | .float x, .int b => compareFloats x b.toFloat
  | .float x, .float y => compareFloats x y
  | .string a, .string b => some (Ord.compare a b)
  | .enum a, .enum b => some (Ord.compare a b)
  | .string a, .enum b => some (Ord.compare a b)
  | .enum a, .string b => some (Ord.compare a b)
  | .dateTime s, .dateTime t => some (s.compare t)
  | _, _ => none

end Value

end ResourceQuery
