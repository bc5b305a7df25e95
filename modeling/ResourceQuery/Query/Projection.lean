import ResourceQuery.Text.Basic

/-! # Projections

What becomes of the rows in the end: the listing itself, one of its rows, or a value computed from all
of them. A request names the projection; plain listings and queries that are never sent have no name
there, and a row that is fetched later is requested as a first row.
-/

namespace ResourceQuery

/-- What a query answers. -/
inductive Projection where
  /-- The rows. -/
  | enumerable
  /-- The first row, of which there must be one. -/
  | first
  /-- The first row, fetched when it is looked at. -/
  | firstLazy
  /-- The first row, or null. -/
  | firstOrDefault
  | any
  | count
  | sum
  | min
  | max
  /-- The URI of the request; nothing is fetched. -/
  | toUri
  deriving DecidableEq

namespace Projection

/-- The name in requests. -/
def wireName? : Projection → Option String
  | .enumerable => none
  | .toUri => none
  | .first => some "first"
  | .firstLazy => some "first"
  | .firstOrDefault => some "firstordefault"
  | .any => some "any"
  | .count => some "count"
  | .sum => some "sum"
  | .min => some "min"
  | .max => some "max"

/-- The name in descriptions. -/
def name : Projection → String
  | .enumerable => "enumerable"
  | .first => "first"
  | .firstLazy => "firstlazy"
  | .firstOrDefault => "firstordefault"
  | .any => "any"
  | .count => "count"
  | .sum => "sum"
  | .min => "min"
  | .max => "max"
  | .toUri => "touri"

/-- The projections that requests can ask for. -/
def requestable : List Projection :=
  [.first, .firstOrDefault, .any, .count, .sum, .min, .max]

/-- The projection that a request asks for by `name`, in any case of ASCII letters. -/
def ofWireName? (name : String) : Option Projection :=
  requestable.find? fun p => Text.sameIgnoringCase p.name name

/-- Whether the projection is a single row, so that no second one is needed. -/
def isFirst : Projection → Bool
  | .first | .firstLazy | .firstOrDefault => true
  | _ => false

/-- Whether the projection is a single value. -/
def isScalar : Projection → Bool
  | .enumerable | .toUri => false
  | _ => true

/-- Whether the argument of the projection restricts the rows; else it selects from them. -/
def takesPredicate : Projection → Bool
  | .first | .firstLazy | .firstOrDefault | .any | .count => true
  | _ => false

end Projection

end ResourceQuery
