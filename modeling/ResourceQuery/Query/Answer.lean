import ResourceQuery.Query.Projection
import ResourceQuery.Value.Aggregate

/-! # Answers

What a query answers: a listing, or a single value.
-/

namespace ResourceQuery

/-- Rows, and what is known about the listing they are a part of. -/
structure Listing where
  items : List Value
  /-- How many rows come before these. -/
  skip : Option UInt64
  /-- How many rows there are without paging. -/
  totalCount : Option UInt64
  /-- Where the listing came from. -/
  url : Option String

/-- A listing of rows, with nothing else known. -/
def Listing.ofItems (items : List Value) : Listing :=
  ⟨items, none, none, none⟩

/-- The answer to a query. -/
inductive Answer where
  | listing (l : Listing)
  | value (v : Value)

namespace Projection

/-- The first row, of which there must be one. -/
def firstOf : List Value → Except Error Value
  | [] => .error .emptyResult
  | row :: _ => .ok row

/-- The least or greatest row, of which there must be one. -/
def extremeOf (wanted : Ordering) : List Value → Except Error Value
  | [] => .error .emptyResult
  | rows => Value.extreme wanted rows

/-- The value that a projection makes of rows; `none` if it leaves them a listing. -/
def answer? (p : Projection) (rows : List Value) : Except Error (Option Value) :=
  match p with
  | .enumerable => .ok none
  | .toUri => .ok none
  | .first => (firstOf rows).map some
  | .firstLazy => (firstOf rows).map some
  | .firstOrDefault => .ok (some (rows.head?.getD .null))
  | .any => .ok (some (.bool !rows.isEmpty))
  | .count => .ok (some (.int (Int64.ofNat rows.length)))
  | .sum => (Value.sum rows).map some
  | .min => (extremeOf .lt rows).map some
  | .max => (extremeOf .gt rows).map some

end Projection

end ResourceQuery
