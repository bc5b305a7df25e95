import ResourceQuery.Expr.Eval
import ResourceQuery.Value.Trait

/-! # Operations on rows

What the operators of a query do with a list of rows, each on its own. A predicate, key or selector
that fails for one of the rows fails the whole operation.

Sorting is stable and puts null first; rows whose keys have no order are an error. Grouping keeps the
groups in the order of their first rows, and the rows of a group in their order. A digest of the key tells
which groups a row may belong to.
-/

namespace ResourceQuery

namespace Rows

variable (g : TypeGraph) (h : Heap)

/-! ## Restriction and selection -/

/-- Whether a row is an object of type `type` or of one that inherits from it. -/
def isInstance (type : TypeId) : Value → Bool
  | .object id => g.isAssignable type (h.typeOf id)
  | _ => false

/-- The instances of a type. -/
def ofType (type : TypeId) (rows : List Value) : List Value :=
  rows.filter (isInstance g h type)

/-- The rows for which a predicate is true. -/
def filter (predicate : Lambda) : List Value → Except Error (List Value)
  | [] => .ok []
  | row :: rest => do
    let keep ← predicate.test g h row
    let kept ← filter predicate rest
    .ok (if keep then row :: kept else kept)

/-- What a lambda is for each row. -/
def select (selector : Lambda) (rows : List Value) : Except Error (List Value) :=
  Value.mapAll (selector.eval g h) rows

/-! ## Grouping -/

/-- Groups of rows with their keys, in the order of their first rows, and the places of the groups under the
digests of their keys. -/
structure Grouping where
  groups : List (Value × List Value)
  places : List (UInt64 × Nat)

namespace Grouping

/-- No groups. -/
def empty : Grouping := ⟨[], []⟩

/-- The places of the groups whose keys have a digest. -/
def bucket (s : Grouping) (digest : UInt64) : List Nat :=
  s.places.filterMap fun (d, place) => if d = digest then some place else none

/-- Whether the group at a place has the key `key`. -/
def hasKeyAt (s : Grouping) (key : Value) (place : Nat) : Bool :=
  (s.groups[place]?).any fun (k, _) => h.equal k key

/-- Puts a row into the group with its key, or into a new group at the end. Its key is only compared with
keys of the same digest. -/
def put (digest : List Trait → UInt64) (s : Grouping) (key row : Value) : Grouping :=
  let d := digest (key.traits h)
  match (s.bucket d).find? (s.hasKeyAt h key) with
  | some place =>
    { s with groups := s.groups.modify place fun (k, members) => (k, members ++ [row]) }
  | none => ⟨s.groups ++ [(key, [row])], s.places ++ [(d, s.groups.length)]⟩

/-- The groups as values. -/
def values (s : Grouping) : List Value :=
  s.groups.map fun (k, members) => .group k members

end Grouping

/-- Puts rows into groups by key. -/
def intoGroups (digest : List Trait → UInt64) (key : Lambda) : Grouping → List Value → Except Error Grouping
  | s, [] => .ok s
  | s, row :: rest => do
    let k ← key.eval g h row
    intoGroups digest key (s.put h digest k row) rest

/-- The groups of rows with equal keys, found by a digest. -/
def groupByDigest (digest : List Trait → UInt64) (key : Lambda) (rows : List Value) :
    Except Error (List Value) :=
  (intoGroups g h digest key .empty rows).map Grouping.values

/-- The groups of rows with equal keys. -/
def groupBy (key : Lambda) (rows : List Value) : Except Error (List Value) :=
  groupByDigest g h Trait.digest key rows

/-! ## Sorting -/

/-- Order of sort keys in a direction. -/
def compareKeys (direction : SortDirection) (a b : Value) : Except Error Ordering :=
  match a.compare b with
  | some order =>
    match direction with
    | .ascending => .ok order
    | .descending => .ok order.swap
  | none => .error (.invalidQuery (.unordered a.kindName b.kindName))

/-- Puts a row with its key into rows that are sorted backwards, behind no row with an equal key. -/
def putSorted (direction : SortDirection) (key row : Value) :
    List (Value × Value) → Except Error (List (Value × Value))
  | [] => .ok [(key, row)]
  | (k, last) :: before => do
    let order ← compareKeys direction key k
    if order = .lt then
      let before ← putSorted direction key row before
      .ok ((k, last) :: before)
    else .ok ((key, row) :: (k, last) :: before)

/-- Sorts rows with their keys into rows that are sorted backwards. -/
def sortInto (direction : SortDirection) : (sorted : List (Value × Value)) →
    List (Value × Value) → Except Error (List (Value × Value))
  | sorted, [] => .ok sorted
  | sorted, (key, row) :: rest => do
    let sorted ← putSorted direction key row sorted
    sortInto direction sorted rest

/-- The rows sorted by a key. -/
def sortBy (key : SortKey) (rows : List Value) : Except Error (List Value) := do
  let keys ← select g h key.key rows
  let sorted ← sortInto key.direction [] (keys.zip rows)
  .ok (sorted.reverse.map (·.2))

end Rows

end ResourceQuery
