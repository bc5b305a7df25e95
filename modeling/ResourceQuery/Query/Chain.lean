import ResourceQuery.Expr.Equality
import ResourceQuery.Expr.Lambda
import ResourceQuery.Query.Projection
import ResourceQuery.Type.Graph

/-! # Query chains

A query as it is put together: the collection it starts from and the operators on its rows, in the
order in which they were added. What a chain means, and which chains can be asked of a server, is in
`ResourceQuery.Query.Plan`.
-/

namespace ResourceQuery

/-! ## Operators -/

/-- An operator on rows. -/
inductive Operator where
  /-- Keeps the rows for which the predicate is true. -/
  | where_ (predicate : Lambda)
  /-- Puts the selected value in place of each row. -/
  | select (selector : Lambda)
  | orderBy (key : SortKey)
  | groupBy (key : Lambda)
  | skip (count : UInt64)
  | take (count : UInt64)
  /-- Keeps the instances of a type. -/
  | ofType (type : TypeId)
  /-- Asks for the resources at a member path to be written inline. -/
  | expand (path : Lambda)
  /-- Asks for the number of rows before paging. -/
  | includeTotalCount
  /-- Ends the chain; the argument restricts the rows or selects from them first. -/
  | terminal (projection : Projection) (argument : Option Lambda)

namespace Operator

/-- The name in messages. -/
def name : Operator → String
  | .where_ _ => "Where"
  | .select _ => "Select"
  | .orderBy _ => "OrderBy"
  | .groupBy _ => "GroupBy"
  | .skip _ => "Skip"
  | .take _ => "Take"
  | .ofType _ => "OfType"
  | .expand _ => "Expand"
  | .includeTotalCount => "IncludeTotalCount"
  | .terminal .. => "Terminal"

/-- The type of the rows behind the operator, given that of the rows before it. -/
def elementType? (before : Option TypeId) : Operator → Option TypeId
  | .ofType type => some type
  | .select _ => none
  | .groupBy _ => none
  | .terminal .. => none
  | _ => before

/-- The operator as steps that have no argument at the end: the argument of a projection is a step of
its own before it. -/
def steps : Operator → List Operator
  | .terminal projection (some argument) =>
    [if projection.takesPredicate then .where_ argument else .select argument,
      .terminal projection none]
  | other => [other]

end Operator

/-- Equality of operators up to bound variables. -/
def Operator.equal : Operator → Operator → Bool
  | .where_ l, .where_ m => l.equal m
  | .select l, .select m => l.equal m
  | .orderBy a, .orderBy b => a.equal b
  | .groupBy l, .groupBy m => l.equal m
  | .skip a, .skip b => a == b
  | .take a, .take b => a == b
  | .ofType s, .ofType t => s == t
  | .expand l, .expand m => l.equal m
  | .includeTotalCount, .includeTotalCount => true
  | .terminal p l, .terminal q m => p == q && Lambda.sameOption l m
  | _, _ => false

/-! ## Chains -/

/-- A query: a collection, the type of its elements, and operators from the collection on. -/
structure Query where
  elementType : TypeId
  path : String
  operators : List Operator

namespace Query

/-- All elements of a collection. -/
def ofSource (elementType : TypeId) (path : String) : Query :=
  ⟨elementType, path, []⟩

/-- All instances of the resource type called `typeName`, from the collection that holds them. -/
def onType (g : TypeGraph) (typeName : String) : Except Error Query × TypeGraph :=
  match g.byName typeName with
  | (.error e, g) => (.error e, g)
  | (.ok d, g) =>
    let source := do
      let address ← d.requireResource
      let root ← g.get address.uriBase
      let path := (root.address?.map (·.relativePath)).getD address.relativePath
      pure (ofSource d.id path)
    (source, g)

/-- The query with one more operator. -/
def then_ (q : Query) (op : Operator) : Query :=
  { q with operators := q.operators ++ [op] }

/-- The query restricted to the type called `typeName`. -/
def ofType (q : Query) (g : TypeGraph) (typeName : String) : Except Error Query × TypeGraph :=
  match g.byName typeName with
  | (.error e, g) => (.error e, g)
  | (.ok d, g) => (.ok (q.then_ (.ofType d.id)), g)

/-- The type of the rows, unless an operator computes them. -/
def rowType? (q : Query) : Option TypeId :=
  q.operators.foldl Operator.elementType? (some q.elementType)

/-- Equality of lists of operators up to bound variables. -/
def sameOperators : List Operator → List Operator → Bool
  | [], [] => true
  | a :: as, b :: bs => a.equal b && sameOperators as bs
  | _, _ => false

/-- Equality of queries up to bound variables. -/
def equal (q r : Query) : Bool :=
  q.elementType == r.elementType && q.path == r.path && sameOperators q.operators r.operators

end Query

end ResourceQuery
