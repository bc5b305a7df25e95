import ResourceQuery.Query.Chain

/-! # Query plans

The canonical form of a query: at most one operator of each kind, applied in a fixed order. `Query.plan`
brings a chain into this form, or rejects it.

Filters become one conjunction and selections one selection. What follows a selection is put in terms
of the row before it, so that filters, keys and paths of a plan are about the elements of the
collection, or about their groups. A chain whose operators cannot change places without changing the
answer is rejected.
-/

namespace ResourceQuery

/-- A query in canonical form. -/
structure Plan where
  path : String
  /-- The type of the collection's elements. -/
  sourceType : TypeId
  ofType : Option TypeId
  filter : Option Lambda
  groupBy : Option Lambda
  orderBy : Option SortKey
  skip : Option UInt64
  take : Option UInt64
  select : Option Lambda
  /-- Member paths, no two the same up to the case of ASCII letters. -/
  expand : List String
  includeTotalCount : Bool
  projection : Projection

namespace Plan

/-- The plan of a collection without operators. -/
def ofSource (sourceType : TypeId) (path : String) : Plan :=
  { path, sourceType, ofType := none, filter := none, groupBy := none, orderBy := none, skip := none,
    take := none, select := none, expand := [], includeTotalCount := false,
    projection := .enumerable }

/-- The type that filter and keys are about. -/
def elementType (p : Plan) : TypeId :=
  p.ofType.getD p.sourceType

/-- Whether rows are skipped or taken. -/
def isPaged (p : Plan) : Bool :=
  p.skip.isSome || p.take.isSome

/-- How many rows are asked for: a first row is one. -/
def top? (p : Plan) : Option UInt64 :=
  p.take.or (if p.projection.isFirst then some 1 else none)

/-- Equality of plans up to bound variables. -/
def equal (p q : Plan) : Bool :=
  p.path == q.path && p.sourceType == q.sourceType && p.ofType == q.ofType &&
    Lambda.sameOption p.filter q.filter && Lambda.sameOption p.groupBy q.groupBy &&
    SortKey.sameOption p.orderBy q.orderBy && p.skip == q.skip && p.take == q.take &&
    Lambda.sameOption p.select q.select && p.expand == q.expand &&
    p.includeTotalCount == q.includeTotalCount && p.projection == q.projection

/-! ## Adding an operator -/

/-- `l` in terms of the row before the selection. -/
def rebase (p : Plan) (l : Lambda) : Lambda :=
  match p.select with
  | some selector => l.compose selector
  | none => l.simplified

/-- The plan with a further filter. -/
def addFilter (p : Plan) (predicate : Lambda) : Except Rejection Plan :=
  if p.isPaged then .error .filterAfterPaging
  else if p.groupBy.isSome then .error .filterAfterGrouping
  else
    let predicate := p.rebase predicate
    let filter :=
      match p.filter with
      | some existing => existing.andAlso predicate
      | none => predicate
    .ok { p with filter := some filter }

/-- The plan sorted by a key; an earlier key is dropped. -/
def addOrder (p : Plan) (key : SortKey) : Except Rejection Plan :=
  if p.isPaged then .error .orderAfterPaging
  else .ok { p with orderBy := some ⟨p.rebase key.key, key.direction⟩ }

/-- The plan grouped by a key. -/
def addGrouping (p : Plan) (key : Lambda) : Except Rejection Plan :=
  if p.groupBy.isSome then .error .secondGrouping
  else if p.isPaged then .error .groupAfterPaging
  else if p.select.isSome then .error .groupAfterSelect
  else if p.orderBy.isSome then .error .groupAfterOrder
  else .ok { p with groupBy := some key.simplified }

/-- The plan without its first `count` rows. Of rows that were taken before, as many fewer are left. -/
def addSkip (p : Plan) (count : UInt64) : Except Rejection Plan :=
  if p.orderBy.isNone then .error (.pageWithoutOrder "Skip")
  else if p.skip.isSome then .error (.secondPage "Skip")
  else
    .ok { p with
      skip := some count
      take := p.take.map fun n => if count ≤ n then n - count else 0 }

/-- The plan with only its first `count` rows. -/
def addTake (p : Plan) (count : UInt64) : Except Rejection Plan :=
  if p.orderBy.isNone then .error (.pageWithoutOrder "Take")
  else if p.take.isSome then .error (.secondPage "Take")
  else .ok { p with take := some count }

/-- The plan with only the instances of a type; an earlier restriction is dropped. -/
def addType (p : Plan) (type : TypeId) : Except Rejection Plan :=
  if p.isPaged || p.groupBy.isSome || p.select.isSome then .error .lateTypeRestriction
  else .ok { p with ofType := some type }

/-- The plan with a further path to expand. -/
def addExpand (p : Plan) (path : Lambda) : Except Rejection Plan :=
  if p.groupBy.isSome then .error .expandAfterGrouping
  else
    match (p.rebase path).memberPath? with
    | none => .error .expandNotPath
    | some path =>
      if p.expand.any fun other => Text.sameIgnoringCase other path then .ok p
      else .ok { p with expand := p.expand ++ [path] }

/-- The plan with one more step. -/
def add (p : Plan) : Operator → Except Rejection Plan
  | .where_ predicate => p.addFilter predicate
  | .select selector => .ok { p with select := some (p.rebase selector) }
  | .orderBy key => p.addOrder key
  | .groupBy key => p.addGrouping key
  | .skip count => p.addSkip count
  | .take count => p.addTake count
  | .ofType type => p.addType type
  | .expand path => p.addExpand path
  | .includeTotalCount => .ok { p with includeTotalCount := true }
  | .terminal projection _ => .ok { p with projection }

/-- The plan with all of `steps`; nothing may follow a projection. -/
def addAll (p : Plan) : List Operator → Except Rejection Plan
  | [] => .ok p
  | [step] => p.add step
  | .terminal .. :: next :: _ => .error (.afterTerminal next.name)
  | step :: rest =>
    match p.add step with
    | .ok p => p.addAll rest
    | .error r => .error r

/-! ## Chains in canonical order -/

/-- The plan as a chain. -/
def toQuery (p : Plan) : Query :=
  { elementType := p.sourceType, path := p.path
    operators :=
      (p.ofType.map Operator.ofType).toList ++
      p.expand.map (fun path => Operator.expand (Lambda.ofMemberPath path)) ++
      (p.filter.map Operator.where_).toList ++
      (p.groupBy.map Operator.groupBy).toList ++
      (p.orderBy.map Operator.orderBy).toList ++
      (p.skip.map Operator.skip).toList ++
      (p.take.map Operator.take).toList ++
      (p.select.map Operator.select).toList ++
      (if p.includeTotalCount then [Operator.includeTotalCount] else []) ++
      (if p.projection = .enumerable then [] else [Operator.terminal p.projection none]) }

end Plan

namespace Query

/-- The plan of a query. -/
def plan (q : Query) : Except Error Plan :=
  match (Plan.ofSource q.elementType q.path).addAll (q.operators.flatMap Operator.steps) with
  | .ok p => .ok p
  | .error rejection => .error (.notSupported (.chain rejection))

/-- The chain in canonical order that means the same. -/
def canonical (q : Query) : Except Error Query :=
  q.plan.map Plan.toQuery

end Query

end ResourceQuery
