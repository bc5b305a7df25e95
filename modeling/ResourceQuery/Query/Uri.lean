import ResourceQuery.Expr.Printer
import ResourceQuery.Query.Plan
import ResourceQuery.Text.Percent

/-! # Query URIs

A plan as the URI that asks a server for it: the path of the collection and a parameter for each part
of the plan that is not implied.
-/

namespace ResourceQuery

/-- A path and parameters, whose values are not encoded yet. -/
structure QueryUri where
  path : String
  parameters : List (String × String)
  deriving DecidableEq

namespace QueryUri

/-- The value of a parameter. -/
def parameter? (u : QueryUri) (key : String) : Option String :=
  u.parameters.lookup key

/-- The query string: keys and encoded values. -/
def queryString (u : QueryUri) : String :=
  Text.join "&" (u.parameters.map fun (key, value) =>
    key ++ "=" ++ Percent.encode Percent.keptInQueryValue value)

/-- The URI as a text. -/
def text (u : QueryUri) : String :=
  if u.parameters.isEmpty then u.path else u.path ++ "?" ++ u.queryString

end QueryUri

/-- The text of a sort key. -/
def SortKey.text (k : SortKey) : Except Error String := do
  let key ← k.key.text
  match k.direction with
  | .ascending => .ok key
  | .descending => .ok (key ++ " desc")

namespace Plan

/-- The parameter `key` with the text of an optional part of the plan. -/
def parameter {α : Type} (key : String) (text : α → Except Error String) :
    Option α → Except Error (List (String × String))
  | none => .ok []
  | some part => do
    let value ← text part
    .ok [(key, value)]

/-- The name of the type that the plan asks for, where it is not all of the collection. -/
def typeParameter (g : TypeGraph) (p : Plan) : Except Error (List (String × String)) := do
  let declared ← g.get p.sourceType
  let collected := (declared.address?.map (·.uriBase)).getD p.sourceType
  if p.elementType = collected then .ok []
  else
    let concrete ← g.get p.elementType
    .ok [("$oftype", concrete.name)]

/-- The text of a count. -/
def countText (n : UInt64) : Except Error String :=
  .ok (Decimal.naturalText n.toNat)

/-- The paths to expand, in small letters. -/
def expandText (paths : List String) : String :=
  Text.join "," (paths.map Text.asciiLower)

/-- The URI for a plan. -/
def uri (g : TypeGraph) (p : Plan) : Except Error QueryUri := do
  let type ← p.typeParameter g
  let filter ← parameter "$filter" Lambda.text p.filter
  let order ← parameter "$orderby" SortKey.text p.orderBy
  let group ← parameter "$groupby" Lambda.text p.groupBy
  let select ← parameter "$select" Lambda.selectionText p.select
  let skip ← parameter "$skip" countText p.skip
  let top ← parameter "$top" countText p.top?
  let expand := if p.expand.isEmpty then [] else [("$expand", expandText p.expand)]
  let count := if p.includeTotalCount then [("$totalcount", "true")] else []
  let projection := (p.projection.wireName?.map fun name => ("$projection", name)).toList
  .ok ⟨p.path, type ++ filter ++ order ++ group ++ select ++ skip ++ top ++ expand ++ count ++
    projection⟩

end Plan

end ResourceQuery
