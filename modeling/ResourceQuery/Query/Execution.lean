import ResourceQuery.Expr.Typing
import ResourceQuery.Query.Answer
import ResourceQuery.Query.Parameters
import ResourceQuery.Query.Rows

/-! # Execution of queries

What a server does with the parameters of a request. All expressions are checked before a row is looked
at. The steps are always taken in one order: restriction to a type, filter, grouping, count, sorting,
skipping, taking, selection, projection.
-/

namespace ResourceQuery

/-- A query that is checked against the types of a collection. -/
structure PreparedQuery where
  /-- The type of the rows before grouping and selection. -/
  element : TypeId
  /-- Whether the collection holds other objects than instances of `element`. -/
  narrow : Bool
  filter : Option Lambda
  groupBy : Option Lambda
  orderBy : Option SortKey
  select : Option Lambda
  /-- Paths to expand, in the spelling of the declarations. -/
  expand : List String
  /-- The type of what is listed; that of anything if it is computed. -/
  itemType : TypeId

namespace PreparedQuery

/-! ## Checking -/

/-- Checks an optional lambda. -/
def lambda (g : TypeGraph) (input : StaticType) : Option Lambda → Except Error (Option Lambda)
  | none => .ok none
  | some l => (l.compile g input).map fun (l, _) => some l

/-- Checks an optional sort key. -/
def sortKey (g : TypeGraph) (input : StaticType) : Option SortKey → Except Error (Option SortKey)
  | none => .ok none
  | some k => (k.key.compile g input).map fun (l, _) => some ⟨l, k.direction⟩

/-- Checks an optional grouping key, and answers the type of the rows behind the grouping. -/
def grouping (g : TypeGraph) (element : TypeId) :
    Option Lambda → Except Error (Option Lambda × StaticType)
  | none => .ok (none, .mapped element)
  | some key => (key.compile g (.mapped element)).map fun (l, t) => (some l, .group t element)

/-- Checks a path to expand. -/
def expandPath (g : TypeGraph) (element : TypeId) (path : String) : Except Error String :=
  ((Lambda.ofMemberPath path).compile g (.mapped element)).map fun (l, _) =>
    l.memberPath?.getD path

/-- The query with rows of type `element` from the collection at `address`. -/
def ofElement (g : TypeGraph) (address : ResourceAddress) (element : TypeId) (q : Parameters) :
    Except Error PreparedQuery := do
  let filter ← lambda g (.mapped element) q.filter
  let (groupBy, row) ← grouping g element q.groupBy
  let orderBy ← sortKey g row q.orderBy
  let select ← lambda g row q.select
  let expand ← q.expand.mapM (expandPath g element)
  let computed := select.isSome || groupBy.isSome
  .ok { element, narrow := element ≠ address.uriBase, filter, groupBy, orderBy, select, expand,
        itemType := if computed then TypeGraph.valueType .any else element }

/-- The query of `q` on the collection of `endpoint`. -/
def prepare (g : TypeGraph) (endpoint : Descriptor) (q : Parameters) :
    Except Error PreparedQuery × TypeGraph :=
  match endpoint.requireResource with
  | .error e => (.error e, g)
  | .ok address =>
    match q.ofType with
    | none => (ofElement g address endpoint.id q, g)
    | some name =>
      match g.byName name with
      | (.error e, g) => (.error e, g)
      | (.ok narrowed, g) =>
        if g.isAssignable endpoint.id narrowed.id then (ofElement g address narrowed.id q, g)
        else (.error (.invalidQuery (.notSubtype narrowed.name endpoint.name)), g)

/-! ## Running -/

/-- A step that is only taken if there is something to take it with. -/
def step {α β : Type} (part : Option α) (f : α → β → Except Error β) (rows : β) :
    Except Error β :=
  match part with
  | some a => f a rows
  | none => .ok rows

/-- How many rows are kept: a listing is subject to the configured page sizes. -/
def limit (config : Config) (q : Parameters) : Option UInt64 :=
  if q.projection = .enumerable then config.effectiveTop q.top else q.top

/-- The rows of a page. -/
def page (skip top : Option UInt64) (rows : List Value) : List Value :=
  let rows := rows.drop ((skip.map UInt64.toNat).getD 0)
  match top with
  | some n => rows.take n.toNat
  | none => rows

/-- The answer of the query to the objects of a collection. -/
def run (g : TypeGraph) (h : Heap) (config : Config) (p : PreparedQuery) (q : Parameters)
    (items : List Value) : Except Error Answer := do
  let rows := if p.narrow then Rows.ofType g h p.element items else items
  let rows ← step p.filter (Rows.filter g h) rows
  let rows ← step p.groupBy (Rows.groupBy g h) rows
  let total := UInt64.ofNat rows.length
  let rows ← step p.orderBy (Rows.sortBy g h) rows
  let rows := page q.skip (limit config q) rows
  let rows ← step p.select (Rows.select g h) rows
  match ← q.projection.answer? rows with
  | some v => .ok (.value v)
  | none =>
    .ok (.listing ⟨rows, q.skip, if q.includeTotalCount then some total else none, none⟩)

end PreparedQuery

/-! ## Endpoints -/

/-- A collection has the path of the type at its root. -/
def TypeGraph.isEndpoint (path : String) (d : Descriptor) : Bool :=
  d.address?.any fun a => a.uriBase == d.id && Text.sameIgnoringCase a.relativePath path

/-- The type whose collection is at a path; slashes at the ends do not count. -/
def TypeGraph.endpoint (g : TypeGraph) (path : String) : Except Error Descriptor :=
  let wanted := Text.trimSlashes path
  match g.resources.find? (TypeGraph.isEndpoint wanted) with
  | some d => .ok d
  | none => .error (.unknownType s!"no resource at '{wanted}'")

/-- What a server answers: the answer, the paths that are written inline, and the type of the items. -/
structure Reply where
  answer : Answer
  expand : List String
  itemType : TypeId

namespace Reply

/-- The answer to the parameters `q` on the collection of `endpoint`, which holds `items`. -/
def ofParameters (g : TypeGraph) (h : Heap) (config : Config) (endpoint : Descriptor)
    (items : List Value) (q : Parameters) : Except Error Reply × TypeGraph :=
  match PreparedQuery.prepare g endpoint q with
  | (.error e, g) => (.error e, g)
  | (.ok p, g) =>
    ((p.run g h config q items).map fun answer => ⟨answer, p.expand, p.itemType⟩, g)

/-- The reply with the URL of its listing: the path of the collection and the query string, without
question marks at its start. -/
def located (r : Reply) (endpoint : Descriptor) (query : String) : Reply :=
  match r.answer with
  | .value _ => r
  | .listing l =>
    let path := (endpoint.address?.map (·.relativePath)).getD ""
    let raw := Text.trimStart (· == '?') query
    let url := if raw.isEmpty then path else path ++ "?" ++ raw
    { r with answer := .listing { l with url := some url } }

end Reply

end ResourceQuery
