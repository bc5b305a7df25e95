import ResourceQuery.Query.Uri
import ResourceQuery.Server
import ResourceQuery.Value.Reference

/-! # Clients

A client puts a query into a URI, has the request sent, and reads what comes back as the query's
projection says. How a request is sent is up to a `Transport`.
-/

namespace ResourceQuery

/-- Sends a request and answers what comes back. -/
abbrev Transport (τ : Type) := HttpRequest → World τ HttpResponse

/-- What a client answers to a query. -/
inductive Fetched where
  | listing (l : Listing)
  | value (v : Value)
  /-- The URI of a request that was not sent. -/
  | uri (uri : String)

namespace Client

variable {τ : Type}

/-- A path behind the base of all URIs. -/
def absolute (config : Config) (relative : String) : String :=
  Text.trimEndSlashes config.baseUri ++ "/" ++ relative

/-- The URI of a plan. -/
def uriOfPlan (config : Config) (g : TypeGraph) (p : Plan) : Except Error String :=
  (p.uri g).map fun u => absolute config u.text

/-- The URI of a query. -/
def uriFor (config : Config) (g : TypeGraph) (q : Query) : Except Error String := do
  let p ← q.plan
  uriOfPlan config g p

/-- The document at a URI. -/
def fetch (send : Transport τ) (uri : String) : World τ Json := do
  let response ← send (.fetch uri)
  if response.isSuccess then
    match Json.parse? response.body with
    | some json => pure json
    | none => Action.fail (.serializationFormat (.malformedResponse uri))
  else Action.fail response.toError

/-- A document as a new value; what a server sends is not subject to access masks. -/
def materialize {τ : Type} (expected : TypeId) (json : Json) : World τ Value :=
  World.reading (Document.read .unchecked expected json none)

/-- What is at a URI, as a value of a type. -/
def get (send : Transport τ) (uri : String) (expected : TypeId) : World τ Value := do
  let json ← fetch send uri
  materialize expected json

/-- Loads the resource that a reference leads to. -/
def load (send : Transport τ) : Loader (Surroundings τ) :=
  fun uri expected => get send uri expected

/-- A reference to what is at a URI. -/
def lazily {τ : Type} (uri : String) (expected : TypeId) : World τ Value :=
  Action.change fun (h, s) =>
    let (ref, h) := h.newRef uri expected .unresolved
    (.reference ref, (h, s))

/-- The type of the rows that a plan answers. -/
def rowType (p : Plan) : TypeId :=
  if p.select.isSome || p.groupBy.isSome then TypeGraph.valueType .any else p.elementType

/-- The type of the value that a projection makes of rows. -/
def valueType (p : Plan) : TypeId :=
  match p.projection with
  | .count => TypeGraph.valueType .int64
  | .any => TypeGraph.valueType .boolean
  | .sum | .min | .max => TypeGraph.valueType .any
  | _ => rowType p

/-- The answer to a plan that asks for a value. -/
def executeValue (send : Transport τ) (p : Plan) (uri : String) : World τ Value := do
  let json ← fetch send uri
  if json.isNull ∧ p.projection = .firstOrDefault then pure .null
  else materialize (valueType p) json

/-- The answer to a query. -/
def execute (config : Config) (send : Transport τ) (q : Query) : World τ Fetched := do
  let p ← World.ask fun _ _ => q.plan
  let uri ← World.ask fun g _ => uriOfPlan config g p
  match p.projection with
  | .toUri => pure (.uri uri)
  | .firstLazy => do
    let ref ← lazily uri (rowType p)
    pure (.value ref)
  | .enumerable => do
    let json ← fetch send uri
    let listing ← World.reading (Document.readListing .unchecked (rowType p) json)
    pure (.listing listing)
  | _ => do
    let v ← executeValue send p uri
    pure (.value v)

end Client

end ResourceQuery
