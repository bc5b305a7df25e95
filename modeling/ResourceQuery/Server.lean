import ResourceQuery.Http.Message
import ResourceQuery.Query.Execution
import ResourceQuery.Query.ParseCache
import ResourceQuery.Store.Repository
import ResourceQuery.Wire.Writer

/-! # Serving requests

A server over a repository. `collection?query` is a query on a collection, and `collection/id` the
object of a collection with that primary id. Behind the URI of a parent (`farms/1/critters`) only the
parent's own objects are seen; the URI must fit the address of the type.
-/

namespace ResourceQuery

/-- What a server has besides types and objects. -/
structure Served where
  repository : Repository
  cache : ParseCache

/-- The types of a program, and what else there is around it. -/
structure Surroundings (τ : Type) where
  graph : TypeGraph
  rest : τ

/-- An action on objects, types and the surroundings. -/
abbrev World (τ α : Type) := Action (Heap × Surroundings τ) α

namespace World

variable {τ α : Type}

/-- What the types and objects say. -/
def ask (f : TypeGraph → Heap → Except Error α) : World τ α :=
  Action.look fun (h, s) => f s.graph h

/-- An action that may resolve further types. -/
def resolving (f : TypeGraph → Heap → Except Error α × TypeGraph) : World τ α :=
  Action.ofFunction fun (h, s) =>
    let (outcome, graph) := f s.graph h
    (outcome, (h, { s with graph }))

/-- Reads a document. -/
def reading (r : Reading α) : World τ α :=
  Action.ofFunction fun (h, s) =>
    let (outcome, after) := r.runOn ⟨s.graph, h, []⟩
    (outcome, (after.heap, { s with graph := after.graph }))

/-- An action on the surroundings. -/
def outside (f : τ → Except Error α × τ) : World τ α :=
  Action.ofFunction fun (h, s) =>
    let (outcome, rest) := f s.rest
    (outcome, (h, { s with rest }))

end World

namespace Server

/-- An action of a server. -/
abbrev Serving (α : Type) := World Served α

/-! ## Queries -/

/-- What a query string asks for. -/
def parameters (config : Config) (query : String) : Serving Parameters :=
  World.outside fun s =>
    let (outcome, cache) := s.cache.parse hash config query
    (outcome, { s with cache })

/-- The answer to a query string on those objects of a collection for which `scope` holds. -/
def interpret (config : Config) (endpoint : Descriptor) (scope : TypeGraph → Heap → Value → Bool)
    (query : String) : Serving Reply := do
  let q ← parameters config query
  let stored ← World.outside fun s => (.ok (s.repository.itemsFor endpoint), s)
  let reply ← World.resolving fun g h =>
    Reply.ofParameters g h config endpoint (stored.filter (scope g h)) q
  pure (reply.located endpoint query)

/-- No restriction of a collection. -/
def everything : TypeGraph → Heap → Value → Bool :=
  fun _ _ _ => true

/-! ## Paths -/

/-- The part of a URI behind the base, split at the first question mark. -/
def target (config : Config) (uri : String) : String × String :=
  let local_ := (Text.after? (Text.trimEndSlashes config.baseUri) uri).getD uri
  (Text.splitOnce '?' local_).getD (local_, "")

/-- The names between the slashes of a path. -/
def segments (path : String) : List String :=
  (Text.splitOn '/' path).filter (!·.isEmpty)

/-- The collection and the identifier that segments lead to: identifiers follow collections. -/
def memberOf (segments : List String) : List String × Option String :=
  if segments.length % 2 = 0 then (segments.dropLast, segments.getLast?) else (segments, none)

/-- An identifier in a filter: whole numbers as they are, other texts in quotes. -/
def identifierText (id : String) : String :=
  if (Decimal.int64? id).isSome then id else Literal.quoted id

/-- The query string for the object of a collection with an identifier. -/
def memberQuery (endpoint : Descriptor) (id : String) : Except Error String := do
  match endpoint.primaryId? with
  | none => .error (.notSupported (.noMemberId endpoint.name))
  | some p =>
    match Percent.decode? id with
    | none => .error (.invalidQuery .identifierEncoding)
    | some id =>
      let filter := p.name ++ " eq " ++ identifierText id
      .ok ("$filter=" ++ Percent.encode Percent.keptAlphanumeric filter ++ "&$projection=first")

/-- The type whose collection segments lead to; without segments there is none. -/
def endpointOf (g : TypeGraph) (collection : List String) : Except Error Descriptor :=
  match collection.getLast? with
  | some name => g.endpoint name
  | none => .error (.unknownType "no resource at ''")

/-- Whether a segment fits a part of a template: a placeholder, or the same name. -/
def fits (part segment : String) : Bool :=
  Text.startsWith "\x7b" part || Text.sameIgnoringCase part segment

/-- Checks that the way to a collection follows the address of its type. -/
def checkNesting (g : TypeGraph) (endpoint : Descriptor) (collection : List String) :
    Except Error Unit := do
  let template ← g.uriTemplate endpoint.id
  let parts := (Text.splitOn '/' template).dropLast
  if parts.length = collection.length ∧ (parts.zip collection).all fun (p, s) => fits p s then .ok ()
  else .error (.invalidQuery (.pathShape (Text.join "/" collection) template))

/-- Whether an object's address is below `lead`. -/
def isBelow (lead : String) (g : TypeGraph) (h : Heap) : Value → Bool
  | .object id =>
    match g.uriOf h id with
    | .ok uri => Text.startsWith lead uri
    | .error _ => false
  | _ => false

/-! ## Requests -/

/-- The answer to a query on a collection, and below a parent on its own objects. -/
def answerIn (config : Config) (endpoint : Descriptor) (collection : List String)
    (query : String) : Serving Reply := do
  if collection.length > 1 then
    World.ask fun g _ => checkNesting g endpoint collection
    interpret config endpoint (isBelow (Text.join "/" collection ++ "/")) query
  else interpret config endpoint everything query

/-- The document that answers a request. -/
def answer (config : Config) (request : HttpRequest) : Serving Json := do
  if request.method ≠ .get then Action.fail (.notSupported (.methodNotServed request.method))
  else
    let (path, query) := target config request.uri
    let (collection, id) := memberOf (segments path)
    let endpoint ← World.ask fun g _ => endpointOf g collection
    let query ← match id with
      | some id => World.ask fun _ _ => memberQuery endpoint id
      | none => pure query
    let reply ← answerIn config endpoint collection query
    World.ask fun g h =>
      Writer.writeAnswer ⟨g, h, config.baseUri, .ofPaths reply.expand⟩ reply.itemType reply.answer

/-- The response to a request. -/
def respond (config : Config) (request : HttpRequest) : Serving HttpResponse :=
  Action.change fun s =>
    let (outcome, s) := (answer config request).runOn s
    match outcome with
    | .ok json => (.ofJson 200 json, s)
    | .error e => (.ofError e, s)

end Server

end ResourceQuery
