import ResourceQuery.CommandLine.Usage
import ResourceQuery.Server
import ResourceQuery.Type.SchemaFile

/-! # Running commands

What the program prints. The files that it needs are given as a function from names to contents, so
nothing here reads or writes anything.
-/

namespace ResourceQuery

/-- What a program run leaves: its exit code and its output. -/
structure Outcome where
  code : Nat
  stdout : String
  stderr : String
  deriving DecidableEq

namespace CommandLine

/-- Why a command fails. -/
inductive Failure where
  | error (e : Error)
  | malformedData
  | unreadable (path : String)
  | dataObject
  | itemsArray (typeName : String)
  | itemObject (typeName : String)

/-- The line that tells why a command fails. -/
def Failure.text : Failure → String
  | .error e => e.tagged
  | .malformedData => "malformed JSON"
  | .unreadable path => s!"cannot read {path}"
  | .dataObject => "data file must be a JSON object keyed by type name"
  | .itemsArray typeName => s!"items of '{typeName}' must be an array"
  | .itemObject typeName => s!"items of '{typeName}' must be objects"

/-- The contents of files by name. -/
abbrev Files := String → Option String

/-- An outcome with a failure of a command in place of an error. -/
def orFail {α : Type} (outcome : Except Error α) : Except Failure α :=
  outcome.mapError .error

/-! ## Files -/

/-- The content of a configuration or schema file. -/
def contentOf (files : Files) (path : String) : Except Failure String :=
  match files path with
  | some text => .ok text
  | none => .error (.error (.config (.unreadable path)))

/-- The configuration in a file; the standard one if no file is given. -/
def configOf (files : Files) : Option String → Except Failure Config
  | none => .ok .standard
  | some path => do
    let text ← contentOf files path
    orFail (Config.parse text)

/-- The types of a schema file. -/
def graphOf (files : Files) (path : String) : Except Failure TypeGraph := do
  let text ← contentOf files path
  orFail do
    let registry ← SchemaFile.registryOf text
    TypeGraph.ofRegistry registry

/-! ## Data -/

/-- Objects, types and a server over them. -/
abbrev Loaded := Heap × Surroundings Served

/-- A step that fills a server. -/
abbrev Loading (α : Type) := StateT Loaded (Except Failure) α

/-- An action that fails the command if it fails. -/
def run {α : Type} (action : World Served α) : Loading α :=
  fun s =>
    let (outcome, s) := action.runOn s
    (orFail outcome).map (·, s)

/-- Stores an object. -/
def store (object : ObjectId) : World Served Unit :=
  Action.ofFunction fun (h, s) =>
    match s.rest.repository.insert s.graph h object with
    | .ok repository => (.ok (), (h, { s with rest := { s.rest with repository } }))
    | .error e => (.error e, (h, s))

/-- Stores the objects in documents. -/
def loadItems (typeName : String) (type : TypeId) : List Json → Loading Unit
  | [] => pure ()
  | item :: rest => do
    let v ← run (World.reading (Document.read .unchecked type item none))
    match v with
    | .object id =>
      run (store id)
      loadItems typeName type rest
    | _ => throw (.itemObject typeName)

/-- Stores the objects under the names of their types. -/
def loadMembers : List (String × Json) → Loading Unit
  | [] => pure ()
  | (typeName, items) :: rest => do
    let d ← run (World.resolving fun g _ => g.byName typeName)
    match items with
    | .array items =>
      loadItems typeName d.id items
      loadMembers rest
    | _ => throw (.itemsArray typeName)

/-- Stores the objects of a data file. -/
def loadData (files : Files) (path : String) : Loading Unit := do
  match files path with
  | none => throw (.unreadable path)
  | some text =>
    match Json.parse? text with
    | none => throw .malformedData
    | some (.object members) => loadMembers members
    | some _ => throw .dataObject

/-! ## Commands -/

/-- A line of output. -/
def line (text : String) : String := text ++ "\n"

/-- The output of a command that has a document and a text. -/
def emit (format : OutputFormat) (json : Json) (text : String) : String :=
  match format with
  | .json => line json.pretty
  | .text => text

/-- The steps that a query string asks for. -/
def plan (config : Config) (format : OutputFormat) (query : String) : Except Failure String := do
  let q ← orFail (Parameters.parse config query)
  .ok (emit format (.string q.describe) q.describe)

/-- The URI of a request for a path and a query string. -/
def requestUri (config : Config) (path query : String) : String :=
  let lead := Text.trimEndSlashes config.baseUri ++ "/" ++ Text.trimStart (· == '/') path
  if query.isEmpty then lead else lead ++ "?" ++ Text.trimStart (· == '?') query

/-- The document that a response has, or the failure that it tells of. -/
def documentOf (response : HttpResponse) : Except Failure Json :=
  if response.isSuccess then
    match Json.parse? response.body with
    | some json => .ok json
    | none => .error .malformedData
  else .error (.error response.toError)

/-- The answer to a request. -/
def query (files : Files) (config : Config) (schema data path query : String) :
    Except Failure String := do
  let graph ← graphOf files schema
  let start : Loaded := (.empty, ⟨graph, .empty, .empty config.queryCacheCapacity⟩)
  let (_, loaded) ← (loadData files data).run start
  let request := HttpRequest.fetch (requestUri config path query)
  let (outcome, _) := (Server.respond config request).runOn loaded
  let response ← orFail outcome
  let json ← documentOf response
  .ok (line json.pretty)

/-- The name and the address of a type. -/
def templateRow (g : TypeGraph) (d : Descriptor) : Except Error (String × String) :=
  (g.uriTemplate d.id).map (d.name, ·)

/-- The names and the addresses of resource types, of all that have a primary id or of one. -/
def templateRows (g : TypeGraph) : Option String → Except Error (List (String × String))
  | none => (g.resources.filter (·.primaryId?.isSome)).mapM (templateRow g)
  | some name => do
    let (found, g) := g.byName name
    let row ← templateRow g (← found)
    .ok [row]

/-- Whether a row stands before another one. -/
def rowBefore (a b : String × String) : Bool :=
  a.1 < b.1 || (a.1 == b.1 && a.2 ≤ b.2)

/-- The addresses of resource types. -/
def uriTemplate (files : Files) (format : OutputFormat) (schema : String)
    (typeName : Option String) : Except Failure String := do
  let g ← graphOf files schema
  let rows ← orFail (templateRows g typeName)
  let rows := rows.mergeSort rowBefore
  let json := Json.object (Entries.ofList (rows.map fun (name, template) => (name, .string template)))
  let text := rows.map fun (name, template) => line (Text.padRight 20 name ++ " " ++ template)
  .ok (emit format json (String.join text))

/-- What a command prints. -/
def execute (files : Files) (i : Invocation) : Except Failure String := do
  let config ← configOf files i.config
  match i.command with
  | .plan text => plan config i.format text
  | .query schema data path text => query files config schema data path text
  | .uriTemplate schema typeName => uriTemplate files i.format schema typeName

end CommandLine

/-- The outcome of a program run. -/
def Outcome.ofRequest (files : CommandLine.Files) : Request → Outcome
  | .misuse => ⟨2, "", "usage error\n"⟩
  | .help command => ⟨0, CommandLine.helpText command, ""⟩
  | .version => ⟨0, CommandLine.versionText, ""⟩
  | .run i =>
    match CommandLine.execute files i with
    | .ok text => ⟨0, text, ""⟩
    | .error f => ⟨1, "", CommandLine.line ("error: " ++ f.text)⟩

end ResourceQuery
