import ResourceQuery.Json.Reader
import ResourceQuery.Query.Answer
import ResourceQuery.Type.Graph
import ResourceQuery.Wire.Context

/-! # Reading documents

A document becomes a value of an expected type, or a change to a value that is there.

Objects are told by their type, which the member `_type` narrows; `_ref`, or `_uri` with nothing beside
it, stands for a resource elsewhere. Other members are properties. A name may be escaped by `^` where it
starts with a mark; a property marked `!` gets a new value in place of a change to the old one. A list
that is there is changed item by item: an item marked by `*@Id` is patched, one marked by `-@Id` is
removed, and others are appended. In a dictionary `-key` removes a key. Scalars of another type than
the slot's are boxed with their type.

The functions for each shape read what is below them with `below`, and `read` ties them together by the
depth of the document.
-/

namespace ResourceQuery

/-! ## State -/

/-- The types and objects that reading works on, and what the context was asked, last first. -/
structure ReadState where
  graph : TypeGraph
  heap : Heap
  audit : List AuditEntry

/-- Reads something. -/
abbrev Reading (α : Type) := Action ReadState α

/-- Reads a document into a node. -/
abbrev NodeReader := Node → Json → Reading Node

namespace Reading

variable {α : Type}

/-- Fails because of the document's shape. -/
def misshapen (cause : Misshapen) : Reading α :=
  Action.fail (.serializationFormat cause)

/-- The type with a number. -/
def descriptor (id : TypeId) : Reading Descriptor :=
  Action.look fun s => s.graph.get id

/-- The type with a name. -/
def typeNamed (name : String) : Reading Descriptor :=
  Action.ofFunction fun s =>
    let (outcome, graph) := s.graph.byName name
    (outcome, { s with graph })

/-- An action on the heap. -/
def onHeap (action : Action Heap α) : Reading α :=
  Action.ofFunction fun s =>
    let (outcome, heap) := action.runOn s.heap
    (outcome, { s with heap })

/-- What the heap says. -/
def fromHeap (f : Heap → α) : Reading α :=
  Action.look fun s => .ok (f s.heap)

/-- Writes an entry into the audit. -/
def note (entry : AuditEntry) : Reading Unit :=
  Action.change fun s => ((), { s with audit := entry :: s.audit })

/-- The node with another value. -/
def setValue (n : Node) (v : Value) : Reading Node :=
  fromHeap fun h => n.setValue h v

/-- An outcome that is known already. -/
def known (outcome : Except Error α) : Reading α :=
  Action.look fun _ => outcome

end Reading

namespace Document

open Reading

/-! ## Members -/

/-- The words that tell a member of an object that marks an item from its other members. -/
def isIdentifierKey (key : String) : Bool :=
  Text.startsWith "*@" key || Text.startsWith "-@" key

/-- A name without its escape. -/
def unescape (key : String) : String :=
  (Text.after? "^" key).getD key

/-- The URI that an object gives in place of its content. -/
def refMember (members : Entries Json) : Except Error (Option String) :=
  match Entries.get? "_ref" members with
  | none => .ok none
  | some (.string uri) => .ok (some uri)
  | some other => .error (.serializationFormat (.refTag other.kindName))

/-! ## Scalars -/

/-- A value of a kind. -/
def scalarOfKind (kind : ValueKind) (json : Json) (path : String) : Except Error Value :=
  let mismatch := Error.serializationFormat (.scalarExpected kind.name path json.kindName)
  let orMismatch {α : Type} (read : Option α) (value : α → Value) : Except Error Value :=
    match read with
    | some a => .ok (value a)
    | none => .error mismatch
  match kind with
  | .boolean =>
    match json with
    | .bool b => .ok (.bool b)
    | _ => .error mismatch
  | .int32 =>
    match json.asInt64? with
    | some n =>
      if Word.fitsInt32 n.toInt then .ok (.int n)
      else .error (.serializationFormat (.int32Range n.toInt path))
    | none => .error mismatch
  | .int64 => orMismatch json.asInt64? .int
  | .double => orMismatch json.asFloat? .float
  | .string => orMismatch json.asString? .string
  | .dateTime =>
    match json.asString? with
    | some text =>
      match Timestamp.parse? text with
      | some t => .ok (.dateTime t)
      | none => .error (.serializationFormat (.timestamp text path))
    | none => .error mismatch
  | .any => .error mismatch

/-- A value of an enum. -/
def enumMember (d : Descriptor) (json : Json) (path : String) : Except Error Value :=
  match json.asString? with
  | none => .error (.serializationFormat (.enumName d.name path json.kindName))
  | some text =>
    match d.enumMember? text with
    | some member => .ok (.enum member)
    | none => .error (.serializationFormat (.enumMember text d.name path))

/-- A value of a scalar type. -/
def scalar (d : Descriptor) (json : Json) (path : String) : Except Error Value :=
  if json.isNull then
    if d.nullable then .ok .null else .error (.serializationFormat (.null d.name path))
  else
    match d.shape with
    | .value .any => .error (.serializationFormat (.notScalar d.name path))
    | .value kind => scalarOfKind kind json path
    | .enum _ => enumMember d json path
    | _ => .error (.serializationFormat (.notScalar d.name path))

/-- The type and the content of a box. -/
def unbox (members : Entries Json) : Reading (Descriptor × Json) := do
  match (Entries.get? "_type" members).bind Json.asString? with
  | none => misshapen .boxTag
  | some name =>
    match Entries.get? "value" members with
    | none => misshapen .boxValue
    | some inner => do
      let d ← typeNamed name
      pure (d, inner)

/-- Reads a scalar, boxed or not, into a slot of the type `expected`. -/
def readScalar (expected : Descriptor) (kind : ValueKind) (n : Node) (json : Json) :
    Reading Node := do
  match json with
  | .object members =>
    let (boxed, inner) ← unbox members
    if boxed.valueKind? ≠ some kind then
      misshapen (.boxedType boxed.name expected.name n.path)
    else
      let v ← known (scalar boxed inner n.path)
      setValue { n with type := boxed.id } v
  | _ =>
    let v ← known (scalarOfKind kind json n.path)
    setValue n v

/-! ## References -/

/-- Reads a reference to the resource at `uri`. -/
def readReference (ctx : Context) (n : Node) (uri : String) : Reading Node := do
  let n := { n with uri := some uri }
  note (.reference uri n.path)
  let v ← onHeap (ctx.reference n)
  setValue n v

/-! ## Lists -/

/-- Asks the context about the items of the property that the node belongs to. -/
def checkItem (ctx : Context) (n : Node) (m : HttpMethod) : Reading Unit := do
  match n.owner with
  | none => pure ()
  | some owner =>
    let d ← descriptor owner.type
    note (.itemAccess m d.name owner.property.name)
    known (ctx.mayAccessItem d owner.property m)

/-- Whether an item's property called `name` is `wanted`, up to the kind of numbers and texts. -/
def isIdentified (s : ReadState) (name : String) (wanted : Value) : Value → Bool
  | .object id =>
    match (s.graph.table.get? (s.heap.typeOf id)).bind (·.property? name) with
    | some p => s.heap.looselyEqual (p.read s.heap id) wanted
    | none => false
  | _ => false

/-- The place of the item that an identifier marks. -/
def locate (below : NodeReader) (element : TypeId) (name : String) (identifier : Json)
    (items : List Value) (path : String) : Reading Nat := do
  let d ← descriptor element
  match d.property? name with
  | none => misshapen (.identifierProperty d.name name path)
  | some p =>
    let read ← below (.ofSlot p.type path) identifier
    let wanted := read.result
    let s ← get
    match items.findIdx? (isIdentified s name wanted) with
    | some i => pure i
    | none => misshapen (.noItem p.name (wanted.text?.getD wanted.kindName) path)

/-- The operation on an item and the place of the item it is about, after the identifiers among
`members`; the last one counts. -/
def markedItem (below : NodeReader) (element : TypeId) (items : List Value) (path : String) :
    (mark : Option (NodeOperation × Nat)) → List (String × Json) →
    Reading (Option (NodeOperation × Nat))
  | mark, [] => pure mark
  | mark, (key, identifier) :: rest => do
    if isIdentifierKey key then
      let name := String.ofList (key.toList.drop 2)
      let i ← locate below element name identifier items path
      let operation := if Text.startsWith "-" key then NodeOperation.delete else .patch
      markedItem below element items path (some (operation, i)) rest
    else markedItem below element items path mark rest

/-- The members of an object; none for another document. -/
def membersOf : Json → List (String × Json)
  | .object members => members
  | _ => []

/-- Reads an item into the list `items` of the node. -/
def readItem (ctx : Context) (below : NodeReader) (element : TypeId) (patching : Bool) (n : Node)
    (items : List Value) (item : Json) : Reading (Node × List Value) := do
  let slot := Node.ofSlot element n.path
  match ← markedItem below element items n.path none (membersOf item) with
  | some (.delete, i) =>
    checkItem ctx n .delete
    pure (n, items.eraseIdx i)
  | some (operation, i) =>
    checkItem ctx n .patch
    let child ← below { slot with operation, value := items[i]? } item
    pure (n.absorb child, items.set i child.result)
  | none =>
    if patching then checkItem ctx n .post
    let child ← below slot item
    pure (n.absorb child, items ++ [child.result])

/-- Reads items one after another. -/
def readItems (ctx : Context) (below : NodeReader) (element : TypeId) (patching : Bool) :
    Node → List Value → List Json → Reading (Node × List Value)
  | n, items, [] => pure (n, items)
  | n, items, item :: rest => do
    let (n, items) ← readItem ctx below element patching n items item
    readItems ctx below element patching n items rest

/-- The list that a node changes. -/
def keptList? (n : Node) : Option (List Value) :=
  match n.value with
  | some (.list items) => if n.keeps then some items else none
  | _ => none

/-- Reads an array into a node, item by item. -/
def readArrayItems (ctx : Context) (below : NodeReader) (element : TypeId) (n : Node) (json : Json) :
    Reading Node := do
  match json with
  | .array items =>
    let kept := keptList? n
    let (n, items) ← readItems ctx below element kept.isSome n (kept.getD []) items
    setValue n (.list items)
  | other => misshapen (.arrayExpected n.path other.kindName)

/-- Reads a list. -/
def readList (ctx : Context) (below : NodeReader) (element : TypeId) (n : Node) (json : Json) :
    Reading Node := do
  match ← known (refMember (membersOf json)) with
  | some uri => readReference ctx n uri
  | none => readArrayItems ctx below element n json

/-! ## Dictionaries -/

/-- Reads members one after another into a dictionary. -/
def readEntries (below : NodeReader) (valueType : TypeId) :
    Node → Entries Value → List (String × Json) → Reading (Node × Entries Value)
  | n, entries, [] => pure (n, entries)
  | n, entries, (key, json) :: rest => do
    match Text.after? "-" key with
    | some removed => readEntries below valueType n (Entries.erase (unescape removed) entries) rest
    | none =>
      if Text.startsWith "*" key || Text.startsWith "!" key then
        misshapen (.reservedKey key n.path)
      else
        let key := unescape key
        let child ← below (.ofSlot valueType (Node.pathBelow n.path key)) json
        readEntries below valueType (n.absorb child) (Entries.insert key child.result entries) rest

/-- The dictionary that a node changes; an empty one if there is none. -/
def keptEntries (n : Node) : Entries Value :=
  match n.value with
  | some (.map entries) => if n.keeps then entries else []
  | _ => []

/-- Reads a dictionary. -/
def readDictionary (ctx : Context) (below : NodeReader) (valueType : TypeId) (n : Node)
    (json : Json) : Reading Node := do
  match json with
  | .object members =>
    match ← known (refMember members) with
    | some uri => readReference ctx n uri
    | none =>
      let (n, entries) ← readEntries below valueType n (keptEntries n) members
      setValue n (.map entries)
  | other => misshapen (.objectExpected n.path other.kindName)

/-! ## Objects -/

/-- A member of an object that is a property. -/
structure Field where
  property : Property
  json : Json
  /-- Whether the member asks for a new value. -/
  forced : Bool
  /-- Whether a constructor parameter took it. -/
  fetched : Bool

/-- The property that a member is; none for members that say something about the object. -/
def fieldOf (d : Descriptor) (path key : String) (json : Json) : Except Error (Option Field) :=
  if key == "_type" || key == "_uri" || isIdentifierKey key then .ok none
  else
    let (name, forced) :=
      match Text.after? "!" key with
      | some rest => (rest, true)
      | none => (unescape key, false)
    match d.property? name with
    | some p => .ok (some ⟨p, json, forced, false⟩)
    | none => .error (.serializationFormat (.noProperty d.name name path))

/-- The properties among members, in order. -/
def fieldsOf (d : Descriptor) (path : String) : List (String × Json) → Except Error (List Field)
  | [] => .ok []
  | (key, json) :: rest => do
    let field ← fieldOf d path key json
    let others ← fieldsOf d path rest
    .ok (field.toList ++ others)

/-- The fields in the order in which their properties are declared; those of one property keep their
order. -/
def inDeclarationOrder (d : Descriptor) (fields : List Field) : List Field :=
  d.properties.flatMap fun p => fields.filter fun f => f.property.name == p.name

/-- Writes a property of an object. -/
def setProperty (ctx : Context) (object : ObjectId) (p : Property) (v : Value) : Reading Unit := do
  note (.set p.name)
  onHeap (ctx.setProperty object p v)

/-- Asks the context about a property. -/
def checkAccess (ctx : Context) (d : Descriptor) (p : Property) (m : HttpMethod) : Reading Unit := do
  note (.access m d.name p.name)
  known (ctx.mayAccess d p m)

/-- The fields, where the first one of the property called `name` is taken. -/
def fetch (name : String) : List Field → List Field
  | [] => []
  | f :: rest =>
    if f.property.name == name then { f with fetched := true } :: rest else f :: fetch name rest

/-- Fills a constructor parameter from the first field of its property, or from its default. -/
def construct (ctx : Context) (below : NodeReader) (d : Descriptor) (object : ObjectId) (n : Node)
    (fields : List Field) (parameter : ConstructorParameter) : Reading (Node × List Field) := do
  match d.property? parameter.property with
  | none => Action.fail (.notSupported (.constructorParameter parameter.property d.name))
  | some p =>
    match fields.find? (·.property.name == p.name) with
    | some field =>
      let child ← below (.ofProperty d.id p n.path none) field.json
      checkAccess ctx d p .post
      setProperty ctx object p child.result
      pure (n.absorb child, fetch p.name fields)
    | none =>
      match parameter.default with
      | some v =>
        setProperty ctx object p v
        pure (n, fields)
      | none => Action.fail (.missingProperty d.name p.name n.path)

/-- Fills constructor parameters in order. -/
def constructAll (ctx : Context) (below : NodeReader) (d : Descriptor) (object : ObjectId) :
    Node → List Field → List ConstructorParameter → Reading (Node × List Field)
  | n, fields, [] => pure (n, fields)
  | n, fields, parameter :: rest => do
    let (n, fields) ← construct ctx below d object n fields parameter
    constructAll ctx below d object n fields rest

/-- Reads a field into its property; the property is written if its value changes. Changes to the
items of a list were allowed one by one, and are not asked about again. -/
def assign (ctx : Context) (below : NodeReader) (d : Descriptor) (object : ObjectId)
    (m : HttpMethod) (n : Node) (field : Field) : Reading Node := do
  let p := field.property
  let current ← fromHeap fun h => p.read h object
  let isDelta :=
    match current with
    | .list _ => !field.forced
    | _ => false
  let slot := Node.ofProperty d.id p n.path (some current)
  let slot := if field.forced then { slot with operation := .post } else slot
  let child ← below slot field.json
  if child.dirty then
    if !isDelta then checkAccess ctx d p m
    setProperty ctx object p child.result
  pure (n.absorb child)

/-- Reads fields one after another. -/
def assignAll (ctx : Context) (below : NodeReader) (d : Descriptor) (object : ObjectId)
    (m : HttpMethod) : Node → List Field → Reading Node
  | n, [] => pure n
  | n, field :: rest => do
    let n ← assign ctx below d object m n field
    assignAll ctx below d object m n rest

/-- Patches an object: the fields go to a copy. -/
def patchObject (ctx : Context) (below : NodeReader) (d : Descriptor) (n : Node)
    (object : ObjectId) (fields : List Field) : Reading Node := do
  let copy ← onHeap (Action.change fun h => h.detach object)
  let n ← assignAll ctx below d copy .patch { n with operation := .patch } fields
  setValue (n.stage object copy) (.object object)

/-- Creates an object. -/
def createObject (ctx : Context) (below : NodeReader) (d : Descriptor) (m : Members) (n : Node)
    (fields : List Field) : Reading Node := do
  if m.isAbstract then misshapen (.abstractType d.name n.path)
  else
    let object ← onHeap (Action.change fun h => h.alloc ⟨d.id, []⟩)
    let (n, fields) ← constructAll ctx below d object { n with operation := .post } fields
      m.constructor
    let n ← assignAll ctx below d object .post n (fields.filter (!·.fetched))
    setValue n (.object object)

/-- The object that a node changes. -/
def keptObject? (n : Node) : Option ObjectId :=
  match n.value with
  | some (.object id) => if n.keeps then some id else none
  | _ => none

/-- The node with the type that `_type` gives, which must be assignable to the slot's. -/
def narrow (expected : Descriptor) (n : Node) (members : Entries Json) : Reading Node := do
  match Entries.get? "_type" members with
  | none => pure n
  | some (.string name) =>
    let tagged ← typeNamed name
    let fits ← Action.look fun s => .ok (s.graph.isAssignable expected.id tagged.id)
    if !expected.isAny && !fits then
      misshapen (.notAssignable tagged.name expected.name n.path)
    else pure { n with type := tagged.id }
  | some other => misshapen (.typeTag other.kindName)

/-- Reads the content of an object. -/
def readContent (ctx : Context) (below : NodeReader) (n : Node) (members : Entries Json) :
    Reading Node := do
  let kept := keptObject? n
  let n ← match kept with
    | some id => do
      let type ← fromHeap (·.typeOf id)
      pure { n with type }
    | none => pure n
  let d ← descriptor n.type
  match d.members? with
  | none => misshapen (.notStructured d.name)
  | some m =>
    let fields ← known (fieldsOf d n.path members)
    let fields := inDeclarationOrder d fields
    match kept with
    | some object => patchObject ctx below d n object fields
    | none => createObject ctx below d m n fields

/-- Whether an object has members that say where it is and of which type, and no other ones. -/
def isBareUri (members : Entries Json) : Bool :=
  members.all fun (key, _) => key == "_uri" || key == "_type"

/-- Reads an object. -/
def readObject (ctx : Context) (below : NodeReader) (n : Node) (json : Json) : Reading Node := do
  match json with
  | .object members =>
    match ← known (refMember members) with
    | some uri => readReference ctx n uri
    | none =>
      let expected ← descriptor n.expected
      let n ← narrow expected n members
      match Entries.get? "_uri" members with
      | none => readContent ctx below n members
      | some (.string uri) =>
        if isBareUri members then readReference ctx n uri
        else readContent ctx below { n with uri := some uri } members
      | some other => misshapen (.uriTag other.kindName)
  | other => misshapen (.objectExpected n.path other.kindName)

/-! ## Untyped slots -/

/-- Reads the items of an array in an untyped slot. -/
def readUntypedItems (below : NodeReader) : Node → List Value → List Json →
    Reading (Node × List Value)
  | n, done, [] => pure (n, done)
  | n, done, item :: rest => do
    let child ← below (.ofSlot n.expected n.path) item
    readUntypedItems below (n.absorb child) (done ++ [child.result]) rest

/-- Reads an object in an untyped slot: without a type a dictionary, with one an object or a box. -/
def readUntypedObject (ctx : Context) (below : NodeReader) (n : Node) (members : Entries Json) :
    Reading Node := do
  match Entries.get? "_type" members with
  | none => readDictionary ctx below n.expected n (.object members)
  | some (.string name) =>
    let d ← typeNamed name
    if d.members?.isSome then readObject ctx below n (.object members)
    else
      let (boxed, inner) ← unbox members
      let v ← known (scalar boxed inner n.path)
      setValue { n with type := boxed.id } v
  | some other => misshapen (.typeTag other.kindName)

/-- The whole number that a document's number is, or the float nearest to it. -/
def untypedNumber (json : Json) : Value :=
  match json.asInt64? with
  | some n => .int n
  | none => .float (json.asFloat?.getD 0)

/-- Reads a document into an untyped slot, by its own shape. -/
def readUntyped (ctx : Context) (below : NodeReader) (n : Node) (json : Json) : Reading Node := do
  match json with
  | .null => setValue n .null
  | .bool b => setValue n (.bool b)
  | .number _ => setValue n (untypedNumber json)
  | .string s => setValue n (.string s)
  | .array items =>
    let (n, items) ← readUntypedItems below n [] items
    setValue n (.list items)
  | .object members => readUntypedObject ctx below n members

/-! ## Nodes -/

/-- Reads a document into a node, what is below it with `below`. -/
def readWith (ctx : Context) (below : NodeReader) (n : Node) (json : Json) : Reading Node := do
  let expected ← descriptor n.expected
  if json.isNull then
    if expected.nullable then setValue n .null
    else misshapen (.null expected.name n.path)
  else
    match expected.shape with
    | .value .any => readUntyped ctx below n json
    | .value kind => readScalar expected kind n json
    | .enum _ =>
      let v ← known (scalar expected json n.path)
      setValue n v
    | .collection element => readList ctx below element n json
    | .dictionary _ value => readDictionary ctx below value n json
    | .structured _ => readObject ctx below n json
    | .resource .. => readObject ctx below n json

/-- Reads a document into a node, `depth` levels below its root. -/
def readNode (ctx : Context) : (depth : Nat) → NodeReader
  | 0 => readWith ctx fun _ _ => misshapen .malformedJson
  | depth + 1 => readWith ctx (readNode ctx depth)

/-- Reads a document as a value of the type `expected`: as a change to `existing` if there is one, else
as a new value. Objects that are there change when the whole document is accepted. -/
def read (ctx : Context) (expected : TypeId) (json : Json) (existing : Option Value) :
    Reading Value := do
  let n ← readNode ctx json.depth (.root expected existing) json
  let n ← onHeap (Action.change fun h => n.commit h)
  pure n.result

/-- Reads the text of a document. -/
def readText (ctx : Context) (expected : TypeId) (text : String) (existing : Option Value) :
    Reading Value := do
  match Json.parse? text with
  | some json => read ctx expected json existing
  | none => misshapen .malformedJson

/-! ## Listings -/

/-- The `_type` of a listing. -/
def resultTag : String := "__result__"

/-- A count among the members of a listing. -/
def countMember (members : Entries Json) (name : String) : Except Error (Option UInt64) :=
  match Entries.get? name members with
  | none => .ok none
  | some .null => .ok none
  | some json =>
    match json.asUInt64? with
    | some n => .ok (some n)
    | none => .error (.serializationFormat (.resultCount name))

/-- The URL among the members of a listing. -/
def urlMember (members : Entries Json) : Except Error (Option String) :=
  match Entries.get? "url" members with
  | none => .ok none
  | some .null => .ok none
  | some (.string url) => .ok (some url)
  | some other => .error (.serializationFormat (.resultUrl other.kindName))

/-- Reads documents one after another, each as a new value of the type `expected`. -/
def readEach (ctx : Context) (expected : TypeId) : List Json → Reading (List Value)
  | [] => pure []
  | json :: rest => do
    let v ← read ctx expected json none
    let others ← readEach ctx expected rest
    pure (v :: others)

/-- Reads a listing of values of the type `itemType`. -/
def readListing (ctx : Context) (itemType : TypeId) (json : Json) : Reading Listing := do
  match json with
  | .object members =>
    if (Entries.get? "_type" members).bind Json.asString? ≠ some resultTag then
      misshapen .resultTag
    else
      match (Entries.get? "items" members).bind Json.asArray? with
      | none => misshapen .resultItems
      | some documents =>
        let items ← readEach ctx itemType documents
        let url ← known (urlMember members)
        let skip ← known (countMember members "skip")
        let totalCount ← known (countMember members "totalCount")
        pure ⟨items, skip, totalCount, url⟩
  | other => misshapen (.resultObject other.kindName)

end Document

end ResourceQuery
