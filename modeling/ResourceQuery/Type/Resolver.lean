import ResourceQuery.Action
import ResourceQuery.Type.Descriptor

/-! # Resolving types

Resolved types stand in a table by number, by expression and by name. Resolving a type expression
resolves everything it mentions, and types may mention each other in cycles: a number is reserved for a
type before its parts are resolved, and the parts find it.

One resolution is a session. It writes to the table as it goes and keeps a journal of the keys that it
has entered, so that a session that fails can be rolled back, the numbers it gave out included.

A generic definition that mentions itself with ever larger arguments is never done. How deep a
resolution may go is therefore a parameter; `Resolution.depthLimit` is far beyond what a table can hold.
-/

namespace ResourceQuery

/-! ## The table -/

/-- Descriptors by number, a reserved one missing, and numbers by expression and by lowercase name. -/
structure TypeTable where
  slots : Array (Option Descriptor)
  byNative : List (NativeType × TypeId)
  byName : List (String × TypeId)

namespace TypeTable

/-- The table without types. -/
def empty : TypeTable := ⟨#[], [], []⟩

/-- The descriptor with a number, if it is complete. -/
def get? (t : TypeTable) (id : TypeId) : Option Descriptor :=
  (t.slots[id.index]?).join

/-- Reserves a number for `native`. The name leads to it unless it leads somewhere already. -/
def reserve (t : TypeTable) (native : NativeType) (name : String) : TypeId × TypeTable :=
  let id : TypeId := ⟨t.slots.size⟩
  let key := Text.asciiLower name
  let byName :=
    match t.byName.lookup key with
    | some _ => t.byName
    | none => (key, id) :: t.byName
  (id, ⟨t.slots.push none, (native, id) :: t.byNative, byName⟩)

/-- Completes a reserved number. -/
def fill (t : TypeTable) (d : Descriptor) : TypeTable :=
  { t with slots := t.slots.setIfInBounds d.id.index (some d) }

/-- Lets `native` lead to a number that is there already. -/
def identify (t : TypeTable) (native : NativeType) (id : TypeId) : TypeTable :=
  { t with byNative := (native, id) :: t.byNative }

/-- The complete descriptors, by number. -/
def complete (t : TypeTable) : List Descriptor :=
  t.slots.toList.filterMap id

end TypeTable

/-! ## Sessions -/

/-- The table while one resolution is under way, and the journal of that resolution: how many slots there
were when it began, and the keys that it has entered since. -/
structure Session where
  table : TypeTable
  start : Nat
  natives : List NativeType
  names : List String

namespace Session

/-- A session that has entered nothing yet. -/
def begin (t : TypeTable) : Session := ⟨t, t.slots.size, [], []⟩

/-- Reserves a number for `native`. A name that leads somewhere already is not entered. -/
def reserve (s : Session) (native : NativeType) (name : String) : TypeId × Session :=
  let key := Text.asciiLower name
  let names := if (s.table.byName.lookup key).isSome then s.names else key :: s.names
  let reserved := s.table.reserve native name
  (reserved.1, ⟨reserved.2, s.start, native :: s.natives, names⟩)

/-- Completes a reserved number. -/
def fill (s : Session) (d : Descriptor) : Session :=
  { s with table := s.table.fill d }

/-- Lets `native` lead to a number that is there already. -/
def identify (s : Session) (native : NativeType) (id : TypeId) : Session :=
  { s with table := s.table.identify native id, natives := native :: s.natives }

/-- The table without the keys and the slots that the session has entered. -/
def rollback (s : Session) : TypeTable where
  slots := s.table.slots.take s.start
  byNative := s.table.byNative.filter fun entry => entry.1 ∉ s.natives
  byName := s.table.byName.filter fun entry => entry.1 ∉ s.names

end Session

/-! ## Steps -/

/-- A step of a resolution. When it fails, the session is left as it is then. -/
abbrev Resolution (α : Type) := Action Session α

namespace Resolution

/-- Resolves the parts of a type. -/
abbrev Resolver := NativeType → Resolution TypeId

/-- Reserves a number for `native`. -/
def reserve (native : NativeType) (name : String) : Resolution TypeId :=
  Action.change fun s => s.reserve native name

/-- Completes a reserved number and answers it. -/
def fill (d : Descriptor) : Resolution TypeId :=
  Action.change fun s => (d.id, s.fill d)

/-- Lets `native` lead to `id`. -/
def identify (native : NativeType) (id : TypeId) : Resolution TypeId :=
  Action.change fun s => (id, s.identify native id)

/-- The descriptor with a number, if it is complete. -/
def descriptor? (id : TypeId) : Resolution (Option Descriptor) :=
  Action.look fun s => .ok (s.table.get? id)

/-- An outcome that does not depend on the table. -/
def settled {α : Type} (outcome : Except Error α) : Resolution α :=
  Action.look fun _ => outcome

/-- What `native` leads to; if it leads nowhere yet, the answer of `build`. -/
def lookUp (native : NativeType) (build : Resolution TypeId) : Resolution TypeId := do
  match ← Action.look fun s => .ok (s.table.byNative.lookup native) with
  | some id => pure id
  | none => build

/-- What a descriptor has beside its number and its name. -/
structure Contents where
  arguments : List TypeId
  shape : TypeShape

/-- Reserves a number for `native`, and completes it with what `contents` answers. -/
def enter (native : NativeType) (name : String) (isNullable : Bool)
    (contents : TypeId → Resolution Contents) : Resolution TypeId := do
  let id ← reserve native name
  let c ← contents id
  fill ⟨id, name, isNullable, c.arguments, c.shape⟩

/-! ## Types without members -/

/-- The shape that a type has once more when its values are made optional. What accepts null already
has none. -/
def optionalShape? (d : Descriptor) : Option TypeShape :=
  match d.shape with
  | .value kind => if d.nullable then none else some (.value kind)
  | .enum members => some (.enum members)
  | _ => none

/-- An optional type. What accepts null already shares the descriptor of the inner type; other values
get one of their own. -/
def nullable (resolve : Resolver) (native inner : NativeType) : Resolution TypeId := do
  let innerId ← resolve inner
  let d ← descriptor? innerId
  match d.bind optionalShape? with
  | some shape => enter native native.text true fun _ => pure ⟨[innerId], shape⟩
  | none => identify native innerId

/-- What is in a list type. -/
def listContents (resolve : Resolver) (element : NativeType) : Resolution Contents := do
  let id ← resolve element
  pure ⟨[id], .collection id⟩

/-- What is in a dictionary type. -/
def mapContents (resolve : Resolver) (key value : NativeType) : Resolution Contents := do
  let keyId ← resolve key
  let valueId ← resolve value
  pure ⟨[keyId, valueId], .dictionary keyId valueId⟩

/-! ## Source types -/

/-- Resolves several types in order. -/
def each (resolve : Resolver) : List NativeType → Resolution (List TypeId)
  | [] => pure []
  | n :: rest => do
    let id ← resolve n
    let ids ← each resolve rest
    pure (id :: ids)

/-- The number of the declared type called `name`; the type called `self` has the number `id`. -/
def numberOf (resolve : Resolver) (self : String) (id : TypeId) (name : String) :
    Resolution TypeId :=
  if name = self then pure id else resolve (.named name)

/-- The number of the base, if there is one. -/
def baseOf (resolve : Resolver) : Option String → Resolution (Option TypeId)
  | none => pure none
  | some name => do
    let id ← resolve (.named name)
    pure (some id)

/-- The arguments of a source type: those of the instance, or those that are declared. -/
def argumentTypes (source : SourceType) (arguments : List NativeType) : List NativeType :=
  if arguments.isEmpty then source.genericArguments.map NativeType.canonical else arguments

/-- The type of a declared property, in an instance with the given arguments. -/
def propertyType (arguments : List NativeType) (d : PropertyDef) : NativeType :=
  (d.type.substitute arguments).canonical

/-- A declared property whose type is resolved. -/
def property (declaring : TypeId) (d : PropertyDef) (type : TypeId) : Property :=
  { name := d.name, declaringType := declaring, type, access := d.access,
    itemAccess := d.itemAccess, isPrimaryId := d.isPrimaryId, required := d.required,
    default := d.default, alwaysExpanded := d.alwaysExpanded, readsField := d.readsField,
    writesField := d.writesField }

/-- Puts a property into a table: in place of one of the same name, else at the end. -/
def putProperty (p : Property) : List Property → List Property
  | [] => [p]
  | q :: rest => if q.isNamed p.name then p :: rest else q :: putProperty p rest

/-- Resolves declared properties and puts them into `table`. -/
def declare (resolve : Resolver) (arguments : List NativeType) (declaring : TypeId) :
    (defs : List PropertyDef) → (table : List Property) → Resolution (List Property)
  | [], table => pure table
  | d :: rest, table => do
    let type ← resolve (propertyType arguments d)
    declare resolve arguments declaring rest (putProperty (property declaring d type) table)

/-- The property table of the type called `self` with number `id`, along its inheritance chain. -/
def inherit (resolve : Resolver) (arguments : List NativeType) (self : String) (id : TypeId) :
    (chain : List SourceType) → (table : List Property) → Resolution (List Property)
  | [], table => pure table
  | source :: rest, table => do
    let declaring ← numberOf resolve self id source.name
    let table ← declare resolve arguments declaring source.properties table
    inherit resolve arguments self id rest table

/-- The names of the constructor parameters: those declared lowest in the chain, or the required
properties. -/
def constructorNames (chain : List SourceType) (properties : List Property) : List String :=
  (chain.reverse.findSome? (·.constructor)).getD ((properties.filter (·.required)).map (·.name))

/-- The constructor parameters with the given names. -/
def parameters (type : String) (table : List Property) :
    List String → Except Error (List ConstructorParameter)
  | [] => .ok []
  | name :: rest =>
    match table.find? (·.isNamed name) with
    | none => .error (.notSupported (.constructorProperty name type))
    | some p => (parameters type table rest).map (⟨p.name, p.default⟩ :: ·)

/-- The members of a source type with the given properties. -/
def members (source : SourceType) (base : Option TypeId) (properties : List Property)
    (constructor : List ConstructorParameter) : Members :=
  { properties, base, isAbstract := source.isAbstract, allowed := source.allowed, constructor,
    primaryId := properties.findIdx? (·.isPrimaryId) }

/-- The type whose collection holds the instances: the declared one, or the highest resource type in the
chain. -/
def collectionOwner (source : SourceType) (chain : List SourceType) : String :=
  source.uriBase.getD ((chain.find? (·.kind = .resource)).getD source).name

/-- The path of the collection: the type's own, or that of the type called `owner`. -/
def relativePath (registry : Registry) (source : SourceType) (owner : String) : String :=
  source.path.getD ((registry.sourceType? owner).getD source).collectionPath

/-- The nearest parent that the chain declares. -/
def parentDef? (chain : List SourceType) : Option ParentDef :=
  chain.reverse.findSome? (·.parent)

/-- Resolves the type that a resource type is nested in. -/
def parentOf (resolve : Resolver) : Option ParentDef → Resolution (Option ResourceParent)
  | none => pure none
  | some parent => do
    let type ← resolve (.named parent.type)
    pure (some ⟨type, parent.childToParent, parent.parentToChild⟩)

/-- Where the instances of a resource type are. -/
def address (registry : Registry) (resolve : Resolver) (source : SourceType)
    (chain : List SourceType) (id : TypeId) : Resolution ResourceAddress := do
  let owner := collectionOwner source chain
  let uriBase ← numberOf resolve source.name id owner
  let parent ← parentOf resolve (parentDef? chain)
  pure ⟨relativePath registry source owner, parent, uriBase⟩

/-- The shape of a source type whose members are resolved. -/
def shapeOf (registry : Registry) (resolve : Resolver) (source : SourceType)
    (chain : List SourceType) (id : TypeId) (members : Members) : Resolution TypeShape :=
  match source.kind with
  | .valueObject => pure (.structured members)
  | .resource => do
    let address ← address registry resolve source chain id
    pure (.resource members address)

/-- What is in a source type called `name` that has the number `id`. -/
def sourceContents (registry : Registry) (resolve : Resolver) (source : SourceType)
    (chain : List SourceType) (arguments : List NativeType) (name : String) (id : TypeId) :
    Resolution Contents := do
  let base ← baseOf resolve source.base
  let argumentIds ← each resolve (argumentTypes source arguments)
  let properties ← inherit resolve arguments source.name id chain []
  let constructor ← settled (parameters name properties (constructorNames chain properties))
  let shape ← shapeOf registry resolve source chain id
    (members source base properties constructor)
  pure ⟨argumentIds, shape⟩

/-- A source type, with arguments if it is generic. -/
def source (registry : Registry) (resolve : Resolver) (native : NativeType) (source : SourceType)
    (arguments : List NativeType) : Resolution TypeId := do
  let chain ← settled (registry.inheritanceChain source.name)
  let name := if arguments.isEmpty then source.name else native.text
  enter native name true (sourceContents registry resolve source chain arguments name)

/-! ## Type expressions -/

/-- A proxy leads where its target leads, which is a source type. -/
def proxy (registry : Registry) (resolve : Resolver) (native : NativeType) (target : String) :
    Resolution TypeId :=
  if (registry.sourceType? target).isSome then do
    let id ← resolve (.named target)
    identify native id
  else Action.fail (.unknownType target)

/-- A declared name: an enum before a source type before a proxy. -/
def named (registry : Registry) (resolve : Resolver) (name : String) : Resolution TypeId :=
  match registry.enumMembers? name with
  | some members => enter (.named name) name false fun _ => pure ⟨[], .enum members⟩
  | none =>
    match registry.sourceType? name with
    | some s =>
      if s.isGeneric then
        Action.fail (.notSupported (.genericWithoutArguments name s.typeParameters.length))
      else source registry resolve (.named name) s []
    | none =>
      match registry.proxyTarget? name with
      | some target => proxy registry resolve (.named name) target
      | none => Action.fail (.unknownType name)

/-- An instance of a generic definition. -/
def instance_ (registry : Registry) (resolve : Resolver) (native : NativeType)
    (definition : String) (arguments : List NativeType) : Resolution TypeId :=
  match registry.sourceType? definition with
  | some s =>
    if !s.isGeneric then Action.fail (.unknownType native.text)
    else if s.typeParameters.length ≠ arguments.length then
      Action.fail (.notSupported
        (.argumentCount definition s.typeParameters.length arguments.length))
    else source registry resolve native s arguments
  | none => Action.fail (.unknownType native.text)

/-- Resolves a type that is not in the table. -/
def build (registry : Registry) (resolve : Resolver) (native : NativeType) : Resolution TypeId :=
  match native with
  | .value kind => enter native kind.name kind.isNullable fun _ => pure ⟨[], .value kind⟩
  | .nullable inner => nullable resolve native inner
  | .list element => enter native native.text true fun _ => listContents resolve element
  | .map key value =>
    if key ≠ .value .string then Action.fail (.notSupported (.dictionaryKey key.text))
    else enter native native.text true fun _ => mapContents resolve key value
  | .named name => named registry resolve name
  | .generic definition arguments => instance_ registry resolve native definition arguments
  | .parameter _ => Action.fail (.unknownType s!"unbound type parameter {native.text}")

/-- Resolves a canonical type expression; `depth` types may be built inside each other. -/
def run (registry : Registry) : (depth : Nat) → Resolver
  | 0, native => lookUp native (Action.fail (.notSupported (.endlessType native.text)))
  | depth + 1, native => lookUp native (build registry (run registry depth) native)

/-- How many types may be built inside each other. Numbers of types have 32 bits. -/
def depthLimit : Nat := 4294967296

end Resolution

end ResourceQuery
