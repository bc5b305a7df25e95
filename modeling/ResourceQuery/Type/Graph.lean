import ResourceQuery.Type.Resolver

/-! # The type graph

A registry and the types resolved from it so far, starting with all that are declared without parameters.
A resolution either succeeds and the graph then knows the new types, or fails and is rolled back.
-/

namespace ResourceQuery

/-! ## The graph -/

/-- A registry and the types resolved from it so far. -/
structure TypeGraph where
  registry : Registry
  table : TypeTable

namespace TypeGraph

/-- Resolves a type expression; `depth` types may be built inside each other. A session that fails is
rolled back. -/
def resolveWithin (depth : Nat) (g : TypeGraph) (native : NativeType) :
    Except Error TypeId × TypeGraph :=
  match (Resolution.run g.registry depth native.canonical).runOn (.begin g.table) with
  | (.ok id, s) => (.ok id, { g with table := s.table })
  | (.error e, s) => (.error e, { g with table := s.rollback })

/-- Resolves a type expression. -/
def resolve (g : TypeGraph) (native : NativeType) : Except Error TypeId × TypeGraph :=
  g.resolveWithin Resolution.depthLimit native

/-- Resolves types one after another, up to the first failure. -/
def resolveAll (g : TypeGraph) : List NativeType → Except Error TypeGraph
  | [] => .ok g
  | native :: rest =>
    match g.resolve native with
    | (.ok _, g) => g.resolveAll rest
    | (.error e, _) => .error e

/-- The graph of a registry: the value kinds first, then the enums, the source types without
parameters and the proxies, each by name. -/
def ofRegistry (registry : Registry) : Except Error TypeGraph :=
  let sources := registry.types.filter fun (_, source) => !source.isGeneric
  let names := Entries.keys registry.enums ++ Entries.keys sources ++ Entries.keys registry.proxies
  TypeGraph.resolveAll ⟨registry, .empty⟩
    (ValueKind.all.map NativeType.value ++ names.map NativeType.named)

/-- The number of a value kind's type. Value kinds come first in every graph. -/
def valueType (kind : ValueKind) : TypeId := ⟨kind.index⟩

/-- The descriptor with the given number. -/
def get (g : TypeGraph) (id : TypeId) : Except Error Descriptor :=
  match g.table.get? id with
  | some d => .ok d
  | none => .error (.unknownType id.text)

/-- Resolves a type expression and answers its descriptor. -/
def resolveTypeWithin (depth : Nat) (g : TypeGraph) (native : NativeType) :
    Except Error Descriptor × TypeGraph :=
  match g.resolveWithin depth native with
  | (.ok id, g) => (g.get id, g)
  | (.error e, g) => (.error e, g)

/-- Resolves a type expression and answers its descriptor. -/
def resolveType (g : TypeGraph) (native : NativeType) : Except Error Descriptor × TypeGraph :=
  g.resolveTypeWithin Resolution.depthLimit native

/-- The type called `name`, in any case of ASCII letters; a name that is not known yet is read as a
type expression, and `depth` types may be built inside each other. -/
def byNameWithin (depth : Nat) (g : TypeGraph) (name : String) :
    Except Error Descriptor × TypeGraph :=
  match g.table.byName.lookup (Text.asciiLower name) with
  | some id => (g.get id, g)
  | none =>
    match NativeType.parse name with
    | .error _ => (.error (.unknownType name), g)
    | .ok native => g.resolveTypeWithin depth native

/-- The type called `name`, in any case of ASCII letters; a name that is not known yet is read as a
type expression. -/
def byName (g : TypeGraph) (name : String) : Except Error Descriptor × TypeGraph :=
  g.byNameWithin Resolution.depthLimit name

/-- All types, by number. -/
def types (g : TypeGraph) : List Descriptor :=
  g.table.complete

/-- The resource types, by number. -/
def resources (g : TypeGraph) : List Descriptor :=
  g.types.filter (·.isResource)

/-- Whether `target` is `candidate` or one of the types it inherits from. A chain of bases passes each
type once at most. -/
def inheritsFrom (g : TypeGraph) (target : TypeId) : (fuel : Nat) → (candidate : TypeId) → Bool
  | 0, _ => false
  | fuel + 1, candidate =>
    candidate = target ||
      match (g.table.get? candidate).bind Descriptor.base? with
      | some base => inheritsFrom g target fuel base
      | none => false

/-- Whether a slot of type `target` accepts an instance of `candidate`. -/
def isAssignable (g : TypeGraph) (target candidate : TypeId) : Bool :=
  (g.table.get? target).any (·.isAny) ||
    g.inheritsFrom target (g.table.slots.size + 1) candidate

/-- The other types with properties that are assignable to a type, by number. -/
def subTypes (g : TypeGraph) (id : TypeId) : List TypeId :=
  (g.types.filter fun d => d.members?.isSome && d.id ≠ id && g.isAssignable id d.id).map (·.id)

end TypeGraph

end ResourceQuery
