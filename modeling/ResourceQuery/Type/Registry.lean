import ResourceQuery.Type.NativeParser
import ResourceQuery.Value.Heap

/-! # Declarations of types

What a domain declares before anything is resolved: source types with their properties, enums, and
proxies, which are other names for source types. A `Registry` holds them by name.

`Registry.inheritanceChain` follows the base of a type to its root. It fails exactly when the way
leaves the registered types or comes back to one of them.
-/

namespace ResourceQuery

/-! ## Source types -/

/-- A property as it is declared. -/
structure PropertyDef where
  name : String
  type : NativeType
  /-- What may be done with the property. -/
  access : HttpMethods
  /-- What may be done with the items of a collection in it. -/
  itemAccess : HttpMethods
  isPrimaryId : Bool
  required : Bool
  /-- What a constructor takes when a document has no such member. -/
  default : Option Value
  /-- Whether a resource in it is always written inline. -/
  alwaysExpanded : Bool
  /-- The field to read in place of the property's own. -/
  readsField : Option String
  /-- The field to write in place of the property's own. -/
  writesField : Option String

namespace PropertyDef

/-- A property that may be read, created and changed. -/
def ofType (name : String) (type : NativeType) : PropertyDef :=
  { name, type, access := .readWrite, itemAccess := .all, isPrimaryId := false, required := false,
    default := none, alwaysExpanded := false, readsField := none, writesField := none }

/-- A primary id: it may be read and created, but not changed. -/
def primaryId (name : String) (type : NativeType) : PropertyDef :=
  { ofType name type with access := .ofList [.get, .post], isPrimaryId := true }

end PropertyDef

/-- Whether the instances of a type are addressed by URI. -/
inductive SourceKind where
  | valueObject
  | resource
  deriving DecidableEq

/-- How a resource type is nested in another: the type above, the property that leads there, and the
property of the type above that leads back. -/
structure ParentDef where
  type : String
  childToParent : String
  parentToChild : String
  deriving DecidableEq

/-- A type as it is declared. -/
structure SourceType where
  name : String
  kind : SourceKind
  base : Option String
  isAbstract : Bool
  allowed : HttpMethods
  path : Option String
  parent : Option ParentDef
  /-- The type whose collection holds the instances, if it is not the root of the inheritance. -/
  uriBase : Option String
  typeParameters : List String
  genericArguments : List NativeType
  properties : List PropertyDef
  /-- The properties that a constructor takes, if they are not just the required ones. -/
  constructor : Option (List String)

namespace SourceType

/-- A type with nothing declared but its name and kind. -/
def bare (name : String) (kind : SourceKind) : SourceType :=
  { name, kind, base := none, isAbstract := false, allowed := .all, path := none, parent := none,
    uriBase := none, typeParameters := [], genericArguments := [], properties := [],
    constructor := none }

/-- Whether the type needs arguments. -/
def isGeneric (source : SourceType) : Bool :=
  !source.typeParameters.isEmpty

/-- The path of the type's collection: the declared one, or the name in small letters and an `s`. -/
def collectionPath (source : SourceType) : String :=
  source.path.getD (Text.asciiLower source.name ++ "s")

end SourceType

/-! ## The registry -/

/-- Declarations by name. -/
structure Registry where
  types : Entries SourceType
  enums : Entries (List String)
  proxies : Entries String

namespace Registry

/-- The registry without declarations. -/
def empty : Registry := ⟨[], [], []⟩

/-- The registry with `source` in place of a type of that name. -/
def withType (r : Registry) (source : SourceType) : Registry :=
  { r with types := Entries.insert source.name source r.types }

/-- The registry with an enum in place of one of that name. -/
def withEnum (r : Registry) (name : String) (members : List String) : Registry :=
  { r with enums := Entries.insert name members r.enums }

/-- The registry with a proxy in place of one of that name. -/
def withProxy (r : Registry) (name target : String) : Registry :=
  { r with proxies := Entries.insert name target r.proxies }

/-- Whether nothing is declared under `name`. -/
def isFree (r : Registry) (name : String) : Bool :=
  (Entries.get? name r.types).isNone && (Entries.get? name r.enums).isNone &&
    (Entries.get? name r.proxies).isNone

/-- `next`, if nothing is declared under `name` yet. -/
def ifFree (r : Registry) (name : String) (next : Registry) : Except Error Registry :=
  if r.isFree name then .ok next else .error (.config (.declaredTwice name))

/-- Declares a type under a free name. -/
def register (r : Registry) (source : SourceType) : Except Error Registry :=
  r.ifFree source.name (r.withType source)

/-- Declares an enum under a free name. -/
def registerEnum (r : Registry) (name : String) (members : List String) :
    Except Error Registry :=
  r.ifFree name (r.withEnum name members)

/-- Declares a proxy under a free name. -/
def registerProxy (r : Registry) (name target : String) : Except Error Registry :=
  r.ifFree name (r.withProxy name target)

/-- The source type of the given name. -/
def sourceType? (r : Registry) (name : String) : Option SourceType :=
  Entries.get? name r.types

/-- The members of the enum of the given name. -/
def enumMembers? (r : Registry) (name : String) : Option (List String) :=
  Entries.get? name r.enums

/-- The target of the proxy of the given name. -/
def proxyTarget? (r : Registry) (name : String) : Option String :=
  Entries.get? name r.proxies

/-! ## Inheritance -/

/-- The types from the one called `name` to the root, put before `below`, which holds the types passed
on the way, nearest first. Each step passes another registered type, so their number bounds the
steps. -/
def chainAbove (r : Registry) : (fuel : Nat) → (below : List SourceType) → (name : String) →
    Except Error (List SourceType)
  | 0, _, name => .error (.notSupported (.inheritanceCycle name))
  | fuel + 1, below, name =>
    match r.sourceType? name with
    | none => .error (.unknownType name)
    | some source =>
      if below.any (·.name == source.name) then
        .error (.notSupported (.inheritanceCycle name))
      else
        match source.base with
        | none => .ok (source :: below)
        | some base => chainAbove r fuel (source :: below) base

/-- The type called `name` and the types it inherits from, the root first. -/
def inheritanceChain (r : Registry) (name : String) : Except Error (List SourceType) :=
  r.chainAbove (r.types.length + 1) [] name

end Registry

end ResourceQuery
