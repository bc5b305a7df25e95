import ResourceQuery.Text.CaseMap
import ResourceQuery.Type.Registry

/-! # Descriptors

What is known of a type once it is resolved: its shape, and for types with properties the table of
them, inherited ones included. Everything that reads, writes or queries an object goes through the
`Property` entries of its type's descriptor.
-/

namespace ResourceQuery

/-! ## Properties -/

/-- A property of a resolved type. -/
structure Property where
  name : String
  /-- The type that declares the property. -/
  declaringType : TypeId
  type : TypeId
  access : HttpMethods
  itemAccess : HttpMethods
  isPrimaryId : Bool
  required : Bool
  default : Option Value
  alwaysExpanded : Bool
  readsField : Option String
  writesField : Option String

namespace Property

/-- Whether `name` names the property, in any case of ASCII letters. -/
def isNamed (p : Property) (name : String) : Bool :=
  Text.sameIgnoringCase p.name name

/-- The name in documents: the first letter is small. -/
def jsonName (p : Property) : String :=
  match p.name.toList with
  | [] => ""
  | c :: rest => String.ofList (CaseMap.lowerChar c ++ rest)

/-- The characters of a name in URIs: a capital becomes a small letter, after a dash where something
precedes it. -/
def dashed (first : Bool) : List Char → List Char
  | [] => []
  | c :: rest =>
    let image :=
      if CharClass.isUppercase c then (if first then [] else ['-']) ++ CaseMap.lowerChar c else [c]
    image ++ dashed false rest

/-- The name in URIs. -/
def uriName (p : Property) : String :=
  String.ofList (dashed true p.name.toList)

/-- Whether clients may read the property. -/
def isReadable (p : Property) : Bool :=
  p.access.get

/-- The value of the property in a record. -/
def getFrom (p : Property) (record : Record) : Value :=
  (Entries.get? (p.readsField.getD p.name) record.fields).getD .null

/-- The value of the property of an object. -/
def read (p : Property) (h : Heap) (id : ObjectId) : Value :=
  p.getFrom (h.record id)

/-- The heap where the property of an object has another value. -/
def write (p : Property) (h : Heap) (id : ObjectId) (value : Value) : Heap :=
  h.setField id (p.writesField.getD p.name) value

end Property

/-! ## Shapes -/

/-- A property that a constructor takes, and what it takes if there is none. -/
structure ConstructorParameter where
  property : String
  default : Option Value

/-- What types with properties have. -/
structure Members where
  properties : List Property
  base : Option TypeId
  isAbstract : Bool
  allowed : HttpMethods
  constructor : List ConstructorParameter
  /-- The place of the primary id in `properties`. -/
  primaryId : Option Nat

namespace Members

/-- The property called `name`. -/
def property? (m : Members) (name : String) : Option Property :=
  m.properties.find? (·.isNamed name)

/-- The primary id. -/
def primaryId? (m : Members) : Option Property :=
  m.primaryId.bind fun i => m.properties[i]?

end Members

/-- How a resolved resource type is nested in another. -/
structure ResourceParent where
  type : TypeId
  childToParent : String
  parentToChild : String
  deriving DecidableEq

/-- Where the instances of a resource type are. -/
structure ResourceAddress where
  /-- The path of the collection. -/
  relativePath : String
  parent : Option ResourceParent
  /-- The type whose collection it is. -/
  uriBase : TypeId
  deriving DecidableEq

/-- The shape of a type. -/
inductive TypeShape where
  | value (kind : ValueKind)
  | enum (members : List String)
  | collection (element : TypeId)
  | dictionary (key value : TypeId)
  | structured (members : Members)
  | resource (members : Members) (address : ResourceAddress)

/-- A resolved type. -/
structure Descriptor where
  id : TypeId
  name : String
  /-- Whether a slot of the type may hold null. -/
  nullable : Bool
  arguments : List TypeId
  shape : TypeShape

namespace Descriptor

/-- The members of a type with properties. -/
def members? (d : Descriptor) : Option Members :=
  match d.shape with
  | .structured m => some m
  | .resource m _ => some m
  | _ => none

/-- The address of a resource type. -/
def address? (d : Descriptor) : Option ResourceAddress :=
  match d.shape with
  | .resource _ a => some a
  | _ => none

/-- The kind of a value type. -/
def valueKind? (d : Descriptor) : Option ValueKind :=
  match d.shape with
  | .value kind => some kind
  | _ => none

/-- The element type of a list. -/
def element? (d : Descriptor) : Option TypeId :=
  match d.shape with
  | .collection element => some element
  | _ => none

/-- Whether the type holds anything at all. -/
def isAny (d : Descriptor) : Bool :=
  match d.shape with
  | .value .any => true
  | _ => false

/-- Whether the type is a resource type. -/
def isResource (d : Descriptor) : Bool :=
  d.address?.isSome

/-- The properties; none for a type without members. -/
def properties (d : Descriptor) : List Property :=
  match d.members? with
  | some m => m.properties
  | none => []

/-- The property called `name`. -/
def property? (d : Descriptor) (name : String) : Option Property :=
  d.members?.bind (·.property? name)

/-- The primary id. -/
def primaryId? (d : Descriptor) : Option Property :=
  d.members?.bind Members.primaryId?

/-- The type inherited from. -/
def base? (d : Descriptor) : Option TypeId :=
  d.members?.bind (·.base)

/-- The member of an enum called `name`, as it is declared. -/
def enumMember? (d : Descriptor) (name : String) : Option String :=
  match d.shape with
  | .enum members => members.find? (Text.sameIgnoringCase · name)
  | _ => none

/-- How instances are written in documents, in words. -/
def mode (d : Descriptor) : String :=
  match d.shape with
  | .value _ => "value"
  | .enum _ => "value"
  | .collection _ => "array"
  | .dictionary .. => "dictionary"
  | .structured _ => "structured"
  | .resource .. => "structured"

/-- The members of a resource type with its address. -/
def requireResource (d : Descriptor) : Except Error ResourceAddress :=
  match d.address? with
  | some address => .ok address
  | none => .error (.notSupported (.notResource d.name))

end Descriptor

end ResourceQuery
