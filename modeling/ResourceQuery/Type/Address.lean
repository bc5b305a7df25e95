import ResourceQuery.Text.Percent
import ResourceQuery.Type.Graph

/-! # Addresses of resources

A resource at the top has the path of its collection and its identifier. One that is nested has the
address of its parent, the name of the collection there, and its identifier. `uriTemplate` says this
for a type, with placeholders for the identifiers; `uriOf` says it for an object.
-/

namespace ResourceQuery

namespace TypeGraph

/-- How many parents a resource may be nested in. -/
def parentLimit : Nat := 32

/-- The primary id of a resource type. -/
def requirePrimaryId (d : Descriptor) : Except Error Property :=
  match d.primaryId? with
  | some p => .ok p
  | none => .error (.notSupported (.noPrimaryId d.name))

/-- The property of a parent type that holds the children. -/
def childCollection (d : Descriptor) (parent : ResourceParent) : Except Error Property :=
  match d.property? parent.parentToChild with
  | some p => .ok p
  | none => .error (.notSupported (.noChildCollection d.name parent.parentToChild))

/-! ## Templates -/

/-- The template of a type whose objects are reached by `links` from the object that is addressed;
`parents` may still be passed. -/
def templateBelow (g : TypeGraph) : (parents : Nat) → (links : String) → Descriptor →
    Except Error String
  | parents, links, d => do
    let address ← d.requireResource
    let id ← requirePrimaryId d
    let placeholder := "\x7b" ++ links ++ id.name ++ "\x7d"
    match address.parent with
    | none => .ok (address.relativePath ++ "/" ++ placeholder)
    | some parent =>
      match parents with
      | 0 => .error (.notSupported (.parentCycle d.name))
      | parents + 1 =>
        let above ← g.get parent.type
        let collection ← childCollection above parent
        let lead ← templateBelow g parents (links ++ parent.childToParent ++ ".") above
        .ok (lead ++ "/" ++ collection.uriName ++ "/" ++ placeholder)

/-- The template of the addresses of a resource type: `farms/{Farm.Id}/critters/{Id}`. -/
def uriTemplate (g : TypeGraph) (id : TypeId) : Except Error String := do
  let d ← g.get id
  g.templateBelow parentLimit "" d

/-! ## Objects -/

/-- An identifier as a path segment. -/
def segment (d : Descriptor) (id : Value) : Except Error String :=
  match id with
  | .int n => .ok (Decimal.intText n.toInt)
  | other =>
    match other.text? with
    | some text => .ok (Percent.encode Percent.keptInSegment text)
    | none => .error (.serializationFormat (.identifierKind d.name other.kindName))

/-- The address of an object; `parents` may still be passed. -/
def uriBelow (g : TypeGraph) (h : Heap) : (parents : Nat) → ObjectId → Except Error String
  | parents, object => do
    let d ← g.get (h.typeOf object)
    let address ← d.requireResource
    let id ← requirePrimaryId d
    let last ← segment d (id.read h object)
    match address.parent with
    | none => .ok (address.relativePath ++ "/" ++ last)
    | some parent =>
      match parents with
      | 0 => .error (.notSupported (.parentCycle d.name))
      | parents + 1 =>
        match d.property? parent.childToParent with
        | none => .error (.notSupported (.noParentProperty d.name parent.childToParent))
        | some link =>
          match link.read h object with
          | .object owner =>
            let above ← g.get parent.type
            let collection ← childCollection above parent
            let lead ← uriBelow g h parents owner
            .ok (lead ++ "/" ++ collection.uriName ++ "/" ++ last)
          | other =>
            .error (.serializationFormat (.parentValue d.name link.name other.kindName))

/-- The address of an object. -/
def uriOf (g : TypeGraph) (h : Heap) (object : ObjectId) : Except Error String :=
  g.uriBelow h parentLimit object

end TypeGraph

end ResourceQuery
