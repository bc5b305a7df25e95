import ResourceQuery.Type.Graph
import ResourceQuery.Value.Equality

/-! # Repositories

The objects that a server holds, in collections by the type at the root of each collection. No two
objects of a collection have the same primary id; an object that is put under an id that is taken
stands where the earlier one stood. Objects of types without a primary id are simply kept.
-/

namespace ResourceQuery

/-- Collections by the type at their root. -/
structure Repository where
  collections : List (TypeId × List Value)

namespace Repository

/-- The repository without objects. -/
def empty : Repository := ⟨[]⟩

/-! ## Collections -/

/-- The objects of the collection of `base`. -/
def collection (r : Repository) (base : TypeId) : List Value :=
  (r.collections.lookup base).getD []

/-- The collections with other objects in that of `base`. -/
def putCollection (base : TypeId) (items : List Value) :
    List (TypeId × List Value) → List (TypeId × List Value)
  | [] => [(base, items)]
  | (b, old) :: rest =>
    if b = base then (base, items) :: rest else (b, old) :: putCollection base items rest

/-- The repository with other objects in the collection of `base`. -/
def setCollection (r : Repository) (base : TypeId) (items : List Value) : Repository :=
  ⟨putCollection base items r.collections⟩

/-- The type at the root of the collection that holds instances of a type. -/
def rootOf (g : TypeGraph) (type : TypeId) : Except Error (Descriptor × TypeId) := do
  let d ← g.get type
  let address ← d.requireResource
  .ok (d, address.uriBase)

/-- Whether a stored value is an object with the primary id `id`. -/
def hasId (g : TypeGraph) (h : Heap) (id : Value) : Value → Bool
  | .object object =>
    match (g.table.get? (h.typeOf object)).bind Descriptor.primaryId? with
    | some p => h.looselyEqual (p.read h object) id
    | none => false
  | _ => false

/-- `items` with `item` in place of the first one for which `same` holds, or at the end. -/
def replaceFirst (same : Value → Bool) (item : Value) : List Value → List Value
  | [] => [item]
  | old :: rest => if same old then item :: rest else old :: replaceFirst same item rest

/-! ## Operations -/

/-- Stores an object. -/
def insert (g : TypeGraph) (h : Heap) (r : Repository) (object : ObjectId) :
    Except Error Repository := do
  let (d, base) ← rootOf g (h.typeOf object)
  let same : Value → Bool :=
    match d.primaryId? with
    | some p => hasId g h (p.read h object)
    | none => fun _ => false
  .ok (r.setCollection base (replaceFirst same (.object object) (r.collection base)))

/-- The object of a type's collection with the primary id `id`. -/
def get? (g : TypeGraph) (h : Heap) (r : Repository) (type : TypeId) (id : Value) :
    Except Error (Option Value) := do
  let (_, base) ← rootOf g type
  .ok ((r.collection base).find? (hasId g h id))

/-- Removes the object of a type's collection with the primary id `id`, and tells whether there was
one. -/
def remove (g : TypeGraph) (h : Heap) (r : Repository) (type : TypeId) (id : Value) :
    Except Error (Bool × Repository) := do
  let (_, base) ← rootOf g type
  let items := r.collection base
  .ok (items.any (hasId g h id), r.setCollection base (items.filter (!hasId g h id ·)))

/-- The objects of the collection that holds instances of a type. -/
def list (g : TypeGraph) (r : Repository) (type : TypeId) : Except Error (List Value) := do
  let (_, base) ← rootOf g type
  .ok (r.collection base)

/-- How many objects are stored. -/
def size (r : Repository) : Nat :=
  r.collections.foldr (fun (_, items) size => items.length + size) 0

/-- The objects that a query on the collection of `endpoint` is about. -/
def itemsFor (r : Repository) (endpoint : Descriptor) : List Value :=
  r.collection ((endpoint.address?.map (·.uriBase)).getD endpoint.id)

end Repository

end ResourceQuery
