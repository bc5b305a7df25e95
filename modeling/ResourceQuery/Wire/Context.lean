import ResourceQuery.Action
import ResourceQuery.Wire.Node

/-! # Reading contexts

Who reads documents decides what they may do. A `Context` is asked before a property is written or an
item of a collection is touched, makes the value that stands in for a resource elsewhere, and writes
the properties of objects.
-/

namespace ResourceQuery

/-- Decisions and effects while a document is read. -/
structure Context where
  /-- Whether a method may be applied to a property of a type. -/
  mayAccess : Descriptor → Property → HttpMethod → Except Error Unit
  /-- Whether a method may be applied to the items of a collection in a property of a type. -/
  mayAccessItem : Descriptor → Property → HttpMethod → Except Error Unit
  /-- The value for a node that only says where a resource is. -/
  reference : Node → Action Heap Value
  /-- Writes a property of an object. -/
  setProperty : ObjectId → Property → Value → Action Heap Unit

namespace Context

/-- Passes if `allowed`, else fails because access is denied. -/
def require (allowed : Bool) (owner : Descriptor) (p : Property) (m : HttpMethod) :
    Except Error Unit :=
  if allowed then .ok () else .error (.accessDenied owner.name p.name m)

/-- A reference to the resource at the node's URI, which is not loaded. -/
def unloaded (n : Node) : Action Heap Value :=
  match n.uri with
  | none => Action.fail (.serializationFormat .referenceWithoutUri)
  | some uri =>
    Action.change fun h =>
      let (ref, h) := h.newRef uri n.type .unresolved
      (.reference ref, h)

/-- Writes a property through its descriptor. -/
def store (object : ObjectId) (p : Property) (v : Value) : Action Heap Unit :=
  Action.change fun h => ((), p.write h object v)

/-- The declared access masks decide. -/
def masked : Context :=
  { mayAccess := fun owner p m => require (p.access.contains m) owner p m
    mayAccessItem := fun owner p m => require (p.itemAccess.contains m) owner p m
    reference := unloaded
    setProperty := store }

/-- Everything is allowed. -/
def unchecked : Context :=
  { masked with
    mayAccess := fun _ _ _ => .ok ()
    mayAccessItem := fun _ _ _ => .ok () }

/-- The declared access masks decide, and then `allows`. -/
def withPolicy (allows : Property → HttpMethod → Bool) : Context :=
  { masked with
    mayAccess := fun owner p m => do
      masked.mayAccess owner p m
      require (allows p m) owner p m
    mayAccessItem := fun owner p m => do
      masked.mayAccessItem owner p m
      require (allows p m) owner p m }

end Context

/-- A question to a context or an effect of one. -/
inductive AuditEntry where
  | access (method : HttpMethod) (type property : String)
  | itemAccess (method : HttpMethod) (type property : String)
  | set (property : String)
  | reference (uri path : String)
  deriving DecidableEq

/-- The entry as a line. -/
def AuditEntry.text : AuditEntry → String
  | .access method type property => "check " ++ method.verb ++ s!" {type}.{property}"
  | .itemAccess method type property => "item " ++ method.verb ++ s!" {type}.{property}"
  | .set property => s!"set {property}"
  | .reference uri path => s!"ref {uri} at '{path}'"

end ResourceQuery
