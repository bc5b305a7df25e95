import ResourceQuery.Type.Descriptor
import ResourceQuery.Value.Equality

/-! # Nodes

The state of reading one slot of a document: what the slot may hold, what it held before, and what the
document puts there. Objects that a document patches are not changed while it is read. Each patch is
made on a copy, and the node keeps the copy beside the object until the whole document is accepted;
`Node.commit` then writes the copies back.
-/

namespace ResourceQuery

/-- What a node does to its slot. -/
inductive NodeOperation where
  /-- Not decided yet. -/
  | default
  /-- Puts a new value there. -/
  | post
  /-- Changes the value that is there. -/
  | patch
  /-- Takes the value out of its collection. -/
  | delete
  deriving DecidableEq

/-- The word for an operation. -/
def NodeOperation.name : NodeOperation → String
  | .default => "default"
  | .post => "post"
  | .patch => "patch"
  | .delete => "delete"

/-- The property that a slot belongs to, and the type that has it. -/
structure NodeOwner where
  type : TypeId
  property : Property

/-- A slot of a document. -/
structure Node where
  /-- The type that the slot is declared with. -/
  expected : TypeId
  /-- The type of the value, which the document may narrow. -/
  type : TypeId
  operation : NodeOperation
  value : Option Value
  /-- Where the value is, if the document says so. -/
  uri : Option String
  /-- Names of properties from the root of the document, with dots between them. -/
  path : String
  owner : Option NodeOwner
  /-- Whether the value was changed. -/
  dirty : Bool
  /-- Originals and their patched copies, first patches first. -/
  staged : List (ObjectId × ObjectId)

namespace Node

/-! ## Construction -/

/-- An undecided node for a slot. -/
def ofSlot (expected : TypeId) (path : String) : Node :=
  { expected, type := expected, operation := .default, value := none, uri := none, path,
    owner := none, dirty := false, staged := [] }

/-- The node of a whole document, which changes `existing` or creates a value. -/
def root (expected : TypeId) (existing : Option Value) : Node :=
  { ofSlot expected "" with
    operation := if existing.isSome then .patch else .post
    value := existing }

/-- The path of a member below `path`. -/
def pathBelow (path name : String) : String :=
  if path.isEmpty then name else path ++ "." ++ name

/-- The node of a property that holds `current`, below `path`. -/
def ofProperty (type : TypeId) (p : Property) (path : String) (current : Option Value) : Node :=
  { ofSlot p.type (pathBelow path (Text.asciiLower p.name)) with
    value := current
    owner := some ⟨type, p⟩ }

/-! ## Changes -/

/-- Whether the node holds a value equal to `v`. -/
def holds (h : Heap) (n : Node) (v : Value) : Bool :=
  match n.value with
  | some old => h.equal old v
  | none => false

/-- The node with another value; it is changed if it did not hold an equal one. -/
def setValue (h : Heap) (n : Node) (v : Value) : Node :=
  { n with value := some v, dirty := n.dirty || !n.holds h v }

/-- The node with a further patch. -/
def stage (n : Node) (object copy : ObjectId) : Node :=
  { n with staged := n.staged ++ [(object, copy)] }

/-- The node with the patches of a node below it. -/
def absorb (n child : Node) : Node :=
  { n with staged := n.staged ++ child.staged }

/-- The value; null if there is none. -/
def result (n : Node) : Value :=
  n.value.getD .null

/-- Whether the node changes the value it holds, rather than putting a new one there. -/
def keeps (n : Node) : Bool :=
  n.operation ≠ .post

/-- Writes copies back to their originals, in order. -/
def writeBack (h : Heap) (staged : List (ObjectId × ObjectId)) : Heap :=
  staged.foldl (fun h pair => h.overwrite pair.1 pair.2) h

/-- The heap with all patches made, and the node without them. -/
def commit (h : Heap) (n : Node) : Node × Heap :=
  ({ n with staged := [] }, writeBack h n.staged)

end Node

end ResourceQuery
