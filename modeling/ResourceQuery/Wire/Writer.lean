import ResourceQuery.Json.Basic
import ResourceQuery.Query.Answer
import ResourceQuery.Type.Address
import ResourceQuery.Wire.Expansion
import ResourceQuery.Wire.Reader

/-! # Writing documents

Values become documents that reading turns into equal values. An object tells its type where the slot
does not imply it, and a resource tells its URI. A resource below the root is only written inline where
the expansion has its path, where its property asks for it, and not inside itself; elsewhere a
reference stands for it. A cycle of objects that are no resources cannot be written.

The heap may have cycles, so writing goes down to objects and references by a bound on the length of a
way: a way passes each object once, and between two objects each reference once.
-/

namespace ResourceQuery

/-- What a writer works on: types, objects, what stands before the path of a resource, and what is
written inline. -/
structure Writer where
  graph : TypeGraph
  heap : Heap
  baseUri : String
  expansion : Expansion

/-- A place in a document that is written. -/
structure WriteSlot where
  expected : TypeId
  path : String
  /-- Whether a resource here is written inline in any case. -/
  inline : Bool
  /-- The objects around the place. -/
  around : List ObjectId

namespace WriteSlot

/-- The path of a member. -/
def pathTo (s : WriteSlot) (name : String) : String :=
  Node.pathBelow s.path (Text.asciiLower name)

end WriteSlot

/-- The URI of a resource, with `base` before its path. -/
def TypeGraph.absoluteUri (g : TypeGraph) (h : Heap) (base : String) (id : ObjectId) :
    Except Error String := do
  let relative ← g.uriOf h id
  .ok (Text.trimEndSlashes base ++ "/" ++ relative)

namespace Writer

/-- An object of the given members. -/
def object (members : List (String × Json)) : Json :=
  .object (Entries.ofList members)

/-- A value with its type. -/
def boxed (kind : ValueKind) (json : Json) : Json :=
  object [("_type", .string kind.name), ("value", json)]

/-- What stands for a resource elsewhere. -/
def reference (uri : String) : Json :=
  object [("_ref", .string uri)]

/-- A key of a dictionary, escaped if it starts with a mark. -/
def escape (key : String) : String :=
  match key.toList with
  | c :: _ => if ['^', '-', '*', '!'].contains c then "^" ++ key else key
  | [] => key

/-- A float; null if it is not finite. -/
def floatJson (x : Float) : Json :=
  if x.isFinite then .number (.float x) else .null

/-- Writes a value into a slot. -/
abbrev SlotWriter := WriteSlot → Value → Except Error Json

section Objects

variable (w : Writer) (below : SlotWriter)

/-- The members of an object for its readable properties, put into those in `done`; null is left out
where the property's type does not have it. -/
def properties (slot : WriteSlot) (record : Record) : (done : Entries Json) → List Property →
    Except Error (Entries Json)
  | done, [] => .ok done
  | done, p :: rest =>
    if !p.isReadable then properties slot record done rest
    else do
      let v := p.getFrom record
      let omit_ ← if v.isNull then (w.graph.get p.type).map (!·.nullable) else .ok false
      if omit_ then properties slot record done rest
      else
        let json ← below ⟨p.type, slot.pathTo p.name, p.alwaysExpanded, slot.around⟩ v
        properties slot record (Entries.insert p.jsonName json done) rest

/-- The members that tell the type and the URI of an object of type `d`. -/
def tags (slot : WriteSlot) (d : Descriptor) (id : ObjectId) : Except Error (Entries Json) := do
  let type := if d.id = slot.expected then [] else [("_type", Json.string d.name)]
  if d.isResource then
    let uri ← w.graph.absoluteUri w.heap w.baseUri id
    .ok (Entries.ofList (type ++ [("_uri", .string uri)]))
  else .ok type

/-- Whether a resource at a slot is written inline. -/
def inlines (slot : WriteSlot) : Bool :=
  slot.inline || w.expansion.contains slot.path

/-- Writes an object, its properties with `below`. -/
def writeObject (slot : WriteSlot) (id : ObjectId) : Except Error Json := do
  let record := w.heap.record id
  let d ← w.graph.get record.type
  let isInside := slot.around.contains id
  if d.isResource && (isInside || !w.inlines slot) then
    let uri ← w.graph.absoluteUri w.heap w.baseUri id
    .ok (reference uri)
  else if isInside then .error (.notSupported (.cyclicValue d.name slot.path))
  else
    let start ← w.tags slot d id
    let members ← properties w below { slot with around := id :: slot.around } record start d.properties
    .ok (.object members)

/-- Writes a reference: the value behind it with `below` if it is loaded and written inline. -/
def writeReference (slot : WriteSlot) (r : LazyRef) : Except Error Json :=
  match w.heap.state r with
  | .resolved target =>
    if w.inlines slot then below slot target else .ok (reference r.uri)
  | _ => .ok (reference r.uri)

end Objects

/-- The type of the items of a list in a slot of type `d`. -/
def itemType (d : Descriptor) : TypeId :=
  d.element?.getD (TypeGraph.valueType .any)

/-- The type of the values of a dictionary in a slot of type `d`. -/
def entryType (d : Descriptor) : TypeId :=
  match d.shape with
  | .dictionary _ value => value
  | _ => TypeGraph.valueType .any

mutual

/-- Writes a value, what objects and references lead to with `below`. -/
def writeVia (w : Writer) (below : SlotWriter) (slot : WriteSlot) : Value → Except Error Json
  | .null => do
    let _ ← w.graph.get slot.expected
    .ok .null
  | .bool b => do
    let _ ← w.graph.get slot.expected
    .ok (.bool b)
  | .int n => do
    let _ ← w.graph.get slot.expected
    .ok (.ofInt n.toInt)
  | .float x => do
    let _ ← w.graph.get slot.expected
    .ok (floatJson x)
  | .string s => do
    let _ ← w.graph.get slot.expected
    .ok (.string s)
  | .enum m => do
    let _ ← w.graph.get slot.expected
    .ok (.string m)
  | .dateTime t => do
    let d ← w.graph.get slot.expected
    .ok (if d.isAny then boxed .dateTime (.string t.format) else .string t.format)
  | .list items => do
    let d ← w.graph.get slot.expected
    .ok (.array (← writeItems w below { slot with expected := itemType d } items))
  | .map entries => do
    let d ← w.graph.get slot.expected
    .ok (.object (← writeEntries w below { slot with expected := entryType d } [] entries))
  | .object id => do
    let _ ← w.graph.get slot.expected
    writeObject w below slot id
  | .group key items => do
    let _ ← w.graph.get slot.expected
    let untyped := { slot with expected := TypeGraph.valueType .any }
    let key ← writeVia w below { untyped with inline := false } key
    let items ← writeItems w below { untyped with inline := true } items
    .ok (object [("key", key), ("items", .array items)])
  | .reference r => do
    let _ ← w.graph.get slot.expected
    writeReference w below slot r

/-- Writes values into slots of one kind. -/
def writeItems (w : Writer) (below : SlotWriter) (slot : WriteSlot) :
    List Value → Except Error (List Json)
  | [] => .ok []
  | v :: rest => do
    let json ← writeVia w below slot v
    let others ← writeItems w below slot rest
    .ok (json :: others)

/-- Writes the values of a dictionary, put into the members in `done`. -/
def writeEntries (w : Writer) (below : SlotWriter) (slot : WriteSlot) (done : Entries Json) :
    List (String × Value) → Except Error (Entries Json)
  | [] => .ok done
  | (key, v) :: rest => do
    let json ← writeVia w below { slot with path := slot.pathTo key, inline := false } v
    writeEntries w below slot (Entries.insert (escape key) json done) rest

end

/-- Writes a value, passing at most `depth` objects and references on a way. -/
def writeWithin (w : Writer) : (depth : Nat) → SlotWriter
  | 0 => writeVia w fun slot _ => .error (.notSupported (.cyclicValue "reference" slot.path))
  | depth + 1 => writeVia w (writeWithin w depth)

/-- How many objects and references a way may pass. -/
def depthLimit (h : Heap) : Nat :=
  (h.records.size + 1) * (h.cells.size + 1)

/-- Writes a value at the root of a document, into a slot of the type `expected`. -/
def write (w : Writer) (expected : TypeId) (v : Value) : Except Error Json :=
  w.writeWithin (depthLimit w.heap) ⟨expected, "", true, []⟩ v

/-- Writes values in order, each like the root of a document. -/
def writeEach (w : Writer) (expected : TypeId) : List Value → Except Error (List Json)
  | [] => .ok []
  | v :: rest => do
    let json ← w.write expected v
    let others ← w.writeEach expected rest
    .ok (json :: others)

/-- A count as a document. -/
def countJson (n : UInt64) : Json :=
  .ofInt n.toNat

/-- Writes a listing of values of the type `itemType`. -/
def writeListing (w : Writer) (itemType : TypeId) (l : Listing) : Except Error Json := do
  let items ← w.writeEach itemType l.items
  let skip := (l.skip.map fun n => ("skip", countJson n)).toList
  let total := (l.totalCount.map fun n => ("totalCount", countJson n)).toList
  let url := (l.url.map fun u => ("url", Json.string u)).toList
  .ok (object ([("_type", .string Document.resultTag), ("items", .array items)] ++ skip ++ total ++
    url))

/-- Writes an answer. -/
def writeAnswer (w : Writer) (itemType : TypeId) : Answer → Except Error Json
  | .listing l => w.writeListing itemType l
  | .value v => w.write itemType v

end Writer

end ResourceQuery
