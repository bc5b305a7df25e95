import ResourceQuery.Notation.Read.Basic

/-! # Reading values

An object may be labelled where it is described; afterwards its label stands for the same object, in its
own fields as well.
-/

namespace ResourceQuery

namespace Notation

namespace Read

/-- A type by name or by number. -/
def type (json : Json) : Read Descriptor := do
  match json with
  | .string name => typing (·.byName name)
  | _ =>
    let index ← nat json
    accepted ((← get).graph.get ⟨index⟩)

/-- The number of a type, by name or as it is. -/
def typeId (json : Json) : Read TypeId := do
  match json with
  | .string name => return (← typing (·.byName name)).id
  | _ => return ⟨← nat json⟩

/-- Sets the fields of an object. -/
def fields (below : Json → Read Value) (id : ObjectId) : List (String × Json) → Read Unit
  | [] => pure ()
  | (name, part) :: rest => do
    let v ← below part
    changing fun h => ((), h.setField id name v)
    fields below id rest

/-- An object of the type that `typeForm` names. -/
def object (below : Json → Read Value) (typeForm json : Json) : Read ObjectId := do
  let type ← typeId typeForm
  let id ← changing fun h => h.alloc ⟨type, []⟩
  match ← optional "as" json text with
  | some label => modify fun w => { w with labels := (label, id) :: w.labels }
  | none => pure ()
  match present? "fields" json with
  | some parts => fields below id (← need parts.asObject?)
  | none => pure ()
  return id

/-- A reference to a URI. -/
def reference (below : Json → Read Value) (uri json : Json) : Read LazyRef := do
  let uri ← text uri
  let target ← typeId (← member "type" json)
  let state ← match member? "value" json with
    | some part => do pure (RefState.resolved (← below part))
    | none => pure RefState.unresolved
  changing fun h => h.newRef uri target state

/-- An entry of a dictionary. -/
def entry (below : Json → Read Value) (part : String × Json) : Read (String × Value) := do
  return (part.1, ← below part.2)

/-- The object with a label. -/
def labelled (json : Json) : Read ObjectId := do
  need ((← get).labels.lookup (← text json))

/-- A value that has an object as its form, which of them is told by the first of these members. -/
def composite (below : Json → Read Value) (json : Json) : Read Value := do
  let has (name : String) : Option Json := member? name json
  match has "$i", has "$f", has "$dt", has "$enum", has "$map", has "$same", has "$obj",
      has "$group", has "$ref" with
  | some _, _, _, _, _, _, _, _, _ => return .int (Int64.ofInt (← int json))
  | _, some part, _, _, _, _, _, _, _ => return .float (← float part)
  | _, _, some part, _, _, _, _, _, _ => return .dateTime (← time part)
  | _, _, _, some part, _, _, _, _, _ => return .enum (← text part)
  | _, _, _, _, some part, _, _, _, _ =>
    return .map (← (← need part.asObject?).mapM (entry below))
  | _, _, _, _, _, some part, _, _, _ => return .object (← labelled part)
  | _, _, _, _, _, _, some part, _, _ => return .object (← object below part json)
  | _, _, _, _, _, _, _, some part, _ =>
    let key ← below part
    return .group key (← orElse "items" json [] (list below))
  | _, _, _, _, _, _, _, _, some part => return .reference (← reference below part json)
  | _, _, _, _, _, _, _, _, _ => malformed

/-- A value whose parts are read with `below`. -/
def valueWith (below : Json → Read Value) : Json → Read Value
  | .null => pure .null
  | .bool b => pure (.bool b)
  | .number (.whole n) => pure (.int (Int64.ofInt n))
  | .number (.float x) => pure (.float x)
  | .string s => pure (.string s)
  | .array parts => do return .list (← parts.mapM below)
  | .object parts => composite below (.object parts)

/-- A value. -/
def value (json : Json) : Read Value :=
  knot valueWith json

/-- An object. -/
def entity (json : Json) : Read ObjectId := do
  need (← value json).asObject?

end Read

end Notation

end ResourceQuery
