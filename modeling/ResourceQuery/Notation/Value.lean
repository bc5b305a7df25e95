import ResourceQuery.Notation.Basic
import ResourceQuery.Type.Graph

/-! # Values in JSON

An object is shown where it is met first, with a number, its type and its fields; where it is met
again, only its number is shown. So the form shows what is shared, and ends where objects form cycles.
-/

namespace ResourceQuery

/-- The name of a type, or its number if there is no such type. -/
def TypeGraph.nameOf (g : TypeGraph) (id : TypeId) : String :=
  match g.table.get? id with
  | some d => d.name
  | none => id.text

namespace Notation

/-- A form, and the objects met so far, last first. -/
abbrev Numbering (α : Type) := StateM (List ObjectId) α

section Values

variable (below : Value → Numbering Json) (g : TypeGraph) (h : Heap)

/-- The form of an object: its fields, shown by `below`, or its number. -/
def object (id : ObjectId) : Numbering Json := do
  let met ← get
  match met.reverse.findIdx? (· = id) with
  | some number => pure (members [("$same", nat number)])
  | none =>
    set (id :: met)
    let record := h.record id
    let fields ← record.fields.mapM fun (name, v) => return (name, ← below v)
    pure (members [("$obj", .string (g.nameOf record.type)), ("n", nat met.length),
      ("fields", .object fields)])

/-- The form of a reference and of what became of it, shown by `below`. -/
def reference (failed : Error → Json) (r : LazyRef) : Numbering Json := do
  let state ← match h.state r with
    | .unresolved => pure [("state", Json.string "unresolved")]
    | .resolving => pure [("state", Json.string "resolving")]
    | .resolved v => do pure [("state", Json.string "resolved"), ("value", ← below v)]
    | .failed e => pure [("state", Json.string "failed"), ("value", failed e)]
  pure (members ([("$ref", .string r.uri), ("type", .string (g.nameOf r.target))] ++ state))

end Values

section Graphs

variable (failed : Error → Json) (g : TypeGraph) (h : Heap)

mutual

/-- The form of a value; `below` shows the values that objects and references lead to. -/
def valueVia (below : Value → Numbering Json) : Value → Numbering Json
  | .null => pure .null
  | .bool b => pure (.bool b)
  | .int n => pure (int n.toInt)
  | .float x => pure (float x)
  | .string s => pure (.string s)
  | .dateTime t => pure (members [("$dt", .string t.format)])
  | .enum m => pure (members [("$enum", .string m)])
  | .list items => do return .array (← valuesVia below items)
  | .map entries => do return members [("$map", .object (← entriesVia below entries))]
  | .object id => object below g h id
  | .group key items => do
    let key ← valueVia below key
    return members [("$group", key), ("items", .array (← valuesVia below items))]
  | .reference r => reference below g h failed r

/-- The forms of values in order. -/
def valuesVia (below : Value → Numbering Json) : List Value → Numbering (List Json)
  | [] => pure []
  | v :: rest => do
    let first ← valueVia below v
    return first :: (← valuesVia below rest)

/-- The forms of the values of a dictionary in order. -/
def entriesVia (below : Value → Numbering Json) :
    List (String × Value) → Numbering (List (String × Json))
  | [] => pure []
  | (key, v) :: rest => do
    let first ← valueVia below v
    return (key, first) :: (← entriesVia below rest)

end

/-- The form of a value, up to `depth` objects and references deep. -/
def valueWithin : (depth : Nat) → Value → Numbering Json
  | 0, _ => pure .null
  | depth + 1, v => valueVia failed g h (valueWithin depth) v

/-- The forms of values, numbered together. A way through objects and references passes each once
before it meets one again. -/
def values (vs : List Value) : Json :=
  let depth := h.records.size + h.cells.size + 2
  .array ((vs.mapM (valueWithin failed g h depth)).run []).1

/-- The form of a value. -/
def value (v : Value) : Json :=
  match values failed g h [v] with
  | .array [form] => form
  | other => other

end Graphs

end Notation

end ResourceQuery
