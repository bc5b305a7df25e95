import ResourceQuery.Notation.Basic
import ResourceQuery.Type.Graph

/-! # Reading notation

The other direction: what the JSON forms stand for. A form names types and may create objects, so
reading works on a `Workspace`; what a failed reading has created stays there.

Forms that contain forms are read by a bound on the depth, for which the depth of the whole document
is enough: each reader is given one for the parts (`below`), and `within` ties the knot.
-/

namespace ResourceQuery

namespace Notation

/-- Why a form is not read. -/
inductive Fault where
  /-- It is not in this notation. -/
  | malformed
  /-- A text in it is refused, or a type that it names. -/
  | refused (e : Error)

/-- What forms are about. -/
structure Workspace where
  graph : TypeGraph
  heap : Heap
  /-- Objects that further forms may refer to, last first. -/
  labels : List (String × ObjectId)

/-- A reading of something. -/
abbrev Read (α : Type) := ExceptT Fault (StateM Workspace) α

namespace Read

variable {α : Type}

/-- A form that is not in this notation. -/
def malformed : Read α :=
  throw .malformed

/-- What there must be in a form. -/
def need : Option α → Read α
  | some a => pure a
  | none => malformed

/-- What there must be unless it is refused. -/
def accepted : Except Error α → Read α
  | .ok a => pure a
  | .error e => throw (.refused e)

/-- A question to the type graph, which may resolve further types. -/
def typing (f : TypeGraph → Except Error α × TypeGraph) : Read α := do
  let w ← get
  let (outcome, graph) := f w.graph
  set { w with graph }
  accepted outcome

/-- A change of the heap. -/
def changing (f : Heap → α × Heap) : Read α :=
  modifyGet fun w => let (a, heap) := f w.heap; (a, { w with heap })

/-- A reader for forms that are at most `depth` deep, from one that is given a reader for the parts. -/
def within (reader : (Json → Read α) → Json → Read α) : (depth : Nat) → Json → Read α
  | 0 => fun _ => malformed
  | depth + 1 => reader (within reader depth)

/-- A reader for forms of any depth, from one that is given a reader for the parts. -/
def knot (reader : (Json → Read α) → Json → Read α) (json : Json) : Read α :=
  within reader (json.depth + 1) json

/-! ## Parts of all forms -/

/-- A member of an object. -/
def member? (name : String) (json : Json) : Option Json :=
  json.asObject?.bind (Entries.get? name)

/-- A member that must be there. -/
def member (name : String) (json : Json) : Read Json :=
  need (member? name json)

/-- A member that is missing when it is null. -/
def present? (name : String) (json : Json) : Option Json :=
  (member? name json).filter (!·.isNull)

/-- A member read with `reader`; `other` if it is missing. -/
def orElse (name : String) (json : Json) (other : α) (reader : Json → Read α) : Read α :=
  match present? name json with
  | none => pure other
  | some part => reader part

/-- A member read with `reader`, if it is there. -/
def optional (name : String) (json : Json) (reader : Json → Read α) : Read (Option α) :=
  orElse name json none fun part => do return some (← reader part)

/-- A text. -/
def text (json : Json) : Read String :=
  need json.asString?

/-- The items of an array. -/
def items (json : Json) : Read (List Json) :=
  need json.asArray?

/-- A truth value. -/
def bool : Json → Read Bool
  | .bool b => pure b
  | _ => malformed

/-- A whole number. -/
def int (json : Json) : Read Int :=
  match json with
  | .number (.whole n) => pure n
  | _ => need (((member? "$i" json).bind Json.asString?).bind String.toInt?)

/-- A natural number. -/
def nat (json : Json) : Read Nat := do
  let n ← int json
  if 0 ≤ n then pure n.toNat else malformed

/-- A count. -/
def count (json : Json) : Read UInt64 := do
  return UInt64.ofNat (← nat json)

/-- A list of things read with `reader`. -/
def list (reader : Json → Read α) (json : Json) : Read (List α) := do
  (← items json).mapM reader

/-- A list of texts. -/
def texts (json : Json) : Read (List String) :=
  list text json

/-- A text and what follows it in an array. -/
def tagged (json : Json) : Read (String × List Json) := do
  match ← items json with
  | .string tag :: parts => return (tag, parts)
  | _ => malformed

/-- A flag among the members. -/
def flag (name : String) (json : Json) : Read Bool :=
  orElse name json false bool

/-- A float. -/
def float (json : Json) : Read Float := do
  need (Decimal.float? (← text json))

/-- A point in time. -/
def time (json : Json) : Read Timestamp := do
  need (Timestamp.parse? (← text json))

end Read

end Notation

end ResourceQuery
