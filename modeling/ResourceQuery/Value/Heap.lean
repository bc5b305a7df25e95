import ResourceQuery.Action
import ResourceQuery.Value.Basic

/-! # The heap

Where objects and the states of references live. A `Heap` only grows: an object keeps its number, and
what changes is the record under it. Every operation is a function on heaps, and the small lemmas say
what a later look-up sees.
-/

namespace ResourceQuery

/-- The type of an object and the values of its fields. -/
structure Record where
  type : TypeId
  fields : List (String × Value)

/-- What became of a reference. -/
inductive RefState where
  | unresolved
  /-- A load is under way. -/
  | resolving
  | resolved (value : Value)
  | failed (error : Error)

/-- Objects and reference states by number. -/
structure Heap where
  records : Array Record
  cells : Array RefState

namespace Heap

/-- The heap without objects and references. -/
def empty : Heap := ⟨#[], #[]⟩

/-! ## Objects -/

/-- The record of an object. A number that was never given out stands for an object without fields. -/
def record (h : Heap) (id : ObjectId) : Record :=
  (h.records[id.index]?).getD ⟨⟨0⟩, []⟩

/-- The type of an object. -/
def typeOf (h : Heap) (id : ObjectId) : TypeId :=
  (h.record id).type

/-- The value of a field; null if it was never set. -/
def field (h : Heap) (id : ObjectId) (name : String) : Value :=
  (Entries.get? name (h.record id).fields).getD .null

/-- A new object with the given record. -/
def alloc (h : Heap) (record : Record) : ObjectId × Heap :=
  (⟨h.records.size⟩, { h with records := h.records.push record })

/-- The heap with another record for an object. -/
def setRecord (h : Heap) (id : ObjectId) (record : Record) : Heap :=
  { h with records := h.records.setIfInBounds id.index record }

/-- The heap with another value for a field. -/
def setField (h : Heap) (id : ObjectId) (name : String) (value : Value) : Heap :=
  let record := h.record id
  h.setRecord id { record with fields := Entries.insert name value record.fields }

/-- A new object with the type and the fields of an old one. -/
def detach (h : Heap) (id : ObjectId) : ObjectId × Heap :=
  h.alloc (h.record id)

/-- The heap where `target` has the type and the fields of `source`. -/
def overwrite (h : Heap) (target source : ObjectId) : Heap :=
  h.setRecord target (h.record source)

/-! ## References -/

/-- The state of a reference. -/
def state (h : Heap) (ref : LazyRef) : RefState :=
  (h.cells[ref.cell.index]?).getD .unresolved

/-- The heap with another state for a reference. -/
def setState (h : Heap) (ref : LazyRef) (state : RefState) : Heap :=
  { h with cells := h.cells.setIfInBounds ref.cell.index state }

/-- A new reference in the given state. -/
def newRef (h : Heap) (uri : String) (target : TypeId) (state : RefState) : LazyRef × Heap :=
  (⟨uri, target, ⟨h.cells.size⟩⟩, { h with cells := h.cells.push state })

/-! ## What look-ups see -/

theorem record_alloc_of_lt {h : Heap} {id : ObjectId} (hid : id.index < h.records.size)
    (r : Record) : (h.alloc r).2.record id = h.record id := by
  simp [alloc, record, Array.getElem?_push_lt hid, hid]

theorem record_alloc_self (h : Heap) (r : Record) :
    (h.alloc r).2.record (h.alloc r).1 = r := by
  simp [alloc, record]

theorem record_setRecord_of_ne {id other : ObjectId} (hne : other ≠ id) (h : Heap) (r : Record) :
    (h.setRecord id r).record other = h.record other := by
  have : id.index ≠ other.index := fun e => hne (by cases id; cases other; simp_all)
  simp [setRecord, record, Array.getElem?_setIfInBounds_ne this]

theorem record_setRecord_self {h : Heap} {id : ObjectId} (hid : id.index < h.records.size)
    (r : Record) : (h.setRecord id r).record id = r := by
  simp [setRecord, record, hid]

end Heap

end ResourceQuery
