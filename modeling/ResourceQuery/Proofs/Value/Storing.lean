import ResourceQuery.Proofs.Value.Conformance
import ResourceQuery.Wire.Node

set_option autoImplicit false

/-! # Fields that conform

`Heap.Populates` lets a field be null whatever its type is, since who reads a property cannot tell a null
from a field that was never set. Who writes one can. `Heap.Stores` is about what was written: every
field of an object is that of a property of its type, and holds a value that conforms to the property's
type. A null that was written therefore stands where the type of the slot admits it.

A record that fits its type (`Record.Instantiates`) may be put under a new number, or under the number
of an object of the same type; all changes to a heap are of these two kinds.
-/

namespace ResourceQuery

/-! ## Records -/

/-- The record is that of an instance of a type that is not abstract, and each field was written with a
value of a property's type. -/
structure Record.Instantiates (r : Record) (g : TypeGraph) (admits : Descriptor → Value → Prop)
    (isObject : ObjectId → TypeId → Prop) (concrete : TypeId) : Prop where
  type : r.type = concrete
  instantiable : ∃ d m, g.table.get? concrete = some d ∧ d.members? = some m ∧ m.isAbstract = false
  written : ∀ d name v, g.table.get? concrete = some d → Entries.get? name r.fields = some v →
    ∃ p ∈ d.properties, p.name = name ∧ Value.Conforms g admits isObject p.type v

section

variable {g g' : TypeGraph} {admits admits' : Descriptor → Value → Prop}
  {isObject isObject' : ObjectId → TypeId → Prop} {concrete : TypeId} {d : Descriptor}

namespace Record.Instantiates

variable {r : Record}

theorem mono (h : r.Instantiates g admits isObject concrete) (hext : g.table.Extends g'.table)
    (hadmits : ∀ d v, admits d v → admits' d v) (hobjects : isObject ≤ isObject') :
    r.Instantiates g' admits' isObject' concrete := by
  obtain ⟨d, m, hd, hm, habstract⟩ := h.instantiable
  refine ⟨h.type, ⟨d, m, hext.get? hd, hm, habstract⟩, fun d' name v hd' hfield => ?_⟩
  -- the type was known before, so its descriptor is the one it had
  have hsame : d = d' := Option.some.inj ((hext.get? hd).symm.trans hd')
  rw [← hsame]
  obtain ⟨p, hp, hname, hv⟩ := h.written d name v hd hfield
  exact ⟨p, hp, hname, hv.mono hext hadmits hobjects⟩

/-- A new instance, of which nothing was written yet. -/
theorem new {m : Members} (hd : g.table.get? concrete = some d) (hm : d.members? = some m)
    (habstract : m.isAbstract = false) :
    Instantiates ⟨concrete, []⟩ g admits isObject concrete :=
  ⟨rfl, ⟨d, m, hd, hm, habstract⟩, fun _ _ _ _ hfield => nomatch hfield⟩

theorem insert (h : r.Instantiates g admits isObject concrete)
    (hd : g.table.get? concrete = some d) {p : Property} (hp : p ∈ d.properties) {v : Value}
    (hv : Value.Conforms g admits isObject p.type v) :
    Instantiates { r with fields := Entries.insert p.name v r.fields } g admits isObject concrete := by
  refine ⟨h.type, h.instantiable, fun d' name w hd' hfield => ?_⟩
  by_cases hname : name = p.name
  · rw [hname, Entries.get?_insert_self] at hfield
    rw [← Option.some.inj (hd.symm.trans hd'), ← Option.some.inj hfield]
    exact ⟨p, hp, hname.symm, hv⟩
  · rw [Entries.get?_insert_of_ne hname] at hfield
    exact h.written d' name w hd' hfield

/-- What was written to a property. -/
theorem get?_conforms (h : r.Instantiates g admits isObject concrete) (hg : g.Arises)
    (hd : g.table.get? concrete = some d) {p : Property} (hp : p ∈ d.properties) {v : Value}
    (hfield : Entries.get? p.name r.fields = some v) :
    Value.Conforms g admits isObject p.type v := by
  obtain ⟨q, hq, hname, hv⟩ := h.written d p.name v hd hfield
  have hself : q.isNamed p.name = true := by
    rw [hname.symm]
    exact Text.sameIgnoringCase_refl q.name
  have hsame : q = p := (hg.sound.distinct _ _ hd).eq_of_named hq hp hself
    (Text.sameIgnoringCase_refl p.name)
  rw [← hsame]
  exact hv

end Record.Instantiates

/-! ## Heaps -/

namespace Heap

/-- The objects that `isObject` speaks of are instances of their types. -/
structure Stores (h : Heap) (g : TypeGraph) (admits : Descriptor → Value → Prop)
    (isObject : ObjectId → TypeId → Prop) : Prop where
  inHeap : ∀ id concrete, isObject id concrete → id.index < h.records.size
  record : ∀ id concrete, isObject id concrete →
    (h.record id).Instantiates g admits isObject concrete

namespace Stores

variable {h h' : Heap} {id : ObjectId} {r : Record}

theorem empty (h : Heap) : h.Stores g admits fun _ _ => False :=
  ⟨fun _ _ => False.elim, fun _ _ => False.elim⟩

theorem typeOf (hs : h.Stores g admits isObject) (hid : isObject id concrete) :
    h.typeOf id = concrete :=
  (hs.record id concrete hid).type

/-- What was never written counts as null; for the rest, what is written is what is found. -/
theorem populates (hs : h.Stores g admits isObject) (hg : g.Arises) :
    h.Populates g admits isObject where
  type := fun _ _ => hs.typeOf
  instantiable := fun id concrete hid => (hs.record id concrete hid).instantiable
  property := fun id concrete d p hid hd hp => by
    unfold field
    cases hfield : Entries.get? p.name (h.record id).fields with
    | none => exact Or.inl rfl
    | some v => exact Or.inr ((hs.record id concrete hid).get?_conforms hg hd hp hfield)

theorem mono (hs : h.Stores g admits isObject) (hext : g.table.Extends g'.table)
    (hadmits : ∀ d v, admits d v → admits' d v) : h.Stores g' admits' isObject :=
  ⟨hs.inHeap, fun id concrete hid => (hs.record id concrete hid).mono hext hadmits (le_refl _)⟩

theorem congr (hs : h.Stores g admits isObject) (hrecords : h'.records = h.records) :
    h'.Stores g admits isObject := by
  have hrecord : ∀ id, h'.record id = h.record id := by
    intro id
    unfold Heap.record
    rw [hrecords]
  refine ⟨fun id concrete hid => ?_, fun id concrete hid => ?_⟩
  · rw [hrecords]
    exact hs.inHeap id concrete hid
  · rw [hrecord]
    exact hs.record id concrete hid

/-- A new object beside the ones that are there. -/
theorem alloc (hs : h.Stores g admits isObject) (hr : r.Instantiates g admits isObject concrete) :
    (h.alloc r).2.Stores g admits
      fun id c => isObject id c ∨ id = (h.alloc r).1 ∧ c = concrete := by
  have hgrows : isObject ≤ fun id c => isObject id c ∨ id = (h.alloc r).1 ∧ c = concrete :=
    fun _ _ => Or.inl
  have hsize : (h.alloc r).2.records.size = h.records.size + 1 := by simp [Heap.alloc]
  refine ⟨fun id c hid => ?_, fun id c hid => ?_⟩
  · rw [hsize]
    rcases hid with hold | ⟨rfl, _⟩
    · exact Nat.lt_succ_of_lt (hs.inHeap id c hold)
    · exact Nat.lt_succ_self _
  · rcases hid with hold | ⟨rfl, rfl⟩
    · rw [record_alloc_of_lt (hs.inHeap id c hold)]
      exact (hs.record id c hold).mono (.refl _) (fun _ _ h => h) hgrows
    · rw [record_alloc_self]
      exact hr.mono (.refl _) (fun _ _ h => h) hgrows

/-- Another record for an object, of the same type. -/
theorem setRecord (hs : h.Stores g admits isObject) (hid : isObject id concrete)
    (hr : r.Instantiates g admits isObject concrete) :
    (h.setRecord id r).Stores g admits isObject := by
  have hsize : (h.setRecord id r).records.size = h.records.size := by simp [Heap.setRecord]
  refine ⟨fun other c hother => ?_, fun other c hother => ?_⟩
  · rw [hsize]
    exact hs.inHeap other c hother
  · by_cases hsame : other = id
    · rw [hsame] at hother ⊢
      rw [record_setRecord_self (hs.inHeap id concrete hid)]
      -- an object has one type
      rw [← hs.typeOf hother, hs.typeOf hid]
      exact hr
    · rw [record_setRecord_of_ne hsame]
      exact hs.record other c hother

/-- A property is written with a value of its type. -/
theorem setField (hs : h.Stores g admits isObject) (hid : isObject id concrete)
    (hd : g.table.get? concrete = some d) {p : Property} (hp : p ∈ d.properties) {v : Value}
    (hv : Value.Conforms g admits isObject p.type v) :
    (h.setField id p.name v).Stores g admits isObject :=
  hs.setRecord hid ((hs.record id concrete hid).insert hd hp hv)

/-- Copies are written back to originals of the same type. -/
theorem writeBack (hs : h.Stores g admits isObject) {pairs : List (ObjectId × ObjectId)}
    (hpairs : ∀ pair ∈ pairs, ∃ c, isObject pair.1 c ∧ isObject pair.2 c) :
    (Node.writeBack h pairs).Stores g admits isObject := by
  induction pairs generalizing h with
  | nil => exact hs
  | cons pair rest ih =>
      obtain ⟨c, horiginal, hcopy⟩ := hpairs pair (by simp)
      have hstep : (h.overwrite pair.1 pair.2).Stores g admits isObject :=
        hs.setRecord horiginal (hs.record _ _ hcopy)
      exact ih hstep fun other hother => hpairs other (by simp [hother])

end Stores

end Heap

end

end ResourceQuery
