import ResourceQuery.Proofs.Expr.Confidentiality
import ResourceQuery.Proofs.Wire.RoundTrip

set_option autoImplicit false

/-! # What documents tell of properties that may not be read

Documents are written by walking the objects, and what is written depends on where the walk gets: whether
an object is inside itself, whether a resource is written inline or stands elsewhere, and at which URI. So
two heaps that differ in unreadable properties only (`Heap.SameButUnreadable`) have to be walked side by
side. The walks stay together as every value in hand was read from a property that clients may read, and
so it is the same in both.

One thing is read without asking: the address of a resource is made of primary ids and of the links to its
parents. Where these may be read (`TypeGraph.ShowsAddresses`), both heaps have the same documents, and the
same failures (`Writer.documents_same`).
-/

namespace ResourceQuery

variable {g : TypeGraph} {h h' : Heap}

/-! ## Addresses -/

/-- What addresses are made of may be read: primary ids, and the links to parents. -/
structure TypeGraph.ShowsAddresses (g : TypeGraph) : Prop where
  primaryIds : ∀ d ∈ g.types, ∀ p ∈ d.primaryId?, p.isReadable = true
  parentLinks : ∀ d ∈ g.types, ∀ a ∈ d.address?, ∀ parent ∈ a.parent,
    ∀ link ∈ d.property? parent.childToParent, link.isReadable = true

namespace Heap.SameButUnreadable

variable (hsame : h.SameButUnreadable g h') (hg : g.Arises) (hdirect : g.HasNoGetters)
  (haddresses : g.ShowsAddresses)

include hsame hg hdirect haddresses

/-- The address of an object is the same in both heaps. -/
theorem uriBelow (parents : Nat) (id : ObjectId) :
    g.uriBelow h' parents id = g.uriBelow h parents id := by
  induction parents using Nat.strongRecOn generalizing id with
  | ind parents ih =>
      unfold TypeGraph.uriBelow
      rw [hsame.type]
      refine bind_congr_ok rfl fun d hget => ?_
      have hd := TypeGraph.get_eq_ok.mp hget
      have hread : ∀ p ∈ d.properties, p.isReadable = true → p.read h' id = p.read h id :=
        fun p hp => hsame.read hg hdirect hd hp
      refine bind_congr_ok rfl fun a ha => bind_congr_ok rfl fun p hp => ?_
      have hp := TypeGraph.requirePrimaryId_eq_ok.mp hp
      rw [hread p (Descriptor.mem_of_primaryId? hp)
        (haddresses.primaryIds d (TypeGraph.mem_types hd) p hp)]
      refine bind_congr_ok rfl fun last _ => ?_
      cases hparent : a.parent with
      | none => rfl
      | some parent =>
          cases parents with
          | zero => rfl
          | succ parents =>
              dsimp only
              cases hlink : d.property? parent.childToParent with
              | none => rfl
              | some link =>
                  have hreadable := haddresses.parentLinks d (TypeGraph.mem_types hd) a
                    (TypeGraph.requireResource_eq_ok.mp ha) parent hparent link hlink
                  dsimp only
                  rw [hread link (Descriptor.mem_of_property? hlink) hreadable]
                  cases link.read h id with
                  | object owner =>
                      dsimp only
                      rw [ih parents (Nat.lt_succ_self _)]
                  | _ => rfl

theorem absoluteUri (base : String) (id : ObjectId) :
    g.absoluteUri h' base id = g.absoluteUri h base id := by
  unfold TypeGraph.absoluteUri TypeGraph.uriOf
  rw [hsame.uriBelow hg hdirect haddresses]

end Heap.SameButUnreadable

/-! ## Writing for another heap -/

namespace Writer

open Heap.SameButUnreadable

variable {w : Writer} {below below' : SlotWriter} {slot : WriteSlot}

/-- The writer for another heap. -/
def withHeap (w : Writer) (h : Heap) : Writer :=
  { w with heap := h }

theorem properties_congr (hbelow : ∀ slot v, below' slot v = below slot v) {record record' : Record}
    {table : List Property}
    (hrecord : ∀ p ∈ table, p.isReadable = true → p.getFrom record' = p.getFrom record)
    (done : Entries Json) :
    properties (w.withHeap h') below' slot record' done table =
      properties w below slot record done table := by
  induction table generalizing done with
  | nil => rfl
  | cons p rest ih =>
      have hrest := fun done => ih (fun q hq => hrecord q (List.mem_cons_of_mem _ hq)) done
      unfold properties
      by_cases hreadable : p.isReadable = true
      · -- only here is a value looked at
        rw [hrecord p List.mem_cons_self hreadable]
        simp only [hbelow, hrest]
        rfl
      · rw [if_pos (by simpa using hreadable), if_pos (by simpa using hreadable)]
        exact hrest done

mutual

/-- Values are written alike if the objects and references in them are. -/
theorem writeVia_congr
    (hobject : ∀ slot id, writeObject (w.withHeap h') below' slot id = writeObject w below slot id)
    (hreference : ∀ slot r, writeReference (w.withHeap h') below' slot r = writeReference w below slot r)
    (slot : WriteSlot) (v : Value) :
    writeVia (w.withHeap h') below' slot v = writeVia w below slot v := by
  cases v with
  | null | bool _ | int _ | float _ | string _ | enum _ | dateTime _ => rfl
  | list items =>
      unfold writeVia
      exact bind_congr_ok rfl fun d _ => by rw [writeItems_congr hobject hreference _ items]
  | map entries =>
      unfold writeVia
      exact bind_congr_ok rfl fun d _ => by rw [writeEntries_congr hobject hreference _ _ entries]
  | object id =>
      unfold writeVia
      exact bind_congr_ok rfl fun _ _ => hobject slot id
  | group key items =>
      unfold writeVia
      exact bind_congr_ok rfl fun _ _ =>
        bind_congr_ok (writeVia_congr hobject hreference _ key) fun _ _ =>
          bind_congr_ok (writeItems_congr hobject hreference _ items) fun _ _ => rfl
  | reference r =>
      unfold writeVia
      exact bind_congr_ok rfl fun _ _ => hreference slot r

theorem writeItems_congr
    (hobject : ∀ slot id, writeObject (w.withHeap h') below' slot id = writeObject w below slot id)
    (hreference : ∀ slot r, writeReference (w.withHeap h') below' slot r = writeReference w below slot r)
    (slot : WriteSlot) (items : List Value) :
    writeItems (w.withHeap h') below' slot items = writeItems w below slot items := by
  cases items with
  | nil => rfl
  | cons v rest =>
      unfold writeItems
      rw [writeVia_congr hobject hreference slot v, writeItems_congr hobject hreference slot rest]

theorem writeEntries_congr
    (hobject : ∀ slot id, writeObject (w.withHeap h') below' slot id = writeObject w below slot id)
    (hreference : ∀ slot r, writeReference (w.withHeap h') below' slot r = writeReference w below slot r)
    (slot : WriteSlot) (done : Entries Json) (entries : List (String × Value)) :
    writeEntries (w.withHeap h') below' slot done entries = writeEntries w below slot done entries := by
  cases entries with
  | nil => rfl
  | cons entry rest =>
      unfold writeEntries
      exact bind_congr_ok (writeVia_congr hobject hreference _ entry.2) fun json _ =>
        writeEntries_congr hobject hreference slot _ rest

end

/-! ## Two heaps with the same documents -/

section Same

variable (hsame : w.heap.SameButUnreadable w.graph h') (hg : w.graph.Arises)
  (hdirect : w.graph.HasNoGetters) (haddresses : w.graph.ShowsAddresses)

include hsame hg hdirect haddresses

theorem tags_same (d : Descriptor) (id : ObjectId) : (w.withHeap h').tags slot d id = w.tags slot d id := by
  unfold tags withHeap
  dsimp only
  rw [hsame.absoluteUri hg hdirect haddresses]

section Below

variable (hbelow : ∀ slot v, below' slot v = below slot v)

include hbelow

/-- Both heaps have the object, of the same type, and its readable properties have the same values. -/
theorem writeObject_same (slot : WriteSlot) (id : ObjectId) :
    writeObject (w.withHeap h') below' slot id = writeObject w below slot id := by
  have htype : ((w.withHeap h').heap.record id).type = (w.heap.record id).type := hsame.type id
  unfold writeObject
  dsimp only
  rw [htype]
  refine bind_congr_ok rfl fun d hget => ?_
  have huri := hsame.absoluteUri hg hdirect haddresses w.baseUri id
  have hrecord : ∀ p ∈ d.properties, p.isReadable = true →
      p.getFrom ((w.withHeap h').heap.record id) = p.getFrom (w.heap.record id) :=
    fun p => hsame.read hg hdirect (TypeGraph.get_eq_ok.mp hget)
  simp only [tags_same hsame hg hdirect haddresses, properties_congr hbelow hrecord]
  unfold withHeap inlines
  dsimp only
  rw [huri]

omit hg hdirect haddresses in
theorem writeReference_same (slot : WriteSlot) (r : LazyRef) :
    writeReference (w.withHeap h') below' slot r = writeReference w below slot r := by
  unfold writeReference
  rw [show (w.withHeap h').heap.state r = w.heap.state r from hsame.state r]
  cases w.heap.state r with
  | resolved target =>
      dsimp only
      rw [hbelow]
      rfl
  | _ => rfl

theorem writeVia_same (slot : WriteSlot) (v : Value) :
    writeVia (w.withHeap h') below' slot v = writeVia w below slot v :=
  writeVia_congr (writeObject_same hsame hg hdirect haddresses hbelow)
    (writeReference_same hsame hbelow) slot v

end Below

theorem writeWithin_same (depth : Nat) (slot : WriteSlot) (v : Value) :
    (w.withHeap h').writeWithin depth slot v = w.writeWithin depth slot v := by
  induction depth generalizing slot v with
  | zero => exact writeVia_same hsame hg hdirect haddresses (fun _ _ => rfl) slot v
  | succ depth ih => exact writeVia_same hsame hg hdirect haddresses ih slot v

theorem write_same (expected : TypeId) (v : Value) :
    (w.withHeap h').write expected v = w.write expected v := by
  have hlimit : depthLimit (w.withHeap h').heap = depthLimit w.heap := by
    unfold depthLimit withHeap
    rw [hsame.size, hsame.cells]
  unfold write
  rw [hlimit]
  exact writeWithin_same hsame hg hdirect haddresses _ _ v

theorem writeEach_same (expected : TypeId) (vs : List Value) :
    (w.withHeap h').writeEach expected vs = w.writeEach expected vs := by
  induction vs with
  | nil => rfl
  | cons v rest ih =>
      unfold writeEach
      rw [write_same hsame hg hdirect haddresses, ih]

/-- **Documents tell only what may be read.** For a graph without getters where primary ids and links to
parents may be read, and for two heaps that differ only in properties that may not be read: a value has the
same document in both, or the same failure, and so has a listing of values. -/
theorem documents_same (expected : TypeId) :
    (∀ v, (w.withHeap h').write expected v = w.write expected v) ∧
      ∀ l, (w.withHeap h').writeListing expected l = w.writeListing expected l := by
  refine ⟨write_same hsame hg hdirect haddresses expected, fun l => ?_⟩
  unfold writeListing
  rw [writeEach_same hsame hg hdirect haddresses]

end Same

/-! ## A stable and its horses -/

/-- A stable knows its horses, and they know the stable; the chip of a horse may be given and not read. -/
def stables : Registry :=
  (Registry.empty.withType
    { SourceType.bare "Stable" .resource with
      properties := [.primaryId "Id" (.value .int32), .ofType "Horses" (.list (.named "Horse"))] }).withType
    { SourceType.bare "Horse" .resource with
      parent := some ⟨"Stable", "Stable", "Horses"⟩
      properties :=
        [.primaryId "Name" (.value .string), .ofType "Stable" (.named "Stable"),
          { PropertyDef.ofType "Chip" (.value .string) with access := .ofList [.post] }] }

/-- The type of horses, after the value kinds, and that of stables. -/
def horseType : TypeId := ⟨ValueKind.all.length⟩

/-- The type of stables, which is resolved for that of horses. -/
def stableType : TypeId := ⟨ValueKind.all.length + 1⟩

/-- A stable with two horses. -/
def bothHorses : Heap :=
  ⟨#[⟨stableType, [("Horses", .list [.object ⟨1⟩, .object ⟨2⟩]), ("Id", .int 7)]⟩,
     ⟨horseType, [("Chip", .string "a1"), ("Name", .string "Ada"), ("Stable", .object ⟨0⟩)]⟩,
     ⟨horseType, [("Name", .string "Bo"), ("Stable", .object ⟨0⟩)]⟩],
   #[]⟩

/-- Writes stables with all that they lead to. -/
def stableWriter : Writer :=
  ⟨stables.graph, bothHorses, "/", .all⟩

/-- The document of the stable, with its horses inside, is the same whatever chip the first one has. -/
theorem horses_same : (stableWriter.write stableType (.object ⟨0⟩)).isOk = true ∧
    ∀ chip, (stableWriter.withHeap (bothHorses.setField ⟨1⟩ "Chip" chip)).write stableType (.object ⟨0⟩) =
      stableWriter.write stableType (.object ⟨0⟩) := by
  have harises : stables.graph.Arises :=
    Registry.arises_graph ((Registry.keyedByName_empty.withType _).withType _) (by decide +kernel)
  have haddresses : stables.graph.ShowsAddresses := ⟨by decide +kernel, by decide +kernel⟩
  obtain ⟨d, hd, p, hp, hname, hhidden⟩ : ∃ d ∈ stables.graph.table.get? (bothHorses.typeOf ⟨1⟩),
      ∃ p ∈ d.properties, p.name = "Chip" ∧ p.isReadable = false := by decide +kernel
  refine ⟨by decide +kernel, fun chip => ?_⟩
  have hsame : bothHorses.SameButUnreadable stables.graph (bothHorses.setField ⟨1⟩ "Chip" chip) := by
    rw [← hname]
    exact .setField hd hp hhidden chip
  exact (documents_same (w := stableWriter) hsame harises (by decide +kernel) haddresses stableType).1 _

end Writer

end ResourceQuery
