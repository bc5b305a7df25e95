import ResourceQuery.Proofs.Wire.Rejection
import ResourceQuery.Proofs.Wire.Tracking

set_option autoImplicit false

/-! # Where declared masks are enforced

A property of an object that is there changes by a document only where its mask has `PATCH`, or where
it holds a list that is edited as the mask for its items allows. So far the intention. What holds is
`maskAllows_iff`: for a property that reads its own field, in a slot that is not untyped, a change of
the stored value is one that the masks allow **exactly if** the mask has `PATCH` or the new value is a
list.

The exception is real (`cleared_without_patch`). A list that a member does not force to a new value is
taken to be edited item by item, so nobody is asked about the property; and a `null`, or a reference,
puts it away without editing any item.
-/

namespace ResourceQuery

/-! ## The main statement -/

/-- No property has a setter of its own: each writes the field of its name. -/
def TypeGraph.HasNoSetters (g : TypeGraph) : Prop :=
  ∀ d ∈ g.types, ∀ q ∈ d.properties, q.writesField = none

namespace Document

/-- **A changed property changed as its masks allow, exactly if it may be patched or is a list.** For an
object that is there before an accepted document, and a property of its type which reads its own field
and whose slot is not untyped. -/
theorem maskAllows_iff {s : ReadState} {expected : TypeId} {json : Json} {existing : Option Value}
    {id : ObjectId} {d e : Descriptor} {p : Property} {name : String} {v : Value}
    (hvalues : s.graph.StartsWithValues) (hsetters : s.graph.HasNoSetters)
    (hid : id.index < s.heap.records.size)
    (hd : s.graph.table.get? (s.heap.typeOf id) = some d) (hp : d.property? name = some p)
    (hdirect : p.readsField = none) (he : s.graph.table.get? p.type = some e)
    (htyped : e.isAny = false)
    (hrun : ((read .masked expected json existing).runOn s).1 = .ok v)
    (hchanged : ((read .masked expected json existing).runOn s).2.heap.field id p.name ≠
      s.heap.field id p.name) :
    p.MaskAllows (s.heap.field id p.name)
        (((read .masked expected json existing).runOn s).2.heap.field id p.name) ↔
      p.access.contains .patch = true ∨ ∃ items,
        ((read .masked expected json existing).runOn s).2.heap.field id p.name = .list items := by
  -- the property is followed through the whole call, from its value at the start
  let w : Watch :=
    { table := s.graph.table
      type := s.heap.typeOf id
      descriptor := d
      property := p
      slot := e
      old := s.heap.field id p.name
      known := hd
      called := property?_self hp
      direct := hdirect
      plain := hsetters d (TypeGraph.mem_types hd)
      slotKnown := he
      typed := htyped
      first := ⟨_, hvalues .boolean, rfl⟩ }
  have hevolved : p.Evolves (s.heap.field id p.name)
      (((read .masked expected json existing).runOn s).2.heap.field id p.name) :=
    evolves_read (w := w) hid rfl rfl rfl hrun
  constructor
  · intro hallows
    rcases hallows with hpatch | ⟨xs, ys, _, hnew, _⟩
    · exact Or.inl hpatch
    · exact Or.inr ⟨ys, hnew⟩
  · intro h
    rcases h with hpatch | ⟨items, hitems⟩
    · exact Or.inl hpatch
    · generalize hnew : ((read .masked expected json existing).runOn s).2.heap.field id p.name = new
        at hevolved hitems hchanged
      -- of the ways to evolve, only the mask is left for a list that changed
      cases hevolved with
      | same => exact absurd rfl hchanged
      | allowed hallows => exact hallows
      | displaced _ hnotList => exact absurd hitems (hnotList items)

/-! ### Nicknames -/

theorem critterGraph_startsWithValues : critterGraph.StartsWithValues := by
  have hknown : failure? (TypeGraph.ofRegistry critters) = none := by decide +kernel
  obtain ⟨g, hg⟩ := exists_ok_of_failure? hknown
  have hsame : critterGraph = g := by
    unfold critterGraph
    rw [hg]
  rw [hsame]
  exact TypeGraph.startsWithValues_ofRegistry hg

theorem critterGraph_hasNoSetters : critterGraph.HasNoSetters := by
  unfold TypeGraph.HasNoSetters
  decide +kernel

/-- The descriptor of the critters. -/
def critter : Descriptor :=
  (critterGraph.table.get? critterType).get (by decide +kernel)

/-- The nicknames of a critter: they may not be patched, but each of them may be edited. -/
def nicknames : Property :=
  (critter.property? "Nicknames").get (by decide +kernel)

/-- The descriptor of lists of nicknames. -/
def nicknameList : Descriptor :=
  (critterGraph.table.get? nicknames.type).get (by decide +kernel)

theorem critter_known : critterGraph.table.get? critterType = some critter :=
  (Option.some_get _).symm

theorem nicknames_known : critter.property? "Nicknames" = some nicknames :=
  (Option.some_get _).symm

theorem nicknameList_known : critterGraph.table.get? nicknames.type = some nicknameList :=
  (Option.some_get _).symm

/-- The types and the two friends, before anything is read. -/
def friendsState : ReadState :=
  ⟨critterGraph, friends, []⟩

/-- Reads a document as a change to the first of the two friends. -/
def patchFriend (json : Json) : Except Error Value × ReadState :=
  (read .masked critterType json (some (.object ⟨0⟩))).runOn friendsState

/-- Adds a nickname. -/
def addNickname : Json :=
  .object [("Nicknames", .array [.string "Addy"])]

/-- Puts the nicknames away. -/
def clearNicknames : Json :=
  .object [("Nicknames", .null)]

/-- The number of items of a list; none for another value. -/
def itemCount? : Value → Option Nat
  | .list items => some items.length
  | _ => none

theorem exists_list_of_itemCount? {v : Value} {n : Nat} (h : itemCount? v = some n) :
    ∃ items, v = .list items := by
  cases v with
  | list items => exact ⟨items, rfl⟩
  | _ => cases h

/-- A further nickname is a change that the masks allow. -/
theorem nickname_added :
    nicknames.MaskAllows (friendsState.heap.field ⟨0⟩ nicknames.name)
      ((patchFriend addNickname).2.heap.field ⟨0⟩ nicknames.name) := by
  have haccepted : failure? (patchFriend addNickname).1 = none := by decide +kernel
  obtain ⟨v, hv⟩ := exists_ok_of_failure? haccepted
  have hbefore : itemCount? (friendsState.heap.field ⟨0⟩ nicknames.name) = some 1 := by decide +kernel
  have hafter : itemCount? ((patchFriend addNickname).2.heap.field ⟨0⟩ nicknames.name) = some 2 := by
    decide +kernel
  have hchanged : (patchFriend addNickname).2.heap.field ⟨0⟩ nicknames.name ≠
      friendsState.heap.field ⟨0⟩ nicknames.name := by
    intro h
    rw [h, hbefore] at hafter
    cases hafter
  have hdirect : nicknames.readsField = none := by decide +kernel
  have htyped : nicknameList.isAny = false := by decide +kernel
  have hlist := exists_list_of_itemCount? hafter
  unfold patchFriend at hv hchanged hlist ⊢
  have hiff := @maskAllows_iff friendsState critterType addNickname (some (.object ⟨0⟩)) ⟨0⟩
    critter nicknameList nicknames "Nicknames" v critterGraph_startsWithValues
    critterGraph_hasNoSetters (by decide) critter_known nicknames_known hdirect nicknameList_known
    htyped hv hchanged
  exact hiff.mpr (Or.inr hlist)

/-- **Nobody asks when a list is put away.** The masks of the nicknames do not allow it, and the document
is accepted. -/
theorem cleared_without_patch :
    (∃ v, (patchFriend clearNicknames).1 = .ok v) ∧
      (patchFriend clearNicknames).2.heap.field ⟨0⟩ nicknames.name ≠
        friendsState.heap.field ⟨0⟩ nicknames.name ∧
      ¬ nicknames.MaskAllows (friendsState.heap.field ⟨0⟩ nicknames.name)
        ((patchFriend clearNicknames).2.heap.field ⟨0⟩ nicknames.name) := by
  have haccepted : failure? (patchFriend clearNicknames).1 = none := by decide +kernel
  have hbefore : itemCount? (friendsState.heap.field ⟨0⟩ nicknames.name) = some 1 := by decide +kernel
  have hafter : itemCount? ((patchFriend clearNicknames).2.heap.field ⟨0⟩ nicknames.name) = none := by
    decide +kernel
  have hmask : nicknames.access.contains .patch = false := by decide +kernel
  refine ⟨exists_ok_of_failure? haccepted, fun h => ?_, fun h => ?_⟩
  · rw [h, hbefore] at hafter
    cases hafter
  · rcases h with hpatch | ⟨_, ys, _, hnew, _⟩
    · rw [hmask] at hpatch
      cases hpatch
    · rw [hnew] at hafter
      cases hafter

end Document

end ResourceQuery
