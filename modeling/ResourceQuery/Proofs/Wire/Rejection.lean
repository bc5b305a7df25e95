import ResourceQuery.Proofs.Wire.Frame

set_option autoImplicit false

/-! # Rejected documents change nothing

A document is read in two steps: a walk over its nodes, and one commit at the root, which writes the
patched copies back to their originals. Only the walk can fail (`runOn_read_of_error`), and the walk
spares every object that was there when it began (`spares_readNode`). Hence the main statement,
`read_error_spares`: a rejected document leaves every old object as it was, however deep the failure
and however many members, items and keys were accepted before it.

What a failed reading does leave behind is new: copies and objects that nothing refers to, references,
types that its names made the graph resolve, and the audit.
-/

namespace ResourceQuery

namespace Document

open Reading

variable {ctx : Context} {expected : TypeId} {json : Json} {existing : Option Value}
  {s : ReadState} {e : Error}

/-! ## Where a reading fails -/

/-- Why an outcome is none; nothing for a result. -/
def failure? {α : Type} : Except Error α → Option Error
  | .ok _ => none
  | .error e => some e

theorem eq_error_of_failure? {α : Type} {outcome : Except Error α} (h : failure? outcome = some e) :
    outcome = .error e := by
  cases outcome with
  | ok a => cases h
  | error failure =>
      have hsame : failure = e := Option.some.inj h
      rw [hsame]

theorem exists_ok_of_failure? {α : Type} {outcome : Except Error α} (h : failure? outcome = none) :
    ∃ a, outcome = .ok a := by
  cases outcome with
  | ok a => exact ⟨a, rfl⟩
  | error e => cases h

/-- The commit and the answer cannot fail, so a failed reading stopped in the walk over the nodes. -/
theorem runOn_read_of_error (h : ((read ctx expected json existing).runOn s).1 = .error e) :
    (read ctx expected json existing).runOn s =
      (.error e, ((readNode ctx json.depth (.root expected existing) json).runOn s).2) := by
  unfold read at h ⊢
  rw [Action.runOn_bind] at h ⊢
  cases hwalk : (readNode ctx json.depth (.root expected existing) json).runOn s with
  | mk outcome s' =>
      rw [hwalk] at h
      cases outcome with
      | error failure =>
          have hsame : failure = e := Except.error.inj h
          rw [hsame]
      | ok node => cases h

/-! ## The main statement -/

/-- **A rejected document changes no object that was there.** In every context without side effects,
whatever the document is read into and wherever it fails. -/
theorem read_error_spares (hctx : ctx.HasNoSideEffects)
    (h : ((read ctx expected json existing).runOn s).1 = .error e) (id : ObjectId)
    (hid : id.index < s.heap.records.size) :
    ((read ctx expected json existing).runOn s).2.heap.record id = s.heap.record id := by
  rw [runOn_read_of_error h]
  have hspares := spares_readNode hctx json.depth (.root expected existing) json s
    (Nat.le_refl s.heap.records.size)
  exact hspares.2 id hid (Nat.not_le.mpr hid)

/-! ## Two friends

Each of two objects holds the other. A document that patches one through the other gives the friend a
new name, which is accepted, and then a new serial, which may be given once and not changed. -/

/-- Critters with a name, a serial and nicknames, and with a friend. The serial may not be patched, and
neither may the nicknames as a whole. -/
def critters : Registry :=
  Registry.empty.withType
    { SourceType.bare "Critter" .resource with
      properties :=
        [.ofType "Name" (.value .string),
          { PropertyDef.ofType "Serial" (.value .string) with access := .ofList [.get, .post] },
          { PropertyDef.ofType "Nicknames" (.list (.value .string)) with
            access := .ofList [.get, .post] },
          .ofType "Friend" (.named "Critter")] }

/-- The types of the critters. They are evaluated where that is asked for, and nowhere else. -/
@[irreducible]
def critterGraph : TypeGraph :=
  match TypeGraph.ofRegistry critters with
  | .ok g => g
  | .error _ => ⟨critters, .empty⟩

/-- The type of a critter, after the value kinds. -/
def critterType : TypeId := ⟨ValueKind.all.length⟩

/-- Two critters that are each other's friend. -/
def friends : Heap :=
  ⟨#[⟨critterType, [("Friend", .object ⟨1⟩), ("Name", .string "Ada"),
        ("Nicknames", .list [.string "Ace"]), ("Serial", .string "a")]⟩,
     ⟨critterType, [("Friend", .object ⟨0⟩), ("Name", .string "Bob"), ("Serial", .string "b")]⟩],
   #[]⟩

/-- Renames the friend and gives it another serial. -/
def renameFriend : Json :=
  .object [("Friend", .object [("Name", .string "Bert"), ("Serial", .string "c")])]

/-- The reading fails at the friend's serial, and both friends are what they were. -/
theorem friends_spared :
    ((read .masked critterType renameFriend (some (.object ⟨0⟩))).runOn ⟨critterGraph, friends, []⟩).1
        = .error (.accessDenied "Critter" "Serial" .patch) ∧
      ∀ id : ObjectId, id.index < 2 →
        ((read .masked critterType renameFriend (some (.object ⟨0⟩))).runOn
          ⟨critterGraph, friends, []⟩).2.heap.record id = friends.record id := by
  have hfails : ((read .masked critterType renameFriend (some (.object ⟨0⟩))).runOn
      ⟨critterGraph, friends, []⟩).1 = .error (.accessDenied "Critter" "Serial" .patch) :=
    eq_error_of_failure? (by decide +kernel)
  exact ⟨hfails, fun id hid => read_error_spares Context.masked_hasNoSideEffects hfails id hid⟩

end Document

end ResourceQuery
