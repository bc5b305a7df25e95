import ResourceQuery.Type.Native

set_option autoImplicit false

/-! # Canonical types

The canonical form of a type is one in which nothing is left to fold (`IsFolded`): no name of a value kind, no
optional value right inside an optional value, and no instance that spells a container. Folding comes to such
a form (`isFolded_canonical`) and leaves it alone (`canonical_of_isFolded`), so that a type is canonical
exactly if it is one (`canonical_eq_self_iff`).
-/

namespace ResourceQuery

namespace NativeType

variable {t : NativeType} {definition : String} {arguments : List NativeType}

mutual

/-- Nothing in the type is left to fold. -/
def IsFolded : NativeType → Prop
  | .value _ => True
  | .named name => ValueKind.ofName? name = none
  | .list element => IsFolded element
  | .map k v => IsFolded k ∧ IsFolded v
  | .nullable inner => IsFolded inner ∧ optional inner = .nullable inner
  | .generic definition arguments =>
    AreFolded arguments ∧ applied definition arguments = .generic definition arguments
  | .parameter _ => True

/-- Nothing in the types is left to fold. -/
def AreFolded : List NativeType → Prop
  | [] => True
  | a :: as => IsFolded a ∧ AreFolded as

end

/-! ## What folding comes to -/

/-- An instance spells a container, or it stays an instance. -/
theorem applied_cases (definition : String) (arguments : List NativeType) :
    (∃ element, arguments = [element] ∧ applied definition arguments = .list element) ∨
      (∃ k v, arguments = [k, v] ∧ applied definition arguments = .map k v) ∨
      (∃ inner, arguments = [inner] ∧ applied definition arguments = optional inner) ∨
      applied definition arguments = .generic definition arguments := by
  unfold applied
  split
  · exact .inl ⟨_, rfl, rfl⟩
  · exact .inr (.inl ⟨_, _, rfl, rfl⟩)
  · exact .inr (.inr (.inl ⟨_, rfl, rfl⟩))
  · exact .inr (.inr (.inr rfl))

theorem isFolded_optional (h : t.IsFolded) : (optional t).IsFolded := by
  cases t with
  | nullable inner => exact h
  | _ => exact ⟨h, rfl⟩

theorem isFolded_applied (h : AreFolded arguments) : (applied definition arguments).IsFolded := by
  obtain ⟨element, rfl, happlied⟩ | ⟨k, v, rfl, happlied⟩ | ⟨inner, rfl, happlied⟩ | happlied :=
    applied_cases definition arguments
  · rw [happlied]
    exact h.1
  · rw [happlied]
    exact ⟨h.1, h.2.1⟩
  · rw [happlied]
    exact isFolded_optional h.1
  · rw [happlied]
    exact ⟨h, happlied⟩

mutual

/-- Folding leaves nothing to fold. -/
theorem isFolded_canonical : (t : NativeType) → t.canonical.IsFolded
  | .value _ => trivial
  | .parameter _ => trivial
  | .list element => isFolded_canonical element
  | .map k v => ⟨isFolded_canonical k, isFolded_canonical v⟩
  | .nullable inner => isFolded_optional (isFolded_canonical inner)
  | .generic _ arguments => isFolded_applied (areFolded_canonicalAll arguments)
  | .named name => by
      unfold canonical
      cases hkind : ValueKind.ofName? name with
      | some kind => trivial
      | none => exact hkind

theorem areFolded_canonicalAll : (arguments : List NativeType) → AreFolded (canonicalAll arguments)
  | [] => trivial
  | a :: as => ⟨isFolded_canonical a, areFolded_canonicalAll as⟩

end

/-! ## What folding leaves alone -/

mutual

/-- A type in which nothing is left to fold is its own canonical form. -/
theorem canonical_of_isFolded : (t : NativeType) → t.IsFolded → t.canonical = t
  | .value _, _ => rfl
  | .parameter _, _ => rfl
  | .named name, h => by
      unfold IsFolded at h
      simp only [canonical, h]
  | .list element, h => congrArg list (canonical_of_isFolded element h)
  | .map k v, ⟨hk, hv⟩ => by
      rw [canonical, canonical_of_isFolded k hk, canonical_of_isFolded v hv]
  | .nullable inner, ⟨hinner, hoptional⟩ => by
      rw [canonical, canonical_of_isFolded inner hinner, hoptional]
  | .generic definition arguments, ⟨harguments, happlied⟩ => by
      rw [canonical, canonicalAll_of_areFolded arguments harguments, happlied]

theorem canonicalAll_of_areFolded : (arguments : List NativeType) → AreFolded arguments →
    canonicalAll arguments = arguments
  | [], _ => rfl
  | a :: as, ⟨ha, has⟩ => by
      rw [canonicalAll, canonical_of_isFolded a ha, canonicalAll_of_areFolded as has]

end

theorem canonical_eq_self_iff : t.canonical = t ↔ t.IsFolded :=
  ⟨fun h => h ▸ isFolded_canonical t, canonical_of_isFolded t⟩

/-- Folding twice is folding once. -/
theorem canonical_canonical (t : NativeType) : t.canonical.canonical = t.canonical :=
  canonical_of_isFolded _ (isFolded_canonical t)

end NativeType

end ResourceQuery
