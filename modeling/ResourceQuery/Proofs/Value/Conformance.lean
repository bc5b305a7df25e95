import ResourceQuery.Proofs.Type.Resolution

set_option autoImplicit false

/-! # Values that conform to a type

A value conforms to a type if it is of the type's kind down to its last part: a whole number that fits,
a declared member of an enum, a list whose items conform to the type of items. What an untyped slot
holds conforms by its own shape.

Objects may form cycles, so a value cannot conform to a type by going down to the objects behind it.
`Value.Conforms` therefore is about values alone and is told which objects there are, by their number
and type (`isObject`); `Heap.Populates` says that the heap bears it out. What else a slot has to be
for a value is a parameter, `admits`: each use of conformance says for itself where null may stand, and
what references may be.
-/

namespace ResourceQuery

/-! ## Assignability -/

namespace TypeGraph

variable {g g' : TypeGraph}

theorem isAssignable_self (g : TypeGraph) (type : TypeId) : g.isAssignable type type = true := by
  unfold isAssignable inheritsFrom
  simp

theorem inheritsFrom_mono (hext : g.table.Extends g'.table) {target candidate : TypeId}
    {fuel fuel' : Nat} (hfuel : fuel ≤ fuel') (h : g.inheritsFrom target fuel candidate = true) :
    g'.inheritsFrom target fuel' candidate = true := by
  induction fuel generalizing candidate fuel' with
  | zero => cases h
  | succ fuel ih =>
      obtain ⟨fuel'', rfl⟩ : ∃ k, fuel' = k + 1 := ⟨fuel' - 1, by omega⟩
      unfold inheritsFrom at h ⊢
      rw [Bool.or_eq_true] at h ⊢
      rcases h with hsame | hbase
      · exact Or.inl hsame
      · refine Or.inr ?_
        cases hd : g.table.get? candidate with
        | none =>
            rw [hd] at hbase
            cases hbase
        | some d =>
            rw [hd] at hbase
            rw [hext.get? hd]
            dsimp only [Option.bind_some] at hbase ⊢
            cases hb : d.base? with
            | none =>
                rw [hb] at hbase
                cases hbase
            | some base =>
                rw [hb] at hbase
                exact ih (by omega) hbase

/-- What could be assigned still can be when more types are known. -/
theorem isAssignable_mono (hext : g.table.Extends g'.table) {target candidate : TypeId}
    (h : g.isAssignable target candidate = true) : g'.isAssignable target candidate = true := by
  unfold isAssignable at h ⊢
  rw [Bool.or_eq_true] at h ⊢
  rcases h with hany | hinherits
  · refine Or.inl ?_
    cases hd : g.table.get? target with
    | none =>
        rw [hd] at hany
        cases hany
    | some d =>
        rw [hd] at hany
        rw [hext.get? hd]
        exact hany
  · exact Or.inr (inheritsFrom_mono hext (by have := hext.1; omega) hinherits)

end TypeGraph

/-! ## Slots -/

namespace Descriptor

/-- Whether a slot of the type may hold the scalar; any scalar, if the slot is untyped. -/
def hasScalar (d : Descriptor) (v : Value) : Bool :=
  match d.shape, v with
  | .value .boolean, .bool _ => true
  | .value .int32, .int n => Word.fitsInt32 n.toInt
  | .value .int64, .int _ => true
  | .value .double, .float _ => true
  | .value .string, .string _ => true
  | .value .dateTime, .dateTime _ => true
  | .enum members, .enum member => members.contains member
  | .value .any, .bool _ => true
  | .value .any, .int _ => true
  | .value .any, .float _ => true
  | .value .any, .string _ => true
  | .value .any, .dateTime _ => true
  | .value .any, .enum _ => true
  | _, _ => false

/-- Whether slots of the type hold scalars only. -/
def isScalar (d : Descriptor) : Bool :=
  match d.shape with
  | .value .any => false
  | .value _ => true
  | .enum _ => true
  | _ => false

/-- The type of the items of a list in a slot of the type. -/
def itemSlot? (d : Descriptor) : Option TypeId :=
  match d.shape with
  | .collection element => some element
  | .value .any => some (TypeGraph.valueType .any)
  | _ => none

/-- The type of the values of a dictionary in a slot of the type. -/
def entrySlot? (d : Descriptor) : Option TypeId :=
  match d.shape with
  | .dictionary _ value => some value
  | .value .any => some (TypeGraph.valueType .any)
  | _ => none

variable {d : Descriptor}

theorem shape_of_isAny (h : d.isAny = true) : d.shape = .value .any := by
  unfold isAny at h
  split at h
  · assumption
  · cases h

theorem isAny_of_shape (h : d.shape = .value .any) : d.isAny = true := by
  unfold isAny
  rw [h]

theorem itemSlot?_of_isAny (h : d.isAny = true) :
    d.itemSlot? = some (TypeGraph.valueType .any) := by
  unfold itemSlot?
  rw [shape_of_isAny h]

theorem entrySlot?_of_isAny (h : d.isAny = true) :
    d.entrySlot? = some (TypeGraph.valueType .any) := by
  unfold entrySlot?
  rw [shape_of_isAny h]

theorem hasScalar_object (d : Descriptor) (id : ObjectId) : d.hasScalar (.object id) = false := by
  unfold hasScalar
  split <;> first | rfl | contradiction

theorem hasScalar_reference (d : Descriptor) (r : LazyRef) : d.hasScalar (.reference r) = false := by
  unfold hasScalar
  split <;> first | rfl | contradiction

/-- A type with a property holds no scalars, lists or dictionaries. -/
theorem noScalar_of_property? {name : String} {p : Property} (h : d.property? name = some p) :
    (∀ v, d.hasScalar v = false) ∧ d.itemSlot? = none ∧ d.entrySlot? = none ∧ d.isAny = false := by
  obtain ⟨id, typeName, nullable, arguments, shape⟩ := d
  cases shape with
  | value kind => cases h
  | enum members => cases h
  | collection element => cases h
  | dictionary key value => cases h
  | structured members => exact ⟨fun _ => rfl, rfl, rfl, rfl⟩
  | resource members address => exact ⟨fun _ => rfl, rfl, rfl, rfl⟩

end Descriptor

/-- **The untyped type has one number.** -/
theorem TypeGraph.Arises.eq_untyped {g : TypeGraph} (hg : g.Arises) {type : TypeId} {d : Descriptor}
    (hd : g.table.get? type = some d) (hany : d.isAny = true) : type = valueType .any := by
  obtain ⟨_, hlookup⟩ := hg.sound.untyped type d hd hany
  obtain ⟨_, hlookup'⟩ := hg.sound.untyped _ _ (hg.startsWithValues .any) rfl
  rw [hlookup] at hlookup'
  exact Option.some.inj hlookup'

/-! ## Values -/

namespace Value

/-- A value of the type, over the objects that `isObject` speaks of; `admits` says what else a slot asks
of a value. -/
inductive Conforms (g : TypeGraph) (admits : Descriptor → Value → Prop)
    (isObject : ObjectId → TypeId → Prop) : TypeId → Value → Prop
  | null {type : TypeId} {d : Descriptor} (hd : g.table.get? type = some d) (h : admits d .null) :
      Conforms g admits isObject type .null
  | scalar {type : TypeId} {d : Descriptor} {v : Value} (hd : g.table.get? type = some d)
      (hv : d.hasScalar v = true) (h : admits d v) : Conforms g admits isObject type v
  | list {type element : TypeId} {d : Descriptor} {items : List Value}
      (hd : g.table.get? type = some d) (hslot : d.itemSlot? = some element)
      (hitems : ∀ v ∈ items, Conforms g admits isObject element v) (h : admits d (.list items)) :
      Conforms g admits isObject type (.list items)
  | map {type value : TypeId} {d : Descriptor} {entries : List (String × Value)}
      (hd : g.table.get? type = some d) (hslot : d.entrySlot? = some value)
      (hentries : ∀ entry ∈ entries, Conforms g admits isObject value entry.2)
      (h : admits d (.map entries)) : Conforms g admits isObject type (.map entries)
  /-- Rows that share a key have no type of their own. -/
  | group {type : TypeId} {d : Descriptor} {key : Value} {items : List Value}
      (hd : g.table.get? type = some d) (hslot : d.isAny = true)
      (hkey : Conforms g admits isObject type key)
      (hitems : ∀ v ∈ items, Conforms g admits isObject type v) (h : admits d (.group key items)) :
      Conforms g admits isObject type (.group key items)
  /-- An object of the type, or of one that inherits from it. -/
  | object {type concrete : TypeId} {d : Descriptor} {id : ObjectId}
      (hd : g.table.get? type = some d) (hobject : isObject id concrete)
      (hfits : g.isAssignable type concrete = true) : Conforms g admits isObject type (.object id)
  /-- A reference may stand for anything but a scalar. -/
  | reference {type : TypeId} {d : Descriptor} {r : LazyRef} (hd : g.table.get? type = some d)
      (hslot : d.isScalar = false) (hfits : g.isAssignable type r.target = true)
      (h : admits d (.reference r)) : Conforms g admits isObject type (.reference r)

variable {g g' : TypeGraph} {admits admits' : Descriptor → Value → Prop}
  {isObject isObject' : ObjectId → TypeId → Prop} {type : TypeId} {v : Value}

/-- A value conforms to its type still when more types and objects are known. -/
theorem Conforms.mono (h : Conforms g admits isObject type v) (hext : g.table.Extends g'.table)
    (hadmits : ∀ d v, admits d v → admits' d v)
    (hobjects : ∀ id concrete, isObject id concrete → isObject' id concrete) :
    Conforms g' admits' isObject' type v := by
  induction h with
  | null hd h => exact .null (hext.get? hd) (hadmits _ _ h)
  | scalar hd hv h => exact .scalar (hext.get? hd) hv (hadmits _ _ h)
  | list hd hslot _ h ih => exact .list (hext.get? hd) hslot ih (hadmits _ _ h)
  | map hd hslot _ h ih => exact .map (hext.get? hd) hslot ih (hadmits _ _ h)
  | group hd hslot _ _ h ihkey ih => exact .group (hext.get? hd) hslot ihkey ih (hadmits _ _ h)
  | object hd hobject hfits =>
      exact .object (hext.get? hd) (hobjects _ _ hobject) (TypeGraph.isAssignable_mono hext hfits)
  | reference hd hslot hfits h =>
      exact .reference (hext.get? hd) hslot (TypeGraph.isAssignable_mono hext hfits) (hadmits _ _ h)

end Value

/-! ## Objects -/

namespace Heap

/-- The objects that `isObject` speaks of are instances of types that are not abstract, and each
property of theirs is null or holds what conforms to its type. -/
structure Populates (h : Heap) (g : TypeGraph) (admits : Descriptor → Value → Prop)
    (isObject : ObjectId → TypeId → Prop) : Prop where
  type : ∀ id concrete, isObject id concrete → h.typeOf id = concrete
  instantiable : ∀ id concrete, isObject id concrete →
    ∃ d m, g.table.get? concrete = some d ∧ d.members? = some m ∧ m.isAbstract = false
  property : ∀ id concrete d p, isObject id concrete → g.table.get? concrete = some d →
    p ∈ d.properties → h.field id p.name = .null ∨
      Value.Conforms g admits isObject p.type (h.field id p.name)

end Heap

/-! ## Checking

For finitely many objects, all of this can be computed. -/

namespace Value

section Checking

variable (g : TypeGraph) (admits : Descriptor → Value → Prop) [∀ d v, Decidable (admits d v)]
  (objects : List (ObjectId × TypeId))

mutual

/-- Whether the value conforms to the type. -/
def conformsBy (type : TypeId) : Value → Bool
  | .list items =>
    match g.table.get? type with
    | some d =>
      match d.itemSlot? with
      | some element => admits d (.list items) && conformAllBy element items
      | none => false
    | none => false
  | .map entries =>
    match g.table.get? type with
    | some d =>
      match d.entrySlot? with
      | some value => admits d (.map entries) && conformEntriesBy value entries
      | none => false
    | none => false
  | .group key items =>
    match g.table.get? type with
    | some d =>
      admits d (.group key items) && d.isAny && conformsBy type key && conformAllBy type items
    | none => false
  | .object id =>
    (g.table.get? type).isSome &&
      objects.any fun object => object.1 = id && g.isAssignable type object.2
  | .reference r =>
    match g.table.get? type with
    | some d => admits d (.reference r) && !d.isScalar && g.isAssignable type r.target
    | none => false
  | .null =>
    match g.table.get? type with
    | some d => admits d .null
    | none => false
  | v =>
    match g.table.get? type with
    | some d => admits d v && d.hasScalar v
    | none => false

/-- Whether all of the values conform to the type. -/
def conformAllBy (type : TypeId) : List Value → Bool
  | [] => true
  | v :: rest => conformsBy type v && conformAllBy type rest

/-- Whether all values of the dictionary conform to the type. -/
def conformEntriesBy (type : TypeId) : List (String × Value) → Bool
  | [] => true
  | (_, v) :: rest => conformsBy type v && conformEntriesBy type rest

end

end Checking

variable {g : TypeGraph} {admits : Descriptor → Value → Prop} [∀ d v, Decidable (admits d v)]
  {objects : List (ObjectId × TypeId)}

mutual

theorem conforms_of_conformsBy : (v : Value) → ∀ {type : TypeId},
    conformsBy g admits objects type v = true →
      Conforms g admits (fun id concrete => (id, concrete) ∈ objects) type v := by
  intro v type h
  cases hd : g.table.get? type with
  | none => cases v <;> simp [conformsBy, hd] at h
  | some d =>
      cases v with
      | null =>
          simp only [conformsBy, hd, decide_eq_true_eq] at h
          exact .null hd h
      | list items =>
          simp only [conformsBy, hd] at h
          cases hslot : d.itemSlot? with
          | none => simp [hslot] at h
          | some element =>
              simp only [hslot, Bool.and_eq_true, decide_eq_true_eq] at h
              exact .list hd hslot (conforms_of_conformAllBy items h.2) h.1
      | map entries =>
          simp only [conformsBy, hd] at h
          cases hslot : d.entrySlot? with
          | none => simp [hslot] at h
          | some value =>
              simp only [hslot, Bool.and_eq_true, decide_eq_true_eq] at h
              exact .map hd hslot (conforms_of_conformEntriesBy entries h.2) h.1
      | group key items =>
          simp only [conformsBy, hd, Bool.and_eq_true, decide_eq_true_eq] at h
          obtain ⟨⟨⟨hadmits, hany⟩, hkey⟩, hitems⟩ := h
          exact .group hd hany (conforms_of_conformsBy key hkey)
            (conforms_of_conformAllBy items hitems) hadmits
      | object id =>
          simp only [conformsBy, Bool.and_eq_true, List.any_eq_true, decide_eq_true_eq] at h
          obtain ⟨_, ⟨other, concrete⟩, hmem, rfl, hfits⟩ := h
          exact .object hd hmem hfits
      | reference r =>
          simp only [conformsBy, hd, Bool.and_eq_true, decide_eq_true_eq, Bool.not_eq_true'] at h
          exact .reference hd h.1.2 h.2 h.1.1
      | _ =>
          simp only [conformsBy, hd, Bool.and_eq_true, decide_eq_true_eq] at h
          exact .scalar hd h.2 h.1

theorem conforms_of_conformAllBy : (items : List Value) → ∀ {type : TypeId},
    conformAllBy g admits objects type items = true → ∀ v ∈ items,
      Conforms g admits (fun id concrete => (id, concrete) ∈ objects) type v
  | [], type, _ => nofun
  | v :: rest, type, h => by
      rw [conformAllBy, Bool.and_eq_true] at h
      intro w hw
      rcases List.mem_cons.mp hw with hself | hrest
      · rw [hself]
        exact conforms_of_conformsBy v h.1
      · exact conforms_of_conformAllBy rest h.2 w hrest

theorem conforms_of_conformEntriesBy : (entries : List (String × Value)) → ∀ {type : TypeId},
    conformEntriesBy g admits objects type entries = true → ∀ entry ∈ entries,
      Conforms g admits (fun id concrete => (id, concrete) ∈ objects) type entry.2
  | [], type, _ => nofun
  | (key, v) :: rest, type, h => by
      rw [conformEntriesBy, Bool.and_eq_true] at h
      intro entry hentry
      rcases List.mem_cons.mp hentry with hself | hrest
      · rw [hself]
        exact conforms_of_conformsBy v h.1
      · exact conforms_of_conformEntriesBy rest h.2 entry hrest

end

end Value

namespace Heap

variable {h : Heap} {g : TypeGraph} {admits : Descriptor → Value → Prop}
  [∀ d v, Decidable (admits d v)] {objects : List (ObjectId × TypeId)}

/-- Whether the heap bears out that there are these objects. -/
def populatedBy (h : Heap) (g : TypeGraph) (admits : Descriptor → Value → Prop)
    [∀ d v, Decidable (admits d v)] (objects : List (ObjectId × TypeId)) : Bool :=
  objects.all fun object =>
    h.typeOf object.1 = object.2 &&
      match g.table.get? object.2 with
      | some d =>
        d.members?.any (!·.isAbstract) && d.properties.all fun p =>
          (h.field object.1 p.name).isNull ||
            (h.field object.1 p.name).conformsBy g admits objects p.type
      | none => false

theorem populates_of_populatedBy (hall : h.populatedBy g admits objects = true) :
    h.Populates g admits fun id concrete => (id, concrete) ∈ objects := by
  have hobject : ∀ id concrete, (id, concrete) ∈ objects → h.typeOf id = concrete ∧
      ∃ d, g.table.get? concrete = some d ∧ d.members?.any (!·.isAbstract) = true ∧
        ∀ p ∈ d.properties, (h.field id p.name).isNull = true ∨
          (h.field id p.name).conformsBy g admits objects p.type = true := by
    intro id concrete hmem
    have hone := List.all_eq_true.mp hall (id, concrete) hmem
    rw [Bool.and_eq_true, decide_eq_true_eq] at hone
    refine ⟨hone.1, ?_⟩
    cases hd : g.table.get? concrete with
    | none =>
        rw [hd] at hone
        cases hone.2
    | some d =>
        have hrest := hone.2
        simp only [hd, Bool.and_eq_true, List.all_eq_true, Bool.or_eq_true] at hrest
        exact ⟨d, rfl, hrest.1, hrest.2⟩
  constructor
  case type => exact fun id concrete hmem => (hobject id concrete hmem).1
  case instantiable =>
    intro id concrete hmem
    obtain ⟨_, d, hd, habstract, _⟩ := hobject id concrete hmem
    cases hm : d.members? with
    | none =>
        rw [hm] at habstract
        cases habstract
    | some m =>
        rw [hm] at habstract
        exact ⟨d, m, hd, hm, by simpa using habstract⟩
  case property =>
    intro id concrete d p hmem hd hp
    obtain ⟨_, d', hd', _, hproperties⟩ := hobject id concrete hmem
    rw [hd] at hd'
    cases hd'
    rcases hproperties p hp with hnull | hconforms
    · left
      cases hfield : h.field id p.name with
      | null => rfl
      | _ =>
          rw [hfield] at hnull
          cases hnull
    · exact Or.inr (Value.conforms_of_conformsBy _ hconforms)

end Heap

end ResourceQuery
