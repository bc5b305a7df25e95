import ResourceQuery.Expr.Eval
import ResourceQuery.Expr.Typing
import ResourceQuery.Proofs.Expr.Written
import ResourceQuery.Proofs.Value.Conformance

set_option autoImplicit false

/-! # What the type of an expression promises

The check of an expression answers what is known of its value before any row is there. This module says
what that is worth: a value of an expression that was given a type is null or conforms to it
(`Heap.Typed.allows_eval`).

Null is allowed whatever the type, since it is carried along by members and a field may never have been
set. A row may be an instance of any subtype, so a member that is found in the declared type has to be
found, with the same type, in every type below it. For the members themselves that is a property of all
graphs (`TypeTable.Sound.inherits`); that an overriding property keeps the type is asked of the graph
(`TypeGraph.OverridesKeep`).
-/

namespace ResourceQuery

/-! ## Overriding -/

namespace TypeGraph

variable {g : TypeGraph} {type concrete : TypeId} {d c : Descriptor}

/-- A property keeps, in the sense of `keeps`, what the property is that it overrides. -/
def OverridesKeep (g : TypeGraph) (keeps : Property → Property → Prop) : Prop :=
  ∀ type base d b, g.table.get? type = some d → d.base? = some base → g.table.get? base = some b →
    ∀ p ∈ b.properties, ∀ q ∈ d.properties, q.isNamed p.name = true → keeps p q

/-- No property has a getter of its own: each reads the field of its name. -/
def HasNoGetters (g : TypeGraph) : Prop :=
  ∀ d ∈ g.types, ∀ p ∈ d.properties, p.readsField = none

instance (g : TypeGraph) : Decidable g.HasNoGetters :=
  inferInstanceAs (Decidable (∀ d ∈ g.types, ∀ p ∈ d.properties, p.readsField = none))

theorem Arises.overridesKeep (hg : g.Arises) {keeps : Property → Property → Prop}
    (hall : ∀ d ∈ g.types, ∀ b ∈ g.types, d.base? = some b.id → ∀ p ∈ b.properties,
      ∀ q ∈ d.properties, q.isNamed p.name = true → keeps p q) : g.OverridesKeep keeps := by
  intro type base d b hd hbase hb
  refine hall d (mem_types hd) b (mem_types hb) ?_
  rw [hg.sound.id base b hb]
  exact hbase

/-- What inherits from a type is known if the type is. -/
theorem exists_of_inheritsFrom (hd : g.table.get? type = some d) {fuel : Nat}
    (h : g.inheritsFrom type fuel concrete = true) : ∃ c, g.table.get? concrete = some c := by
  cases fuel with
  | zero => cases h
  | succ fuel =>
      unfold inheritsFrom at h
      rw [Bool.or_eq_true] at h
      rcases h with hsame | hbase
      · exact ⟨d, by rw [of_decide_eq_true hsame, hd]⟩
      · cases hc : g.table.get? concrete with
        | none =>
            rw [hc] at hbase
            cases hbase
        | some c => exact ⟨c, rfl⟩

/-- A chain of bases either ends at once or goes on from the base. -/
theorem inheritsFrom_cases (hd : g.table.get? type = some d) (hc : g.table.get? concrete = some c)
    {fuel : Nat} (h : g.inheritsFrom type (fuel + 1) concrete = true) :
    c = d ∨ ∃ base b, c.base? = some base ∧ g.table.get? base = some b ∧
      g.inheritsFrom type fuel base = true := by
  unfold inheritsFrom at h
  rw [Bool.or_eq_true] at h
  rcases h with hsame | hbase
  · left
    have heq : concrete = type := of_decide_eq_true hsame
    rw [heq, hd] at hc
    exact (Option.some.inj hc).symm
  · right
    rw [hc] at hbase
    dsimp only [Option.bind_some] at hbase
    cases hb : c.base? with
    | none =>
        rw [hb] at hbase
        cases hbase
    | some base =>
        rw [hb] at hbase
        obtain ⟨b, hbd⟩ := exists_of_inheritsFrom hd hbase
        exact ⟨base, b, rfl, hbd, hbase⟩

/-- **A type has the properties of every type above it, and keeps of them what each override keeps.** -/
theorem Arises.exists_inherited (hg : g.Arises) {keeps : Property → Property → Prop}
    (hkeep : g.OverridesKeep keeps) (hrefl : ∀ p, keeps p p)
    (htrans : ∀ p q r, keeps p q → keeps q r → keeps p r) (hd : g.table.get? type = some d)
    {fuel : Nat} (hc : g.table.get? concrete = some c) (h : g.inheritsFrom type fuel concrete = true)
    {name : String} {p : Property} (hp : d.property? name = some p) :
    ∃ q, c.property? name = some q ∧ keeps p q := by
  induction fuel generalizing concrete c with
  | zero => cases h
  | succ fuel ih =>
      rcases inheritsFrom_cases hd hc h with hsame | ⟨base, b, hbase, hb, habove⟩
      · exact ⟨p, hsame ▸ hp, hrefl p⟩
      · obtain ⟨q, hq, hpq⟩ := ih hb habove
        obtain ⟨r, hr, hqr⟩ := hg.sound.inherits hc hbase hb (Descriptor.mem_of_property? hq)
        have hnamed : r.isNamed name = true :=
          Text.sameIgnoringCase_trans hqr (Descriptor.isNamed_of_property? hq)
        exact ⟨r, Descriptor.property?_of_mem (hg.sound.distinct _ _ hc) hr hnamed,
          htrans p q r hpq (hkeep _ _ _ _ hc hbase hb q (Descriptor.mem_of_property? hq) r hr hqr)⟩

/-- What a declared type inherits from is declared. -/
theorem Arises.isDeclared_of_inheritsFrom (hg : g.Arises) (hd : g.table.get? type = some d)
    {fuel : Nat} (hc : g.table.get? concrete = some c) (hdeclared : c.isDeclared = true)
    (h : g.inheritsFrom type fuel concrete = true) : d.isDeclared = true := by
  induction fuel generalizing concrete c with
  | zero => cases h
  | succ fuel ih =>
      rcases inheritsFrom_cases hd hc h with hsame | ⟨base, b, hbase, hb, habove⟩
      · exact hsame ▸ hdeclared
      · exact ih hb (hg.sound.isDeclared_base hc hbase hb) habove

theorem inheritsFrom_of_isAssignable (hd : g.table.get? type = some d) (hany : d.isAny = false)
    (h : g.isAssignable type concrete = true) :
    g.inheritsFrom type (g.table.slots.size + 1) concrete = true := by
  unfold isAssignable at h
  rw [hd, Option.any_some, hany, Bool.false_or] at h
  exact h

end TypeGraph

/-! ## Values of a type -/

/-- What a slot asks of a value besides its shape: null stands only where the type accepts it, and
references are those that `isReference` speaks of. -/
def Descriptor.Accepts (isReference : LazyRef → TypeId → Prop) (d : Descriptor) : Value → Prop
  | .null => d.nullable = true
  | .reference r => isReference r d.id
  | _ => True

instance (isReference : LazyRef → TypeId → Prop) [∀ r type, Decidable (isReference r type)]
    (d : Descriptor) (v : Value) : Decidable (d.Accepts isReference v) :=
  match v with
  | .null => inferInstanceAs (Decidable (d.nullable = true))
  | .reference r => inferInstanceAs (Decidable (isReference r d.id))
  | .bool _ | .int _ | .float _ | .string _ | .dateTime _ | .enum _ | .list _ | .map _ | .object _
  | .group .. => isTrue trivial

/-- A value of the type, down to its last part. -/
def StaticType.Holds (g : TypeGraph) (isReference : LazyRef → TypeId → Prop)
    (isObject : ObjectId → TypeId → Prop) : StaticType → Value → Prop
  | .unknown, _ => True
  | .mapped type, v => Value.Conforms g (Descriptor.Accepts isReference) isObject type v
  | .group key element, .group k items =>
      (k = .null ∨ key.Holds g isReference isObject k) ∧
        ∀ v ∈ items, Value.Conforms g (Descriptor.Accepts isReference) isObject element v
  | .group _ _, _ => False

/-- No value, or one of the type. -/
def StaticType.Allows (g : TypeGraph) (isReference : LazyRef → TypeId → Prop)
    (isObject : ObjectId → TypeId → Prop) (t : StaticType) (v : Value) : Prop :=
  v = .null ∨ t.Holds g isReference isObject v

/-- The values of the variables are as the scope says. -/
def TypeScope.Fits (g : TypeGraph) (isReference : LazyRef → TypeId → Prop)
    (isObject : ObjectId → TypeId → Prop) (scope : TypeScope) (env : Env) : Prop :=
  List.Forall₂ (fun binding value =>
    binding.1 = value.1 ∧ binding.2.Allows g isReference isObject value.2) scope env

/-- A heap whose objects are what their types say, over a graph where overriding keeps types and
properties are read from their fields. What became of a reference conforms to the slot it is in. -/
structure Heap.Typed (h : Heap) (g : TypeGraph) (isReference : LazyRef → TypeId → Prop)
    (isObject : ObjectId → TypeId → Prop) : Prop where
  arises : g.Arises
  keepsTypes : g.OverridesKeep fun p q => q.type = p.type
  direct : g.HasNoGetters
  populated : h.Populates g (Descriptor.Accepts isReference) isObject
  resolved : ∀ r type v, isReference r type → h.state r = .resolved v →
    Value.Conforms g (Descriptor.Accepts isReference) isObject type v

variable {g : TypeGraph} {h : Heap} {isReference : LazyRef → TypeId → Prop}
  {isObject : ObjectId → TypeId → Prop} {t t' : StaticType} {v u : Value} {name name' : String}

theorem Property.read_eq {p : Property} (hdirect : p.readsField = none) (h : Heap) (id : ObjectId) :
    p.read h id = h.field id p.name := by
  unfold read getFrom Heap.field
  rw [hdirect]
  rfl

namespace StaticType

/-- A shape whose members are properties grants the readable ones. -/
private theorem exists_of_granted {d : Descriptor}
    (hgranted : (match d.property? name with
      | none => mismatch (.noMember d.name name)
      | some p =>
        if p.isReadable then .ok (p.name, .mapped p.type) else mismatch (.unreadable d.name p.name)) =
      Except.ok (name', t')) :
    ∃ p, d.property? name = some p ∧ p.isReadable = true ∧ name' = p.name ∧ t' = .mapped p.type := by
  split at hgranted
  · cases hgranted
  · rename_i p hp
    by_cases hreadable : p.isReadable = true
    · rw [if_pos hreadable] at hgranted
      cases hgranted
      exact ⟨p, hp, hreadable, rfl, rfl⟩
    · rw [if_neg hreadable] at hgranted
      cases hgranted

/-- The three ways a member of a mapped type is accepted. -/
theorem member_mapped {type : TypeId} (hmember : (mapped type).member g name = .ok (name', t')) :
    ∃ d, g.table.get? type = some d ∧
      ((d.isAny = true ∨ ∃ key value, d.shape = .dictionary key value) ∧ name' = name ∧ t' = .unknown ∨
        ∃ p, d.property? name = some p ∧ p.isReadable = true ∧ name' = p.name ∧ t' = .mapped p.type) := by
  unfold member at hmember
  obtain ⟨d, hget, hshape⟩ := Expr.exists_of_bind_eq_ok hmember
  refine ⟨d, TypeGraph.get_eq_ok.mp hget, ?_⟩
  -- all shapes but two go by the property
  split at hshape
  · rename_i hany
    cases hshape
    refine Or.inl ⟨Or.inl ?_, rfl, rfl⟩
    unfold Descriptor.isAny
    rw [hany]
  · rename_i key value hdictionary
    cases hshape
    exact Or.inl ⟨Or.inr ⟨key, value, hdictionary⟩, rfl, rfl⟩
  · exact Or.inr (exists_of_granted hshape)

/-- A readable property is accepted, since only types with members have properties. -/
theorem member_of_property? {type : TypeId} {d : Descriptor} {p : Property} (hd : g.table.get? type = some d)
    (hp : d.property? name = some p) (hreadable : p.isReadable = true) :
    (mapped type).member g name = .ok (p.name, .mapped p.type) := by
  obtain ⟨-, -, hentry, hany⟩ := Descriptor.noScalar_of_property? hp
  unfold member
  dsimp only
  rw [TypeGraph.get_eq_ok.mpr hd]
  dsimp only [bind, Except.bind]
  split
  · rename_i hshape
    unfold Descriptor.isAny at hany
    rw [hshape] at hany
    cases hany
  · rename_i hshape
    unfold Descriptor.entrySlot? at hentry
    rw [hshape] at hentry
    cases hentry
  · rw [hp]
    exact if_pos hreadable

theorem member_group {key : StaticType} {element : TypeId}
    (hmember : (group key element).member g name = .ok (name', t')) :
    Text.sameIgnoringCase name "key" = true ∧ name' = "Key" ∧ t' = key := by
  unfold member at hmember
  dsimp only at hmember
  by_cases hname : Text.sameIgnoringCase name "key" = true
  · rw [if_pos hname] at hmember
    cases hmember
    exact ⟨hname, rfl, rfl⟩
  · rw [if_neg hname] at hmember
    cases hmember

/-- The two ways the elements of a mapped type are accepted. -/
theorem element_mapped {type : TypeId} {a : Aggregate}
    (helement : (mapped type).element g a = .ok t') :
    ∃ d, g.table.get? type = some d ∧ (d.isAny = true ∧ t' = .unknown ∨
      ∃ element, d.shape = .collection element ∧ t' = .mapped element) := by
  unfold element at helement
  obtain ⟨d, hget, hshape⟩ := Expr.exists_of_bind_eq_ok helement
  refine ⟨d, TypeGraph.get_eq_ok.mp hget, ?_⟩
  split at hshape
  · rename_i hany
    cases hshape
    refine Or.inl ⟨?_, rfl⟩
    unfold Descriptor.isAny
    rw [hany]
  · rename_i element hcollection
    cases hshape
    exact Or.inr ⟨element, hcollection, rfl⟩
  · cases hshape

theorem Holds.exists_group {key : StaticType} {element : TypeId}
    (hv : (group key element).Holds g isReference isObject v) :
    ∃ k items, v = .group k items ∧ (k = .null ∨ key.Holds g isReference isObject k) ∧
      ∀ x ∈ items, Value.Conforms g (Descriptor.Accepts isReference) isObject element x := by
  cases v with
  | group k items => exact ⟨k, items, rfl, hv.1, hv.2⟩
  | _ => exact hv.elim

end StaticType

/-! ## Members and elements -/

namespace Value

/-- A value in a slot of a type with a property is null, an object or a reference. -/
theorem Conforms.of_property? {type : TypeId} {d : Descriptor} {p : Property}
    {admits : Descriptor → Value → Prop} (hv : Conforms g admits isObject type v)
    (hd : g.table.get? type = some d) (hp : d.property? name = some p) :
    v = .null ∨
      (∃ id concrete, v = .object id ∧ isObject id concrete ∧ g.isAssignable type concrete = true) ∨
      ∃ r, v = .reference r ∧ admits d v := by
  obtain ⟨hscalar, hitem, hentry, hany⟩ := Descriptor.noScalar_of_property? hp
  cases hv with
  | null => exact Or.inl rfl
  | scalar hd' hscalar' =>
      rw [hd] at hd'
      cases hd'
      rw [hscalar v] at hscalar'
      cases hscalar'
  | list hd' hslot =>
      rw [hd] at hd'
      cases hd'
      rw [hitem] at hslot
      cases hslot
  | map hd' hslot =>
      rw [hd] at hd'
      cases hd'
      rw [hentry] at hslot
      cases hslot
  | group hd' hslot =>
      rw [hd] at hd'
      cases hd'
      rw [hany] at hslot
      cases hslot
  | object _ hobject hfits => exact Or.inr (Or.inl ⟨_, _, rfl, hobject, hfits⟩)
  | reference hd' _ _ hadmits =>
      rw [hd] at hd'
      cases hd'
      exact Or.inr (Or.inr ⟨_, rfl, hadmits⟩)

end Value

namespace Value

variable {links : Nat}

theorem memberVia_null (g : TypeGraph) (h : Heap) (name : String) (links : Nat) :
    memberVia g h name links .null = .ok .null := by
  cases links <;> rfl

theorem memberVia_object {id : ObjectId} {c : Descriptor} {q : Property}
    (hget : g.get (h.typeOf id) = .ok c) (hq : c.property? name = some q) :
    memberVia g h name links (.object id) = .ok (q.read h id) := by
  unfold memberVia
  rw [hget]
  dsimp only [bind, Except.bind]
  rw [hq]

theorem memberVia_undeclared {id : ObjectId} {c : Descriptor}
    (hget : g.get (h.typeOf id) = .ok c) (hnone : c.property? name = none) :
    memberVia g h name links (.object id) = .ok (h.field id name) := by
  unfold memberVia
  rw [hget]
  dsimp only [bind, Except.bind]
  rw [hnone]

theorem memberVia_key {key : Value} {items : List Value}
    (hname : Text.sameIgnoringCase name "key" = true) :
    memberVia g h name links (.group key items) = .ok key := by
  unfold memberVia
  exact if_pos hname

/-- A member of a reference is one of the value that the reference was resolved to. -/
theorem exists_of_memberVia_reference {r : LazyRef}
    (hu : memberVia g h name links (.reference r) = .ok u) :
    ∃ less w, less < links ∧ h.state r = .resolved w ∧ memberVia g h name less w = .ok u := by
  cases links with
  | zero => cases hu
  | succ less =>
      unfold memberVia at hu
      cases hstate : h.state r with
      | resolved w =>
          rw [hstate] at hu
          exact ⟨less, w, Nat.lt_succ_self _, rfl, hu⟩
      | _ =>
          rw [hstate] at hu
          cases hu

end Value

namespace Heap.Typed

/-- An object is an instance of a type that is known and has members. -/
theorem exists_type (ht : h.Typed g isReference isObject) {id : ObjectId} {concrete : TypeId}
    (hobject : isObject id concrete) :
    ∃ c, g.get (h.typeOf id) = .ok c ∧ g.table.get? concrete = some c ∧ c.isDeclared = true := by
  obtain ⟨c, m, hc, hm, _⟩ := ht.populated.instantiable id concrete hobject
  refine ⟨c, ?_, hc, ?_⟩
  · rw [ht.populated.type id concrete hobject]
    exact TypeGraph.get_eq_ok.mpr hc
  · unfold Descriptor.members? at hm
    unfold Descriptor.isDeclared
    cases hshape : c.shape with
    | structured members => rfl
    | resource members address => rfl
    | _ => simp [hshape] at hm

/-- The property of an object is that of its own type, with the type that is declared above. -/
theorem exists_property (ht : h.Typed g isReference isObject) {id : ObjectId} {type concrete : TypeId}
    {d : Descriptor} {p : Property} (hobject : isObject id concrete)
    (hfits : g.isAssignable type concrete = true) (hd : g.table.get? type = some d)
    (hp : d.property? name = some p) :
    ∃ c q, g.get (h.typeOf id) = .ok c ∧ g.table.get? concrete = some c ∧ c.property? name = some q ∧
      q.type = p.type := by
  obtain ⟨c, hget, hc, _⟩ := ht.exists_type hobject
  obtain ⟨_, _, _, hany⟩ := Descriptor.noScalar_of_property? hp
  obtain ⟨q, hq, htype⟩ := ht.arises.exists_inherited ht.keepsTypes (fun _ => rfl)
    (fun p q r hpq hqr => hqr.trans hpq) hd hc (TypeGraph.inheritsFrom_of_isAssignable hd hany hfits) hp
  exact ⟨c, q, hget, hc, hq, htype⟩

/-- What a property of an object reads conforms to the property's type. -/
theorem allows_read (ht : h.Typed g isReference isObject) {id : ObjectId} {concrete : TypeId}
    {c : Descriptor} {q : Property} (hobject : isObject id concrete)
    (hc : g.table.get? concrete = some c) (hq : q ∈ c.properties) :
    (StaticType.mapped q.type).Allows g isReference isObject (q.read h id) := by
  rw [Property.read_eq (ht.direct c (TypeGraph.mem_types hc) q hq)]
  exact ht.populated.property id concrete c q hobject hc hq

theorem allows_memberVia (ht : h.Typed g isReference isObject) {type : TypeId} {d : Descriptor}
    {p : Property} (hd : g.table.get? type = some d) (hp : d.property? name = some p) {links : Nat}
    (hv : (StaticType.mapped type).Allows g isReference isObject v)
    (hu : v.memberVia g h name links = .ok u) :
    (StaticType.mapped p.type).Allows g isReference isObject u := by
  induction links using Nat.strongRecOn generalizing v with
  | ind links ih =>
      rcases hv with rfl | hconforms
      · rw [Value.memberVia_null] at hu
        cases hu
        exact Or.inl rfl
      rcases hconforms.of_property? hd hp with rfl | ⟨id, concrete, rfl, hobject, hfits⟩ | ⟨r, rfl, hr⟩
      · rw [Value.memberVia_null] at hu
        cases hu
        exact Or.inl rfl
      · obtain ⟨c, q, hget, hc, hq, htype⟩ := ht.exists_property hobject hfits hd hp
        rw [Value.memberVia_object hget hq] at hu
        cases hu
        exact htype ▸ ht.allows_read hobject hc (Descriptor.mem_of_property? hq)
      · -- the reference is followed, with one link less to go
        obtain ⟨less, w, hless, hstate, hw⟩ := Value.exists_of_memberVia_reference hu
        have hr' : isReference r type := ht.arises.sound.id type d hd ▸ hr
        exact ih less hless (Or.inr (ht.resolved r type w hr' hstate)) hw

/-- **A member of a value of a type has the type of the member.** -/
theorem allows_member (ht : h.Typed g isReference isObject)
    (hmember : t.member g name = .ok (name', t')) (hv : t.Allows g isReference isObject v)
    (hu : v.member g h name = .ok u) : t'.Allows g isReference isObject u := by
  cases t with
  | unknown =>
      cases hmember
      exact Or.inr trivial
  | group key element =>
      obtain ⟨hname, -, rfl⟩ := StaticType.member_group hmember
      rcases hv with rfl | hgroup
      · cases hu
        exact Or.inl rfl
      · obtain ⟨k, items, rfl, hk, _⟩ := hgroup.exists_group
        rw [Value.member, Value.memberVia_key hname] at hu
        cases hu
        exact hk
  | mapped type =>
      obtain ⟨d, hd, ⟨_, -, rfl⟩ | ⟨p, hp, -, -, rfl⟩⟩ := StaticType.member_mapped hmember
      · exact Or.inr trivial
      · exact ht.allows_memberVia hd hp hv hu

/-- **The elements of a value of a type have the type of elements.** -/
theorem allows_element {a : Aggregate} {items : List Value} (helement : t.element g a = .ok t')
    (hv : t.Allows g isReference isObject v) (hitems : v.elements a = .ok items) :
    ∀ x ∈ items, t'.Allows g isReference isObject x := by
  have hnone : v = .null → ∀ x ∈ items, t'.Allows g isReference isObject x := by
    rintro rfl x hx
    cases hitems
    cases hx
  cases t with
  | unknown =>
      cases helement
      exact fun _ _ => Or.inr trivial
  | group key element =>
      cases helement
      rcases hv with hnull | hgroup
      · exact hnone hnull
      · obtain ⟨k, rows, rfl, _, hrows⟩ := hgroup.exists_group
        cases hitems
        exact fun x hx => Or.inr (hrows x hx)
  | mapped type =>
      obtain ⟨d, hd, ⟨_, rfl⟩ | ⟨element, hshape, rfl⟩⟩ := StaticType.element_mapped helement
      · exact fun _ _ => Or.inr trivial
      · rcases hv with hnull | hconforms
        · exact hnone hnull
        -- only lists have elements, and a group is of no collection type
        cases hconforms with
        | null => exact hnone rfl
        | list hd' hslot hconforming =>
            rw [hd] at hd'
            cases hd'
            unfold Descriptor.itemSlot? at hslot
            rw [hshape] at hslot
            cases hslot
            cases hitems
            exact fun x hx => Or.inr (hconforming x hx)
        | group hd' hslot =>
            rw [hd] at hd'
            cases hd'
            rw [Descriptor.shape_of_isAny hslot] at hshape
            cases hshape
        | scalar hd' hscalar =>
            rw [hd] at hd'
            cases hd'
            unfold Descriptor.hasScalar at hscalar
            rw [hshape] at hscalar
            cases hscalar
        | map => cases hitems
        | object => cases hitems
        | reference => cases hitems

end Heap.Typed

/-! ## What is compiled -/

namespace Expr

-- the equations of the check are derived here, once for all lemmas below
attribute [local simp] compile compileList compileFields

variable {scope : TypeScope} {e' : Expr}

theorem compile_param {x : String} (hc : compile g scope (.param x) = .ok (e', t)) :
    e' = .param x ∧ scope.lookup x = some t := by
  unfold compile at hc
  cases hx : scope.lookup x with
  | none =>
      rw [hx] at hc
      cases hc
  | some s =>
      rw [hx] at hc
      cases hc
      exact ⟨rfl, rfl⟩

theorem compile_member {target : Expr} (hc : compile g scope (.member target name) = .ok (e', t)) :
    ∃ target' s name', compile g scope target = .ok (target', s) ∧ s.member g name = .ok (name', t) ∧
      e' = .member target' name' := by
  unfold compile at hc
  obtain ⟨⟨target', s⟩, htarget, hc⟩ := exists_of_bind_eq_ok hc
  obtain ⟨⟨name', s'⟩, hmember, hc⟩ := exists_of_bind_eq_ok hc
  cases hc
  exact ⟨target', s, name', htarget, hmember, rfl⟩

theorem compile_unary {op : UnaryOp} {operand : Expr}
    (hc : compile g scope (.unary op operand) = .ok (e', t)) :
    ∃ operand' s, compile g scope operand = .ok (operand', s) ∧ e' = .unary op operand' ∧
      t = .unknown := by
  unfold compile at hc
  obtain ⟨⟨operand', s⟩, hoperand, hc⟩ := exists_of_bind_eq_ok hc
  cases hc
  exact ⟨operand', s, hoperand, rfl, rfl⟩

theorem compile_binary {op : BinaryOp} {left right : Expr}
    (hc : compile g scope (.binary op left right) = .ok (e', t)) :
    ∃ left' s right' s', compile g scope left = .ok (left', s) ∧
      compile g scope right = .ok (right', s') ∧ e' = .binary op left' right' ∧ t = .unknown := by
  unfold compile at hc
  obtain ⟨⟨left', s⟩, hleft, hc⟩ := exists_of_bind_eq_ok hc
  obtain ⟨⟨right', s'⟩, hright, hc⟩ := exists_of_bind_eq_ok hc
  cases hc
  exact ⟨left', s, right', s', hleft, hright, rfl, rfl⟩

theorem compile_call {f : TextFunction} {arguments : List Expr}
    (hc : compile g scope (.call f arguments) = .ok (e', t)) :
    ∃ arguments', compileList g scope arguments = .ok arguments' ∧ e' = .call f arguments' ∧
      t = .unknown := by
  unfold compile at hc
  obtain ⟨arguments', harguments, hc⟩ := exists_of_bind_eq_ok hc
  cases hc
  exact ⟨arguments', harguments, rfl, rfl⟩

theorem compile_aggregate {target : Expr} {a : Aggregate}
    (hc : compile g scope (.aggregate target a) = .ok (e', t)) :
    ∃ target' s element, compile g scope target = .ok (target', s) ∧ s.element g a = .ok element ∧
      e' = .aggregate target' a ∧ t = .ofAggregate element a := by
  unfold compile at hc
  obtain ⟨⟨target', s⟩, htarget, hc⟩ := exists_of_bind_eq_ok hc
  obtain ⟨element, helement, hc⟩ := exists_of_bind_eq_ok hc
  cases hc
  exact ⟨target', s, element, htarget, helement, rfl, rfl⟩

theorem compile_aggregateOf {target body : Expr} {a : Aggregate} {x : String}
    (hc : compile g scope (.aggregateOf target a x body) = .ok (e', t)) :
    ∃ target' s element body' s', compile g scope target = .ok (target', s) ∧
      s.element g a = .ok element ∧ compile g ((x, element) :: scope) body = .ok (body', s') ∧
      e' = .aggregateOf target' a x body' ∧ t = .unknown := by
  unfold compile at hc
  obtain ⟨⟨target', s⟩, htarget, hc⟩ := exists_of_bind_eq_ok hc
  obtain ⟨element, helement, hc⟩ := exists_of_bind_eq_ok hc
  obtain ⟨⟨body', s'⟩, hbody, hc⟩ := exists_of_bind_eq_ok hc
  cases hc
  exact ⟨target', s, element, body', s', htarget, helement, hbody, rfl, rfl⟩

theorem compile_row {fields : List (String × Expr)}
    (hc : compile g scope (.row fields) = .ok (e', t)) :
    ∃ fields', compileFields g scope fields = .ok fields' ∧ e' = .row fields' ∧ t = .unknown := by
  unfold compile at hc
  obtain ⟨fields', hfields, hc⟩ := exists_of_bind_eq_ok hc
  cases hc
  exact ⟨fields', hfields, rfl, rfl⟩

theorem compileList_cons {e : Expr} {rest es : List Expr}
    (hc : compileList g scope (e :: rest) = .ok es) :
    ∃ e' s rest', compile g scope e = .ok (e', s) ∧ compileList g scope rest = .ok rest' ∧
      es = e' :: rest' := by
  unfold compileList at hc
  obtain ⟨⟨e', s⟩, he, hc⟩ := exists_of_bind_eq_ok hc
  obtain ⟨rest', hrest, hc⟩ := exists_of_bind_eq_ok hc
  cases hc
  exact ⟨e', s, rest', he, hrest, rfl⟩

theorem compileFields_cons {e : Expr} {rest fields : List (String × Expr)}
    (hc : compileFields g scope ((name, e) :: rest) = .ok fields) :
    ∃ e' s rest', compile g scope e = .ok (e', s) ∧ compileFields g scope rest = .ok rest' ∧
      fields = (name, e') :: rest' := by
  unfold compileFields at hc
  obtain ⟨⟨e', s⟩, he, hc⟩ := exists_of_bind_eq_ok hc
  obtain ⟨rest', hrest, hc⟩ := exists_of_bind_eq_ok hc
  cases hc
  exact ⟨e', s, rest', he, hrest, rfl⟩

end Expr

/-! ## Results -/

namespace TypeScope

variable {scope : TypeScope} {env : Env}

theorem Fits.lookup (hfits : scope.Fits g isReference isObject env) {x : String}
    (hx : scope.lookup x = some t) :
    ∃ v, env.lookup x = some v ∧ t.Allows g isReference isObject v := by
  induction hfits with
  | nil => cases hx
  | @cons binding value scope env hfirst _ ih =>
      obtain ⟨y, s⟩ := binding
      obtain ⟨z, w⟩ := value
      obtain ⟨hyz, hw⟩ := hfirst
      dsimp only at hyz hw
      subst hyz
      rw [List.lookup_cons] at hx ⊢
      cases hxy : x == y with
      | true =>
          rw [hxy] at hx
          cases hx
          exact ⟨w, rfl, hw⟩
      | false =>
          rw [hxy] at hx
          exact ih hx

theorem Fits.cons (hfits : scope.Fits g isReference isObject env) (x : String)
    (hv : t.Allows g isReference isObject v) :
    Fits g isReference isObject ((x, t) :: scope) ((x, v) :: env) :=
  List.Forall₂.cons ⟨rfl, hv⟩ hfits

end TypeScope

namespace Value

variable {items : List Value} {best : Value}

theorem better_mem {wanted : Ordering} (hu : better wanted best v = .ok u) : u = best ∨ u = v := by
  unfold better at hu
  cases horder : v.compare best with
  | none =>
      rw [horder] at hu
      cases hu
  | some order =>
      rw [horder] at hu
      dsimp only at hu
      by_cases hwanted : order = wanted
      · rw [if_pos hwanted] at hu
        exact Or.inr (Except.ok.inj hu).symm
      · rw [if_neg hwanted] at hu
        exact Or.inl (Except.ok.inj hu).symm

theorem foldlM_better_mem {wanted : Ordering} (hu : items.foldlM (better wanted) best = .ok u) :
    u = best ∨ u ∈ items := by
  induction items generalizing best with
  | nil =>
      cases hu
      exact Or.inl rfl
  | cons v rest ih =>
      rw [List.foldlM_cons] at hu
      obtain ⟨next, hnext, hrest⟩ := Expr.exists_of_bind_eq_ok hu
      rcases ih hrest with rfl | hmem
      · rcases better_mem hnext with rfl | rfl
        · exact Or.inl rfl
        · exact Or.inr List.mem_cons_self
      · exact Or.inr (List.mem_cons_of_mem _ hmem)

/-- An extreme is one of the values. -/
theorem extreme_mem {wanted : Ordering} (hu : extreme wanted items = .ok u) : u = .null ∨ u ∈ items := by
  unfold extreme at hu
  cases hfilter : items.filter (!·.isNull) with
  | nil =>
      rw [hfilter] at hu
      cases hu
      exact Or.inl rfl
  | cons first rest =>
      rw [hfilter] at hu
      have hmem : u ∈ items.filter (!·.isNull) := by
        rw [hfilter]
        rcases foldlM_better_mem hu with rfl | hrest
        · exact List.mem_cons_self
        · exact List.mem_cons_of_mem _ hrest
      exact Or.inr (List.mem_filter.mp hmem).1

theorem mapAll_ok (items : List Value) : mapAll .ok items = .ok items := by
  induction items with
  | nil => rfl
  | cons v rest ih =>
      unfold mapAll
      rw [ih]
      rfl

end Value

namespace Heap.Typed

theorem allows_aggregate {a : Aggregate} {items : List Value}
    (hitems : ∀ x ∈ items, t.Allows g isReference isObject x) (hu : Value.aggregate items a = .ok u) :
    (StaticType.ofAggregate t a).Allows g isReference isObject u := by
  have hextreme : ∀ wanted, Value.extreme wanted items = .ok u → t.Allows g isReference isObject u :=
    fun wanted hu => (Value.extreme_mem hu).elim Or.inl (hitems u)
  cases a with
  | min =>
      apply hextreme .lt
      rw [← hu, Value.aggregate, Value.aggregateOf, Value.mapAll_ok]
      · rfl
      · nofun
      · nofun
  | max =>
      apply hextreme .gt
      rw [← hu, Value.aggregate, Value.aggregateOf, Value.mapAll_ok]
      · rfl
      · nofun
      · nofun
  | _ => exact Or.inr trivial

/-- **A value of a compiled expression is null or conforms to the expression's type.** -/
theorem allows_eval (ht : h.Typed g isReference isObject) : (e : Expr) → ∀ {scope : TypeScope}
    {env : Env} {e' : Expr} {t : StaticType} {v : Value}, e.compile g scope = .ok (e', t) →
      scope.Fits g isReference isObject env → e.eval g h env = .ok v →
      t.Allows g isReference isObject v
  | .param x, scope, env, e', t, v, hc, hfits, hv => by
      obtain ⟨-, hx⟩ := Expr.compile_param hc
      obtain ⟨w, hw, hallows⟩ := hfits.lookup hx
      simp only [Expr.eval, hw] at hv
      cases hv
      exact hallows
  | .constant l, scope, env, e', t, v, hc, _, _ => by
      cases hc
      exact Or.inr trivial
  | .member target name, scope, env, e', t, v, hc, hfits, hv => by
      obtain ⟨target', s, name', htarget, hmember, -⟩ := Expr.compile_member hc
      rw [Expr.eval] at hv
      obtain ⟨w, hw, hv⟩ := Expr.exists_of_bind_eq_ok hv
      exact ht.allows_member hmember (ht.allows_eval target htarget hfits hw) hv
  | .unary op operand, scope, env, e', t, v, hc, _, _ => by
      obtain ⟨_, _, -, -, rfl⟩ := Expr.compile_unary hc
      exact Or.inr trivial
  | .binary op left right, scope, env, e', t, v, hc, _, _ => by
      obtain ⟨_, _, _, _, -, -, -, rfl⟩ := Expr.compile_binary hc
      exact Or.inr trivial
  | .call f arguments, scope, env, e', t, v, hc, _, _ => by
      obtain ⟨_, -, -, rfl⟩ := Expr.compile_call hc
      exact Or.inr trivial
  | .aggregate target a, scope, env, e', t, v, hc, hfits, hv => by
      obtain ⟨target', s, element, htarget, helement, -, rfl⟩ := Expr.compile_aggregate hc
      rw [Expr.eval] at hv
      obtain ⟨w, hw, hv⟩ := Expr.exists_of_bind_eq_ok hv
      obtain ⟨items, hitems, hv⟩ := Expr.exists_of_bind_eq_ok hv
      exact allows_aggregate
        (allows_element helement (ht.allows_eval target htarget hfits hw) hitems) hv
  | .aggregateOf target a x body, scope, env, e', t, v, hc, _, _ => by
      obtain ⟨_, _, _, _, _, -, -, -, -, rfl⟩ := Expr.compile_aggregateOf hc
      exact Or.inr trivial
  | .row fields, scope, env, e', t, v, hc, _, _ => by
      obtain ⟨_, -, -, rfl⟩ := Expr.compile_row hc
      exact Or.inr trivial

end Heap.Typed

end ResourceQuery
