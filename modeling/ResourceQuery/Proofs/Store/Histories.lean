import ResourceQuery.Proofs.Type.Resolution
import ResourceQuery.Proofs.Value.Equivalence
import ResourceQuery.Store.Repository

set_option autoImplicit false

/-! # Repositories under calls

A repository starts empty, and objects are put in, looked up, removed and listed in any order, each call on
the heap as it is then. What is in a collection afterwards can be told from the calls alone: an object is
there if it was put in under an id, and no later call put another in under that id or removed the id
(`Repository.IsCurrent`). `after_isMapOf` says so, and that the repository answers and changes like a map
that keeps the order of insertion.

Ids are compared by loose equality, each read through the type of the object it belongs to, and at the time
of a call. This is a map only as long as ids stay what they are, and for ids without floats
(`Repository.IdsLast`): then loose equality is an equivalence, at most one object of a collection has a
given id, and the first one found (`get?`, `insert`) and all that are found (`remove`) are the same.
-/

namespace ResourceQuery

/-- What is asked of a repository. -/
inductive RepositoryCall where
  | insert (object : ObjectId)
  | get (type : TypeId) (id : Value)
  | remove (type : TypeId) (id : Value)
  | list (type : TypeId)

namespace Repository

/-! ## Histories -/

/-- The repository after a call on a heap. A call that fails leaves it as it is. -/
def perform (g : TypeGraph) (r : Repository) (h : Heap) : RepositoryCall → Repository
  | .insert object =>
    match r.insert g h object with
    | .ok next => next
    | .error _ => r
  | .remove type id =>
    match r.remove g h type id with
    | .ok (_, next) => next
    | .error _ => r
  | .get .. | .list _ => r

/-- The type whose collection a call is about. -/
def subjectOf (h : Heap) : RepositoryCall → TypeId
  | .insert object => h.typeOf object
  | .get type _ | .remove type _ | .list type => type

/-- The repository after several calls, each with the heap it is made on, from the empty one. -/
def after (g : TypeGraph) (history : List (Heap × RepositoryCall)) : Repository :=
  history.foldl (fun r call => perform g r call.1 call.2) empty

/-- The primary id of a stored value, read through its own type. -/
def idOf (g : TypeGraph) (h : Heap) : Value → Option Value
  | .object object => ((g.table.get? (h.typeOf object)).bind Descriptor.primaryId?).map (·.read h object)
  | _ => none

/-- The instances of a type are in the collection of `base`. -/
def BelongsTo (g : TypeGraph) (type base : TypeId) : Prop :=
  ∃ d, rootOf g type = .ok (d, base)

/-- A call that puts an object in under the id `id` of a collection, or removes that id. -/
def Concerns (g : TypeGraph) (base : TypeId) (id : Value) : Heap × RepositoryCall → Prop
  | (h, .insert object) => BelongsTo g (h.typeOf object) base ∧
      ∃ own, idOf g h (.object object) = some own ∧ h.looselyEqual id own = true
  | (h, .remove type removed) => BelongsTo g type base ∧ h.looselyEqual id removed = true
  | (_, .get ..) | (_, .list _) => False

/-- The object was put into the collection of `base` under its id, and no later call concerned that
id. -/
def IsCurrent (g : TypeGraph) (history : List (Heap × RepositoryCall)) (base : TypeId)
    (object : ObjectId) (id : Value) : Prop :=
  ∃ before h later, history = before ++ (h, .insert object) :: later ∧
    BelongsTo g (h.typeOf object) base ∧ idOf g h (.object object) = some id ∧
      ∀ call ∈ later, ¬Concerns g base id call

/-- The id of an object that was put in is on the heap `h` what it was then. -/
def KeepsId (g : TypeGraph) (call : Heap × RepositoryCall) (h : Heap) : Prop :=
  match call with
  | (h₀, .insert object) => ∀ base, BelongsTo g (h₀.typeOf object) base →
      ∃ id, idOf g h₀ (.object object) = some id ∧ idOf g h (.object object) = some id ∧
        h₀.Keeps h id
  | _ => True

/-- The objects that are put in have primary ids, which stay what they are in later calls and on the heap
`h`; and neither these nor the ids that are removed hold floats. -/
structure IdsLast (g : TypeGraph) (history : List (Heap × RepositoryCall)) (h : Heap) : Prop where
  between : history.Pairwise fun earlier later => KeepsId g earlier later.1
  now : ∀ call ∈ history, KeepsId g call h
  removed : ∀ h₀ type id, (h₀, .remove type id) ∈ history → h₀.Keeps h₀ id

variable {g : TypeGraph} {h h₁ : Heap} {r : Repository} {history : List (Heap × RepositoryCall)}
  {call : Heap × RepositoryCall} {base other type : TypeId} {object : ObjectId} {id own : Value}
  {value : Value} {items : List Value}

theorem after_concat : after g (history ++ [call]) = perform g (after g history) call.1 call.2 := by
  unfold after
  rw [List.foldl_append]
  rfl

/-- The objects that are current after one more call. -/
theorem isCurrent_concat : IsCurrent g (history ++ [call]) base object id ↔
    (call.2 = .insert object ∧ BelongsTo g (call.1.typeOf object) base ∧
      idOf g call.1 (.object object) = some id) ∨
    IsCurrent g history base object id ∧ ¬Concerns g base id call := by
  constructor
  · rintro ⟨before, h, later, hsplit, hbase, hid, hlater⟩
    rcases List.eq_nil_or_concat' later with rfl | ⟨later, last, rfl⟩
    · obtain ⟨-, hlast⟩ := List.append_inj' hsplit rfl
      cases hlast
      exact Or.inl ⟨rfl, hbase, hid⟩
    · rw [← List.cons_append, ← List.append_assoc] at hsplit
      obtain ⟨hinit, hlast⟩ := List.append_inj' hsplit rfl
      cases hlast
      refine Or.inr ⟨⟨before, h, later, hinit, hbase, hid, fun c hc => ?_⟩, ?_⟩
      · exact hlater c (List.mem_append_left _ hc)
      · exact hlater call (List.mem_append_right _ List.mem_cons_self)
  · rintro (⟨hcall, hbase, hid⟩ | ⟨⟨before, h, later, rfl, hbase, hid, hlater⟩, hcall⟩)
    · exact ⟨history, call.1, [], by rw [← hcall], hbase, hid, List.forall_mem_nil _⟩
    · refine ⟨before, h, later ++ [call], by simp, hbase, hid, fun c hc => ?_⟩
      rcases List.mem_append.mp hc with hold | hlast
      · exact hlater c hold
      · exact List.mem_singleton.mp hlast ▸ hcall

theorem not_isCurrent_nil : ¬IsCurrent g [] base object id := by
  rintro ⟨before, h, later, hsplit, -⟩
  exact List.append_ne_nil_of_right_ne_nil before (List.cons_ne_nil _ later) hsplit.symm

theorem IdsLast.init (hids : IdsLast g (history ++ [call]) h) : IdsLast g history h where
  between := (List.pairwise_append.mp hids.between).1
  now := fun c hc => hids.now c (List.mem_append_left _ hc)
  removed := fun h₀ type id hmem => hids.removed h₀ type id (List.mem_append_left _ hmem)

/-- The ids lasted up to the last call. -/
theorem IdsLast.atLast (hids : IdsLast g (history ++ [call]) h) : IdsLast g history call.1 where
  between := hids.init.between
  now := fun c hc =>
    (List.pairwise_append.mp hids.between).2.2 c hc call (List.mem_singleton_self _)
  removed := hids.init.removed

/-- The ids lasted up to the heap of the last call, that call included. -/
theorem IdsLast.toLast (hids : IdsLast g (history ++ [call]) h) :
    IdsLast g (history ++ [call]) call.1 where
  between := hids.between
  now := fun c hc => by
    rcases List.mem_append.mp hc with hold | hlast
    · exact hids.atLast.now c hold
    · obtain rfl := List.mem_singleton.mp hlast
      have hkeeps := hids.now c hc
      obtain ⟨h₀, _ | _ | _ | _⟩ := c
      · intro base hbase
        obtain ⟨own, hown, -, hlasts⟩ := hkeeps base hbase
        exact ⟨own, hown, hown, hlasts.left⟩
      all_goals trivial
  removed := hids.removed

/-- The id of a current object is its id now. -/
theorem IsCurrent.idOf_eq (hcurrent : IsCurrent g history base object id) (hids : IdsLast g history h) :
    idOf g h (.object object) = some id ∧ h.Keeps h id := by
  obtain ⟨before, h₀, later, rfl, hbase, hid, -⟩ := hcurrent
  have hmem : (h₀, RepositoryCall.insert object) ∈ before ++ (h₀, .insert object) :: later :=
    List.mem_append_right _ List.mem_cons_self
  obtain ⟨own, hown, hnow, hkeeps⟩ := hids.now _ hmem base hbase
  have hsame : own = id := Option.some.inj (hown.symm.trans hid)
  exact hsame ▸ ⟨hnow, hkeeps.right⟩

/-- From the last call on, the id of a current object is the same. -/
theorem IsCurrent.keeps (hcurrent : IsCurrent g history base object id)
    (hids : IdsLast g history h) (hids₁ : IdsLast g history h₁) : h₁.Keeps h id := by
  obtain ⟨before, h₀, later, rfl, hbase, hid, -⟩ := hcurrent
  have hmem : (h₀, RepositoryCall.insert object) ∈ before ++ (h₀, .insert object) :: later :=
    List.mem_append_right _ List.mem_cons_self
  obtain ⟨own, hown, -, hkeeps⟩ := hids.now _ hmem base hbase
  obtain ⟨own₁, hown₁, -, hkeeps₁⟩ := hids₁.now _ hmem base hbase
  have hsame : own = id := Option.some.inj (hown.symm.trans hid)
  have hsame₁ : own₁ = id := Option.some.inj (hown₁.symm.trans hid)
  exact (hsame₁ ▸ hkeeps₁).symm.trans (hsame ▸ hkeeps)

/-! ## One collection -/

theorem hasId_eq : hasId g h id value = (idOf g h value).any (h.looselyEqual · id) := by
  cases value with
  | object object =>
      simp only [hasId, idOf]
      cases (g.table.get? (h.typeOf object)).bind Descriptor.primaryId? <;> rfl
  | _ => rfl

theorem hasId_of_idOf_eq (hown : idOf g h value = some own) :
    hasId g h id value = h.looselyEqual own id := by
  rw [hasId_eq, hown]
  rfl

/-- The values have primary ids that are not loosely equal. -/
def HaveDistinctIds (g : TypeGraph) (h : Heap) (items : List Value) : Prop :=
  items.Pairwise fun a b =>
    ∀ u v, idOf g h a = some u → idOf g h b = some v → h.looselyEqual u v = false

/-- In a list where at most one value has a property, that value stands between others that do not have
it; or no value has it. -/
theorem exists_place {p : Value → Bool} (hp : items.Pairwise fun a b => p a = true → p b = false) :
    (∃ front old back, items = front ++ old :: back ∧ p old = true ∧
      ∀ a ∈ front ++ back, p a = false) ∨ ∀ a ∈ items, p a = false := by
  by_cases hsome : ∃ old ∈ items, p old = true
  · obtain ⟨old, hmem, hold⟩ := hsome
    obtain ⟨front, back, rfl⟩ := List.append_of_mem hmem
    obtain ⟨-, hback, hfront⟩ := List.pairwise_append.mp hp
    refine Or.inl ⟨front, old, back, rfl, hold, fun a ha => ?_⟩
    rcases List.mem_append.mp ha with ha | ha
    · by_contra hpa
      have hnot := hfront a ha old List.mem_cons_self (Bool.not_eq_false _ ▸ hpa)
      rw [hold] at hnot
      cases hnot
    · exact (List.pairwise_cons.mp hback).1 a ha hold
  · refine Or.inr fun a ha => ?_
    rw [← Bool.not_eq_true]
    exact fun hpa => hsome ⟨a, ha, hpa⟩

/-- Where at most one value has a property, the first one found is the one that has it. -/
theorem find?_of_place {p : Value → Bool} (hp : items.Pairwise fun a b => p a = true → p b = false)
    (hmem : value ∈ items) (hvalue : p value = true) : items.find? p = some value := by
  obtain ⟨front, back, rfl⟩ := List.append_of_mem hmem
  have hfront : ∀ a ∈ front, ¬p a = true := fun a ha hpa => by
    rw [(List.pairwise_append.mp hp).2.2 a ha value List.mem_cons_self hpa] at hvalue
    cases hvalue
  rw [List.find?_append, List.find?_eq_none.mpr hfront, List.find?_cons_of_pos hvalue]
  rfl

theorem replaceFirst_append {p : Value → Bool} {front back : List Value} {item old : Value}
    (hfront : ∀ a ∈ front, p a = false) (hold : p old = true) :
    replaceFirst p item (front ++ old :: back) = front ++ item :: back := by
  induction front with
  | nil => exact if_pos hold
  | cons first rest ih =>
      have hfirst := hfront first List.mem_cons_self
      have hrest := ih fun a ha => hfront a (List.mem_cons_of_mem _ ha)
      simp [replaceFirst, hfirst, hrest]

theorem replaceFirst_of_forall {p : Value → Bool} {item : Value} (hnone : ∀ a ∈ items, p a = false) :
    replaceFirst p item items = items ++ [item] := by
  induction items with
  | nil => rfl
  | cons first rest ih =>
      have hfirst := hnone first List.mem_cons_self
      have hrest := ih fun a ha => hnone a (List.mem_cons_of_mem _ ha)
      simp [replaceFirst, hfirst, hrest]

/-! ### Collections apart -/

theorem lookup_putCollection (base other : TypeId) (items : List Value)
    (collections : List (TypeId × List Value)) :
    (putCollection base items collections).lookup other =
      if other = base then some items else collections.lookup other := by
  have hcons : ∀ (b : TypeId) (xs : List Value) (rest : List (TypeId × List Value)),
      ((b, xs) :: rest).lookup other = if other = b then some xs else rest.lookup other := by
    intro b xs rest
    by_cases h : other = b
    · simp [h]
    · simp [List.lookup_cons, h, beq_eq_false_iff_ne.mpr h]
  induction collections with
  | nil => exact hcons base items []
  | cons first rest ih =>
      obtain ⟨b, old⟩ := first
      by_cases hb : b = base
      · rw [putCollection, if_pos hb, hcons, hcons, hb]
        split <;> rfl
      · rw [putCollection, if_neg hb, hcons, hcons, ih]
        by_cases ho : other = base
        · rw [if_pos ho, if_pos ho, if_neg fun hob => hb (hob.symm.trans ho)]
        · rw [if_neg ho, if_neg ho]

theorem collection_setCollection_self : (r.setCollection base items).collection base = items := by
  simp [setCollection, collection, lookup_putCollection]

theorem collection_setCollection_of_ne (hne : other ≠ base) :
    (r.setCollection base items).collection other = r.collection other := by
  simp [setCollection, collection, lookup_putCollection, hne]

theorem BelongsTo.eq (hbase : BelongsTo g type base) (hother : BelongsTo g type other) :
    base = other := by
  obtain ⟨d, hd⟩ := hbase
  obtain ⟨d', hd'⟩ := hother
  rw [hd] at hd'
  cases hd'
  rfl

theorem get?_of_rootOf {d : Descriptor} (hroot : rootOf g type = .ok (d, base)) :
    g.table.get? type = some d := by
  unfold rootOf TypeGraph.get at hroot
  cases hget : g.table.get? type with
  | none => simp [hget, bind, Except.bind] at hroot
  | some found =>
      cases haddress : found.requireResource with
      | error e => simp [hget, haddress, bind, Except.bind] at hroot
      | ok address =>
          simp only [hget, haddress, bind, Except.bind, Except.ok.injEq, Prod.mk.injEq] at hroot
          rw [hroot.1]

/-- Putting an object in changes the collection that it belongs to. -/
theorem insert_eq (hbase : BelongsTo g (h.typeOf object) base)
    (hown : idOf g h (.object object) = some own) :
    r.insert g h object = .ok (r.setCollection base
      (replaceFirst (hasId g h own) (.object object) (r.collection base))) := by
  obtain ⟨d, hd⟩ := hbase
  simp only [idOf, get?_of_rootOf hd, Option.bind_some, Option.map_eq_some_iff] at hown
  obtain ⟨p, hp, rfl⟩ := hown
  simp only [insert, hd, bind, Except.bind, hp]

theorem remove_eq (hbase : BelongsTo g type base) :
    r.remove g h type id = .ok ((r.collection base).any (hasId g h id),
      r.setCollection base ((r.collection base).filter (!hasId g h id ·))) := by
  obtain ⟨d, hd⟩ := hbase
  unfold remove
  rw [hd]
  rfl

theorem get?_eq (hbase : BelongsTo g type base) :
    r.get? g h type id = .ok ((r.collection base).find? (hasId g h id)) := by
  obtain ⟨d, hd⟩ := hbase
  unfold get?
  rw [hd]
  rfl

/-- A call that does not fail is about a collection. -/
theorem perform_of_error {c : RepositoryCall} {e : Error} (h₀ : rootOf g (subjectOf h c) = .error e) :
    perform g r h c = r := by
  cases c with
  | insert object =>
      have hinsert : rootOf g (h.typeOf object) = .error e := h₀
      simp [perform, insert, hinsert, bind, Except.bind]
  | remove type id =>
      have hremove : rootOf g type = .error e := h₀
      simp [perform, remove, hremove, bind, Except.bind]
  | get type id => rfl
  | list type => rfl

/-- A call changes no collection but the one it is about. -/
theorem collection_perform_of_not {c : RepositoryCall} (hother : ¬BelongsTo g (subjectOf h c) other) :
    (perform g r h c).collection other = r.collection other := by
  cases hroot : rootOf g (subjectOf h c) with
  | error e => rw [perform_of_error hroot]
  | ok root =>
      obtain ⟨d, base⟩ := root
      have hne : other ≠ base := fun heq => hother ⟨d, heq ▸ hroot⟩
      cases c with
      | insert object =>
          have hinsert : rootOf g (h.typeOf object) = .ok (d, base) := hroot
          simp only [perform, insert, hinsert, bind, Except.bind]
          exact collection_setCollection_of_ne hne
      | remove type id =>
          have hbase : BelongsTo g type base := ⟨d, hroot⟩
          rw [perform, remove_eq hbase]
          exact collection_setCollection_of_ne hne
      | get type id => rfl
      | list type => rfl

/-! ### What one call does -/

/-- What the collection of `base` holds after a history: the objects that are current, under ids that are
not loosely equal. -/
structure IsCollection (g : TypeGraph) (history : List (Heap × RepositoryCall)) (h : Heap)
    (base : TypeId) (items : List Value) : Prop where
  distinct : HaveDistinctIds g h items
  mem : ∀ value, value ∈ items ↔
    ∃ object id, value = .object object ∧ IsCurrent g history base object id

/-- The object is current, under an id that is loosely equal to `id` now. -/
def IsUnder (g : TypeGraph) (history : List (Heap × RepositoryCall)) (h : Heap) (base : TypeId)
    (id : Value) (object : ObjectId) : Prop :=
  ∃ own, IsCurrent g history base object own ∧ h.looselyEqual own id = true

theorem IsCollection.keeps (hcollection : IsCollection g history h base items)
    (hids : IdsLast g history h) (hmem : value ∈ items) (hown : idOf g h value = some own) :
    h.Keeps h own := by
  obtain ⟨object, id, rfl, hcurrent⟩ := (hcollection.mem value).mp hmem
  obtain ⟨hid, hkeeps⟩ := hcurrent.idOf_eq hids
  exact Option.some.inj (hid.symm.trans hown) ▸ hkeeps

/-- At most one object of a collection has a given id. -/
theorem IsCollection.pairwise_hasId (hcollection : IsCollection g history h base items)
    (hids : IdsLast g history h) (hid : h.Keeps h id) :
    items.Pairwise fun a b => hasId g h id a = true → hasId g h id b = false := by
  refine hcollection.distinct.imp_of_mem fun {a b} ha hb hdistinct hida => ?_
  rw [← Bool.not_eq_true]
  intro hidb
  rw [hasId_eq, Option.any_eq_true] at hida hidb
  obtain ⟨u, hu, hau⟩ := hida
  obtain ⟨v, hv, hbv⟩ := hidb
  have hkeepsu := hcollection.keeps hids ha hu
  have hkeepsv := hcollection.keeps hids hb hv
  have huv : h.looselyEqual u v = true :=
    hkeepsu.looselyEqual_trans hid hkeepsv hau (hkeepsv.looselyEqual_symm hid hbv)
  rw [hdistinct u v hu hv] at huv
  cases huv

/-- The objects that are found under an id. -/
theorem IsCollection.hasId_iff (hcollection : IsCollection g history h base items)
    (hids : IdsLast g history h) :
    value ∈ items ∧ hasId g h id value = true ↔
      ∃ object, value = .object object ∧ IsUnder g history h base id object := by
  constructor
  · rintro ⟨hmem, hhas⟩
    obtain ⟨object, own, rfl, hcurrent⟩ := (hcollection.mem value).mp hmem
    rw [hasId_of_idOf_eq (hcurrent.idOf_eq hids).1] at hhas
    exact ⟨object, rfl, own, hcurrent, hhas⟩
  · rintro ⟨object, rfl, own, hcurrent, hhas⟩
    refine ⟨(hcollection.mem _).mpr ⟨object, own, rfl, hcurrent⟩, ?_⟩
    rw [hasId_of_idOf_eq (hcurrent.idOf_eq hids).1]
    exact hhas

/-- Where what is under an id stands: an object between others that are not under it, or nowhere. -/
theorem IsCollection.place (hcollection : IsCollection g history h base items)
    (hids : IdsLast g history h) (hid : h.Keeps h id) :
    (∃ front old back, items = front ++ .object old :: back ∧ IsUnder g history h base id old ∧
      hasId g h id (.object old) = true ∧ ∀ a ∈ front ++ back, hasId g h id a = false) ∨
    (∀ old, ¬IsUnder g history h base id old) ∧ ∀ a ∈ items, hasId g h id a = false := by
  rcases exists_place (hcollection.pairwise_hasId hids hid) with
    ⟨front, old, back, rfl, hold, hothers⟩ | hnone
  · have hmem : old ∈ front ++ old :: back := List.mem_append_right _ List.mem_cons_self
    obtain ⟨object, rfl, hunder⟩ := (hcollection.hasId_iff hids).mp ⟨hmem, hold⟩
    exact Or.inl ⟨front, object, back, rfl, hunder, hold, hothers⟩
  · refine Or.inr ⟨fun old hunder => ?_, hnone⟩
    obtain ⟨hmem, hhas⟩ := (hcollection.hasId_iff hids).mpr ⟨old, rfl, hunder⟩
    rw [hnone _ hmem] at hhas
    cases hhas

/-- Later, while the ids stay what they are, a collection is still one. -/
theorem IsCollection.later (hcollection : IsCollection g history h₁ base items)
    (hids₁ : IdsLast g history h₁) (hids : IdsLast g history h) :
    IsCollection g history h base items where
  distinct := by
    refine hcollection.distinct.imp_of_mem fun {a b} ha hb hdistinct u v hu hv => ?_
    obtain ⟨x, idx, rfl, hx⟩ := (hcollection.mem a).mp ha
    obtain ⟨y, idy, rfl, hy⟩ := (hcollection.mem b).mp hb
    obtain rfl : idx = u := Option.some.inj ((hx.idOf_eq hids).1.symm.trans hu)
    obtain rfl : idy = v := Option.some.inj ((hy.idOf_eq hids).1.symm.trans hv)
    rw [(hx.keeps hids hids₁).looselyEqual_eq (hy.keeps hids hids₁)]
    exact hdistinct idx idy (hx.idOf_eq hids₁).1 (hy.idOf_eq hids₁).1
  mem := hcollection.mem

theorem Concerns.belongsTo (hcall : Concerns g base id call) :
    BelongsTo g (subjectOf call.1 call.2) base := by
  obtain ⟨h, _ | _ | _ | _⟩ := call
  · exact hcall.1
  · cases hcall
  · exact hcall.1
  · cases hcall

/-- A call about another collection makes no object of this one current, and none that is so not so. -/
theorem isCurrent_concat_of_not (hother : ¬BelongsTo g (subjectOf call.1 call.2) base) :
    IsCurrent g (history ++ [call]) base object id ↔ IsCurrent g history base object id := by
  rw [isCurrent_concat]
  constructor
  · rintro (⟨hcall, hbase, -⟩ | ⟨hcurrent, -⟩)
    · rw [hcall] at hother
      exact (hother hbase).elim
    · exact hcurrent
  · exact fun hcurrent => Or.inr ⟨hcurrent, fun hcall => hother hcall.belongsTo⟩

theorem IsCollection.insert (hcollection : IsCollection g history h base items)
    (hids : IdsLast g history h) (hbase : BelongsTo g (h.typeOf object) base)
    (hown : idOf g h (.object object) = some own) (hkeeps : h.Keeps h own) :
    IsCollection g (history ++ [(h, .insert object)]) h base
      (replaceFirst (hasId g h own) (.object object) items) := by
  -- the new list is the object between those that are not under its id
  obtain ⟨front, back, hnew, hsublist, hothers⟩ : ∃ front back,
      replaceFirst (hasId g h own) (.object object) items = front ++ .object object :: back ∧
        (front ++ back).Sublist items ∧
          ∀ a, a ∈ front ++ back ↔ a ∈ items ∧ hasId g h own a = false := by
    rcases hcollection.place hids hkeeps with
      ⟨front, old, back, rfl, -, hold, hothers⟩ | ⟨-, hnone⟩
    · refine ⟨front, back, ?_, ?_, fun a => ⟨fun ha => ⟨?_, hothers a ha⟩, fun hkept => ?_⟩⟩
      · exact replaceFirst_append (fun a ha => hothers a (List.mem_append_left _ ha)) hold
      · exact List.Sublist.append_left (List.sublist_cons_self _ _) front
      · exact (List.Sublist.append_left (List.sublist_cons_self _ _) front).subset ha
      · obtain ⟨ha, hnot⟩ := hkept
        rcases List.mem_append.mp ha with ha | ha
        · exact List.mem_append_left _ ha
        · rcases List.mem_cons.mp ha with rfl | ha
          · rw [hold] at hnot
            cases hnot
          · exact List.mem_append_right _ ha
    · refine ⟨items, [], replaceFirst_of_forall hnone, by rw [List.append_nil], fun a => ?_⟩
      rw [List.append_nil]
      exact ⟨fun ha => ⟨ha, hnone a ha⟩, fun ha => ha.1⟩
  have hapart : ∀ a ∈ front ++ back, ∀ u, idOf g h a = some u →
      h.looselyEqual u own = false ∧ h.looselyEqual own u = false := by
    intro a ha u hu
    obtain ⟨hmem, hnot⟩ := (hothers a).mp ha
    have hu' : h.looselyEqual u own = false := hasId_of_idOf_eq hu ▸ hnot
    refine ⟨hu', Bool.eq_false_iff.mpr fun hflip => ?_⟩
    rw [hkeeps.looselyEqual_symm (hcollection.keeps hids hmem hu) hflip] at hu'
    cases hu'
  rw [hnew]
  constructor
  · obtain ⟨hfront, hback, hbetween⟩ :=
      List.pairwise_append.mp (hcollection.distinct.sublist hsublist)
    refine List.pairwise_append.mpr ⟨hfront, List.pairwise_cons.mpr ⟨?_, hback⟩, ?_⟩
    · intro b hb u v hu hv
      obtain rfl : own = u := Option.some.inj (hown.symm.trans hu)
      exact (hapart b (List.mem_append_right _ hb) v hv).2
    · intro a ha b hb u v hu hv
      rcases List.mem_cons.mp hb with rfl | hb
      · obtain rfl : own = v := Option.some.inj (hown.symm.trans hv)
        exact (hapart a (List.mem_append_left _ ha) u hu).1
      · exact hbetween a ha b hb u v hu hv
  · intro value
    have hmem : value ∈ front ++ .object object :: back ↔
        value = .object object ∨ value ∈ front ++ back := by
      simp only [List.mem_append, List.mem_cons]
      exact or_left_comm
    rw [hmem, hothers, hcollection.mem]
    constructor
    · rintro (rfl | ⟨⟨x, id, rfl, hcurrent⟩, hnot⟩)
      · exact ⟨object, own, rfl, isCurrent_concat.mpr (Or.inl ⟨rfl, hbase, hown⟩)⟩
      · refine ⟨x, id, rfl, isCurrent_concat.mpr (Or.inr ⟨hcurrent, fun hconcerns => ?_⟩)⟩
        obtain ⟨-, v, hv, hsame⟩ := hconcerns
        obtain rfl : own = v := Option.some.inj (hown.symm.trans hv)
        rw [hasId_of_idOf_eq (hcurrent.idOf_eq hids).1, hsame] at hnot
        cases hnot
    · rintro ⟨x, id, rfl, hcurrent⟩
      rcases isCurrent_concat.mp hcurrent with ⟨hcall, -, -⟩ | ⟨hcurrent, hnot⟩
      · cases hcall
        exact Or.inl rfl
      · refine Or.inr ⟨⟨x, id, rfl, hcurrent⟩, ?_⟩
        rw [hasId_of_idOf_eq (hcurrent.idOf_eq hids).1, Bool.eq_false_iff]
        exact fun hsame => hnot ⟨hbase, own, hown, hsame⟩

theorem IsCollection.remove (hcollection : IsCollection g history h base items)
    (hids : IdsLast g history h) (hbase : BelongsTo g type base) :
    IsCollection g (history ++ [(h, .remove type id)]) h base
      (items.filter (!hasId g h id ·)) where
  distinct := hcollection.distinct.sublist List.filter_sublist
  mem := fun value => by
    rw [List.mem_filter, hcollection.mem, Bool.not_eq_true']
    constructor
    · rintro ⟨⟨x, own, rfl, hcurrent⟩, hnot⟩
      refine ⟨x, own, rfl, isCurrent_concat.mpr (Or.inr ⟨hcurrent, fun ⟨_, hsame⟩ => ?_⟩)⟩
      rw [hasId_of_idOf_eq (hcurrent.idOf_eq hids).1, hsame] at hnot
      cases hnot
    · rintro ⟨x, own, rfl, hcurrent⟩
      rcases isCurrent_concat.mp hcurrent with ⟨hcall, -, -⟩ | ⟨hcurrent, hnot⟩
      · cases hcall
      · refine ⟨⟨x, own, rfl, hcurrent⟩, ?_⟩
        rw [hasId_of_idOf_eq (hcurrent.idOf_eq hids).1, Bool.eq_false_iff]
        exact fun hsame => hnot ⟨hbase, hsame⟩

theorem perform_insert (hbase : BelongsTo g (h.typeOf object) base)
    (hown : idOf g h (.object object) = some own) :
    perform g r h (.insert object) = r.setCollection base
      (replaceFirst (hasId g h own) (.object object) (r.collection base)) := by
  rw [perform, insert_eq hbase hown]

theorem perform_remove (hbase : BelongsTo g type base) :
    perform g r h (.remove type id) =
      r.setCollection base ((r.collection base).filter (!hasId g h id ·)) := by
  rw [perform, remove_eq hbase]

/-- **What one call keeps.** -/
theorem IsCollection.perform {c : RepositoryCall}
    (hcollection : IsCollection g history h base (r.collection base))
    (hids : IdsLast g (history ++ [(h, c)]) h) :
    IsCollection g (history ++ [(h, c)]) h base ((perform g r h c).collection base) := by
  by_cases hbase : BelongsTo g (subjectOf h c) base
  swap
  · rw [collection_perform_of_not hbase]
    refine ⟨hcollection.distinct, fun value => (hcollection.mem value).trans ?_⟩
    exact exists_congr fun object => exists_congr fun id =>
      and_congr_right fun _ => (isCurrent_concat_of_not hbase).symm
  cases c with
  | insert object =>
      have hlast := hids.now _ (List.mem_append_right _ (List.mem_singleton_self _))
      obtain ⟨own, hown, -, hkeeps⟩ := hlast base hbase
      rw [perform_insert hbase hown, collection_setCollection_self]
      exact hcollection.insert hids.init hbase hown hkeeps
  | remove type id =>
      have hremove : BelongsTo g type base := hbase
      rw [perform_remove hremove, collection_setCollection_self]
      exact hcollection.remove hids.init hremove
  | get type id =>
      refine ⟨hcollection.distinct, fun value => (hcollection.mem value).trans ?_⟩
      simp [isCurrent_concat, Concerns]
  | list type =>
      refine ⟨hcollection.distinct, fun value => (hcollection.mem value).trans ?_⟩
      simp [isCurrent_concat, Concerns]

/-- **What a whole history leaves in a collection.** -/
theorem isCollection_after (hids : IdsLast g history h) (base : TypeId) :
    IsCollection g history h base ((after g history).collection base) := by
  induction history using List.reverseRecOn generalizing h with
  | nil =>
      refine ⟨List.Pairwise.nil, fun value => ⟨fun hmem => ?_, ?_⟩⟩
      · cases hmem
      · rintro ⟨object, id, -, hcurrent⟩
        exact (not_isCurrent_nil hcurrent).elim
  | append_singleton history call ih =>
      rw [after_concat]
      exact ((ih hids.atLast).perform hids.toLast).later hids.toLast hids

/-! ## The map -/

/-- The call fails with an error. -/
def FailsWith (g : TypeGraph) (r : Repository) (h : Heap) (e : Error) : RepositoryCall → Prop
  | .insert object => r.insert g h object = .error e
  | .get type id => r.get? g h type id = .error e
  | .remove type id => r.remove g h type id = .error e
  | .list type => r.list g type = .error e

/-- After a history, and seen on the heap `h`, the repository is a map for each collection that keeps the
order of insertion. -/
structure IsMapOf (g : TypeGraph) (history : List (Heap × RepositoryCall)) (h : Heap)
    (r : Repository) : Prop where
  /-- No two objects of a collection have ids that are loosely equal. -/
  distinct : ∀ base, HaveDistinctIds g h (r.collection base)
  /-- The objects of a collection are those that are current, each under its own id. -/
  mem : ∀ base value, value ∈ r.collection base ↔
    ∃ object id, value = .object object ∧ IsCurrent g history base object id ∧
      IsUnder g history h base id object
  /-- Every type of a collection lists it all. -/
  list : ∀ type base, BelongsTo g type base → r.list g type = .ok (r.collection base)
  /-- What is found under an id is the object that is current under it. -/
  get : ∀ type base id, BelongsTo g type base → h.Keeps h id →
    ∃ found, r.get? g h type id = .ok found ∧
      ∀ value, found = some value ↔
        ∃ object, value = .object object ∧ IsUnder g history h base id object
  /-- An object stands where the one stood that was under its id, or at the end if there was none: if the
  id is new, or was removed. -/
  insert : ∀ object base id, BelongsTo g (h.typeOf object) base →
    idOf g h (.object object) = some id → h.Keeps h id →
    ∃ next, r.insert g h object = .ok next ∧
      ((∃ front old back, r.collection base = front ++ .object old :: back ∧
          IsUnder g history h base id old ∧
          next.collection base = front ++ .object object :: back) ∨
        (∀ old, ¬IsUnder g history h base id old) ∧
          next.collection base = r.collection base ++ [.object object])
  /-- Removing an id takes away the object under it and nothing else, and tells whether there was one. -/
  remove : ∀ type base id, BelongsTo g type base → h.Keeps h id →
    ∃ removed next, r.remove g h type id = .ok (removed, next) ∧
      ((∃ front old back, r.collection base = front ++ .object old :: back ∧
          IsUnder g history h base id old ∧ removed = true ∧ next.collection base = front ++ back) ∨
        (∀ old, ¬IsUnder g history h base id old) ∧ removed = false ∧
          next.collection base = r.collection base)
  /-- A call changes no collection but the one it is about. -/
  frame : ∀ call other, ¬BelongsTo g (subjectOf h call) other →
    (perform g r h call).collection other = r.collection other
  /-- A call that fails changes none. -/
  failing : ∀ call e, FailsWith g r h e call → perform g r h call = r

theorem perform_of_failsWith {c : RepositoryCall} {e : Error} (hfails : FailsWith g r h e c) :
    perform g r h c = r := by
  cases c with
  | insert object =>
      have hinsert : r.insert g h object = .error e := hfails
      rw [perform, hinsert]
  | remove type id =>
      have hremove : r.remove g h type id = .error e := hfails
      rw [perform, hremove]
  | get type id => rfl
  | list type => rfl

/-- **A repository is a map for each collection that keeps the order of insertion**, after any history of
calls on an empty one, as long as the ids stay what they are. -/
theorem after_isMapOf (hids : IdsLast g history h) : IsMapOf g history h (after g history) where
  distinct := fun base => (isCollection_after hids base).distinct
  mem := fun base value => by
    rw [(isCollection_after hids base).mem]
    refine exists_congr fun object => exists_congr fun id => and_congr_right fun _ =>
      ⟨fun hcurrent => ⟨hcurrent, id, hcurrent, ?_⟩, And.left⟩
    exact (hcurrent.idOf_eq hids).2.looselyEqual_self
  list := fun type base ⟨d, hd⟩ => by
    rw [list, hd]
    rfl
  get := fun type base id hbase hid => by
    have hcollection := isCollection_after hids base
    refine ⟨_, get?_eq hbase, fun value => ⟨fun hfound => ?_, fun hunder => ?_⟩⟩
    · exact (hcollection.hasId_iff hids).mp ⟨List.mem_of_find?_eq_some hfound, List.find?_some hfound⟩
    · obtain ⟨hmem, hhas⟩ := (hcollection.hasId_iff hids).mpr hunder
      exact find?_of_place (hcollection.pairwise_hasId hids hid) hmem hhas
  insert := fun object base id hbase hown hid => by
    refine ⟨_, insert_eq hbase hown, ?_⟩
    rw [collection_setCollection_self]
    rcases (isCollection_after hids base).place hids hid with
      ⟨front, old, back, hitems, hunder, hold, hothers⟩ | ⟨hnone, hothers⟩
    · refine Or.inl ⟨front, old, back, hitems, hunder, ?_⟩
      rw [hitems]
      exact replaceFirst_append (fun a ha => hothers a (List.mem_append_left _ ha)) hold
    · exact Or.inr ⟨hnone, replaceFirst_of_forall hothers⟩
  remove := fun type base id hbase hid => by
    refine ⟨_, _, remove_eq hbase, ?_⟩
    rw [collection_setCollection_self]
    rcases (isCollection_after hids base).place hids hid with
      ⟨front, old, back, hitems, hunder, hold, hothers⟩ | ⟨hnone, hothers⟩
    · refine Or.inl ⟨front, old, back, hitems, hunder, ?_, ?_⟩
      · rw [hitems, List.any_eq_true]
        exact ⟨_, List.mem_append_right _ List.mem_cons_self, hold⟩
      · have hrest : (front ++ back).filter (!hasId g h id ·) = front ++ back :=
          List.filter_eq_self.mpr fun a ha => by rw [hothers a ha]; rfl
        rw [hitems, List.filter_append, List.filter_cons_of_neg (by simp [hold]), ← List.filter_append,
          hrest]
    · refine Or.inr ⟨hnone, ?_, List.filter_eq_self.mpr fun a ha => by rw [hothers a ha]; rfl⟩
      rw [List.any_eq_false]
      exact fun a ha => by rw [hothers a ha]; decide
  frame := fun _ _ => collection_perform_of_not
  failing := fun _ _ => perform_of_failsWith

/-- Animals have a code, and birds are animals. -/
def aviary : Registry :=
  (Registry.empty.withType
    { SourceType.bare "Animal" .resource with
      properties := [.primaryId "Code" (.value .string)] }).withType
    { SourceType.bare "Bird" .resource with base := some "Animal" }

/-- The type of animals, after the value kinds. -/
def animalType : TypeId := ⟨ValueKind.all.length⟩

/-- The type of birds, which are animals. -/
def birdType : TypeId := ⟨ValueKind.all.length + 1⟩

/-- An animal and two birds; the first and the last have the same code, once as a member of an enum. -/
def threeAnimals : Heap :=
  ⟨#[⟨animalType, [("Code", .string "a")]⟩, ⟨birdType, [("Code", .string "b")]⟩,
     ⟨birdType, [("Code", .enum "a")]⟩], #[]⟩

/-- The last takes the place of the first; the one between is removed and put in again. -/
def aviaryHistory : List (Heap × RepositoryCall) :=
  [.insert ⟨0⟩, .insert ⟨1⟩, .insert ⟨2⟩, .remove animalType (.string "b"), .insert ⟨1⟩].map
    (threeAnimals, ·)

/-- A text holds no float, and no object that could change. -/
theorem keeps_of_asText? {v : Value} (htext : v.asText?.isSome = true) : h.Keeps h₁ v := by
  refine ⟨fun _ => False, fun _ => False.elim, ?_, fun _ => False.elim⟩
  cases v with
  | string s => exact .string s
  | enum member => exact .enum member
  | _ => cases htext

theorem aviary_isMapOf : IdsLast aviary.graph aviaryHistory threeAnimals ∧
    IsMapOf aviary.graph aviaryHistory threeAnimals (after aviary.graph aviaryHistory) ∧
    ((after aviary.graph aviaryHistory).collection animalType).map Value.asObject? =
      [some ⟨2⟩, some ⟨1⟩] := by
  have hinserted : ∀ i < 3,
      ((idOf aviary.graph threeAnimals (.object ⟨i⟩)).bind Value.asText?).isSome = true := by
    decide +kernel
  have hkeeps : ∀ call ∈ aviaryHistory, KeepsId aviary.graph call threeAnimals := by
    intro call hcall
    obtain ⟨c, hc, rfl⟩ := List.mem_map.mp hcall
    have hid : ∀ i < 3, KeepsId aviary.graph (threeAnimals, .insert ⟨i⟩) threeAnimals := by
      intro i hi base _
      obtain ⟨text, htext⟩ := Option.isSome_iff_exists.mp (hinserted i hi)
      obtain ⟨id, hown, hidtext⟩ := Option.bind_eq_some_iff.mp htext
      exact ⟨id, hown, hown, keeps_of_asText? (Option.isSome_iff_exists.mpr ⟨text, hidtext⟩)⟩
    simp only [List.mem_cons, List.not_mem_nil, or_false] at hc
    rcases hc with rfl | rfl | rfl | rfl | rfl
    · exact hid 0 (by decide)
    · exact hid 1 (by decide)
    · exact hid 2 (by decide)
    · trivial
    · exact hid 1 (by decide)
  have hids : IdsLast aviary.graph aviaryHistory threeAnimals := by
    refine ⟨List.pairwise_of_forall_mem_list fun a ha b hb => ?_, hkeeps, fun h₀ type id hmem => ?_⟩
    · obtain ⟨c, -, rfl⟩ := List.mem_map.mp hb
      exact hkeeps a ha
    · obtain ⟨c, hc, hcall⟩ := List.mem_map.mp hmem
      cases hcall
      have hremoved : type = animalType ∧ id = .string "b" := by simpa using hc
      exact hremoved.2 ▸ keeps_of_asText? rfl
  exact ⟨hids, after_isMapOf hids, by decide +kernel⟩

end Repository

end ResourceQuery
