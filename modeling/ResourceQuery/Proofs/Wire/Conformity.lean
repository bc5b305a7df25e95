import ResourceQuery.Proofs.Wire.Slots

set_option autoImplicit false

/-! # What is read conforms

A document that is accepted as a new value of a type becomes a value of that type, whatever the document
is (`read_conforms`): null where the type of the slot admits it, whole numbers that fit, declared
members of enums, lists and dictionaries of what their types say, instances of types that are not
abstract and may stand in the slot, and the same for each property that was written.

Two things are in the way. A value of a kind may come in a box that names its type, and the type of the
box is compared with that of the slot by kind only, so a boxed null passes where a bare one is refused.
And a property with a getter of its own changes what the getter gives it, which may be a list of
something else. `accepted_and_misread` has an example of both. The theorem says for the first where null
may stand then, and asks of graphs that getters read fields of the property's own type.
-/

namespace ResourceQuery

namespace Standard

open Reading Document

variable {w : Standard} {O O' : Objects} {type : TypeId} {d : Descriptor} {v : Value} {n : Node}
  {F : Objects → Prop} {ctx : Context} {below : NodeReader}

/-! ## Objects -/

/-- The object is an instance of the type. -/
def Instance (w : Standard) (object : ObjectId) (d : Descriptor) (O : Objects) : Prop :=
  O object d.id ∧ w.Knows d.id d

theorem stable_instance (object : ObjectId) (d : Descriptor) : Stable (w.Instance object d) :=
  stable_and (fun _ _ hO h => hO _ _ h) (stable_const _)

/-- The fields are those of properties of the type, with documents that are admitted. -/
def Declared (w : Standard) (d : Descriptor) (fields : List Field) : Prop :=
  ∀ f ∈ fields, d.property? f.property.name = some f.property ∧ w.Admits f.json

theorem ends_setProperty (hctx : ctx.UsesDefaults) {object : ObjectId} {p : Property}
    (hF : ∀ O, w.old ≤ O → F O → w.Instance object d O ∧ p ∈ d.properties ∧ w.Conforms O p.type v) :
    w.Ends F (setProperty ctx object p v) fun _ _ => True := by
  unfold setProperty
  refine ends_note ?_
  rw [hctx.setProperty]
  refine ends_onHeap fun h _ h' O hrun hfits hO => ?_
  cases hrun
  obtain ⟨⟨hobject, hd⟩, hp, hv⟩ := hF O hfits.old hO
  -- a property without a setter writes the field of its name
  have hplain : p.writesField = none := w.plain d (TypeGraph.mem_types hd) p hp
  refine ⟨O, le_refl O, ⟨hfits.old, ?_⟩, trivial⟩
  unfold Property.write
  rw [hplain]
  exact hfits.stores.setField hobject hd hp hv

theorem ends_checkAccess (d : Descriptor) (p : Property) (m : HttpMethod) :
    w.Ends (fun _ => True) (checkAccess ctx d p m) fun _ _ => True := by
  unfold checkAccess
  exact ends_note (ends_look fun _ _ _ _ _ _ _ => trivial)

theorem declared_fetch (name : String) {fields : List Field} (h : w.Declared d fields) :
    w.Declared d (fetch name fields) := by
  induction fields with
  | nil => exact h
  | cons f rest ih =>
      have hrest : w.Declared d rest := fun other hother => h other (by simp [hother])
      unfold fetch
      split
      · intro other hother
        rcases List.mem_cons.mp hother with hself | hrest'
        · rw [hself]
          exact h f (by simp)
        · exact hrest other hrest'
      · intro other hother
        rcases List.mem_cons.mp hother with hself | hrest'
        · rw [hself]
          exact h f (by simp)
        · exact ih hrest other hrest'

/-- A node and the object that it makes or patches, with the fields that are left. -/
def Making (w : Standard) (type : TypeId) (d : Descriptor) (object : ObjectId)
    (made : Node × List Field) (O : Objects) : Prop :=
  (w.Ready type made.1 O ∧ w.Instance object d O) ∧ w.Declared d made.2

theorem stable_making (type : TypeId) (d : Descriptor) (object : ObjectId)
    (made : Node × List Field) : Stable (w.Making type d object made) :=
  stable_and (stable_and (stable_ready _ _) (stable_instance _ _)) (stable_const _)

/-- The default of a constructor parameter is that of the property, and so conforms to its type. -/
theorem conforms_default (hold : w.old ≤ O) (hd : w.Knows d.id d) {m : Members}
    (hm : d.members? = some m) {parameter : ConstructorParameter}
    (hparameter : parameter ∈ m.constructor) {p : Property}
    (hp : d.property? parameter.property = some p) (hv : parameter.default = some v) :
    w.Conforms O p.type v := by
  obtain ⟨q, hq, hname, hdefault⟩ := w.arises.sound.parameters _ d m hd hm parameter hparameter
  have hmember : q ∈ d.properties := by
    unfold Descriptor.properties
    rw [hm]
    exact hq
  have hself : q.isNamed parameter.property = true := by
    rw [← hname]
    exact Text.sameIgnoringCase_refl q.name
  have hsame : q = p := (w.arises.sound.distinct _ d hd).eq_of_named hmember
    (Descriptor.mem_of_property? hp) hself (Descriptor.isNamed_of_property? hp)
  rw [← hsame]
  exact Value.Conforms.mono (w.defaults d (TypeGraph.mem_types hd) q hmember v (hdefault.trans hv))
    (.refl _) (fun d v => Descriptor.TakesNull.mono False.elim d v) hold

theorem ends_construct (hctx : ctx.UsesDefaults) (hbelow : w.Reads below) {object : ObjectId}
    {m : Members} (hm : d.members? = some m) {parameter : ConstructorParameter}
    (hparameter : parameter ∈ m.constructor) {fields : List Field} :
    w.Ends (w.Making type d object (n, fields)) (construct ctx below d object n fields parameter)
      (w.Making type d object) := by
  have hmaking : Stable (w.Making type d object (n, fields)) := stable_making _ _ _ _
  unfold construct
  split
  · exact ends_fail _ _
  · rename_i p hp
    split
    · rename_i field hfield
      refine ends_below hmaking hbelow (fun O h => ⟨(h.2 field (List.mem_of_find?_eq_some hfield)).2,
        Ready.withValue fun _ h => nomatch h⟩) fun child => ?_
      refine ends_then (stable_and hmaking (stable_done _ _)) (ends_checkAccess _ _ _) fun _ => ?_
      refine ends_bind (stable_and hmaking (stable_done _ _))
        (ends_setProperty hctx fun O _ ⟨h, hchild⟩ =>
          ⟨h.1.2, Descriptor.mem_of_property? hp, hchild.result⟩) fun _ =>
        ends_pure fun O ⟨⟨h, hchild⟩, _⟩ => ?_
      exact ⟨⟨h.1.1.absorb hchild.staged, h.1.2⟩, declared_fetch _ h.2⟩
    · split
      · rename_i v hv
        exact ends_bind hmaking
          (ends_setProperty hctx fun O hold h => ⟨h.1.2, Descriptor.mem_of_property? hp,
            conforms_default hold h.1.2.2 hm hparameter hp hv⟩) fun _ => ends_pure fun O h => h.1
      · exact ends_fail _ _

theorem ends_constructAll (hctx : ctx.UsesDefaults) (hbelow : w.Reads below) {object : ObjectId}
    {m : Members} (hm : d.members? = some m) {parameters : List ConstructorParameter}
    (hparameters : ∀ parameter ∈ parameters, parameter ∈ m.constructor) {fields : List Field} :
    w.Ends (w.Making type d object (n, fields)) (constructAll ctx below d object n fields parameters)
      (w.Making type d object) := by
  induction parameters generalizing n fields with
  | nil => exact ends_pure fun _ h => h
  | cons parameter rest ih =>
      unfold constructAll
      refine ends_bind (stable_making _ _ _ _)
        (ends_construct hctx hbelow hm (hparameters parameter (by simp))) fun made => ?_
      exact (ih fun other hother => hparameters other (by simp [hother])).imp (fun _ h => h.2)
        fun _ _ h => h

/-- What a property gives of an instance is null or conforms to its type. -/
theorem Fits.conforms_read {h : Heap} (hfits : w.Fits O h) {object : ObjectId}
    (hobject : w.Instance object d O) {p : Property} (hp : p ∈ d.properties) :
    p.read h object = .null ∨ w.Conforms O p.type (p.read h object) := by
  obtain ⟨hobject, hd⟩ := hobject
  unfold Property.read Property.getFrom
  cases hfield : Entries.get? (p.readsField.getD p.name) (h.record object).fields with
  | none => exact Or.inl rfl
  | some v =>
      right
      obtain ⟨q, hq, hname, hv⟩ := (hfits.stores.record _ _ hobject).written d _ v hd hfield
      have htype : q.type = p.type := by
        cases hreads : p.readsField with
        | none =>
            -- a field of the property's own name is that of the property
            have hsame : q.name = p.name := by
              rw [hname, hreads]
              rfl
            have hself : q.isNamed p.name = true := by
              rw [← hsame]
              exact Text.sameIgnoringCase_refl q.name
            rw [(w.arises.sound.distinct _ d hd).eq_of_named hq hp hself
              (Text.sameIgnoringCase_refl p.name)]
        | some other =>
            have hsame : q.name = other := by
              rw [hname, hreads]
              rfl
            exact w.getters d (TypeGraph.mem_types hd) p hp q hq (by rw [hreads, hsame])
      rw [← htype]
      exact hv

theorem ends_assign (hctx : ctx.UsesDefaults) (hbelow : w.Reads below) {object : ObjectId}
    (m : HttpMethod) {field : Field} {rest : List Field} :
    w.Ends (w.Making type d object (n, field :: rest)) (assign ctx below d object m n field)
      (w.Ready type) := by
  have hmaking : Stable (w.Making type d object (n, field :: rest)) := stable_making _ _ _ _
  have hproperty : ∀ O, w.Making type d object (n, field :: rest) O →
      field.property ∈ d.properties := fun O h => Descriptor.mem_of_property? (h.2 field (by simp)).1
  have hcurrent : w.Ends (w.Making type d object (n, field :: rest))
      (fromHeap fun h => field.property.read h object) fun v O =>
        v = .null ∨ w.Conforms O field.property.type v := by
    refine ends_look fun s v O hanswer _ hfits h => ?_
    rw [← Except.ok.inj hanswer]
    exact hfits.conforms_read h.1.2 (hproperty O h)
  unfold assign
  refine ends_bind hmaking hcurrent fun current => ?_
  have hstart : Stable fun O => w.Making type d object (n, field :: rest) O ∧
      (current = .null ∨ w.Conforms O field.property.type current) :=
    stable_and hmaking fun O O' hO h => h.imp_right fun hconforms => hconforms.grow hO
  -- the slot is for the type of the property and holds what the property gives
  have hslot : ∀ O, (w.Making type d object (n, field :: rest) O ∧
      (current = .null ∨ w.Conforms O field.property.type current)) →
      w.Admits field.json ∧ w.Ready field.property.type (fieldSlot d n field current) O := by
    intro O h
    refine ⟨(h.1.2 field (by simp)).2, ?_⟩
    have hvalue : ∀ v, some current = some v → v = .null ∨ w.Conforms O field.property.type v :=
      fun v hv => Option.some.inj hv ▸ h.2
    unfold fieldSlot
    dsimp only
    split
    · exact Ready.withValue hvalue
    · exact Ready.withValue hvalue
  have hexpected : (fieldSlot d n field current).expected = field.property.type := by
    unfold fieldSlot
    dsimp only
    split <;> rfl
  show w.Ends _ (below (fieldSlot d n field current) field.json >>= _) _
  refine ends_below hstart hbelow (by rw [hexpected]; exact hslot) fun child => ?_
  rw [hexpected]
  have hread : Stable fun O => (w.Making type d object (n, field :: rest) O ∧
      (current = .null ∨ w.Conforms O field.property.type current)) ∧
      w.Done field.property.type child O := stable_and hstart (stable_done _ _)
  have hwrite : w.Ends (fun O => (w.Making type d object (n, field :: rest) O ∧
      (current = .null ∨ w.Conforms O field.property.type current)) ∧
      w.Done field.property.type child O) (do
        setProperty ctx object field.property child.result
        pure (n.absorb child)) (w.Ready type) :=
    ends_bind hread (ends_setProperty hctx fun O _ h => ⟨h.1.1.1.2, hproperty O h.1.1, h.2.result⟩)
      fun _ => ends_pure fun O h => h.1.1.1.1.1.absorb h.1.2.staged
  have hasked : ∀ ask : Bool, w.Ends (fun O => (w.Making type d object (n, field :: rest) O ∧
      (current = .null ∨ w.Conforms O field.property.type current)) ∧
      w.Done field.property.type child O) (do
        if ask then checkAccess ctx d field.property m
        setProperty ctx object field.property child.result
        pure (n.absorb child)) (w.Ready type) := by
    intro ask
    cases ask with
    | false => exact hwrite
    | true => exact ends_then hread (ends_checkAccess _ _ _) fun _ => hwrite
  dsimp only
  split
  · exact hasked _
  · exact ends_pure fun O h => h.1.1.1.1.absorb h.2.staged

theorem ends_assignAll (hctx : ctx.UsesDefaults) (hbelow : w.Reads below) {object : ObjectId}
    (m : HttpMethod) {fields : List Field} :
    w.Ends (w.Making type d object (n, fields)) (assignAll ctx below d object m n fields)
      (w.Ready type) := by
  induction fields generalizing n with
  | nil => exact ends_pure fun _ h => h.1.1
  | cons field rest ih =>
      unfold assignAll
      refine ends_bind (stable_making _ _ _ _) (ends_assign hctx hbelow m) fun n' => ?_
      exact ih.imp (fun O h => ⟨⟨h.2, h.1.1.2⟩, fun f hf => h.1.2 f (by simp [hf])⟩) fun _ _ h => h

/-- A new object with the record of an instance is an instance. -/
theorem ends_alloc {r : Heap → Record}
    (hr : ∀ h O, w.Fits O h → F O → w.Knows d.id d ∧
      (r h).Instantiates w.graph (Descriptor.TakesNull w.boxed) O d.id) :
    w.Ends F (onHeap (Action.change fun h => h.alloc (r h))) fun object O => w.Instance object d O := by
  refine ends_onHeap fun h object h' O hrun hfits hO => ?_
  cases hrun
  obtain ⟨hd, hrecord⟩ := hr h O hfits hO
  have hgrows : O ≤ fun id c => O id c ∨ id = (h.alloc (r h)).1 ∧ c = d.id := fun _ _ => Or.inl
  exact ⟨_, hgrows, ⟨hfits.old.trans hgrows, hfits.stores.alloc hrecord⟩, Or.inr ⟨rfl, rfl⟩, hd⟩

theorem conforms_object {object : ObjectId} {e : Descriptor} (he : w.Knows type e)
    (hobject : O object d.id) (hfits : w.graph.isAssignable type d.id = true) :
    w.Conforms O type (.object object) :=
  .object he hobject hfits

/-- The object that a node changes is an instance that may stand in its slot. -/
def Patchable (w : Standard) (type : TypeId) (object : ObjectId) (d : Descriptor) (O : Objects) :
    Prop :=
  w.Instance object d O ∧ w.graph.isAssignable type d.id = true

theorem Ready.keptObject (h : w.Ready type n O) {object : ObjectId}
    (hkept : keptObject? n = some object) :
    ∃ concrete, O object concrete ∧ w.graph.isAssignable type concrete = true := by
  unfold keptObject? at hkept
  split at hkept
  · rename_i id hvalue
    split at hkept
    · cases hkept
      rcases h.value _ hvalue with hnull | hconforms
      · cases hnull
      · cases hconforms with
        | scalar _ hscalar =>
            rw [Descriptor.hasScalar_object] at hscalar
            cases hscalar
        | object _ hobject hfits => exact ⟨_, hobject, hfits⟩
    · cases hkept
  · cases hkept

theorem stable_patchable (object : ObjectId) : Stable (w.Patchable type object d) :=
  stable_and (stable_instance _ _) (stable_const _)

theorem ends_patchObject (hctx : ctx.UsesDefaults) (hbelow : w.Reads below) {e : Descriptor}
    {object : ObjectId} {fields : List Field} (hfields : w.Declared d fields) :
    w.Ends (fun O => w.Slot type e n O ∧ w.Patchable type object d O)
      (patchObject ctx below d n object fields) (w.Done type) := by
  have hstart : Stable fun O => w.Slot type e n O ∧ w.Patchable type object d O :=
    stable_and (stable_slot _ _ _) (stable_patchable _)
  unfold patchObject
  -- the fields go to a copy, which is an instance as its original is one
  refine ends_bind hstart (ends_alloc fun h O hfits hO =>
    ⟨hO.2.1.2, hfits.stores.record _ _ hO.2.1.1⟩) fun copy => ?_
  have hcopied : Stable fun O => (w.Slot type e n O ∧ w.Patchable type object d O) ∧
      w.Instance copy d O := stable_and hstart (stable_instance _ _)
  refine ends_bind hcopied ((ends_assignAll (n := { n with operation := .patch }) hctx hbelow _).imp
    (fun O h => ⟨⟨{ h.1.1.1 with }, h.2⟩, hfields⟩) fun _ _ h => h) fun n' => ?_
  refine ends_setValue fun O ⟨⟨⟨⟨_, he⟩, hobject, hfits⟩, hcopy⟩, hready⟩ =>
    ⟨hready.staged.append fun pair hpair => ?_, conforms_object he hobject.1 hfits⟩
  rw [List.mem_singleton.mp hpair]
  exact ⟨d.id, hobject.1, hcopy.1⟩

theorem ends_createObject (hctx : ctx.UsesDefaults) (hbelow : w.Reads below) {e : Descriptor}
    {m : Members} (hm : d.members? = some m) {fields : List Field} (hfields : w.Declared d fields) :
    w.Ends (fun O => w.Slot type e n O ∧ w.Knows d.id d ∧ w.graph.isAssignable type d.id = true)
      (createObject ctx below d m n fields) (w.Done type) := by
  have hstart : Stable fun O => w.Slot type e n O ∧ w.Knows d.id d ∧
      w.graph.isAssignable type d.id = true := stable_and (stable_slot _ _ _) (stable_const _)
  unfold createObject
  split
  · exact ends_misshapen _ _
  · rename_i habstract
    refine ends_bind hstart (ends_alloc (d := d) fun h O _ hO =>
      ⟨hO.2.1, .new hO.2.1 hm (by simpa using habstract)⟩) fun object => ?_
    have hmade : Stable fun O => (w.Slot type e n O ∧ w.Knows d.id d ∧
        w.graph.isAssignable type d.id = true) ∧ w.Instance object d O :=
      stable_and hstart (stable_instance _ _)
    refine ends_bind hmade ((ends_constructAll (n := { n with operation := .post }) hctx hbelow hm
      fun _ h => h).imp (fun O h => ⟨⟨{ h.1.1.1 with }, h.2⟩, hfields⟩) fun _ _ h => h) fun made => ?_
    have hbuilt := stable_and hmade (stable_making (w := w) type d object made)
    refine ends_bind hbuilt ((ends_assignAll hctx hbelow _).imp (fun O h =>
      ⟨h.2.1, fun f hf => h.2.2 f (List.mem_of_mem_filter hf)⟩) fun _ _ h => h) fun n' => ?_
    exact ends_setValue fun O h => ⟨h.2.staged,
      conforms_object h.1.1.1.1.2 h.1.1.2.1 h.1.1.1.2.2⟩

/-- The type that a document names may stand in the slot. -/
theorem ends_narrow {e : Descriptor} (members : Entries Json) :
    w.Ends (w.Slot type e n) (narrow e n members) (w.Ready type) := by
  unfold narrow
  split
  · exact ends_pure fun _ h => h.1
  · refine ends_bind (stable_slot _ _ _) ((ends_typeNamed _).imp (fun _ h => h) fun _ _ h => h)
      fun tagged => ?_
    refine ends_bind (stable_and (stable_slot _ _ _) (stable_const _))
      (M := fun fits _ => fits = true → w.graph.isAssignable e.id tagged.id = true) ?_ fun fits => ?_
    · refine ends_look fun s fits O hanswer hknown _ _ hfits => ?_
      rw [← Except.ok.inj hanswer] at hfits
      exact TypeGraph.isAssignable_mono hknown hfits
    · split
      · exact ends_misshapen _ _
      · rename_i hfits
        refine ends_pure fun O ⟨⟨⟨hready, he⟩, _⟩, hassignable⟩ => { hready with narrowed := ?_ }
        have hid : e.id = type := w.arises.sound.id _ e he
        rw [hid] at hassignable
        -- an untyped slot takes instances of any type
        cases hany : e.isAny with
        | true =>
            show w.graph.isAssignable type tagged.id = true
            unfold TypeGraph.isAssignable
            rw [show w.graph.table.get? type = some e from he, Option.any_some, hany]
            rfl
        | false =>
            rw [hany] at hfits
            exact hassignable (by simpa using hfits)
  · exact ends_misshapen _ _

theorem declared_fieldsOf {path : String} {members : List (String × Json)} {fields : List Field}
    (hmembers : ∀ member ∈ members, w.Admits member.2) (h : fieldsOf d path members = .ok fields) :
    w.Declared d (inDeclarationOrder d fields) := by
  intro f hf
  have hmem : f ∈ fields := mem_inDeclarationOrder hf
  obtain ⟨member, hmember, hread⟩ := exists_member_of_fieldsOf h f hmem
  obtain ⟨hproperty, hjson⟩ := declared_of_fieldOf hread
  exact ⟨hproperty, hjson ▸ hmembers member hmember⟩

/-- An object that is kept is patched as an instance of its own type. -/
theorem ends_patchKept (hctx : ctx.UsesDefaults) (hbelow : w.Reads below) {e : Descriptor}
    {object : ObjectId} {concrete : TypeId} {members : Entries Json}
    (hmembers : ∀ member ∈ members, w.Admits member.2) :
    w.Ends (fun O => w.Slot type e n O ∧ O object concrete ∧
        w.graph.isAssignable type concrete = true) (do
      let d ← Reading.descriptor concrete
      match d.members? with
      | none => misshapen (.notStructured d.name)
      | some _ =>
        let fields ← Reading.known (fieldsOf d n.path members)
        patchObject ctx below d { n with type := concrete } object (inDeclarationOrder d fields))
      (w.Done type) := by
  have hfound : Stable fun O => w.Slot type e n O ∧ O object concrete ∧
      w.graph.isAssignable type concrete = true :=
    stable_and (stable_slot _ _ _) (stable_and (fun _ _ hO h => hO _ _ h) (stable_const _))
  refine ends_bind hfound (ends_descriptor concrete) fun d => ?_
  split
  · exact ends_misshapen _ _
  · refine ends_known fun fields hfields => ?_
    refine (ends_patchObject (e := e) (n := { n with type := concrete }) hctx hbelow
      (declared_fieldsOf hmembers hfields)).imp (fun O ⟨⟨⟨hready, he⟩, hobject, hc⟩, hd⟩ => ?_)
      fun _ _ h => h
    have hid : d.id = concrete := w.arises.sound.id _ d hd
    rw [← hid] at hobject hc hd
    exact ⟨⟨{ hready with narrowed := hid ▸ hc }, he⟩, ⟨hobject, hd⟩, hc⟩

theorem ends_createNew (hctx : ctx.UsesDefaults) (hbelow : w.Reads below) {e : Descriptor}
    {members : Entries Json} (hmembers : ∀ member ∈ members, w.Admits member.2) :
    w.Ends (w.Slot type e n) (do
      let d ← Reading.descriptor n.type
      match d.members? with
      | none => misshapen (.notStructured d.name)
      | some m =>
        let fields ← Reading.known (fieldsOf d n.path members)
        createObject ctx below d m n (inDeclarationOrder d fields))
      (w.Done type) := by
  refine ends_bind (stable_slot _ _ _) (ends_descriptor n.type) fun d => ?_
  split
  · exact ends_misshapen _ _
  · rename_i m hm
    refine ends_known fun fields hfields => ?_
    refine (ends_createObject (e := e) hctx hbelow hm (declared_fieldsOf hmembers hfields)).imp
      (fun O ⟨⟨hready, he⟩, hd⟩ => ?_) fun _ _ h => h
    have hid : d.id = n.type := w.arises.sound.id _ d hd
    rw [← hid] at hd
    exact ⟨⟨hready, he⟩, hd, hid ▸ hready.narrowed⟩

theorem ends_readContent (hctx : ctx.UsesDefaults) (hbelow : w.Reads below) {e : Descriptor}
    {members : Entries Json} (hjson : w.Admits (.object members)) :
    w.Ends (w.Slot type e n) (readContent ctx below n members) (w.Done type) := by
  have hmembers : ∀ member ∈ members, w.Admits member.2 := fun _ hmember => hjson.member hmember
  unfold readContent
  cases hkept : keptObject? n with
  | none => exact ends_createNew hctx hbelow hmembers
  | some object =>
      -- the type of the object takes the place of the type that the document narrowed to
      have htype : w.Ends (w.Slot type e n) (fromHeap fun h => h.typeOf object) fun concrete O =>
          O object concrete ∧ w.graph.isAssignable type concrete = true := by
        refine ends_look fun s concrete O hanswer _ hfits hslot => ?_
        obtain ⟨c, hobject, hc⟩ := hslot.1.keptObject hkept
        have hconcrete : s.heap.typeOf object = concrete := Except.ok.inj hanswer
        rw [← hconcrete, hfits.stores.typeOf hobject]
        exact ⟨hobject, hc⟩
      exact ends_bind (stable_slot _ _ _) htype fun concrete => ends_patchKept hctx hbelow hmembers

theorem ends_readObject (hctx : ctx.UsesDefaults) (hbelow : w.Reads below)
    (hscalar : d.isScalar = false) {json : Json} (hjson : w.Admits json) :
    w.Ends (w.Slot type d n) (readObject ctx below n json) (w.Done type) := by
  unfold readObject
  split
  · rename_i members
    refine ends_known fun uri _ => ?_
    split
    · exact ends_readReference hctx hscalar _
    · -- the slot has one descriptor, which is looked up again
      have hexpected : w.Ends (w.Slot type d n) (Reading.descriptor n.expected) fun e _ => e = d := by
        refine ends_look fun s e O hanswer hknown _ hslot => ?_
        have he := hknown.get? (TypeGraph.get_eq_ok.mp hanswer)
        rw [hslot.1.expected] at he
        exact Option.some.inj (he.symm.trans hslot.2)
      refine ends_bind (stable_slot _ _ _) hexpected fun e => ?_
      refine ends_bind (stable_and (stable_slot _ _ _) (stable_const _))
        ((ends_narrow (e := e) members).imp (fun O h => h.2 ▸ h.1) fun _ _ h => h) fun n' => ?_
      refine Ends.imp (F := w.Slot type d n') ?_ (fun O h => ⟨h.2, h.1.1.2⟩) fun _ _ h => h
      split
      · exact ends_readContent hctx hbelow hjson
      · rename_i uri _
        split
        · exact ends_readReference hctx hscalar _
        · exact (ends_readContent (e := d) (n := { n' with uri := some uri }) hctx hbelow hjson).imp
            (fun O h => ⟨{ h.1 with }, h.2⟩) fun _ _ h => h
      · exact ends_misshapen _ _
  · exact ends_misshapen _ _

/-! ### Untyped slots -/

/-- The items in an untyped slot are in untyped slots themselves. -/
theorem itemSlot?_self (hd : w.Knows type d) (hany : d.isAny = true) : d.itemSlot? = some type := by
  rw [Descriptor.itemSlot?_of_isAny hany, w.arises.eq_untyped hd hany]

theorem entrySlot?_self (hd : w.Knows type d) (hany : d.isAny = true) : d.entrySlot? = some type := by
  rw [Descriptor.entrySlot?_of_isAny hany, w.arises.eq_untyped hd hany]

theorem ends_readUntypedItems (hbelow : w.Reads below) {items : List Value} {documents : List Json}
    (hdocuments : ∀ item ∈ documents, w.Admits item) :
    w.Ends (w.Listing type type (n, items)) (readUntypedItems below n items documents)
      (w.Listing type type) := by
  induction documents generalizing n items with
  | nil => exact ends_pure fun _ h => h
  | cons item rest ih =>
      unfold readUntypedItems
      refine ends_below (stable_listing _ _ _) hbelow (fun O _ =>
        ⟨hdocuments item (by simp), ready_ofSlot w n.expected n.path O⟩) fun child => ?_
      refine (ih fun other hother => hdocuments other (by simp [hother])).imp
        (fun O h => ⟨h.1.1.absorb h.2.staged, fun v hv => ?_⟩) fun _ _ h => h
      rcases List.mem_append.mp hv with hold | hnew
      · exact h.1.2 v hold
      · rw [List.mem_singleton.mp hnew, ← h.1.1.expected]
        exact h.2.result

theorem isScalar_of_isAny (hany : d.isAny = true) : d.isScalar = false := by
  unfold Descriptor.isScalar
  rw [Descriptor.shape_of_isAny hany]

theorem ends_readUntypedObject (hctx : ctx.UsesDefaults) (hbelow : w.Reads below)
    (hany : d.isAny = true) {members : Entries Json} (hjson : w.Admits (.object members)) :
    w.Ends (w.Slot type d n) (readUntypedObject ctx below n members) (w.Done type) := by
  have hscalar : d.isScalar = false := isScalar_of_isAny hany
  unfold readUntypedObject
  split
  · refine ends_readDictionary hctx hbelow hscalar (fun _ h => ?_) hjson
    rw [h.1.expected]
    exact entrySlot?_self h.2 hany
  · refine ends_bind (stable_slot _ _ _) ((ends_typeNamed _).imp (fun _ h => h) fun _ _ h => h)
      fun named => Ends.imp (F := w.Slot type d n) ?_ (fun _ h => h.1) fun _ _ h => h
    split
    · exact ends_readObject hctx hbelow hscalar hjson
    · refine ends_bind (stable_slot _ _ _)
        ((ends_unbox members).imp (fun _ _ => trivial) fun _ _ h => h) fun (boxed, inner) => ?_
      refine ends_known fun v hv => ends_setValue fun _ ⟨⟨hready, hd⟩, _⟩ => ⟨hready.staged, ?_⟩
      rcases scalar_cases hv with ⟨_, rfl, _⟩ | ⟨_, hv⟩
      · exact conforms_null hd (w.arises.sound.untyped _ d hd hany).1
      · exact conforms_scalar hd (Descriptor.hasScalar_of_isAny hany hv)
  · exact ends_misshapen _ _

/-- What a slot of any type holds is held by an untyped slot, if it is a scalar. -/
theorem ends_setUntyped (hany : d.isAny = true)
    (hv : Descriptor.hasScalar ⟨TypeGraph.valueType .any, "", true, [], .value .any⟩ v = true) :
    w.Ends (w.Slot type d n) (setValue n v) (w.Done type) :=
  ends_setValue fun _ ⟨hready, hd⟩ => ⟨hready.staged,
    conforms_scalar hd (Descriptor.hasScalar_of_isAny hany hv)⟩

theorem ends_readUntyped (hctx : ctx.UsesDefaults) (hbelow : w.Reads below) (hany : d.isAny = true)
    {json : Json} (hjson : w.Admits json) :
    w.Ends (w.Slot type d n) (readUntyped ctx below n json) (w.Done type) := by
  unfold readUntyped
  split
  · exact ends_setValue fun O ⟨hready, hd⟩ => ⟨hready.staged,
      conforms_null hd (w.arises.sound.untyped _ d hd hany).1⟩
  · exact ends_setUntyped hany rfl
  · refine ends_setUntyped hany ?_
    unfold untypedNumber
    split <;> rfl
  · exact ends_setUntyped hany rfl
  · refine ends_bind (stable_slot _ _ _) ((ends_readUntypedItems hbelow fun item hitem =>
      hjson.item hitem).imp (fun O h => ⟨h.1, fun _ hv => nomatch hv⟩) fun _ _ h => h) fun read => ?_
    exact ends_setValue fun O ⟨⟨_, hd⟩, hread⟩ => ⟨hread.1.staged,
      .list hd (itemSlot?_self hd hany) hread.2 trivial⟩
  · exact ends_readUntypedObject hctx hbelow hany hjson

/-! ### All shapes -/

theorem ends_readWith (hctx : ctx.UsesDefaults) (hbelow : w.Reads below) (n : Node) {json : Json}
    (hjson : w.Admits json) :
    w.Ends (w.Ready n.expected n) (readWith ctx below n json) (w.Done n.expected) := by
  unfold readWith
  refine ends_bind (stable_ready _ _) (ends_descriptor n.expected) fun d => ?_
  show w.Ends (w.Slot n.expected d n) _ _
  split
  · split
    · rename_i hnullable
      exact ends_setValue fun O h => ⟨h.1.staged, conforms_null h.2 hnullable⟩
    · exact ends_misshapen _ _
  · rename_i hnotNull
    split
    · rename_i hshape
      refine ends_readUntyped hctx hbelow ?_ hjson
      unfold Descriptor.isAny
      rw [hshape]
    · rename_i hshape
      exact ends_readScalar hshape hjson
    · refine ends_known fun v hv => ends_setValue fun O h => ⟨h.1.staged, ?_⟩
      rcases scalar_cases hv with ⟨hnull, _⟩ | ⟨_, hscalar⟩
      · exact absurd hnull hnotNull
      · exact conforms_scalar h.2 hscalar
    · rename_i element hshape
      refine ends_readList hctx hbelow ?_ hjson
      unfold Descriptor.itemSlot?
      rw [hshape]
    · rename_i key value hshape
      refine ends_readDictionary hctx hbelow ?_ (fun _ _ => ?_) hjson
      · unfold Descriptor.isScalar
        rw [hshape]
      · unfold Descriptor.entrySlot?
        rw [hshape]
    · rename_i hshape
      refine ends_readObject hctx hbelow ?_ hjson
      unfold Descriptor.isScalar
      rw [hshape]
    · rename_i hshape
      refine ends_readObject hctx hbelow ?_ hjson
      unfold Descriptor.isScalar
      rw [hshape]

/-- The standard of documents that may box null. -/
def lax (w : Standard) : Standard :=
  { w with boxed := True }

/-- Which types a reader leaves does not depend on whether the document boxes null. -/
theorem reads_of_ends (h : ∀ (w : Standard) (n : Node) (json : Json), w.Admits json →
    w.Ends (w.Ready n.expected n) (below n json) (w.Done n.expected)) : w.Reads below := by
  intro n json s n' s' hrun
  have hgrows := (h w.lax n json (fun _ => trivial) s n' s' hrun).1
  exact ⟨hgrows, fun hknown O hfits hO => (h w n json hO.1 s n' s' hrun).2 hknown O hfits hO.2⟩

/-- **What is read into a slot conforms to its type.** -/
theorem ends_readNode (hctx : ctx.UsesDefaults) (depth : Nat) (n : Node) {json : Json}
    (hjson : w.Admits json) :
    w.Ends (w.Ready n.expected n) (readNode ctx depth n json) (w.Done n.expected) := by
  induction depth generalizing w n json with
  | zero =>
      have hbelow : w.Reads fun _ _ => misshapen .malformedJson := fun _ _ => ends_misshapen _ _
      exact ends_readWith hctx hbelow n hjson
  | succ depth ih =>
      have hbelow : w.Reads (readNode ctx depth) := reads_of_ends fun _ n _ hjson => ih n hjson
      exact ends_readWith hctx hbelow n hjson

end Standard

/-! ## The main statement -/

namespace Document

open Reading

/-- **An accepted document becomes a value of the type that was asked for.** If it is read as a new
value, in a context that makes references and writes properties by default, then there are objects,
those that were there among them, which the heap stores well in the end, and over which the value
conforms to the type: null stands only where the slot's type admits it, or, if the document boxes null,
where the slot is for values of a kind. Of the types that are known in the end it is asked that
properties have no setters, that getters read fields of the property's own type, and that defaults
conform. -/
theorem read_conforms {ctx : Context} (hctx : ctx.UsesDefaults) {s s' : ReadState}
    (hs : s.graph.Arises) {expected : TypeId} {json : Json} {v : Value} {old : Objects}
    (hplain : s'.graph.HasNoSetters) (hgetters : s'.graph.GettersAgree)
    (hdefaults : s'.graph.DefaultsConform old)
    (hstores : s.heap.Stores s.graph (Descriptor.TakesNull False) old)
    (hrun : (read ctx expected json none).runOn s = (.ok v, s')) :
    ∃ isObject, old ≤ isObject ∧
      s'.heap.Stores s'.graph (Descriptor.TakesNull (json.boxesNull = true)) isObject ∧
      Value.Conforms s'.graph (Descriptor.TakesNull (json.boxesNull = true)) isObject expected v := by
  unfold read at hrun
  rw [Action.runOn_bind] at hrun
  cases hwalk : (readNode ctx json.depth (.root expected none) json).runOn s with
  | mk outcome s₁ =>
      rw [hwalk] at hrun
      cases outcome with
      | error e => cases hrun
      | ok n =>
          cases hrun
          have hgrows : s.graph.GrowsTo s₁.graph := by
            have hnode := growsTo_readNode ctx json.depth (.root expected none) json s
            rw [hwalk] at hnode
            exact hnode
          let w : Standard :=
            { graph := s₁.graph
              boxed := json.boxesNull = true
              old
              arises := hs.grow hgrows
              plain := hplain
              getters := hgetters
              defaults := hdefaults }
          -- at the start there are the old objects, and the root of the document holds nothing
          have hfits : w.Fits old s.heap := ⟨le_refl old,
            hstores.mono hgrows.extends fun d v => Descriptor.TakesNull.mono False.elim d v⟩
          have hready : w.Ready expected (.root expected none) old :=
            Standard.Ready.withValue fun _ h => nomatch h
          obtain ⟨_, hends⟩ := Standard.ends_readNode (w := w) hctx json.depth (.root expected none)
            (fun hnull => hnull) s n s₁ hwalk
          obtain ⟨O, hold, hfits', hdone⟩ := hends (.refl _) old hfits hready
          exact ⟨O, hold, hfits'.stores.writeBack hdone.staged, hdone.result⟩

/-! ### Cages

A cage has a size, which is never null, and labels, and may stand in another cage. -/

/-- Cages, with further properties. -/
def cagesWith (further : List PropertyDef) : Registry :=
  Registry.empty.withType
    { SourceType.bare "Cage" .valueObject with
      properties :=
        [{ PropertyDef.ofType "Size" (.value .int32) with required := true, default := some (.int 1) },
          .ofType "Labels" (.list (.value .string)), .ofType "Within" (.named "Cage")] ++ further }

/-- The type of cages, after the value kinds. -/
def cageType : TypeId := ⟨ValueKind.all.length⟩

/-- The types of cages and nothing else, before a document is read. -/
def cageState (further : List PropertyDef) : ReadState :=
  ⟨(cagesWith further).graph, .empty, []⟩

/-- What comes of a document that is read as a value of the type. -/
def readCage (further : List PropertyDef) (type : TypeId) (json : Json) :
    Except Error Value × ReadState :=
  (read .masked type json none).runOn (cageState further)

/-- A labelled cage in one of the default size. -/
def cageWithin : Json :=
  .object [("Labels", .array [.string "owl"]), ("Size", .number (.whole 2)), ("Within", .object [])]

theorem arises_cages (further : List PropertyDef) (h : (cagesWith further).isResolvable = true) :
    (cagesWith further).graph.Arises :=
  Registry.arises_graph (Registry.keyedByName_empty.withType _) h

/-- A cage in a cage is read as what it is, with a size that nobody gave it. -/
theorem cageWithin_conforms :
    ∃ v, (readCage [] cageType cageWithin).1 = .ok v ∧ ∃ isObject,
      (readCage [] cageType cageWithin).2.heap.Stores (readCage [] cageType cageWithin).2.graph
          (Descriptor.TakesNull (cageWithin.boxesNull = true)) isObject ∧
        Value.Conforms (readCage [] cageType cageWithin).2.graph
          (Descriptor.TakesNull (cageWithin.boxesNull = true)) isObject cageType v := by
  have haccepted : failure? (readCage [] cageType cageWithin).1 = none := by decide +kernel
  obtain ⟨v, hv⟩ := exists_ok_of_failure? haccepted
  have hplain : (readCage [] cageType cageWithin).2.graph.HasNoSetters := by
    unfold TypeGraph.HasNoSetters
    decide +kernel
  have hgetters : (readCage [] cageType cageWithin).2.graph.GettersAgree := by
    unfold TypeGraph.GettersAgree
    decide +kernel
  have hdefaults : (readCage [] cageType cageWithin).2.graph.DefaultsConform
      fun id concrete => (id, concrete) ∈ ([] : List (ObjectId × TypeId)) :=
    TypeGraph.defaultsConform_of_defaultsConformBy (by decide +kernel)
  have hstores : (cageState []).heap.Stores (cageState []).graph (Descriptor.TakesNull False)
      fun id concrete => (id, concrete) ∈ ([] : List (ObjectId × TypeId)) :=
    ⟨nofun, nofun⟩
  have hrun : (read .masked cageType cageWithin none).runOn (cageState []) =
      (.ok v, (readCage [] cageType cageWithin).2) := by
    rw [← hv]
    rfl
  have harises : (cageState []).graph.Arises := arises_cages [] (by decide +kernel)
  have hdefault : Context.masked.UsesDefaults := ⟨rfl, rfl⟩
  obtain ⟨isObject, _, h⟩ :=
    read_conforms hdefault harises hplain hgetters hdefaults hstores hrun
  exact ⟨v, hv, isObject, h⟩

/-! Both exceptions are real. -/

/-- A null in a box for numbers that may be null. -/
def boxedNull : Json :=
  .object [("_type", .string "Nullable<Int32>"), ("value", .null)]

/-- Sizes, which are taken from the labels. -/
def sizes : PropertyDef :=
  { PropertyDef.ofType "Sizes" (.list (.value .int32)) with readsField := some "Labels" }

/-- A labelled cage, and then one more size. -/
def labelledAndSized : Json :=
  .object [("Labels", .array [.string "owl"]), ("Sizes", .array [.number (.whole 2)])]

theorem not_conforms_null {g : TypeGraph} {isObject : Objects} {type : TypeId} {d : Descriptor}
    (hd : g.table.get? type = some d) (hnullable : d.nullable = false) :
    ¬ Value.Conforms g (Descriptor.TakesNull False) isObject type .null := by
  intro h
  cases h with
  | null hd' h =>
      rw [hd] at hd'
      cases hd'
      rcases h with hnull | ⟨hfalse, _⟩
      · rw [hnullable] at hnull
        cases hnull
      · exact hfalse
  | scalar _ hscalar =>
      unfold Descriptor.hasScalar at hscalar
      split at hscalar <;> contradiction

/-- Null is accepted as a number. -/
theorem boxedNull_misread :
    ∃ v, (readCage [sizes] (TypeGraph.valueType .int32) boxedNull).1 = .ok v ∧ ∀ isObject,
      ¬ Value.Conforms (readCage [sizes] (TypeGraph.valueType .int32) boxedNull).2.graph
        (Descriptor.TakesNull False) isObject (TypeGraph.valueType .int32) v := by
  generalize hread : readCage [sizes] (TypeGraph.valueType .int32) boxedNull = r
  have haccepted : failure? r.1 = none := by
    rw [← hread]
    decide +kernel
  obtain ⟨v, hv⟩ := exists_ok_of_failure? haccepted
  have hnull : r.1.toOption.map Value.isNull = some true := by
    rw [← hread]
    decide +kernel
  have hrefused : (r.2.graph.table.get? (TypeGraph.valueType .int32)).map (·.nullable) =
      some false := by
    rw [← hread]
    decide +kernel
  obtain ⟨d, hd, hnullable⟩ := Option.map_eq_some_iff.mp hrefused
  refine ⟨v, hv, fun isObject => ?_⟩
  rw [hv] at hnull
  cases v with
  | null => exact not_conforms_null hd hnullable
  | _ => cases hnull

/-- The text of the first item of a list. -/
def firstText? : Value → Option String
  | .list (.string s :: _) => some s
  | _ => none

/-- A list of numbers starts with no text. -/
theorem firstText?_of_conforms {g : TypeGraph} {isObject : Objects} {type element : TypeId}
    {d e : Descriptor} {v : Value} (hd : g.table.get? type = some d)
    (hslot : d.itemSlot? = some element) (he : g.table.get? element = some e)
    (hkind : e.valueKind? = some .int32)
    (h : Value.Conforms g (Descriptor.TakesNull False) isObject type v) : firstText? v = none := by
  have hshape : e.shape = .value .int32 := by
    unfold Descriptor.valueKind? at hkind
    split at hkind
    · rename_i hkind'
      rw [hkind', Option.some.inj hkind]
    · cases hkind
  unfold firstText?
  split
  · rename_i text rest
    cases h with
    | scalar _ hscalar =>
        unfold Descriptor.hasScalar at hscalar
        split at hscalar <;> contradiction
    | list hd' hslot' hitems =>
        rw [hd] at hd'
        cases hd'
        rw [hslot] at hslot'
        cases hslot'
        cases hitems (.string text) (by simp) with
        | scalar he' hscalar =>
            rw [he] at he'
            cases he'
            unfold Descriptor.hasScalar at hscalar
            rw [hshape] at hscalar
            cases hscalar
  · rfl

/-- The number of the type of the lists of sizes. -/
def sizesType : TypeId :=
  (((cagesWith [sizes]).graph.table.get? cageType).bind (·.property? "Sizes")).elim ⟨0⟩ (·.type)

/-- The sizes of the cage start with a label. -/
theorem labelledAndSized_misread :
    ∃ v, (readCage [sizes] cageType labelledAndSized).1 = .ok v ∧ ∀ isObject,
      ¬ ((readCage [sizes] cageType labelledAndSized).2.heap.Stores
            (readCage [sizes] cageType labelledAndSized).2.graph (Descriptor.TakesNull False) isObject ∧
          Value.Conforms (readCage [sizes] cageType labelledAndSized).2.graph
            (Descriptor.TakesNull False) isObject cageType v) := by
  generalize hread : readCage [sizes] cageType labelledAndSized = r
  have haccepted : failure? r.1 = none := by
    rw [← hread]
    decide +kernel
  obtain ⟨v, hv⟩ := exists_ok_of_failure? haccepted
  have hobject : r.1.toOption.bind Value.asObject? = some ⟨0⟩ := by
    rw [← hread]
    decide +kernel
  have htype : r.2.heap.typeOf ⟨0⟩ = cageType := by
    rw [← hread]
    decide +kernel
  have hfield : (Entries.get? "Sizes" (r.2.heap.record ⟨0⟩).fields).bind firstText? = some "owl" := by
    rw [← hread]
    decide +kernel
  have hproperties : (r.2.graph.table.get? cageType).all (fun d =>
      d.properties.all fun p => p.name ≠ "Sizes" || p.type = sizesType) = true := by
    rw [← hread]
    decide +kernel
  have hslot : (r.2.graph.table.get? sizesType).bind Descriptor.itemSlot? =
      some (TypeGraph.valueType .int32) := by
    rw [← hread]
    decide +kernel
  have hkind : (r.2.graph.table.get? (TypeGraph.valueType .int32)).bind Descriptor.valueKind? =
      some .int32 := by
    rw [← hread]
    decide +kernel
  obtain ⟨d, hd, hitems⟩ := Option.bind_eq_some_iff.mp hslot
  obtain ⟨e, he, hint⟩ := Option.bind_eq_some_iff.mp hkind
  obtain ⟨w, hw, htext⟩ := Option.bind_eq_some_iff.mp hfield
  refine ⟨v, hv, fun isObject ⟨hstores, hconforms⟩ => ?_⟩
  rw [hv] at hobject
  cases v with
  | object id =>
      cases hobject
      cases hconforms with
      | scalar _ hscalar =>
          rw [Descriptor.hasScalar_object] at hscalar
          cases hscalar
      | object _ hid _ =>
          -- an object is of one type, so what was written to its sizes is a list of numbers
          have hconcrete := hstores.typeOf hid
          rw [htype] at hconcrete
          rw [← hconcrete] at hid
          obtain ⟨c, _, hc, _⟩ := (hstores.record _ _ hid).instantiable
          obtain ⟨p, hp, hname, hsizes⟩ := (hstores.record _ _ hid).written c _ w hc hw
          rw [hc, Option.all_some, List.all_eq_true] at hproperties
          have hlist : p.type = sizesType := by simpa [hname] using hproperties p hp
          rw [hlist] at hsizes
          rw [firstText?_of_conforms hd hitems he hint hsizes] at htext
          cases htext
  | _ => cases hobject

/-- **What is accepted is not always of the type that was asked for**, although properties have no
setters and defaults conform: a slot for numbers takes a boxed null, and a list of numbers goes on from
what a getter took from a list of texts. -/
theorem accepted_and_misread :
    ((cagesWith [sizes]).graph.HasNoSetters ∧
      (cagesWith [sizes]).graph.DefaultsConform fun id concrete =>
        (id, concrete) ∈ ([] : List (ObjectId × TypeId))) ∧
    (∃ v, (readCage [sizes] (TypeGraph.valueType .int32) boxedNull).1 = .ok v ∧ ∀ isObject,
      ¬ Value.Conforms (readCage [sizes] (TypeGraph.valueType .int32) boxedNull).2.graph
        (Descriptor.TakesNull False) isObject (TypeGraph.valueType .int32) v) ∧
    ∃ v, (readCage [sizes] cageType labelledAndSized).1 = .ok v ∧ ∀ isObject,
      ¬ ((readCage [sizes] cageType labelledAndSized).2.heap.Stores
            (readCage [sizes] cageType labelledAndSized).2.graph (Descriptor.TakesNull False) isObject ∧
          Value.Conforms (readCage [sizes] cageType labelledAndSized).2.graph
            (Descriptor.TakesNull False) isObject cageType v) := by
  have hplain : (cagesWith [sizes]).graph.HasNoSetters := by
    unfold TypeGraph.HasNoSetters
    decide +kernel
  exact ⟨⟨hplain, TypeGraph.defaultsConform_of_defaultsConformBy (by decide +kernel)⟩,
    boxedNull_misread, labelledAndSized_misread⟩

end Document

end ResourceQuery
