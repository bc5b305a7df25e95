import ResourceQuery.Proofs.Wire.Decoding
import ResourceQuery.Proofs.Wire.Enforcement

set_option autoImplicit false

/-! # Documents that show an object

An object is read back in steps. A new object without fields is made; the constructor fills some fields,
in the order of its parameters, and takes their members; the other members are assigned in the order in
which the properties are declared. In between anything may be read, and other objects are made.

`Document.Making` is what holds at each of these moments: the new object looks like the old one as far as
the names in `done` go, and nothing else is set in it. What a document has to have for this to reach the
end is `Document.Tells`: a member for each property that counts, and no other member but for the type and
the URI.
-/

namespace ResourceQuery

/-! ## Records in the making -/

/-- The record `b` looks like `a` as far as the names in `done` go, and no other field is set. -/
structure Record.Copies (R : Pairing) (done : String → Prop) (a b : Record) : Prop where
  type : a.type = b.type
  set : ∀ entry ∈ b.fields, (a.field entry.1).IsTwin R entry.2
  copied : ∀ name, done name → (a.field name).IsTwin R (b.field name)
  unset : ∀ name, ¬ done name → Entries.get? name b.fields = none

namespace Record.Copies

variable {R S : Pairing} {done : String → Prop} {a b : Record} {name : String} {v : Value}

theorem mono (h : a.Copies R done b) (hRS : R ≤ S) : a.Copies S done b :=
  ⟨h.type, fun entry hentry => (h.set entry hentry).mono hRS,
    fun name hname => (h.copied name hname).mono hRS, h.unset⟩

theorem new (R : Pairing) (a : Record) : Record.Copies R (fun _ => False) a ⟨a.type, []⟩ :=
  ⟨rfl, nofun, fun _ => False.elim, fun _ _ => rfl⟩

theorem insert (h : a.Copies R done b) (hv : (a.field name).IsTwin R v) :
    a.Copies R (fun other => done other ∨ other = name)
      { b with fields := Entries.insert name v b.fields } := by
  refine ⟨h.type, fun entry hentry => ?_, fun other hother => ?_, fun other hother => ?_⟩
  · rcases Entries.mem_insert hentry with hnew | hold
    · rw [hnew]
      exact hv
    · exact h.set entry hold
  · by_cases hname : other = name
    · rw [hname]
      unfold field at hv ⊢
      rw [Entries.get?_insert_self]
      exact hv
    · have hdone := h.copied other (hother.resolve_right hname)
      unfold field at hdone ⊢
      rw [Entries.get?_insert_of_ne hname]
      exact hdone
  · obtain ⟨hdone, hname⟩ := not_or.mp hother
    exact (Entries.get?_insert_of_ne hname _ _).trans (h.unset other hdone)

/-- What looks like null need not be set. -/
theorem skip (h : a.Copies R done b) (hv : (a.field name).IsTwin R .null) :
    a.Copies R (fun other => done other ∨ other = name) b := by
  refine ⟨h.type, h.set, fun other hother => ?_, fun other hother => h.unset other fun hdone =>
    hother (Or.inl hdone)⟩
  by_cases hdone : done other
  · exact h.copied other hdone
  · have hfield : b.field other = .null := by
      unfold field
      rw [h.unset other hdone]
      rfl
    rw [hfield, hother.resolve_left hdone]
    exact hv

/-- Once all that is not null is done, the records look the same. -/
theorem isTwin (h : a.Copies R done b) (hsorted : Entries.Sorted a.fields)
    (hall : ∀ name, ¬ done name → a.field name = .null) : a.IsTwin R b := by
  refine ⟨h.type, fun entry hentry => ?_, h.set⟩
  have hfield : a.field entry.1 = entry.2 := by
    unfold field
    rw [hsorted.get?_of_mem hentry]
    rfl
  rw [← hfield]
  by_cases hdone : done entry.1
  · exact h.copied entry.1 hdone
  · have hother : b.field entry.1 = .null := by
      unfold field
      rw [h.unset entry.1 hdone]
      rfl
    rw [hall entry.1 hdone, hother]
    exact Value.isTwin_null

end Record.Copies

namespace Document

open Reading Action

variable {α : Type} {g : TypeGraph} {h : Heap} {s : ReadState} {n : Node} {type : TypeId}
  {d : Descriptor} {v : Value} {below : NodeReader}

/-! ## Objects in the making -/

section

variable {before heap heap' : Heap} {x y : ObjectId} {done : String → Prop} {name : String}

/-- The object `y` was made next after the heap `before`, and it looks like the object `x` as far as the
names in `done` go. -/
structure Making (h before heap : Heap) (x y : ObjectId) (done : String → Prop) : Prop where
  number : y.index = before.records.size
  there : y.index < heap.records.size
  old : Heap.ChangesOnly (fun id => before.records.size ≤ id.index) before heap
  record : (h.record x).Copies (h.Alike heap (y.index + 1)) done (heap.record y)

theorem making_alloc (h heap : Heap) (x : ObjectId) :
    Making h heap (heap.alloc ⟨(h.record x).type, []⟩).2 x (heap.alloc ⟨(h.record x).type, []⟩).1
      fun _ => False where
  number := rfl
  there := by simp [Heap.alloc]
  old := Heap.changesOnly_alloc _ heap _
  record := by
    rw [Heap.record_alloc_self]
    exact .new _ _

namespace Making

theorem grow (hm : Making h before heap x y done) (hgrows : heap.GrowsTo heap') :
    Making h before heap' x y done where
  number := hm.number
  there := Nat.lt_of_lt_of_le hm.there hgrows.1
  old := hm.old.trans (hgrows.mono fun _ => False.elim)
  record := by
    rw [hgrows.2 y hm.there fun hfalse => hfalse]
    exact hm.record.mono (Heap.Alike.mono hgrows (fun _ => False.elim) (Nat.le_refl _))

/-- A field is set to what looks like the field of the old object. -/
theorem setField (hm : Making h before heap x y done)
    (hv : ((h.record x).field name).IsTwin (h.Alike heap (y.index + 1)) v) :
    Making h before (heap.setField y name v) x y fun other => done other ∨ other = name := by
  have hchange := Heap.changesOnly_setField heap y name v
  refine ⟨hm.number, Nat.lt_of_lt_of_le hm.there hchange.1, ?_, ?_⟩
  · exact hm.old.trans (hchange.mono fun id hid => by rw [hid, hm.number])
  · -- the change is to the object itself, which no new object refers to
    have hmono : h.Alike heap (y.index + 1) ≤ h.Alike (heap.setField y name v) (y.index + 1) :=
      Heap.Alike.mono hchange (fun id hid => by rw [hid]; exact Nat.lt_succ_self _) (Nat.le_refl _)
    unfold Heap.setField at hmono ⊢
    rw [Heap.record_setRecord_self hm.there]
    exact (hm.record.insert hv).mono hmono

theorem skip (hm : Making h before heap x y done)
    (hv : ((h.record x).field name).IsTwin (h.Alike heap (y.index + 1)) .null) :
    Making h before heap x y fun other => done other ∨ other = name :=
  ⟨hm.number, hm.there, hm.old, hm.record.skip hv⟩

/-- What was read meanwhile consists of objects newer than the one in the making. -/
theorem isTwin_of_filled (hm : Making h before heap x y done) {child : Node}
    (hfilled : Filled h heap heap' v child) : v.IsTwin (h.Alike heap' (y.index + 1)) child.result :=
  hfilled.twin.mono (Heap.Alike.mono (Heap.ChangesOnly.refl (fun _ => False) _) (fun _ => False.elim)
    hm.there)

theorem grows (hm : Making h before heap x y done) : before.GrowsTo heap :=
  ⟨hm.old.1, fun id hid _ => hm.old.2 id hid (Nat.not_le.mpr hid)⟩

/-- The object is made. -/
theorem alike (hm : Making h before heap x y done) (hx : x.index < h.records.size)
    (hsorted : Entries.Sorted (h.record x).fields)
    (hall : ∀ name, ¬ done name → (h.record x).field name = .null) :
    h.Alike heap before.records.size x y := by
  refine Heap.alike_of_record (n := y.index + 1) hx ?_ ?_ hm.there (hm.record.isTwin hsorted hall)
  · rw [hm.number]
    exact Nat.le_succ _
  · rw [hm.number]

end Making

end

/-! ## Steps -/

section

variable {f : Unit → Reading α} {Q : α → ReadState → Prop} {p : Property}

theorem succeeds_checkAccess {m : HttpMethod}
    (hf : (f ()).Succeeds { s with audit := .access m d.name p.name :: s.audit } Q) :
    (checkAccess .unchecked d p m >>= f).Succeeds s Q :=
  succeeds_bind_of_runOn rfl hf

theorem succeeds_setProperty {object : ObjectId} (hplain : p.writesField = none)
    (hf : (f ()).Succeeds
      { s with heap := s.heap.setField object p.name v, audit := .set p.name :: s.audit } Q) :
    (setProperty .unchecked object p v >>= f).Succeeds s Q := by
  have hrun : (setProperty .unchecked object p v).runOn s =
      (.ok (), { s with
        heap := s.heap.setField object (p.writesField.getD p.name) v
        audit := .set p.name :: s.audit }) := rfl
  rw [hplain] at hrun
  exact succeeds_bind_of_runOn hrun hf

end

/-! ## Fields -/

/-- The fields show what an object has in properties of its type. -/
structure FieldsShow (g : TypeGraph) (h : Heap) (below : NodeReader) (d : Descriptor) (a : Record)
    (fields : List Field) : Prop where
  declared : ∀ f ∈ fields, f.property ∈ d.properties
  unforced : ∀ f ∈ fields, f.forced = false
  shows : ∀ f ∈ fields, Shows g h below f.property.type f.json (a.field f.property.name)
  distinct : fields.Pairwise fun f f' => f.property.name ≠ f'.property.name

/-- The type keeps its properties in fields of their own, and their names differ. -/
structure IsPlain (d : Descriptor) : Prop where
  reads : ∀ p ∈ d.properties, p.readsField = none
  writes : ∀ p ∈ d.properties, p.writesField = none
  distinct : Resolution.Distinct d.properties

theorem IsPlain.eq_of_name (hd : IsPlain d) {p q : Property} (hp : p ∈ d.properties)
    (hq : q ∈ d.properties) (h : p.name = q.name) : p = q :=
  hd.distinct.eq_of_named hp hq (Text.sameIgnoringCase_refl _) (h ▸ Text.sameIgnoringCase_refl _)

theorem IsPlain.getFrom (hd : IsPlain d) {p : Property} (hp : p ∈ d.properties) (r : Record) :
    p.getFrom r = r.field p.name := by
  unfold Property.getFrom Record.field
  rw [hd.reads p hp]
  rfl

/-- The mark that a field gets when it is fetched. -/
def fetchedAs (name : String) (f : Field) : Field :=
  if f.property.name = name then { f with fetched := true } else f

theorem fetch_eq_map {name : String} {fields : List Field}
    (h : fields.Pairwise fun f f' => f.property.name ≠ f'.property.name) :
    fetch name fields = fields.map (fetchedAs name) := by
  induction fields with
  | nil => rfl
  | cons f rest ih =>
      obtain ⟨hf, hrest⟩ := List.pairwise_cons.mp h
      unfold fetch
      rw [List.map_cons]
      by_cases hname : f.property.name = name
      · -- only the first field of a name is fetched, and there is no other
        have hothers : rest.map (fetchedAs name) = rest := by
          conv_rhs => rw [← List.map_id rest]
          refine List.map_congr_left fun other hother => ?_
          unfold fetchedAs
          exact if_neg fun hsame => hf other hother (hname.trans hsame.symm)
        rw [if_pos (beq_iff_eq.mpr hname), hothers]
        unfold fetchedAs
        rw [if_pos hname]
      · rw [if_neg (fun hsame => hname (beq_iff_eq.mp hsame)), ih hrest]
        unfold fetchedAs
        rw [if_neg hname]

/-! ## The constructor -/

/-- An object in the making, and the fields that show what is to be in it: those that were fetched are
done. -/
structure Underway (g : TypeGraph) (h : Heap) (below : NodeReader) (d : Descriptor) (before : Heap)
    (x y : ObjectId) (properties : List Property) (done : String → Prop) (fields : List Field)
    (heap : Heap) : Prop where
  making : Making h before heap x y done
  shows : FieldsShow g h below d (h.record x) fields
  marks : ∀ f ∈ fields, f.fetched = true ↔ done f.property.name
  properties : fields.map (·.property) = properties

section

variable {before heap heap' : Heap} {x y : ObjectId} {properties : List Property}
  {done : String → Prop} {fields : List Field} {p : Property}

/-- After a parameter was filled, its field is done. -/
theorem Underway.fetch (hu : Underway g h below d before x y properties done fields heap)
    (hm : Making h before heap' x y fun other => done other ∨ other = p.name) :
    Underway g h below d before x y properties (fun other => done other ∨ other = p.name)
      (Document.fetch p.name fields) heap' := by
  have hkept : ∀ f, (fetchedAs p.name f).property = f.property ∧ (fetchedAs p.name f).json = f.json ∧
      (fetchedAs p.name f).forced = f.forced := by
    intro f
    unfold fetchedAs
    split
    · exact ⟨rfl, rfl, rfl⟩
    · exact ⟨rfl, rfl, rfl⟩
  rw [fetch_eq_map hu.shows.distinct]
  refine ⟨hm, ⟨fun f hf => ?_, fun f hf => ?_, fun f hf => ?_, ?_⟩, fun f hf => ?_, ?_⟩
  · obtain ⟨old, hold, rfl⟩ := List.mem_map.mp hf
    rw [(hkept old).1]
    exact hu.shows.declared old hold
  · obtain ⟨old, hold, rfl⟩ := List.mem_map.mp hf
    rw [(hkept old).2.2]
    exact hu.shows.unforced old hold
  · obtain ⟨old, hold, rfl⟩ := List.mem_map.mp hf
    rw [(hkept old).1, (hkept old).2.1]
    exact hu.shows.shows old hold
  · rw [List.pairwise_map]
    exact hu.shows.distinct.imp fun {f f'} hne => by rw [(hkept f).1, (hkept f').1]; exact hne
  · obtain ⟨old, hold, rfl⟩ := List.mem_map.mp hf
    rw [(hkept old).1]
    unfold fetchedAs
    split
    · rename_i hname
      exact ⟨fun _ => Or.inr hname, fun _ => rfl⟩
    · rename_i hname
      rw [hu.marks old hold]
      exact ⟨Or.inl, fun h => h.resolve_right hname⟩
  · rw [List.map_map, ← hu.properties]
    exact List.map_congr_left fun f _ => (hkept f).1

/-- A constructor parameter is filled from its member, or null is what its default and the object have. -/
def Fillable (a : Record) (properties : List Property) (d : Descriptor) (c : ConstructorParameter) :
    Prop :=
  ∃ p, d.property? c.property = some p ∧
    (p ∈ properties ∨ c.default = some .null ∧ a.field p.name = .null)

theorem succeeds_construct (hd : IsPlain d)
    (hu : Underway g h below d before x y properties done fields s.heap) (hgraph : s.graph = g)
    {c : ConstructorParameter} (hc : Fillable (h.record x) properties d c) :
    (construct .unchecked below d y n fields c).Succeeds s fun made s' => s'.graph = g ∧ made.1 = n ∧
      ∃ done', Underway g h below d before x y properties done' made.2 s'.heap := by
  obtain ⟨p, hp, hvalue⟩ := hc
  have hmem : p ∈ d.properties := Descriptor.mem_of_property? hp
  unfold construct
  rw [hp]
  dsimp only
  cases hfind : fields.find? (·.property.name == p.name) with
  | some field =>
      have hfield : field ∈ fields := List.mem_of_find?_eq_some hfind
      have hname : field.property.name = p.name := by simpa using List.find?_some hfind
      have hsame : field.property = p := hd.eq_of_name (hu.shows.declared field hfield) hmem hname
      have hshows := hu.shows.shows field hfield
      rw [hsame] at hshows
      have hvacant : Vacant p.type (.ofProperty d.id p n.path none) := ⟨⟨rfl, rfl, rfl⟩, rfl, rfl⟩
      obtain ⟨child, s₁, hchild, hgraph₁, hfilled⟩ := hshows _ s hvacant hgraph
      refine succeeds_bind_of_runOn hchild (succeeds_checkAccess
        (succeeds_setProperty (hd.writes p hmem) (succeeds_pure ?_)))
      have hm := hu.making.grow hfilled.grows
      exact ⟨hgraph₁, absorb_of_nil n hfilled.staged, _,
        hu.fetch (hm.setField (hu.making.isTwin_of_filled hfilled))⟩
  | none =>
      have hnone : p ∉ properties := by
        rw [← hu.properties]
        intro hthere
        obtain ⟨f, hf, hfp⟩ := List.mem_map.mp hthere
        have hother := List.find?_eq_none.mp hfind f hf
        rw [hfp, beq_self_eq_true] at hother
        exact hother rfl
      obtain ⟨hdefault, hnull⟩ := hvalue.resolve_left hnone
      rw [hdefault]
      refine succeeds_setProperty (hd.writes p hmem) (succeeds_pure ?_)
      have hvalue : ((h.record x).field p.name).IsTwin (h.Alike s.heap (y.index + 1)) .null := by
        rw [hnull]
        exact Value.isTwin_null
      have hfetch := hu.fetch (hu.making.setField hvalue)
      rw [fetch_eq_map hu.shows.distinct] at hfetch
      -- no field has the name, so there is none to be fetched
      have hsame : fields.map (fetchedAs p.name) = fields := by
        conv_rhs => rw [← List.map_id fields]
        refine List.map_congr_left fun f hf => ?_
        unfold fetchedAs
        exact if_neg fun hname => List.find?_eq_none.mp hfind f hf (beq_iff_eq.mpr hname)
      rw [hsame] at hfetch
      exact ⟨hgraph, rfl, _, hfetch⟩

theorem succeeds_constructAll (hd : IsPlain d)
    (hu : Underway g h below d before x y properties done fields s.heap) (hgraph : s.graph = g)
    {parameters : List ConstructorParameter}
    (hparameters : ∀ c ∈ parameters, Fillable (h.record x) properties d c) :
    (constructAll .unchecked below d y n fields parameters).Succeeds s fun made s' =>
      s'.graph = g ∧ made.1 = n ∧
        ∃ done', Underway g h below d before x y properties done' made.2 s'.heap := by
  induction parameters generalizing s done fields with
  | nil => exact succeeds_pure ⟨hgraph, rfl, done, hu⟩
  | cons c rest ih =>
      unfold constructAll
      refine Succeeds.bind ((succeeds_construct hd hu hgraph (hparameters c List.mem_cons_self)).imp ?_)
      rintro made s₁ ⟨hgraph₁, hnode, done₁, hu₁⟩
      show (constructAll .unchecked below d y made.1 made.2 rest).Succeeds s₁ _
      rw [hnode]
      exact ih hu₁ hgraph₁ fun other hother => hparameters other (List.mem_cons_of_mem _ hother)

end

/-! ## Assignments -/

section

variable {before : Heap} {x y : ObjectId} {done : String → Prop}

theorem succeeds_assign (hd : IsPlain d) (hm : Making h before s.heap x y done) (hgraph : s.graph = g)
    {m : HttpMethod} {f : Field} (hdeclared : f.property ∈ d.properties) (hunforced : f.forced = false)
    (hshows : Shows g h below f.property.type f.json ((h.record x).field f.property.name))
    (hopen : ¬ done f.property.name) :
    (assign .unchecked below d y m n f).Succeeds s fun n' s' => s'.graph = g ∧ n' = n ∧
      Making h before s'.heap x y fun other => done other ∨ other = f.property.name := by
  -- nothing was written to the property yet
  have hcurrent : f.property.read s.heap y = .null := by
    unfold Property.read
    rw [hd.getFrom hdeclared]
    unfold Record.field
    rw [hm.record.unset _ hopen]
    rfl
  have hlook : (fromHeap fun heap => f.property.read heap y).runOn s = (.ok .null, s) := by
    show (Except.ok (f.property.read s.heap y), s) = _
    rw [hcurrent]
  unfold assign
  refine succeeds_bind_of_runOn hlook ?_
  dsimp only
  rw [hunforced]
  have hvacant : Vacant f.property.type (.ofProperty d.id f.property n.path (some .null)) :=
    ⟨⟨rfl, rfl, rfl⟩, rfl, rfl⟩
  obtain ⟨child, s₁, hchild, hgraph₁, hfilled⟩ := hshows _ s hvacant hgraph
  refine succeeds_bind_of_runOn hchild ?_
  have hm₁ := hm.grow hfilled.grows
  have htwin := hm.isTwin_of_filled hfilled
  have hnode := absorb_of_nil n hfilled.staged
  cases hdirty : child.dirty with
  | true =>
      exact succeeds_checkAccess (succeeds_setProperty (hd.writes _ hdeclared)
        (succeeds_pure ⟨hgraph₁, hnode, hm₁.setField htwin⟩))
  | false =>
      rw [hfilled.clean hdirty] at htwin
      exact succeeds_pure ⟨hgraph₁, hnode, hm₁.skip htwin⟩

theorem succeeds_assignAll (hd : IsPlain d) (hm : Making h before s.heap x y done) (hgraph : s.graph = g)
    {m : HttpMethod} {fields : List Field} (hfields : FieldsShow g h below d (h.record x) fields)
    (hopen : ∀ f ∈ fields, ¬ done f.property.name) :
    (assignAll .unchecked below d y m n fields).Succeeds s fun n' s' => s'.graph = g ∧ n' = n ∧
      Making h before s'.heap x y
        fun other => done other ∨ ∃ f ∈ fields, f.property.name = other := by
  induction fields generalizing s done with
  | nil =>
      have hdone : (fun other => done other ∨ ∃ f ∈ ([] : List Field), f.property.name = other) = done := by
        funext other
        simp
      exact succeeds_pure ⟨hgraph, rfl, by rw [hdone]; exact hm⟩
  | cons f rest ih =>
      obtain ⟨hdeclared, hunforced, hshows, hdistinct⟩ := hfields
      obtain ⟨hf, hrest⟩ := List.pairwise_cons.mp hdistinct
      have hself : f ∈ f :: rest := List.mem_cons_self
      unfold assignAll
      refine Succeeds.bind ((succeeds_assign hd hm hgraph (hdeclared f hself) (hunforced f hself)
        (hshows f hself) (hopen f hself)).imp ?_)
      rintro n₁ s₁ ⟨hgraph₁, hnode, hm₁⟩
      rw [hnode]
      have hlater : ∀ other ∈ rest, other ∈ f :: rest := fun other hother => List.mem_cons_of_mem _ hother
      refine (ih hm₁ hgraph₁ ⟨fun other hother => hdeclared other (hlater other hother),
        fun other hother => hunforced other (hlater other hother),
        fun other hother => hshows other (hlater other hother), hrest⟩ fun other hother => ?_).imp ?_
      · rintro (hdone | hsame)
        · exact hopen other (hlater other hother) hdone
        · exact hf other hother hsame.symm
      · rintro n' s' ⟨hgraph', hnode', hm'⟩
        have hdone : (fun name => (done name ∨ name = f.property.name) ∨
            ∃ other ∈ rest, other.property.name = name) =
              fun name => done name ∨ ∃ other ∈ f :: rest, other.property.name = name := by
          funext name
          simp only [List.exists_mem_cons_iff, or_assoc, @eq_comm String name]
        exact ⟨hgraph', hnode', by rw [← hdone]; exact hm'⟩

end

/-! ## New objects -/

/-- **An object is made anew from fields that show all that the old one has.** -/
theorem succeeds_createObject (hd : IsPlain d) {m : Members} (hconcrete : m.isAbstract = false)
    {x : ObjectId} {fields : List Field} (hn : Blank n) (hgraph : s.graph = g)
    (hx : x.index < h.records.size) (htype : (h.record x).type = d.id)
    (hsorted : Entries.Sorted (h.record x).fields) (hfields : FieldsShow g h below d (h.record x) fields)
    (hfresh : ∀ f ∈ fields, f.fetched = false)
    (hparameters : ∀ c ∈ m.constructor, Fillable (h.record x) (fields.map (·.property)) d c)
    (hcovered : ∀ name, (h.record x).field name ≠ .null → ∃ f ∈ fields, f.property.name = name) :
    (createObject .unchecked below d m n fields).Succeeds s
      fun n' s' => s'.graph = g ∧ Filled h s.heap s'.heap (.object x) n' := by
  have hmade := making_alloc h s.heap x
  rw [htype] at hmade
  have hstart : Underway g h below d s.heap x (s.heap.alloc ⟨d.id, []⟩).1 (fields.map (·.property))
      (fun _ => False) fields (s.heap.alloc ⟨d.id, []⟩).2 :=
    ⟨hmade, hfields, fun f hf => by rw [hfresh f hf]; exact ⟨nofun, False.elim⟩, rfl⟩
  unfold createObject
  rw [hconcrete]
  have halloc : (onHeap (Action.change fun h => h.alloc ⟨d.id, []⟩)).runOn s =
      (.ok (s.heap.alloc ⟨d.id, []⟩).1, { s with heap := (s.heap.alloc ⟨d.id, []⟩).2 }) := rfl
  refine succeeds_bind_of_runOn halloc ?_
  refine Succeeds.bind ((succeeds_constructAll
    (s := { s with heap := (s.heap.alloc ⟨d.id, []⟩).2 }) hd hstart hgraph hparameters).imp ?_)
  intro made s₁ ⟨hgraph₁, hnode₁, done, hunder⟩
  dsimp only
  -- what the constructor did not take is assigned
  have hrest : FieldsShow g h below d (h.record x) (made.2.filter (!·.fetched)) :=
    ⟨fun f hf => hunder.shows.declared f (List.mem_of_mem_filter hf),
      fun f hf => hunder.shows.unforced f (List.mem_of_mem_filter hf),
      fun f hf => hunder.shows.shows f (List.mem_of_mem_filter hf), hunder.shows.distinct.filter _⟩
  have hopen : ∀ f ∈ made.2.filter (!·.fetched), ¬ done f.property.name := by
    intro f hf hdone
    obtain ⟨hmem, hunfetched⟩ := List.mem_filter.mp hf
    rw [(hunder.marks f hmem).mpr hdone] at hunfetched
    cases hunfetched
  refine Succeeds.bind ((succeeds_assignAll hd hunder.making hgraph₁ hrest hopen).imp ?_)
  intro n₂ s₂ ⟨hgraph₂, hnode₂, hmaking⟩
  have hall : ∀ name, ¬ (done name ∨ ∃ f ∈ made.2.filter (!·.fetched), f.property.name = name) →
      (h.record x).field name = .null := by
    intro name hmissing
    by_contra hnull
    obtain ⟨f, hf, hname⟩ := hcovered name hnull
    -- the field is still among the fields, fetched or not
    have hthere : f.property ∈ made.2.map (·.property) := by
      rw [hunder.properties]
      exact List.mem_map_of_mem hf
    obtain ⟨f₁, hf₁, hproperty⟩ := List.mem_map.mp hthere
    rw [← hproperty] at hname
    cases hfetched : f₁.fetched with
    | true => exact hmissing (Or.inl (hname ▸ (hunder.marks f₁ hf₁).mp hfetched))
    | false =>
        have hleft : f₁ ∈ made.2.filter (!·.fetched) :=
          List.mem_filter.mpr ⟨hf₁, by rw [hfetched]; rfl⟩
        exact hmissing (Or.inr ⟨f₁, hleft, hname⟩)
  have hblank : Blank n₂ := by
    rw [hnode₂, hnode₁]
    exact ⟨hn.result, hn.staged, hn.dirty⟩
  exact hblank.setValue hgraph₂ hmaking.grows (Value.isTwin_object (hmaking.alike hx hsorted hall))

/-! ## Members -/

theorem jsonName_ne {p : Property} (hletter : p.startsWithLetter = true) {key : String}
    (hkey : key.toList.head? = some '_') : p.jsonName ≠ key := by
  obtain ⟨c, rest, hname, hmark⟩ := Property.head_jsonName hletter
  intro hsame
  rw [← hsame, hname] at hkey
  cases hkey
  exact hmark List.mem_cons_self

theorem isUnmarkedKey_jsonName {p : Property} (hletter : p.startsWithLetter = true) :
    IsUnmarkedKey p.jsonName := by
  obtain ⟨c, rest, hname, hmark⟩ := Property.head_jsonName hletter
  intro first hfirst
  rw [hname] at hfirst
  cases hfirst
  simp only [List.mem_cons, List.not_mem_nil, or_false, not_or] at hmark ⊢
  exact ⟨hmark.2.2.1, hmark.2.2.2.1, hmark.2.2.2.2⟩

/-- The field that a member is, if it is the property that it is called. -/
def toldField (d : Descriptor) (member : String × Json) : Option Field :=
  (d.properties.find? (·.jsonName == member.1)).map fun p => ⟨p, member.2, false, false⟩

/-- The document tells an object that is of the type `d` and has the record `a`, in a slot of the type
`expected`: a member for each property that has a value, and no others but for those that say of which
type the object is and where. -/
structure Tells (g : TypeGraph) (h : Heap) (below : NodeReader) (expected : TypeId) (d : Descriptor)
    (a : Record) (members : Entries Json) : Prop where
  sorted : members.Sorted
  type : Entries.get? "_type" members = none ∧ d.id = expected ∨
    Entries.get? "_type" members = some (.string d.name)
  uri : Entries.get? "_uri" members = none ∨
    (∃ uri, Entries.get? "_uri" members = some (.string uri)) ∧ isBareUri members = false
  told : ∀ member ∈ members, member.1 = "_type" ∨ member.1 = "_uri" ∨
    ∃ p ∈ d.properties, member.1 = p.jsonName ∧ Shows g h below p.type member.2 (a.field p.name)
  covered : ∀ name, a.field name ≠ .null →
    ∃ p ∈ d.properties, p.name = name ∧ (Entries.get? p.jsonName members).isSome = true

section

variable {a : Record} {members : Entries Json} {member : String × Json} {p : Property} {f : Field}

theorem toldField_eq (hd : IsPlain d) (hletters : ∀ p ∈ d.properties, p.startsWithLetter = true)
    (hp : p ∈ d.properties) (hname : member.1 = p.jsonName) :
    toldField d member = some ⟨p, member.2, false, false⟩ := by
  unfold toldField
  cases hfind : d.properties.find? (·.jsonName == member.1) with
  | none =>
      have hnone := List.find?_eq_none.mp hfind p hp
      exact absurd (beq_iff_eq.mpr hname.symm) hnone
  | some q =>
      have hq : q ∈ d.properties := List.mem_of_find?_eq_some hfind
      have hqname : q.jsonName = member.1 := by simpa using List.find?_some hfind
      rw [Property.eq_of_jsonName hd.distinct hq hp (hletters q hq) (hletters p hp) (hqname.trans hname)]
      rfl

theorem toldField_eq_none (hletters : ∀ p ∈ d.properties, p.startsWithLetter = true)
    (hname : member.1 = "_type" ∨ member.1 = "_uri") : toldField d member = none := by
  have hnone : d.properties.find? (·.jsonName == member.1) = none := by
    refine List.find?_eq_none.mpr fun q hq hsame => ?_
    rcases hname with htype | huri
    · rw [htype] at hsame
      exact jsonName_ne (hletters q hq) rfl (beq_iff_eq.mp hsame)
    · rw [huri] at hsame
      exact jsonName_ne (hletters q hq) rfl (beq_iff_eq.mp hsame)
  unfold toldField
  rw [hnone]
  rfl

theorem fieldOf_jsonName (hd : IsPlain d) (hp : p ∈ d.properties) (hletter : p.startsWithLetter = true)
    (path : String) (json : Json) :
    fieldOf d path p.jsonName json = .ok (some ⟨p, json, false, false⟩) := by
  have hmark := isUnmarkedKey_jsonName hletter
  have htype : (p.jsonName == "_type") = false := beq_eq_false_iff_ne.mpr (jsonName_ne hletter rfl)
  have huri : (p.jsonName == "_uri") = false := beq_eq_false_iff_ne.mpr (jsonName_ne hletter rfl)
  obtain ⟨c, rest, hname, hc⟩ := Property.head_jsonName hletter
  have hforced : Text.after? "!" p.jsonName = none :=
    after?_eq_none rfl fun first hfirst => by rintro rfl; exact hmark _ hfirst (by decide)
  have hescape : Text.after? "^" p.jsonName = none := by
    refine after?_eq_none rfl fun first hfirst => ?_
    rw [hname] at hfirst
    cases hfirst
    rintro rfl
    exact hc (by decide)
  unfold fieldOf unescape
  rw [htype, huri, hmark.isIdentifierKey, hforced, hescape]
  dsimp only [Option.getD_none]
  rw [Descriptor.property?_of_mem hd.distinct hp (Property.isNamed_jsonName hletter)]
  rfl

theorem fieldsOf_eq (hd : IsPlain d) (hletters : ∀ p ∈ d.properties, p.startsWithLetter = true)
    (path : String) (htold : ∀ member ∈ members, member.1 = "_type" ∨ member.1 = "_uri" ∨
      ∃ p ∈ d.properties, member.1 = p.jsonName) :
    fieldsOf d path members = .ok (members.filterMap (toldField d)) := by
  induction members with
  | nil => rfl
  | cons member rest ih =>
      have hrest := ih fun other hother => htold other (List.mem_cons_of_mem _ hother)
      have hfirst : fieldOf d path member.1 member.2 = .ok (toldField d member) := by
        rcases htold member List.mem_cons_self with htype | huri | ⟨p, hp, hname⟩
        · rw [toldField_eq_none hletters (Or.inl htype), htype]
          rfl
        · rw [toldField_eq_none hletters (Or.inr huri), huri]
          rfl
        · rw [toldField_eq hd hletters hp hname, hname]
          exact fieldOf_jsonName hd hp (hletters p hp) path member.2
      unfold fieldsOf
      rw [hfirst, hrest, List.filterMap_cons]
      cases toldField d member <;> rfl

theorem jsonName_of_toldField (h : toldField d member = some f) : f.property.jsonName = member.1 := by
  obtain ⟨p, hfind, hself⟩ := Option.map_eq_some_iff.mp h
  rw [← hself]
  simpa using List.find?_some hfind

/-- Members of different keys are fields of different properties. -/
theorem pairwise_toldFields (hsorted : members.Sorted) :
    (members.filterMap (toldField d)).Pairwise fun f f' => f.property.name ≠ f'.property.name := by
  refine List.pairwise_filterMap.mpr (hsorted.imp fun {first second} hlt f hf f' hf' hsame => ?_)
  have hjson : f.property.jsonName = f'.property.jsonName := by
    unfold Property.jsonName
    rw [hsame]
  rw [jsonName_of_toldField hf, jsonName_of_toldField hf'] at hjson
  exact hlt.ne hjson

theorem pairwise_inDeclarationOrder (hd : IsPlain d) {fields : List Field}
    (h : fields.Pairwise fun f f' => f.property.name ≠ f'.property.name) :
    (inDeclarationOrder d fields).Pairwise fun f f' => f.property.name ≠ f'.property.name := by
  unfold inDeclarationOrder
  refine List.pairwise_flatMap.mpr ⟨fun p _ => h.filter _, hd.distinct.imp fun {p q} hpq f hf f' hf' => ?_⟩
  have hfp : f.property.name = p.name := by simpa using (List.mem_filter.mp hf).2
  have hfq : f'.property.name = q.name := by simpa using (List.mem_filter.mp hf').2
  intro hsame
  unfold Property.isNamed at hpq
  rw [← hfp, ← hfq, hsame, Text.sameIgnoringCase_refl] at hpq
  cases hpq

theorem mem_inDeclarationOrder_iff (hd : f.property ∈ d.properties) {fields : List Field} :
    f ∈ inDeclarationOrder d fields ↔ f ∈ fields :=
  ⟨mem_inDeclarationOrder, fun hf => List.mem_flatMap.mpr ⟨f.property, hd,
    List.mem_filter.mpr ⟨hf, beq_self_eq_true _⟩⟩⟩

/-- What the fields of a document that tells an object are, in the order in which they are read. -/
structure ToldFields (g : TypeGraph) (h : Heap) (below : NodeReader) (d : Descriptor) (a : Record)
    (members : Entries Json) (fields : List Field) : Prop where
  shows : FieldsShow g h below d a fields
  fresh : ∀ f ∈ fields, f.fetched = false
  complete : ∀ p ∈ d.properties, (Entries.get? p.jsonName members).isSome = true →
    p ∈ fields.map (·.property)

theorem Tells.fields (hd : IsPlain d) (hletters : ∀ p ∈ d.properties, p.startsWithLetter = true)
    {expected : TypeId} (ht : Tells g h below expected d a members) (path : String) :
    ∃ fields, fieldsOf d path members = .ok fields ∧
      ToldFields g h below d a members (inDeclarationOrder d fields) := by
  have hnamed : ∀ member ∈ members, member.1 = "_type" ∨ member.1 = "_uri" ∨
      ∃ p ∈ d.properties, member.1 = p.jsonName := fun member hmember =>
    (ht.told member hmember).imp_right (Or.imp_right fun ⟨p, hp, hname, _⟩ => ⟨p, hp, hname⟩)
  -- a field is from the member of its name, and that one shows the property
  have hsource : ∀ f ∈ inDeclarationOrder d (members.filterMap (toldField d)),
      f.property ∈ d.properties ∧ f.forced = false ∧ f.fetched = false ∧
        Shows g h below f.property.type f.json (a.field f.property.name) := by
    intro f hf
    obtain ⟨member, hmember, hfield⟩ := List.mem_filterMap.mp (mem_inDeclarationOrder hf)
    have htag : ¬ (member.1 = "_type" ∨ member.1 = "_uri") := fun htag => by
      rw [toldField_eq_none hletters htag] at hfield
      cases hfield
    obtain ⟨p, hp, hname, hshows⟩ := (or_assoc.mpr (ht.told member hmember)).resolve_left htag
    rw [toldField_eq hd hletters hp hname] at hfield
    cases hfield
    exact ⟨hp, rfl, rfl, hshows⟩
  refine ⟨members.filterMap (toldField d), fieldsOf_eq hd hletters path hnamed,
    ⟨fun f hf => (hsource f hf).1, fun f hf => (hsource f hf).2.1, fun f hf => (hsource f hf).2.2.2,
      pairwise_inDeclarationOrder hd (pairwise_toldFields ht.sorted)⟩,
    fun f hf => (hsource f hf).2.2.1, fun p hp hthere => ?_⟩
  obtain ⟨json, hjson⟩ := Option.isSome_iff_exists.mp hthere
  have hfield : toldField d (p.jsonName, json) = some ⟨p, json, false, false⟩ :=
    toldField_eq hd hletters hp rfl
  exact List.mem_map.mpr ⟨⟨p, json, false, false⟩, (mem_inDeclarationOrder_iff hp).mpr
    (List.mem_filterMap.mpr ⟨_, Entries.mem_of_get? hjson, hfield⟩), rfl⟩

end

/-! ## Objects -/

/-- An object of the heap that can be made anew from a document, and of which the document tells. -/
structure Told (g : TypeGraph) (h : Heap) (below : NodeReader) (expected : TypeId) (d : Descriptor)
    (m : Members) (x : ObjectId) (members : Entries Json) : Prop where
  inHeap : x.index < h.records.size
  type : (h.record x).type = d.id
  sorted : Entries.Sorted (h.record x).fields
  plain : IsPlain d
  letters : ∀ p ∈ d.properties, p.startsWithLetter = true
  concrete : m.isAbstract = false
  tells : Tells g h below expected d (h.record x) members
  parameters : ∀ c ∈ m.constructor, ∃ p, d.property? c.property = some p ∧
    ((Entries.get? p.jsonName members).isSome = true ∨
      c.default = some .null ∧ (h.record x).field p.name = .null)

section

variable {m : Members} {x : ObjectId} {members : Entries Json} {expected : TypeId}

theorem succeeds_readContent (hd : g.table.get? d.id = some d) (hm : d.members? = some m)
    (ht : Told g h below expected d m x members) (hn : Blank n) (htype : n.type = d.id)
    (hgraph : s.graph = g) :
    (readContent .unchecked below n members).Succeeds s
      fun n' s' => s'.graph = g ∧ Filled h s.heap s'.heap (.object x) n' := by
  obtain ⟨fields, hfields, htold⟩ := ht.tells.fields ht.plain ht.letters n.path
  unfold readContent
  rw [hn.keptObject?]
  refine succeeds_bind_of_runOn (a := n) rfl ?_
  refine succeeds_descriptor (d := d) (by rw [hgraph, htype, hd]) ?_
  rw [hm]
  refine succeeds_known hfields ?_
  refine succeeds_createObject ht.plain ht.concrete hn hgraph ht.inHeap ht.type ht.sorted htold.shows
    htold.fresh (fun c hc => ?_) fun name hvalue => ?_
  · obtain ⟨p, hp, hfilled⟩ := ht.parameters c hc
    exact ⟨p, hp, hfilled.imp_left (htold.complete p (Descriptor.mem_of_property? hp))⟩
  · obtain ⟨p, hp, hname, hthere⟩ := ht.tells.covered name hvalue
    obtain ⟨f, hf, hproperty⟩ := List.mem_map.mp (htold.complete p hp hthere)
    exact ⟨f, hf, (congrArg Property.name hproperty).trans hname⟩

/-- The type that a document tells, or the one of the slot if it tells none. -/
theorem succeeds_narrow {e : Descriptor} {f : Node → Reading Node} {Q : Node → ReadState → Prop}
    (hname : g.byName d.name = (.ok d, g)) (hfits : e.isAny = true ∨ g.isAssignable e.id d.id = true)
    (htype : n.type = expected)
    (htag : Entries.get? "_type" members = none ∧ d.id = expected ∨
      Entries.get? "_type" members = some (.string d.name)) (hgraph : s.graph = g)
    (hf : (f { n with type := d.id }).Succeeds s Q) :
    (narrow e n members >>= f).Succeeds s Q := by
  have hrun : (narrow e n members).runOn s = (.ok { n with type := d.id }, s) := by
    unfold narrow
    rcases htag with ⟨hnone, hsame⟩ | htag
    · rw [hnone, hsame, ← htype]
      rfl
    · rw [htag]
      dsimp only
      rw [runOn_bind, runOn_typeNamed (d := d) (by rw [hgraph, hname])]
      dsimp only
      have hlook : (Action.look fun s : ReadState => Except.ok (s.graph.isAssignable e.id d.id)).runOn s =
          (.ok (g.isAssignable e.id d.id), s) := by
        rw [← hgraph]
        rfl
      rw [runOn_bind, hlook]
      dsimp only
      rcases hfits with hany | hfits
      · rw [hany]
        rfl
      · rw [hfits, Bool.not_true, Bool.and_false]
        rfl
  exact succeeds_bind_of_runOn hrun hf

/-- **An object is read back from a document that tells it.** -/
theorem succeeds_readObject {e : Descriptor} (hd : g.table.get? d.id = some d)
    (hm : d.members? = some m) (ht : Told g h below expected d m x members)
    (he : g.table.get? expected = some e) (hself : e.id = expected)
    (hname : g.byName d.name = (.ok d, g)) (hfits : e.isAny = true ∨ g.isAssignable expected d.id = true)
    (href : Entries.get? "_ref" members = none) (hn : Vacant expected n) (hgraph : s.graph = g) :
    (readObject .unchecked below n (.object members)).Succeeds s
      fun n' s' => s'.graph = g ∧ Filled h s.heap s'.heap (.object x) n' := by
  have hmember : refMember members = .ok none := by
    unfold refMember
    rw [href]
  unfold readObject
  refine succeeds_known hmember ?_
  refine succeeds_descriptor (d := e) (by rw [hgraph, hn.expected, he]) ?_
  rw [← hself] at hfits
  refine succeeds_narrow hname hfits hn.type ht.tells.type hgraph ?_
  have hblank : ∀ uri, Blank { n with type := d.id, uri := uri } := fun uri =>
    ⟨hn.result, hn.staged, hn.dirty⟩
  rcases ht.tells.uri with hnone | ⟨⟨uri, huri⟩, hbare⟩
  · rw [hnone]
    exact succeeds_readContent hd hm ht (hblank n.uri) rfl hgraph
  · rw [huri]
    dsimp only
    rw [hbare]
    exact succeeds_readContent hd hm ht (hblank (some uri)) rfl hgraph

/-- In a slot of a type with members the document is read as an object; in an untyped slot the type that
it tells says that it is one. -/
theorem shows_object {e : Descriptor} (hd : g.table.get? d.id = some d) (hm : d.members? = some m)
    (ht : Told g h below expected d m x members) (he : g.table.get? expected = some e)
    (hself : e.id = expected) (hname : g.byName d.name = (.ok d, g))
    (hslot : e.isAny = true ∨ e.members?.isSome = true ∧ g.isAssignable expected d.id = true)
    (href : Entries.get? "_ref" members = none) :
    Shows g h (readWith .unchecked below) expected (.object members) (.object x) := by
  have hread : ∀ n s, Vacant expected n → s.graph = g →
      (readObject .unchecked below n (.object members)).Succeeds s
        fun n' s' => s'.graph = g ∧ Filled h s.heap s'.heap (.object x) n' := fun n s hn hgraph =>
    succeeds_readObject hd hm ht he hself hname (hslot.imp_right And.right) href hn hgraph
  rcases hslot with hany | ⟨hmembers, -⟩
  · have htag : Entries.get? "_type" members = some (.string d.name) := by
      refine ht.tells.type.resolve_left fun ⟨_, hsame⟩ => ?_
      -- a type with members is not the one of an untyped slot
      rw [hsame, he] at hd
      cases hd
      rw [Descriptor.members?, Descriptor.shape_of_isAny hany] at hm
      cases hm
    refine shows_untyped he hany rfl fun n s hn hgraph => ?_
    unfold readUntyped readUntypedObject
    dsimp only
    rw [htag]
    refine succeeds_typeNamed (d := d) (by rw [hgraph, hname]) ?_
    rw [hm]
    exact hread n s hn hgraph
  · refine shows_of_shape he rfl fun n s hn hgraph => ?_
    unfold Descriptor.members? at hmembers
    unfold readShape
    cases hshape : e.shape with
    | structured members => exact hread n s hn hgraph
    | resource members address => exact hread n s hn hgraph
    | _ =>
        rw [hshape] at hmembers
        cases hmembers

end

end Document

end ResourceQuery
