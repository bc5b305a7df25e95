import ResourceQuery.Proofs.Type.Growth
import ResourceQuery.Proofs.Wire.ItemEdits

set_option autoImplicit false

/-! # Versions of an object

A document may reach one object on many ways, and every patch of it works on a copy of its own. This
file follows **one property of one object** through a reading in which the declared masks decide. The
object and the copies made of it are its *versions*. The invariant `Watch.Fits` says of every version
that it has the type of the object, and that the property's value in it came from the value at the
start in a permitted way (`Property.Evolves`).

Which copies are versions is not written down anywhere in the state, so the invariant speaks of a set
of objects, `Versions`, that grows while the heap does: a copy of a version is a version, and other new
objects are none. `Watch.Keeps F x G` says that started with `Fits` and a fact `F` on the versions, `x`
ends with `Fits` for a larger set and the fact `G` for its answer. The fact that travels through all
nodes is `Versions.Paired`: a staged copy of a version is a version. It makes the commit at the root
harmless, since that writes versions over versions.
-/

namespace ResourceQuery

/-! ## Permitted changes -/

namespace Property

/-- What the declared masks allow to happen to the stored value of a property: any change if the
property may be patched, else edits of a list that each are allowed for its items. -/
def MaskAllows (p : Property) (old new : Value) : Prop :=
  p.access.contains .patch = true ∨
    ∃ xs ys, old = .list xs ∧ new = .list ys ∧ ItemEdits p.itemAccess xs ys

/-- What happens to the stored value of a property: what the masks allow, and that a value which is no
list takes the place of a list. -/
inductive Evolves (p : Property) (old : Value) : Value → Prop where
  | same : Evolves p old old
  | allowed {new : Value} (h : p.MaskAllows old new) : Evolves p old new
  | displaced {xs : List Value} {new : Value} (hold : old = .list xs) (hnew : new.NotList) :
      Evolves p old new

variable {p : Property} {u v w : Value}

theorem Evolves.trans (h₁ : p.Evolves u v) (h₂ : p.Evolves v w) : p.Evolves u w := by
  cases h₂ with
  | same => exact h₁
  | allowed hvw =>
      rcases hvw with hpatch | ⟨ys, zs, hv, hw, hedits⟩
      · exact .allowed (Or.inl hpatch)
      · cases h₁ with
        | same => exact .allowed (Or.inr ⟨ys, zs, hv, hw, hedits⟩)
        | allowed huv =>
            rcases huv with hpatch | ⟨xs, ys', hu, hv', hedits'⟩
            · exact .allowed (Or.inl hpatch)
            · -- the edits came to the list that the later ones start from
              have hsame : ys' = ys := Value.list.inj (hv'.symm.trans hv)
              rw [hsame] at hedits'
              exact .allowed (Or.inr ⟨xs, zs, hu, hw, hedits'.trans hedits⟩)
        | displaced _ hv' => exact absurd hv (hv' ys)
  | @displaced ys _ hv hw =>
      cases h₁ with
      | same => exact .displaced hv hw
      | allowed huv =>
          rcases huv with hpatch | ⟨xs, _, hu, _, _⟩
          · exact .allowed (Or.inl hpatch)
          · exact .displaced hu hw
      | displaced hu _ => exact .displaced hu hw

end Property

/-! ## What is followed -/

/-- A property of an object that is followed through a reading: the types at the start, the descriptor
of the object, and the value that is stored in it. -/
structure Watch where
  table : TypeTable
  type : TypeId
  descriptor : Descriptor
  property : Property
  slot : Descriptor
  old : Value
  known : table.get? type = some descriptor
  called : descriptor.property? property.name = some property
  /-- The property reads the field that it writes. -/
  direct : property.readsField = none
  /-- Every property of the object writes its own field. -/
  plain : ∀ q ∈ descriptor.properties, q.writesField = none
  slotKnown : table.get? property.type = some slot
  typed : slot.isAny = false
  /-- The first type has no members. It is the type that a number stands for which was never given to an
  object. -/
  first : ∃ d, table.get? ⟨0⟩ = some d ∧ d.members? = none

/-- Which of the first objects of a heap are versions of the one that is followed. -/
structure Versions where
  size : Nat
  isVersion : ObjectId → Prop

namespace Versions

/-- More objects, and the same versions among the old ones. -/
def Grows (V V' : Versions) : Prop :=
  V.size ≤ V'.size ∧ ∀ id : ObjectId, id.index < V.size → (V'.isVersion id ↔ V.isVersion id)

variable {V V' V'' : Versions}

theorem Grows.refl (V : Versions) : V.Grows V :=
  ⟨Nat.le_refl _, fun _ _ => Iff.rfl⟩

theorem Grows.trans (h₁ : V.Grows V') (h₂ : V'.Grows V'') : V.Grows V'' := by
  refine ⟨Nat.le_trans h₁.1 h₂.1, fun id hid => ?_⟩
  exact (h₂.2 id (Nat.lt_of_lt_of_le hid h₁.1)).trans (h₁.2 id hid)

/-- Copies of versions are versions. -/
def Paired (pairs : List (ObjectId × ObjectId)) (V : Versions) : Prop :=
  ∀ pair ∈ pairs, pair.1.index < V.size ∧ pair.2.index < V.size ∧
    (V.isVersion pair.1 → V.isVersion pair.2)

/-- The object is no version. -/
def Foreign (object : ObjectId) (V : Versions) : Prop :=
  object.index < V.size ∧ ¬ V.isVersion object

/-- A fact on versions that stays true while they grow. -/
def Stable (F : Versions → Prop) : Prop :=
  ∀ V V', V.Grows V' → F V → F V'

theorem stable_true : Stable fun _ => True :=
  fun _ _ _ _ => trivial

theorem stable_and {F G : Versions → Prop} (hF : Stable F) (hG : Stable G) :
    Stable fun V => F V ∧ G V :=
  fun V V' hgrows h => ⟨hF V V' hgrows h.1, hG V V' hgrows h.2⟩

theorem stable_paired (pairs : List (ObjectId × ObjectId)) : Stable (Paired pairs) := by
  intro V V' hgrows h pair hpair
  obtain ⟨h₁, h₂, hversion⟩ := h pair hpair
  refine ⟨Nat.lt_of_lt_of_le h₁ hgrows.1, Nat.lt_of_lt_of_le h₂ hgrows.1, ?_⟩
  rw [hgrows.2 _ h₁, hgrows.2 _ h₂]
  exact hversion

theorem stable_foreign (object : ObjectId) : Stable (Foreign object) := by
  intro V V' hgrows h
  refine ⟨Nat.lt_of_lt_of_le h.1 hgrows.1, ?_⟩
  rw [hgrows.2 _ h.1]
  exact h.2

theorem paired_nil (V : Versions) : Paired [] V := by
  intro pair hpair
  cases hpair

theorem Paired.append {ps qs : List (ObjectId × ObjectId)} (hps : Paired ps V)
    (hqs : Paired qs V) : Paired (ps ++ qs) V := by
  intro pair hpair
  rcases List.mem_append.mp hpair with h | h
  · exact hps pair h
  · exact hqs pair h

/-- One more object, which is a version or not. -/
def push (V : Versions) (version : Prop) : Versions :=
  ⟨V.size + 1, fun id => V.isVersion id ∧ id.index < V.size ∨ id.index = V.size ∧ version⟩

theorem grows_push (V : Versions) (version : Prop) : V.Grows (V.push version) := by
  refine ⟨Nat.le_succ _, fun id hid => ?_⟩
  constructor
  · intro h
    rcases h with ⟨h, _⟩ | ⟨heq, _⟩
    · exact h
    · omega
  · exact fun h => Or.inl ⟨h, hid⟩

theorem isVersion_push_self {V : Versions} {version : Prop} {id : ObjectId}
    (hid : id.index = V.size) : (V.push version).isVersion id ↔ version := by
  constructor
  · intro h
    rcases h with ⟨_, hlt⟩ | ⟨_, h⟩
    · omega
    · exact h
  · exact fun h => Or.inr ⟨hid, h⟩

end Versions

/-! ## The invariant -/

namespace Watch

variable {w : Watch} {V : Versions} {s : ReadState}

/-- The versions are objects of the heap; each has the type of the object, and the value of the
property in it evolved from the one at the start. -/
structure Fits (w : Watch) (V : Versions) (s : ReadState) : Prop where
  size : s.heap.records.size = V.size
  types : w.table.Extends s.graph.table
  inHeap : ∀ id, V.isVersion id → id.index < V.size
  type : ∀ id, V.isVersion id → s.heap.typeOf id = w.type
  evolved : ∀ id, V.isVersion id → w.property.Evolves w.old (s.heap.field id w.property.name)

theorem record_congr {h h' : Heap} (hrecords : h'.records = h.records) (id : ObjectId) :
    h'.record id = h.record id := by
  unfold Heap.record
  rw [hrecords]

/-- The invariant is about the records of the heap and the table of types. -/
theorem Fits.congr {s' : ReadState} (h : w.Fits V s) (hrecords : s'.heap.records = s.heap.records)
    (htypes : s.graph.table.Extends s'.graph.table) : w.Fits V s' where
  size := by rw [hrecords, h.size]
  types := h.types.trans htypes
  inHeap := h.inHeap
  type := fun id hid => by
    rw [← h.type id hid]
    unfold Heap.typeOf
    rw [record_congr hrecords]
  evolved := fun id hid => by
    have hevolved := h.evolved id hid
    unfold Heap.field at hevolved ⊢
    rw [record_congr hrecords]
    exact hevolved

/-- A new object with the record of `source`, which is a version if `source` is. -/
theorem Fits.detach (h : w.Fits V s) {source : ObjectId} :
    w.Fits (V.push (V.isVersion source)) { s with heap := (s.heap.detach source).2 } := by
  -- the copy is a new object, and the others stay as they are
  have hold : ∀ id : ObjectId, id.index < V.size →
      (s.heap.detach source).2.record id = s.heap.record id :=
    fun id hid => Heap.record_alloc_of_lt (by rw [h.size]; exact hid) _
  have hcopy : ∀ id : ObjectId, id.index = V.size →
      (s.heap.detach source).2.record id = s.heap.record source := by
    intro id hid
    have hself : id = (s.heap.alloc (s.heap.record source)).1 := by
      rw [← h.size] at hid
      cases id
      exact congrArg ObjectId.mk hid
    rw [hself]
    exact Heap.record_alloc_self _ _
  refine ⟨?_, h.types, ?_, ?_, ?_⟩
  · simp [Heap.detach, Heap.alloc, Versions.push, h.size]
  · rintro id (⟨_, hlt⟩ | ⟨heq, _⟩)
    · exact Nat.lt_succ_of_lt hlt
    · exact heq ▸ Nat.lt_succ_self _
  · rintro id (⟨hid, hlt⟩ | ⟨heq, hsource⟩)
    · rw [← h.type id hid]
      exact congrArg Record.type (hold id hlt)
    · rw [← h.type source hsource]
      exact congrArg Record.type (hcopy id heq)
  · rintro id (⟨hid, hlt⟩ | ⟨heq, hsource⟩)
    · have hevolved := h.evolved id hid
      unfold Heap.field at hevolved ⊢
      rw [hold id hlt]
      exact hevolved
    · have hevolved := h.evolved source hsource
      unfold Heap.field at hevolved ⊢
      rw [hcopy id heq]
      exact hevolved

/-- A new object that is no version. -/
theorem Fits.alloc (h : w.Fits V s) (r : Record) :
    w.Fits (V.push False) { s with heap := (s.heap.alloc r).2 } := by
  have hold : ∀ id : ObjectId, id.index < V.size →
      (s.heap.alloc r).2.record id = s.heap.record id :=
    fun id hid => Heap.record_alloc_of_lt (by rw [h.size]; exact hid) _
  refine ⟨?_, h.types, ?_, ?_, ?_⟩
  · simp [Heap.alloc, Versions.push, h.size]
  · rintro id (⟨_, hlt⟩ | ⟨_, hfalse⟩)
    · exact Nat.lt_succ_of_lt hlt
    · exact hfalse.elim
  · rintro id (⟨hid, hlt⟩ | ⟨_, hfalse⟩)
    · rw [← h.type id hid]
      exact congrArg Record.type (hold id hlt)
    · exact hfalse.elim
  · rintro id (⟨hid, hlt⟩ | ⟨_, hfalse⟩)
    · have hevolved := h.evolved id hid
      unfold Heap.field at hevolved ⊢
      rw [hold id hlt]
      exact hevolved
    · exact hfalse.elim

/-- Another record for an object that, if the object is a version, keeps what is followed. -/
theorem Fits.setRecord (h : w.Fits V s) {object : ObjectId} (hobject : object.index < V.size)
    {r : Record} (htype : V.isVersion object → r.type = w.type)
    (hevolved : V.isVersion object →
      w.property.Evolves w.old ((Entries.get? w.property.name r.fields).getD .null)) :
    w.Fits V { s with heap := s.heap.setRecord object r } := by
  -- only the one object has another record
  have hself : (s.heap.setRecord object r).record object = r :=
    Heap.record_setRecord_self (by rw [h.size]; exact hobject) r
  refine ⟨?_, h.types, h.inHeap, fun id hid => ?_, fun id hid => ?_⟩
  · simp [Heap.setRecord, h.size]
  · by_cases heq : id = object
    · rw [heq] at hid ⊢
      rw [← htype hid]
      exact congrArg Record.type hself
    · rw [← h.type id hid]
      exact congrArg Record.type (Heap.record_setRecord_of_ne heq _ _)
  · by_cases heq : id = object
    · rw [heq] at hid ⊢
      unfold Heap.field
      rw [hself]
      exact hevolved hid
    · have hold := h.evolved id hid
      unfold Heap.field at hold ⊢
      rw [Heap.record_setRecord_of_ne heq]
      exact hold

/-- Writing the copies back over the originals keeps the invariant, whatever the order. -/
theorem Fits.writeBack (h : w.Fits V s) {pairs : List (ObjectId × ObjectId)}
    (hpairs : Versions.Paired pairs V) :
    w.Fits V { s with heap := Node.writeBack s.heap pairs } := by
  induction pairs generalizing s with
  | nil => exact h
  | cons pair rest ih =>
      obtain ⟨hobject, _, hversion⟩ := hpairs pair (by simp)
      have hstep : w.Fits V { s with heap := s.heap.overwrite pair.1 pair.2 } :=
        h.setRecord hobject (fun hv => h.type pair.2 (hversion hv))
          (fun hv => h.evolved pair.2 (hversion hv))
      exact ih hstep fun p hp => hpairs p (by simp [hp])

/-! ## Actions -/

variable {α β : Type} {F : Versions → Prop}

/-- Started with the invariant and the fact `F`, the action ends with the invariant for more versions
and the fact `G` for its answer, unless it fails. -/
def Keeps (w : Watch) (F : Versions → Prop) (x : Reading α) (G : α → Versions → Prop) : Prop :=
  ∀ V s, w.Fits V s → F V → ∀ a s', x.runOn s = (.ok a, s') →
    ∃ V', V.Grows V' ∧ w.Fits V' s' ∧ G a V'

/-- The action changes no object and no type. -/
def Quiet (x : Reading α) : Prop :=
  ∀ s, (x.runOn s).2.heap.records = s.heap.records ∧
    s.graph.table.Extends (x.runOn s).2.graph.table

theorem Keeps.imp {F' : Versions → Prop} {G G' : α → Versions → Prop} {x : Reading α}
    (h : w.Keeps F x G) (hF : ∀ V, F' V → F V) (hG : ∀ a V, G a V → G' a V) : w.Keeps F' x G' := by
  intro V s hfits hV a s' hrun
  obtain ⟨V', hgrows, hfits', hV'⟩ := h V s hfits (hF V hV) a s' hrun
  exact ⟨V', hgrows, hfits', hG a V' hV'⟩

/-- A sequence: what was known at the start is known after the first action, besides what that action
adds. -/
theorem keeps_bind {M : α → Versions → Prop} {G : β → Versions → Prop} {x : Reading α}
    {f : α → Reading β} (hF : Versions.Stable F) (hx : w.Keeps F x M)
    (hf : ∀ a, w.Keeps (fun V => F V ∧ M a V) (f a) G) : w.Keeps F (x >>= f) G := by
  intro V s hfits hV b s'' hrun
  rw [Action.runOn_bind] at hrun
  cases hfirst : x.runOn s with
  | mk outcome s' =>
      rw [hfirst] at hrun
      cases outcome with
      | error e => cases hrun
      | ok a =>
          obtain ⟨V', hgrows, hfits', hM⟩ := hx V s hfits hV a s' hfirst
          obtain ⟨V'', hgrows', hfits'', hG⟩ :=
            hf a V' s' hfits' ⟨hF V V' hgrows hV, hM⟩ b s'' hrun
          exact ⟨V'', hgrows.trans hgrows', hfits'', hG⟩

theorem keeps_pure {G : α → Versions → Prop} {a : α} (h : ∀ V, F V → G a V) :
    w.Keeps F (pure a : Reading α) G := by
  intro V s hfits hV b s' hrun
  cases hrun
  exact ⟨V, .refl V, hfits, h V hV⟩

theorem keeps_fail (G : α → Versions → Prop) (e : Error) :
    w.Keeps F (Action.fail e : Reading α) G := by
  intro V s _ _ a s' hrun
  cases hrun

theorem keeps_misshapen (G : α → Versions → Prop) (cause : Misshapen) :
    w.Keeps F (Reading.misshapen cause : Reading α) G :=
  keeps_fail G _

/-- A quiet action adds what can be said of its answer alone. -/
theorem keeps_of_quiet {x : Reading α} (hx : Quiet x) {Q : α → Prop} (hQ : Reading.Yields Q x) :
    w.Keeps F x fun a _ => Q a := by
  intro V s hfits _ a s' hrun
  obtain ⟨hrecords, htypes⟩ := hx s
  rw [hrun] at hrecords htypes
  exact ⟨V, .refl V, hfits.congr hrecords htypes, hQ s a s' hrun⟩

/-- A sequence that starts with a quiet action. -/
theorem keeps_quiet_bind {G : β → Versions → Prop} {x : Reading α} {f : α → Reading β}
    (hx : Quiet x) (hf : ∀ a, w.Keeps F (f a) G) : w.Keeps F (x >>= f) G := by
  intro V s hfits hV b s'' hrun
  obtain ⟨hrecords, htypes⟩ := hx s
  rw [Action.runOn_bind] at hrun
  cases hfirst : x.runOn s with
  | mk outcome s' =>
      rw [hfirst] at hrun hrecords htypes
      cases outcome with
      | error e => cases hrun
      | ok a => exact hf a V s' (hfits.congr hrecords htypes) hV b s'' hrun

/-! ### Quiet actions -/

theorem quiet_look (f : ReadState → Except Error α) : Quiet (Action.look f : Reading α) :=
  fun _ => ⟨rfl, .refl _⟩

theorem quiet_get : Quiet (get : Reading ReadState) :=
  fun _ => ⟨rfl, .refl _⟩

theorem quiet_note (entry : AuditEntry) : Quiet (Reading.note entry) :=
  fun _ => ⟨rfl, .refl _⟩

theorem quiet_fail (e : Error) : Quiet (Action.fail e : Reading α) :=
  fun _ => ⟨rfl, .refl _⟩

theorem quiet_pure (a : α) : Quiet (pure a : Reading α) :=
  fun _ => ⟨rfl, .refl _⟩

theorem quiet_typeNamed (name : String) : Quiet (Reading.typeNamed name) :=
  fun s => ⟨rfl, TypeGraph.extends_byName s.graph name⟩

theorem quiet_bind {x : Reading α} {f : α → Reading β} (hx : Quiet x) (hf : ∀ a, Quiet (f a)) :
    Quiet (x >>= f) := by
  intro s
  obtain ⟨hrecords, htypes⟩ := hx s
  rw [Action.runOn_bind]
  cases hfirst : x.runOn s with
  | mk outcome s' =>
      rw [hfirst] at hrecords htypes
      cases outcome with
      | error e => exact ⟨hrecords, htypes⟩
      | ok a =>
          obtain ⟨hrecords', htypes'⟩ := hf a s'
          exact ⟨hrecords'.trans hrecords, htypes.trans htypes'⟩

end Watch

end ResourceQuery
