import ResourceQuery.Proofs.Type.Resolution
import ResourceQuery.Wire.Reader

set_option autoImplicit false

/-! # What reading leaves alone

Reading a document writes to many objects before it is known whether the document is accepted: the
copies of the objects that it patches, and the objects that it creates. This file shows that all of
them are **new**. Objects that were there when the reading of a node began are untouched when it ends,
whether it ends with a node or with an error.

`Heap.ChangesOnly targets h h'` says that of the objects of `h` at most `targets` differ in `h'`. It is
transitive for fixed targets, and `Reading.Spares n` packs it for an action: started on a heap with at
least `n` objects, the action leaves the first `n` of them alone. The bound `n` is a parameter rather
than the size of the heap at the start, because a node that patches writes to a copy made a few steps
earlier: the copy is new for the node, and old for each single write.

What is shown shape by shape does not depend on what is followed. A `Passage` is a relation between the
states before and after, and if each single step of a reading leads along it, then so does the reading
of a node (`along_readNode`), whatever the depth of the document. That objects are spared
(`spares_readNode`) is one passage; that types are never changed and only become more
(`growsTo_readNode`) is another.
-/

namespace ResourceQuery

/-! ## Heaps -/

namespace Heap

/-- Objects of `h` other than `targets` are the same in `h'`, where there may be more of them. -/
def ChangesOnly (targets : ObjectId → Prop) (h h' : Heap) : Prop :=
  h.records.size ≤ h'.records.size ∧
    ∀ id : ObjectId, id.index < h.records.size → ¬ targets id → h'.record id = h.record id

variable {targets : ObjectId → Prop} {h h' h'' : Heap}

theorem ChangesOnly.refl (targets : ObjectId → Prop) (h : Heap) : ChangesOnly targets h h :=
  ⟨Nat.le_refl _, fun _ _ _ => rfl⟩

theorem ChangesOnly.trans (h₁ : ChangesOnly targets h h') (h₂ : ChangesOnly targets h' h'') :
    ChangesOnly targets h h'' := by
  refine ⟨Nat.le_trans h₁.1 h₂.1, fun id hid ht => ?_⟩
  rw [h₂.2 id (Nat.lt_of_lt_of_le hid h₁.1) ht, h₁.2 id hid ht]

theorem ChangesOnly.mono {others : ObjectId → Prop} (hc : ChangesOnly targets h h')
    (ht : ∀ id, targets id → others id) : ChangesOnly others h h' :=
  ⟨hc.1, fun id hid hn => hc.2 id hid fun h => hn (ht id h)⟩

/-- A new object is no change to the ones that are there. -/
theorem changesOnly_alloc (targets : ObjectId → Prop) (h : Heap) (r : Record) :
    ChangesOnly targets h (h.alloc r).2 := by
  refine ⟨?_, fun id hid _ => record_alloc_of_lt hid r⟩
  simp [alloc]

@[simp] theorem size_setRecord (h : Heap) (id : ObjectId) (r : Record) :
    (h.setRecord id r).records.size = h.records.size := by
  simp [setRecord]

theorem changesOnly_setRecord (h : Heap) (object : ObjectId) (r : Record) :
    ChangesOnly (· = object) h (h.setRecord object r) := by
  refine ⟨by simp, fun id _ hne => ?_⟩
  exact record_setRecord_of_ne hne h r

theorem changesOnly_setField (h : Heap) (object : ObjectId) (name : String) (v : Value) :
    ChangesOnly (· = object) h (h.setField object name v) :=
  changesOnly_setRecord h object _

/-- References are no objects. -/
theorem changesOnly_newRef (targets : ObjectId → Prop) (h : Heap) (uri : String) (type : TypeId)
    (state : RefState) : ChangesOnly targets h (h.newRef uri type state).2 :=
  ⟨Nat.le_refl _, fun _ _ _ => rfl⟩

end Heap

/-! ## Contexts -/

/-- A context that does what its questions are for and nothing else: standing in for a resource changes
no object, and writing a property changes no object but the one it is told to write. -/
structure Context.HasNoSideEffects (ctx : Context) : Prop where
  reference : ∀ n h, Heap.ChangesOnly (fun _ => False) h ((ctx.reference n).runOn h).2
  setProperty : ∀ object p v h,
    Heap.ChangesOnly (· = object) h ((ctx.setProperty object p v).runOn h).2

theorem Context.changesOnly_unloaded (targets : ObjectId → Prop) (n : Node) (h : Heap) :
    Heap.ChangesOnly targets h ((Context.unloaded n).runOn h).2 := by
  unfold Context.unloaded
  cases n.uri with
  | none => exact Heap.ChangesOnly.refl _ _
  | some uri => exact Heap.changesOnly_newRef targets h uri n.type .unresolved

/-- The context of the declared access masks has no side effects. -/
theorem Context.masked_hasNoSideEffects : Context.masked.HasNoSideEffects :=
  ⟨fun n h => Context.changesOnly_unloaded _ n h,
    fun object _ v h => Heap.changesOnly_setField h object _ v⟩

/-! ## Actions -/

namespace Reading

theorem runOn_descriptor {s : ReadState} {type : TypeId} {d : Descriptor} (hd : s.graph.table.get? type = some d) :
    (descriptor type).runOn s = (.ok d, s) :=
  congrArg (Prod.mk · s) (TypeGraph.get_eq_ok.mpr hd)

/-- Started on a heap with at least `n` objects, the action leaves the first `n` alone, whether it fails
or not. -/
def Spares {α : Type} (n : Nat) (x : Reading α) : Prop :=
  ∀ s, n ≤ s.heap.records.size →
    Heap.ChangesOnly (fun id => n ≤ id.index) s.heap (x.runOn s).2.heap

/-- What is followed through a reading: the states that it may start in, the objects that the reader
made itself, and what relates the states before and after. -/
structure Passage where
  Starts : ReadState → Prop
  Made : ObjectId → Prop
  Leads : ReadState → ReadState → Prop

namespace Passage

/-- Of the objects that are there at the start, the first `n` are left alone. -/
def sparing (n : Nat) : Passage :=
  { Starts := fun s => n ≤ s.heap.records.size
    Made := fun object => n ≤ object.index
    Leads := fun s s' => Heap.ChangesOnly (fun id => n ≤ id.index) s.heap s'.heap }

/-- The types that are known stay as they are. -/
def growing : Passage :=
  { Starts := fun _ => True
    Made := fun _ => True
    Leads := fun s s' => s.graph.GrowsTo s'.graph }

/-- Started in one of its states, the action goes along the passage, whether it fails or not. -/
def Along {α : Type} (P : Passage) (x : Reading α) : Prop :=
  ∀ s, P.Starts s → P.Leads s (x.runOn s).2

/-- What a passage has to do with the single steps of a reading: each step leads on, from a state that is
one to start in again. -/
structure Allows (P : Passage) (ctx : Context) : Prop where
  refl : ∀ s, P.Leads s s
  trans : ∀ s s' s'', P.Leads s s' → P.Leads s' s'' → P.Leads s s''
  starts : ∀ s s', P.Starts s → P.Leads s s' → P.Starts s'
  note : ∀ s entry, P.Leads s { s with audit := entry :: s.audit }
  name : ∀ s name, P.Leads s { s with graph := (s.graph.byName name).2 }
  reference : ∀ s n, P.Leads s { s with heap := ((ctx.reference n).runOn s.heap).2 }
  alloc : ∀ s r, P.Starts s →
    P.Leads s { s with heap := (s.heap.alloc r).2 } ∧ P.Made (s.heap.alloc r).1
  setProperty : ∀ s object p v, P.Made object →
    P.Leads s { s with heap := ((ctx.setProperty object p v).runOn s.heap).2 }

section

variable {α β : Type} {P : Passage} {ctx : Context} (hP : P.Allows ctx)

include hP

/-- A sequence, where what follows may use what the first action answered and in which state. -/
theorem along_bind_of {x : Reading α} {f : α → Reading β} (hx : P.Along x)
    (hf : ∀ s a, P.Starts s → (x.runOn s).1 = .ok a → P.Along (f a)) : P.Along (x >>= f) := by
  intro s hs
  have hfirst := hx s hs
  rw [Action.runOn_bind]
  cases hrun : x.runOn s with
  | mk outcome s' =>
      rw [hrun] at hfirst
      cases outcome with
      | error e => exact hfirst
      | ok a =>
          have hnext := hf s a hs (by rw [hrun]) s' (hP.starts s s' hs hfirst)
          exact hP.trans s s' _ hfirst hnext

theorem along_bind {x : Reading α} {f : α → Reading β} (hx : P.Along x) (hf : ∀ a, P.Along (f a)) :
    P.Along (x >>= f) :=
  along_bind_of hP hx fun _ a _ _ => hf a

/-- An action that changes nothing. -/
theorem along_of_eq {x : Reading α} (h : ∀ s, (x.runOn s).2 = s) : P.Along x := by
  intro s _
  rw [h s]
  exact hP.refl s

theorem along_pure (a : α) : P.Along (pure a : Reading α) :=
  along_of_eq hP fun _ => rfl

theorem along_look (f : ReadState → Except Error α) : P.Along (Action.look f : Reading α) :=
  along_of_eq hP fun _ => rfl

theorem along_get : P.Along (get : Reading ReadState) :=
  along_of_eq hP fun _ => rfl

theorem along_fail (e : Error) : P.Along (Action.fail e : Reading α) :=
  along_of_eq hP fun _ => rfl

theorem along_misshapen (cause : Misshapen) : P.Along (misshapen cause : Reading α) :=
  along_fail hP _

theorem along_known (outcome : Except Error α) : P.Along (known outcome) :=
  along_look hP _

theorem along_descriptor (id : TypeId) : P.Along (descriptor id) :=
  along_look hP _

theorem along_fromHeap (f : Heap → α) : P.Along (fromHeap f) :=
  along_look hP _

theorem along_setValue (node : Node) (v : Value) : P.Along (setValue node v) :=
  along_look hP _

theorem along_note (entry : AuditEntry) : P.Along (note entry) :=
  fun s _ => hP.note s entry

theorem along_typeNamed (name : String) : P.Along (typeNamed name) :=
  fun s _ => hP.name s name

end

end Passage

end Reading

/-! ## The reader, shape by shape

`below` reads what is below a node; it goes along the passage as well. -/

namespace Document

open Reading Passage

section

variable {P : Passage} {ctx : Context} {below : NodeReader} (hP : P.Allows ctx)

include hP

/-! ### Scalars and references -/

theorem along_unbox (members : Entries Json) : P.Along (unbox members) := by
  unfold unbox
  split
  · exact along_misshapen hP _
  · split
    · exact along_misshapen hP _
    · exact along_bind hP (along_typeNamed hP _) fun d => along_pure hP _

theorem along_readScalar (expected : Descriptor) (kind : ValueKind) (node : Node) (json : Json) :
    P.Along (readScalar expected kind node json) := by
  unfold readScalar
  split
  · refine along_bind hP (along_unbox hP _) fun (boxed, inner) => ?_
    dsimp only
    split
    · exact along_misshapen hP _
    · exact along_bind hP (along_known hP _) fun v => along_setValue hP _ v
  · exact along_bind hP (along_known hP _) fun v => along_setValue hP _ v

theorem along_readReference (node : Node) (uri : String) :
    P.Along (readReference ctx node uri) := by
  unfold readReference
  refine along_bind hP (along_note hP _) fun _ => along_bind hP ?_ fun v => along_setValue hP _ v
  exact fun s _ => hP.reference s _

/-! ### Lists -/

theorem along_checkItem (node : Node) (m : HttpMethod) : P.Along (checkItem ctx node m) := by
  unfold checkItem
  split
  · exact along_pure hP _
  · exact along_bind hP (along_descriptor hP _) fun d =>
      along_bind hP (along_note hP _) fun _ => along_known hP _

theorem along_locate (hbelow : ∀ node json, P.Along (below node json)) (element : TypeId)
    (name : String) (identifier : Json) (items : List Value) (path : String) :
    P.Along (locate below element name identifier items path) := by
  unfold locate
  refine along_bind hP (along_descriptor hP _) fun d => ?_
  split
  · exact along_misshapen hP _
  · refine along_bind hP (hbelow _ _) fun read => along_bind hP (along_get hP) fun s => ?_
    split
    · exact along_pure hP _
    · exact along_misshapen hP _

theorem along_markedItem (hbelow : ∀ node json, P.Along (below node json)) (element : TypeId)
    (items : List Value) (path : String) (mark : Option (NodeOperation × Nat))
    (members : List (String × Json)) :
    P.Along (markedItem below element items path mark members) := by
  induction members generalizing mark with
  | nil => exact along_pure hP _
  | cons member rest ih =>
      obtain ⟨key, identifier⟩ := member
      unfold markedItem
      split
      · exact along_bind hP (along_locate hP hbelow _ _ _ _ _) fun i => ih _
      · exact ih _

theorem along_readItem (hbelow : ∀ node json, P.Along (below node json)) (element : TypeId)
    (patching : Bool) (node : Node) (items : List Value) (item : Json) :
    P.Along (readItem ctx below element patching node items item) := by
  unfold readItem
  refine along_bind hP (along_markedItem hP hbelow _ _ _ _ _) fun mark => ?_
  split
  · exact along_bind hP (along_checkItem hP _ _) fun _ => along_pure hP _
  · exact along_bind hP (along_checkItem hP _ _) fun _ =>
      along_bind hP (hbelow _ _) fun child => along_pure hP _
  · have hadd : P.Along (do
        let child ← below (Node.ofSlot element node.path) item
        pure (node.absorb child, items ++ [child.result])) :=
      along_bind hP (hbelow _ _) fun child => along_pure hP _
    dsimp only
    split
    · exact along_bind hP (along_checkItem hP _ _) fun _ => hadd
    · exact hadd

theorem along_readItems (hbelow : ∀ node json, P.Along (below node json)) (element : TypeId)
    (patching : Bool) (node : Node) (items : List Value) (documents : List Json) :
    P.Along (readItems ctx below element patching node items documents) := by
  induction documents generalizing node items with
  | nil => exact along_pure hP _
  | cons item rest ih =>
      unfold readItems
      exact along_bind hP (along_readItem hP hbelow _ _ _ _ _) fun read => ih _ _

theorem along_readList (hbelow : ∀ node json, P.Along (below node json)) (element : TypeId)
    (node : Node) (json : Json) : P.Along (readList ctx below element node json) := by
  unfold readList
  refine along_bind hP (along_known hP _) fun uri => ?_
  split
  · exact along_readReference hP _ _
  · unfold readArrayItems
    split
    · exact along_bind hP (along_readItems hP hbelow _ _ _ _ _) fun read => along_setValue hP _ _
    · exact along_misshapen hP _

/-! ### Dictionaries and untyped slots -/

theorem along_readEntries (hbelow : ∀ node json, P.Along (below node json)) (valueType : TypeId)
    (node : Node) (entries : Entries Value) (members : List (String × Json)) :
    P.Along (readEntries below valueType node entries members) := by
  induction members generalizing node entries with
  | nil => exact along_pure hP _
  | cons member rest ih =>
      obtain ⟨key, json⟩ := member
      unfold readEntries
      split
      · exact ih _ _
      · split
        · exact along_misshapen hP _
        · exact along_bind hP (hbelow _ _) fun child => ih _ _

theorem along_readDictionary (hbelow : ∀ node json, P.Along (below node json)) (valueType : TypeId)
    (node : Node) (json : Json) : P.Along (readDictionary ctx below valueType node json) := by
  unfold readDictionary
  split
  · refine along_bind hP (along_known hP _) fun uri => ?_
    split
    · exact along_readReference hP _ _
    · exact along_bind hP (along_readEntries hP hbelow _ _ _ _) fun read => along_setValue hP _ _
  · exact along_misshapen hP _

theorem along_readUntypedItems (hbelow : ∀ node json, P.Along (below node json)) (node : Node)
    (done : List Value) (documents : List Json) :
    P.Along (readUntypedItems below node done documents) := by
  induction documents generalizing node done with
  | nil => exact along_pure hP _
  | cons item rest ih =>
      unfold readUntypedItems
      exact along_bind hP (hbelow _ _) fun child => ih _ _

/-! ### Objects

A node that patches writes to `copy`, and one that creates writes to `object`; both were made by the
node itself. -/

theorem along_setProperty {object : ObjectId} (hobject : P.Made object) (p : Property) (v : Value) :
    P.Along (setProperty ctx object p v) := by
  unfold setProperty
  exact along_bind hP (along_note hP _) fun _ s _ => hP.setProperty s object p v hobject

theorem along_checkAccess (d : Descriptor) (p : Property) (m : HttpMethod) :
    P.Along (checkAccess ctx d p m) := by
  unfold checkAccess
  exact along_bind hP (along_note hP _) fun _ => along_known hP _

theorem along_construct (hbelow : ∀ node json, P.Along (below node json)) {object : ObjectId}
    (hobject : P.Made object) (d : Descriptor) (node : Node) (fields : List Field)
    (parameter : ConstructorParameter) :
    P.Along (construct ctx below d object node fields parameter) := by
  unfold construct
  split
  · exact along_fail hP _
  · split
    · exact along_bind hP (hbelow _ _) fun child =>
        along_bind hP (along_checkAccess hP _ _ _) fun _ =>
        along_bind hP (along_setProperty hP hobject _ _) fun _ => along_pure hP _
    · split
      · exact along_bind hP (along_setProperty hP hobject _ _) fun _ => along_pure hP _
      · exact along_fail hP _

theorem along_constructAll (hbelow : ∀ node json, P.Along (below node json)) {object : ObjectId}
    (hobject : P.Made object) (d : Descriptor) (node : Node) (fields : List Field)
    (parameters : List ConstructorParameter) :
    P.Along (constructAll ctx below d object node fields parameters) := by
  induction parameters generalizing node fields with
  | nil => exact along_pure hP _
  | cons parameter rest ih =>
      unfold constructAll
      exact along_bind hP (along_construct hP hbelow hobject _ _ _ _) fun made => ih _ _

theorem along_assign (hbelow : ∀ node json, P.Along (below node json)) {object : ObjectId}
    (hobject : P.Made object) (d : Descriptor) (m : HttpMethod) (node : Node) (field : Field) :
    P.Along (assign ctx below d object m node field) := by
  unfold assign
  refine along_bind hP (along_fromHeap hP _) fun current => along_bind hP (hbelow _ _) fun child => ?_
  -- the write goes to an object that the reader made
  have hwrite : P.Along (do
      setProperty ctx object field.property child.result
      pure (node.absorb child)) :=
    along_bind hP (along_setProperty hP hobject _ _) fun _ => along_pure hP _
  have hasked : ∀ ask : Bool, P.Along (do
      if ask then checkAccess ctx d field.property m
      setProperty ctx object field.property child.result
      pure (node.absorb child)) := by
    intro ask
    cases ask with
    | false => exact hwrite
    | true => exact along_bind hP (along_checkAccess hP _ _ _) fun _ => hwrite
  dsimp only
  split
  · exact hasked _
  · exact along_pure hP _

theorem along_assignAll (hbelow : ∀ node json, P.Along (below node json)) {object : ObjectId}
    (hobject : P.Made object) (d : Descriptor) (m : HttpMethod) (node : Node) (fields : List Field) :
    P.Along (assignAll ctx below d object m node fields) := by
  induction fields generalizing node with
  | nil => exact along_pure hP _
  | cons field rest ih =>
      unfold assignAll
      exact along_bind hP (along_assign hP hbelow hobject _ _ _ _) fun node => ih _

/-- An object that the heap has just got was made by the reader. -/
theorem along_withNew {α : Type} (record : Heap → Record) {rest : ObjectId → Reading α}
    (hrest : ∀ object : ObjectId, P.Made object → P.Along (rest object)) :
    P.Along (onHeap (Action.change fun h => h.alloc (record h)) >>= rest) := by
  have hnew : P.Along (onHeap (Action.change fun h => h.alloc (record h))) :=
    fun s hs => (hP.alloc s (record s.heap) hs).1
  refine along_bind_of hP hnew fun s object hs hrun => ?_
  have hobject : (s.heap.alloc (record s.heap)).1 = object := Except.ok.inj hrun
  rw [← hobject]
  exact hrest _ (hP.alloc s (record s.heap) hs).2

theorem along_patchObject (hbelow : ∀ node json, P.Along (below node json)) (d : Descriptor)
    (node : Node) (object : ObjectId) (fields : List Field) :
    P.Along (patchObject ctx below d node object fields) := by
  unfold patchObject
  refine along_withNew hP (fun h => h.record object) fun copy hcopy => ?_
  exact along_bind hP (along_assignAll hP hbelow hcopy _ _ _ _) fun node => along_setValue hP _ _

theorem along_createObject (hbelow : ∀ node json, P.Along (below node json)) (d : Descriptor)
    (m : Members) (node : Node) (fields : List Field) :
    P.Along (createObject ctx below d m node fields) := by
  unfold createObject
  split
  · exact along_misshapen hP _
  · refine along_withNew hP (fun _ => ⟨d.id, []⟩) fun object hobject => ?_
    exact along_bind hP (along_constructAll hP hbelow hobject _ _ _ _) fun made =>
      along_bind hP (along_assignAll hP hbelow hobject _ _ _ _) fun node => along_setValue hP _ _

theorem along_narrow (expected : Descriptor) (node : Node) (members : Entries Json) :
    P.Along (narrow expected node members) := by
  unfold narrow
  split
  · exact along_pure hP _
  · refine along_bind hP (along_typeNamed hP _) fun tagged =>
      along_bind hP (along_look hP _) fun fits => ?_
    split
    · exact along_misshapen hP _
    · exact along_pure hP _
  · exact along_misshapen hP _

/-- Once the type of an object is settled, nothing below depends on how it was. -/
private theorem along_readSettled (hbelow : ∀ node json, P.Along (below node json))
    (kept : Option ObjectId) (typed : Node) (members : Entries Json) : P.Along (do
      let d ← descriptor typed.type
      match d.members? with
      | none => misshapen (.notStructured d.name)
      | some m =>
        let fields ← known (fieldsOf d typed.path members)
        match kept with
        | some object => patchObject ctx below d typed object (inDeclarationOrder d fields)
        | none => createObject ctx below d m typed (inDeclarationOrder d fields)) := by
  refine along_bind hP (along_descriptor hP _) fun d => ?_
  split
  · exact along_misshapen hP _
  · refine along_bind hP (along_known hP _) fun fields => ?_
    split
    · exact along_patchObject hP hbelow _ _ _ _
    · exact along_createObject hP hbelow _ _ _ _

theorem along_readContent (hbelow : ∀ node json, P.Along (below node json)) (node : Node)
    (members : Entries Json) : P.Along (readContent ctx below node members) := by
  unfold readContent
  cases keptObject? node with
  | none => exact along_readSettled hP hbelow none node members
  | some id =>
      exact along_bind hP (along_fromHeap hP _) fun type =>
        along_readSettled hP hbelow (some id) { node with type } members

theorem along_readObject (hbelow : ∀ node json, P.Along (below node json)) (node : Node)
    (json : Json) : P.Along (readObject ctx below node json) := by
  unfold readObject
  split
  · refine along_bind hP (along_known hP _) fun uri => ?_
    split
    · exact along_readReference hP _ _
    · refine along_bind hP (along_descriptor hP _) fun expected =>
        along_bind hP (along_narrow hP _ _ _) fun node => ?_
      split
      · exact along_readContent hP hbelow _ _
      · split
        · exact along_readReference hP _ _
        · exact along_readContent hP hbelow _ _
      · exact along_misshapen hP _
  · exact along_misshapen hP _

theorem along_readUntypedObject (hbelow : ∀ node json, P.Along (below node json)) (node : Node)
    (members : Entries Json) : P.Along (readUntypedObject ctx below node members) := by
  unfold readUntypedObject
  split
  · exact along_readDictionary hP hbelow _ _ _
  · refine along_bind hP (along_typeNamed hP _) fun d => ?_
    split
    · exact along_readObject hP hbelow _ _
    · exact along_bind hP (along_unbox hP _) fun (boxed, inner) =>
        along_bind hP (along_known hP _) fun v => along_setValue hP _ _
  · exact along_misshapen hP _

theorem along_readUntyped (hbelow : ∀ node json, P.Along (below node json)) (node : Node)
    (json : Json) : P.Along (readUntyped ctx below node json) := by
  unfold readUntyped
  split
  · exact along_setValue hP _ _
  · exact along_setValue hP _ _
  · exact along_setValue hP _ _
  · exact along_setValue hP _ _
  · exact along_bind hP (along_readUntypedItems hP hbelow _ _ _) fun read => along_setValue hP _ _
  · exact along_readUntypedObject hP hbelow _ _

/-! ### Nodes -/

theorem along_readWith (hbelow : ∀ node json, P.Along (below node json)) (node : Node) (json : Json) :
    P.Along (readWith ctx below node json) := by
  unfold readWith
  refine along_bind hP (along_descriptor hP _) fun expected => ?_
  split
  · split
    · exact along_setValue hP _ _
    · exact along_misshapen hP _
  · split
    · exact along_readUntyped hP hbelow _ _
    · exact along_readScalar hP _ _ _ _
    · exact along_bind hP (along_known hP _) fun v => along_setValue hP _ _
    · exact along_readList hP hbelow _ _ _
    · exact along_readDictionary hP hbelow _ _ _
    · exact along_readObject hP hbelow _ _
    · exact along_readObject hP hbelow _ _

/-- **Reading a node goes along a passage that allows each single step.** -/
theorem along_readNode (depth : Nat) (node : Node) (json : Json) :
    P.Along (readNode ctx depth node json) := by
  induction depth generalizing node json with
  | zero => exact along_readWith hP (fun _ _ => along_misshapen hP _) _ _
  | succ depth ih => exact along_readWith hP ih _ _

end

/-! ## Objects that were there -/

theorem allows_sparing {n : Nat} {ctx : Context} (hctx : ctx.HasNoSideEffects) :
    (sparing n).Allows ctx where
  refl := fun s => Heap.ChangesOnly.refl _ s.heap
  trans := fun _ _ _ h₁ h₂ => h₁.trans h₂
  starts := fun _ _ hs h => Nat.le_trans hs h.1
  note := fun s _ => Heap.ChangesOnly.refl _ s.heap
  name := fun s _ => Heap.ChangesOnly.refl _ s.heap
  reference := fun s n => (hctx.reference n s.heap).mono fun _ => False.elim
  alloc := fun s r hs => ⟨Heap.changesOnly_alloc _ s.heap r, hs⟩
  setProperty := fun s object p v hobject =>
    (hctx.setProperty object p v s.heap).mono fun id hid => by
      rw [hid]
      exact hobject

/-- **Reading a node spares every object that was there before.** -/
theorem spares_readNode {n : Nat} {ctx : Context} (hctx : ctx.HasNoSideEffects) (depth : Nat)
    (node : Node) (json : Json) : Spares n (readNode ctx depth node json) :=
  along_readNode (allows_sparing hctx) depth node json

/-! ## Types that were there -/

theorem allows_growing (ctx : Context) : growing.Allows ctx where
  refl := fun _ => .refl
  trans := fun _ _ _ h₁ h₂ => h₁.trans h₂
  starts := fun _ _ _ _ => trivial
  note := fun _ _ => .refl
  name := fun s name => s.graph.growsTo_byName name
  reference := fun _ _ => .refl
  alloc := fun _ _ _ => ⟨.refl, trivial⟩
  setProperty := fun _ _ _ _ _ => .refl

/-- **Reading a node may resolve types, and changes none.** -/
theorem growsTo_readNode (ctx : Context) (depth : Nat) (node : Node) (json : Json) (s : ReadState) :
    s.graph.GrowsTo ((readNode ctx depth node json).runOn s).2.graph :=
  along_readNode (allows_growing ctx) depth node json s trivial

end Document

end ResourceQuery
