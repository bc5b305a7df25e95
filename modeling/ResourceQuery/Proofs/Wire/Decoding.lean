import ResourceQuery.Proofs.Expr.Reading
import ResourceQuery.Proofs.Time.Rfc3339
import ResourceQuery.Proofs.Type.Naming
import ResourceQuery.Proofs.Value.Twins
import ResourceQuery.Wire.Writer
import Mathlib.Data.List.Forall2

set_option autoImplicit false

/-! # Documents that show a value

A document shows a value if reading it makes a value that looks the same. Reading is followed forwards
here: `Action.Succeeds` says that an action started in a state ends, does not fail, and with which answer
and in which state. So what is shown in this file is that each shape of a document is read to its end.

`Document.Shows` is about one slot: read into a node for the slot that holds nothing yet, the document
leaves the node with a value that looks like the one it shows (`Document.Filled`). All objects that are
there stay as they are, the types that are known stay the ones that are known, and what is paired with
objects of the value are objects that were made meanwhile (`Heap.Alike`). Since nothing is asked of the
heap at the start, what one part of a document makes is no concern of the next.

There is one lemma for each shape; objects are in `Instances.lean`.
-/

namespace ResourceQuery

/-! ## Actions that succeed -/

namespace Action

variable {σ α β : Type} {x : Action σ α} {f : α → Action σ β} {s : σ} {P Q : α → σ → Prop}

/-- Started in the state `s` the action does not fail, and `Q` holds of its answer and its last state. -/
def Succeeds (x : Action σ α) (s : σ) (Q : α → σ → Prop) : Prop :=
  ∃ a s', x.runOn s = (.ok a, s') ∧ Q a s'

theorem Succeeds.imp (h : x.Succeeds s P) (hPQ : ∀ a s', P a s' → Q a s') : x.Succeeds s Q := by
  obtain ⟨a, s', hrun, hP⟩ := h
  exact ⟨a, s', hrun, hPQ a s' hP⟩

theorem succeeds_pure {a : α} (h : Q a s) : (pure a : Action σ α).Succeeds s Q :=
  ⟨a, s, rfl, h⟩

theorem Succeeds.bind {R : β → σ → Prop} (h : x.Succeeds s fun a s' => (f a).Succeeds s' R) :
    (x >>= f).Succeeds s R := by
  obtain ⟨a, s', hrun, b, s'', hrun', hR⟩ := h
  refine ⟨b, s'', ?_, hR⟩
  rw [runOn_bind, hrun]
  exact hrun'

/-- A sequence that starts with an action of which the answer is known, and the state it leaves. -/
theorem succeeds_bind_of_runOn {R : β → σ → Prop} {a : α} {s' : σ} (hrun : x.runOn s = (.ok a, s'))
    (h : (f a).Succeeds s' R) : (x >>= f).Succeeds s R :=
  Succeeds.bind ⟨a, s', hrun, h⟩

end Action

/-- There may be further objects, and those that are there are the same. -/
abbrev Heap.GrowsTo (h h' : Heap) : Prop :=
  Heap.ChangesOnly (fun _ => False) h h'

theorem Heap.GrowsTo.alike {h before after later : Heap} {n : Nat} (hlater : after.GrowsTo later)
    (hn : before.records.size ≤ n) : h.Alike after n ≤ h.Alike later before.records.size :=
  Alike.mono hlater (fun _ => False.elim) hn

namespace Document

open Reading Action

variable {α : Type} {g : TypeGraph} {h : Heap} {s : ReadState} {n : Node} {type : TypeId}
  {d : Descriptor} {json : Json} {v : Value}

section

variable {f : Descriptor → Reading α} {Q : α → ReadState → Prop}

theorem succeeds_descriptor (hd : s.graph.table.get? type = some d) (hf : (f d).Succeeds s Q) :
    (descriptor type >>= f).Succeeds s Q := by
  refine succeeds_bind_of_runOn ?_ hf
  show (s.graph.get type, s) = _
  rw [TypeGraph.get_eq_ok.mpr hd]

theorem runOn_typeNamed {name : String} (hname : s.graph.byName name = (.ok d, s.graph)) :
    (typeNamed name).runOn s = (.ok d, s) := by
  show ((s.graph.byName name).1, { s with graph := (s.graph.byName name).2 }) = _
  rw [hname]

theorem succeeds_typeNamed {name : String} (hname : s.graph.byName name = (.ok d, s.graph))
    (hf : (f d).Succeeds s Q) : (typeNamed name >>= f).Succeeds s Q :=
  succeeds_bind_of_runOn (runOn_typeNamed hname) hf

theorem succeeds_known {β : Type} {outcome : Except Error β} {f : β → Reading α} {b : β}
    (hb : outcome = .ok b) (hf : (f b).Succeeds s Q) : (known outcome >>= f).Succeeds s Q := by
  refine succeeds_bind_of_runOn ?_ hf
  rw [hb]
  rfl

end

/-! ## Slots -/

/-- A node that holds nothing and changes nothing. -/
structure Blank (n : Node) : Prop where
  result : n.result = .null
  staged : n.staged = []
  dirty : n.dirty = false

/-- The node of a slot that holds nothing yet. -/
structure Vacant (type : TypeId) (n : Node) : Prop extends Blank n where
  expected : n.expected = type
  type : n.type = type

/-- The node holds a value that looks like `v`, and what was made for it is new. -/
structure Filled (h before after : Heap) (v : Value) (n : Node) : Prop where
  grows : before.GrowsTo after
  staged : n.staged = []
  twin : v.IsTwin (h.Alike after before.records.size) n.result
  clean : n.dirty = false → n.result = .null

/-- Read into a vacant node for the slot, the document makes a value that looks like `v`. -/
def Shows (g : TypeGraph) (h : Heap) (below : NodeReader) (type : TypeId) (json : Json) (v : Value) :
    Prop :=
  ∀ n s, Vacant type n → s.graph = g →
    (below n json).Succeeds s fun n' s' => s'.graph = g ∧ Filled h s.heap s'.heap v n'

theorem vacant_ofSlot (type : TypeId) (path : String) : Vacant type (.ofSlot type path) where
  result := rfl
  staged := rfl
  dirty := rfl
  expected := rfl
  type := rfl

/-- What a blank node does with a value. -/
theorem Blank.setValue (hn : Blank n) {before : Heap} {w : Value} (hgraph : s.graph = g)
    (hgrows : before.GrowsTo s.heap) (hw : v.IsTwin (h.Alike s.heap before.records.size) w) :
    (Reading.setValue n w).Succeeds s fun n' s' => s'.graph = g ∧ Filled h before s'.heap v n' := by
  refine ⟨n.setValue s.heap w, s, rfl, hgraph, hgrows, hn.staged, hw, fun hclean => ?_⟩
  -- a value that changes nothing equals the null that was there
  have hholds : n.holds s.heap w = true := by
    unfold Node.setValue at hclean
    rw [hn.dirty, Bool.false_or] at hclean
    simpa using hclean
  have hresult := hn.result
  unfold Node.holds at hholds
  unfold Node.result at hresult
  cases hvalue : n.value with
  | none =>
      rw [hvalue] at hholds
      cases hholds
  | some old =>
      rw [hvalue] at hholds hresult
      have hnull : old = .null := hresult
      rw [hnull] at hholds
      exact Heap.eq_null_of_equal hholds

/-- A value without objects looks like itself. -/
theorem Blank.setSelf (hn : Blank n) (hgraph : s.graph = g)
    (hself : ∀ same, Value.equalBy same v v = true) :
    (Reading.setValue n v).Succeeds s fun n' s' => s'.graph = g ∧ Filled h s.heap s'.heap v n' :=
  hn.setValue hgraph (Heap.ChangesOnly.refl _ _) (Value.isTwin_self hself)

theorem absorb_of_nil (n : Node) {child : Node} (hchild : child.staged = []) :
    n.absorb child = n := by
  unfold Node.absorb
  rw [hchild, List.append_nil]

theorem Blank.value_cases (hn : Blank n) : n.value = none ∨ n.value = some .null := by
  have hresult := hn.result
  unfold Node.result at hresult
  cases hvalue : n.value with
  | none => exact Or.inl rfl
  | some old =>
      rw [hvalue] at hresult
      exact Or.inr (congrArg some hresult)

theorem Blank.keptList? (hn : Blank n) : Document.keptList? n = none := by
  unfold Document.keptList?
  rcases hn.value_cases with hvalue | hvalue <;> rw [hvalue]

theorem Blank.keptEntries (hn : Blank n) : Document.keptEntries n = [] := by
  unfold Document.keptEntries
  rcases hn.value_cases with hvalue | hvalue <;> rw [hvalue]

theorem Blank.keptObject? (hn : Blank n) : Document.keptObject? n = none := by
  unfold Document.keptObject?
  rcases hn.value_cases with hvalue | hvalue <;> rw [hvalue]

variable {below : NodeReader}

/-- What `readWith` does with a document other than null, after the type of the slot is known. -/
def readShape (ctx : Context) (below : NodeReader) (expected : Descriptor) (n : Node) (json : Json) :
    Reading Node :=
  match expected.shape with
  | .value .any => readUntyped ctx below n json
  | .value kind => readScalar expected kind n json
  | .enum _ => do
    let v ← known (scalar expected json n.path)
    setValue n v
  | .collection element => readList ctx below element n json
  | .dictionary _ value => readDictionary ctx below value n json
  | .structured _ => readObject ctx below n json
  | .resource .. => readObject ctx below n json

/-- A document other than null is read by the shape of the slot's type. -/
theorem shows_of_shape (hd : g.table.get? type = some d) (hnull : json.isNull = false)
    (hread : ∀ n s, Vacant type n → s.graph = g → (readShape .unchecked below d n json).Succeeds s
      fun n' s' => s'.graph = g ∧ Filled h s.heap s'.heap v n') :
    Shows g h (readWith .unchecked below) type json v := by
  intro n s hn hgraph
  unfold readWith
  refine succeeds_descriptor (d := d) (by rw [hgraph, hn.expected, hd]) ?_
  rw [hnull]
  exact hread n s hn hgraph

/-! ## Null and scalars -/

theorem shows_null (hd : g.table.get? type = some d) (hnullable : d.nullable = true) :
    Shows g h (readWith .unchecked below) type .null .null := by
  intro n s hn hgraph
  unfold readWith
  refine succeeds_descriptor (d := d) (by rw [hgraph, hn.expected, hd]) ?_
  show (if d.nullable then setValue n .null else _ : Reading Node).Succeeds s _
  rw [if_pos hnullable]
  exact hn.setSelf hgraph fun _ => by unfold Value.equalBy; rfl

theorem shows_ofKind {kind : ValueKind} (hd : g.table.get? type = some d)
    (hshape : d.shape = .value kind) (hkind : kind ≠ .any) (hnull : json.isNull = false)
    (hobject : ∀ members, json ≠ .object members) (hread : ∀ path, scalarOfKind kind json path = .ok v)
    (hself : ∀ same, Value.equalBy same v v = true) :
    Shows g h (readWith .unchecked below) type json v := by
  refine shows_of_shape hd hnull fun n s hn hgraph => ?_
  have hscalar : readShape .unchecked below d n json = readScalar d kind n json := by
    unfold readShape
    rw [hshape]
    cases kind with
    | any => exact absurd rfl hkind
    | _ => rfl
  rw [hscalar]
  unfold readScalar
  split
  · exact absurd rfl (hobject _)
  · exact succeeds_known (hread n.path) (hn.setSelf hgraph hself)

theorem shows_enum {members : List String} {member : String} (hd : g.table.get? type = some d)
    (hshape : d.shape = .enum members) (hmember : member ∈ members)
    (hdiffer : d.memberNames.Pairwise fun a b => Text.sameIgnoringCase a b = false) :
    Shows g h (readWith .unchecked below) type (.string member) (.enum member) := by
  refine shows_of_shape hd rfl fun n s hn hgraph => ?_
  have hread : scalar d (.string member) n.path = .ok (.enum member) := by
    unfold scalar enumMember
    rw [hshape]
    simp only [Json.isNull, Json.asString?, Descriptor.enumMember?_of_mem hshape hmember hdiffer,
      Bool.false_eq_true, if_false]
  unfold readShape
  rw [hshape]
  exact succeeds_known hread (hn.setSelf hgraph fun _ => by unfold Value.equalBy; exact beq_self_eq_true _)

/-- An untyped slot reads a document by the shape of the document. -/
theorem shows_untyped (hd : g.table.get? type = some d) (hany : d.isAny = true)
    (hnull : json.isNull = false)
    (hread : ∀ n s, Vacant type n → s.graph = g → (readUntyped .unchecked below n json).Succeeds s
      fun n' s' => s'.graph = g ∧ Filled h s.heap s'.heap v n') :
    Shows g h (readWith .unchecked below) type json v := by
  refine shows_of_shape hd hnull fun n s hn hgraph => ?_
  unfold readShape
  rw [Descriptor.shape_of_isAny hany]
  exact hread n s hn hgraph

/-- The members of a box. -/
theorem get?_boxed (kind : ValueKind) (inner : Json) :
    Entries.get? "_type" (Entries.ofList [("_type", .string kind.name), ("value", inner)]) =
        some (.string kind.name) ∧
      Entries.get? "value" (Entries.ofList [("_type", .string kind.name), ("value", inner)]) =
        some inner :=
  ⟨(Entries.get?_insert_of_ne (show "_type" ≠ "value" by decide) _ _).trans
    (Entries.get?_insert_self _ _ _), Entries.get?_insert_self _ _ _⟩

/-- A timestamp in an untyped slot stands in a box. -/
theorem shows_boxed {t : Timestamp} (hg : g.Arises) (hnames : g.NamesDiffer)
    (hd : g.table.get? type = some d) (hany : d.isAny = true) (ht : t.isProper = true) :
    Shows g h (readWith .unchecked below) type (Writer.boxed .dateTime (.string t.format))
      (.dateTime t) := by
  refine shows_untyped hd hany rfl fun n s hn hgraph => ?_
  have hname : s.graph.byName ValueKind.dateTime.name = (.ok _, s.graph) :=
    hgraph ▸ hg.byName_name hnames (hg.startsWithValues .dateTime)
  have hscalar : scalar ⟨TypeGraph.valueType .dateTime, ValueKind.dateTime.name,
      ValueKind.dateTime.isNullable, [], .value .dateTime⟩ (.string t.format) n.path =
        .ok (.dateTime t) := by
    unfold scalar scalarOfKind
    simp only [Json.isNull, Json.asString?, Timestamp.parse?_format ht, Bool.false_eq_true, if_false]
  obtain ⟨htype, hvalue⟩ := get?_boxed .dateTime (.string t.format)
  unfold readUntyped readUntypedObject Writer.boxed Writer.object
  dsimp only
  rw [htype]
  refine succeeds_typeNamed hname ?_
  have hunbox : (unbox (Entries.ofList [("_type", .string ValueKind.dateTime.name),
      ("value", .string t.format)])).runOn s = (.ok (⟨TypeGraph.valueType .dateTime,
        ValueKind.dateTime.name, ValueKind.dateTime.isNullable, [], .value .dateTime⟩,
          .string t.format), s) := by
    unfold unbox
    rw [htype, hvalue]
    show (typeNamed _ >>= _ : Reading (Descriptor × Json)).runOn s = _
    rw [runOn_bind, runOn_typeNamed hname]
    rfl
  refine succeeds_bind_of_runOn hunbox (succeeds_known hscalar ?_)
  have hboxed : Blank { n with type := TypeGraph.valueType .dateTime } :=
    ⟨hn.result, hn.staged, hn.dirty⟩
  exact hboxed.setSelf hgraph fun _ => by
    unfold Value.equalBy Timestamp.sameInstant
    exact beq_self_eq_true _

/-! ## References -/

theorem succeeds_readReference {r : LazyRef} (hn : Blank n) (htype : n.type = r.target)
    (hgraph : s.graph = g) : (readReference .unchecked n r.uri).Succeeds s
      fun n' s' => s'.graph = g ∧ Filled h s.heap s'.heap (.reference r) n' := by
  have hnote : (note (.reference r.uri n.path)).runOn s =
      (.ok (), { s with audit := .reference r.uri n.path :: s.audit }) := rfl
  have hnew : ∀ s : ReadState,
      (onHeap (Context.unchecked.reference { n with uri := some r.uri })).runOn s =
        (.ok (.reference ⟨r.uri, n.type, ⟨s.heap.cells.size⟩⟩),
          { s with heap := (s.heap.newRef r.uri n.type .unresolved).2 }) := fun _ => rfl
  have hgrows : s.heap.GrowsTo (s.heap.newRef r.uri n.type .unresolved).2 :=
    Heap.changesOnly_newRef _ s.heap r.uri n.type .unresolved
  have hblank : Blank { n with uri := some r.uri } := ⟨hn.result, hn.staged, hn.dirty⟩
  unfold readReference
  refine succeeds_bind_of_runOn hnote (succeeds_bind_of_runOn (hnew _) ?_)
  exact hblank.setValue hgraph hgrows (Value.isTwin_reference rfl htype.symm)

theorem refMember_reference (uri : String) :
    refMember [("_ref", .string uri)] = .ok (some uri) := by
  simp [refMember, Entries.get?]

theorem shows_reference {r : LazyRef} (hd : g.table.get? type = some d) (hscalar : d.isScalar = false)
    (htarget : r.target = type) :
    Shows g h (readWith .unchecked below) type (Writer.reference r.uri) (.reference r) := by
  refine shows_of_shape hd rfl fun n s hn hgraph => ?_
  have href := succeeds_readReference (h := h) hn.toBlank (hn.type.trans htarget.symm) hgraph
  have hmember := refMember_reference r.uri
  have hobject : (readObject .unchecked below n (Writer.reference r.uri)).Succeeds s
      fun n' s' => s'.graph = g ∧ Filled h s.heap s'.heap (.reference r) n' :=
    succeeds_known hmember href
  have hdictionary : ∀ value, (readDictionary .unchecked below value n (Writer.reference r.uri)).Succeeds s
      fun n' s' => s'.graph = g ∧ Filled h s.heap s'.heap (.reference r) n' :=
    fun value => succeeds_known hmember href
  unfold Descriptor.isScalar at hscalar
  unfold readShape
  cases hshape : d.shape with
  | value kind =>
      cases kind with
      | any => exact hdictionary n.expected
      | _ =>
          rw [hshape] at hscalar
          cases hscalar
  | enum members =>
      rw [hshape] at hscalar
      cases hscalar
  | collection element => exact succeeds_known hmember href
  | dictionary key value => exact hdictionary value
  | structured members => exact hobject
  | resource members address => exact hobject

/-! ## Lists -/

/-- No member of the document marks an item of a list. -/
def IsUnmarked (json : Json) : Prop :=
  ∀ member ∈ membersOf json, isIdentifierKey member.1 = false

theorem markedItem_of_unmarked {element : TypeId} {items : List Value} {path : String}
    {mark : Option (NodeOperation × Nat)} {members : List (String × Json)}
    (hunmarked : ∀ member ∈ members, isIdentifierKey member.1 = false) :
    markedItem below element items path mark members = pure mark := by
  induction members with
  | nil => rfl
  | cons member rest ih =>
      obtain ⟨key, identifier⟩ := member
      have hfirst : isIdentifierKey key = false := hunmarked (key, identifier) List.mem_cons_self
      unfold markedItem
      rw [hfirst]
      exact ih fun member hmember => hunmarked member (List.mem_cons_of_mem _ hmember)

/-- The documents show the values, one by one. -/
abbrev ShowAll (g : TypeGraph) (h : Heap) (below : NodeReader) (element : TypeId) :
    List Value → List Json → Prop :=
  List.Forall₂ fun v json => Shows g h below element json v

/-- What is left when items were read: the node is as it was, and what was read looks like the values. -/
structure Listed (h before after : Heap) (n : Node) (done vs : List Value)
    (read : Node × List Value) : Prop where
  node : read.1 = n
  grows : before.GrowsTo after
  items : ∃ ws, read.2 = done ++ ws ∧
    List.Forall₂ (Value.IsTwin (h.Alike after before.records.size)) vs ws

theorem listed_nil (h heap : Heap) (n : Node) (done : List Value) :
    Listed h heap heap n done [] (n, done) :=
  ⟨rfl, Heap.ChangesOnly.refl _ _, [], (List.append_nil done).symm, .nil⟩

/-- A first item, and then the others. -/
theorem Filled.listed {before middle after : Heap} {child : Node} {done vs : List Value}
    {read : Node × List Value} (hfirst : Filled h before middle v child)
    (hrest : Listed h middle after n (done ++ [child.result]) vs read) :
    Listed h before after n done (v :: vs) read := by
  obtain ⟨ws, hread, hws⟩ := hrest.items
  refine ⟨hrest.node, hfirst.grows.trans hrest.grows, child.result :: ws, ?_, .cons ?_ ?_⟩
  · rw [hread, List.append_assoc]
    rfl
  · exact hfirst.twin.mono (Heap.GrowsTo.alike hrest.grows (Nat.le_refl _))
  · exact hws.imp fun a b hab => hab.mono
      (Heap.GrowsTo.alike (Heap.ChangesOnly.refl _ _) hfirst.grows.1)

theorem succeeds_readItems {element : TypeId} {vs : List Value} {documents : List Json}
    (hitems : ShowAll g h below element vs documents)
    (hunmarked : ∀ item ∈ documents, IsUnmarked item) (hgraph : s.graph = g) (done : List Value) :
    (readItems .unchecked below element false n done documents).Succeeds s
      fun read s' => s'.graph = g ∧ Listed h s.heap s'.heap n done vs read := by
  induction hitems generalizing s done with
  | nil => exact succeeds_pure ⟨hgraph, listed_nil h s.heap n done⟩
  | @cons v item vs documents hitem _ ih =>
      unfold readItems readItem
      rw [markedItem_of_unmarked (hunmarked item List.mem_cons_self)]
      -- the item has no mark, so it is read into a slot of its own and put at the end
      obtain ⟨child, s₁, hchild, hgraph₁, hfilled⟩ := hitem _ s (vacant_ofSlot element n.path) hgraph
      have hread : (do
          let child ← below (.ofSlot element n.path) item
          pure (n.absorb child, done ++ [child.result]) : Reading (Node × List Value)).runOn s =
            (.ok (n, done ++ [child.result]), s₁) := by
        rw [runOn_bind, hchild]
        show (Except.ok (n.absorb child, done ++ [child.result]), s₁) = _
        rw [absorb_of_nil n hfilled.staged]
      refine succeeds_bind_of_runOn hread ?_
      exact (ih (fun other hother => hunmarked other (List.mem_cons_of_mem _ hother)) hgraph₁ _).imp
        fun read s' hread => ⟨hread.1, hfilled.listed hread.2⟩

theorem succeeds_readUntypedItems {vs : List Value} {documents : List Json}
    (hitems : ShowAll g h below n.expected vs documents) (hgraph : s.graph = g) (done : List Value) :
    (readUntypedItems below n done documents).Succeeds s
      fun read s' => s'.graph = g ∧ Listed h s.heap s'.heap n done vs read := by
  induction hitems generalizing s done with
  | nil => exact succeeds_pure ⟨hgraph, listed_nil h s.heap n done⟩
  | @cons v item vs documents hitem _ ih =>
      unfold readUntypedItems
      obtain ⟨child, s₁, hchild, hgraph₁, hfilled⟩ :=
        hitem _ s (vacant_ofSlot n.expected n.path) hgraph
      refine succeeds_bind_of_runOn hchild ?_
      rw [absorb_of_nil n hfilled.staged]
      exact (ih hgraph₁ _).imp fun read s' hread => ⟨hread.1, hfilled.listed hread.2⟩

/-- The list that was read, as the value of the node. -/
theorem Listed.setValue {before : Heap} {vs : List Value} {read : Node × List Value} (hn : Blank n)
    (hread : Listed h before s.heap n [] vs read) (hgraph : s.graph = g) :
    (Reading.setValue read.1 (.list read.2)).Succeeds s
      fun n' s' => s'.graph = g ∧ Filled h before s'.heap (.list vs) n' := by
  obtain ⟨ws, hitems, hws⟩ := hread.items
  rw [hread.node, hitems]
  exact hn.setValue hgraph hread.grows (Value.isTwin_list hws)

theorem shows_list {element : TypeId} {vs : List Value} {documents : List Json}
    (hd : g.table.get? type = some d) (hshape : d.shape = .collection element)
    (hitems : ShowAll g h below element vs documents)
    (hunmarked : ∀ item ∈ documents, IsUnmarked item) :
    Shows g h (readWith .unchecked below) type (.array documents) (.list vs) := by
  refine shows_of_shape hd rfl fun n s hn hgraph => ?_
  unfold readShape
  rw [hshape]
  refine succeeds_known (b := none) rfl ?_
  unfold readArrayItems
  rw [hn.keptList?]
  refine Succeeds.bind ((succeeds_readItems hitems hunmarked hgraph []).imp ?_)
  intro read s' ⟨hgraph', hlisted⟩
  exact hlisted.setValue hn.toBlank hgraph'

theorem shows_untypedList {vs : List Value} {documents : List Json}
    (hd : g.table.get? type = some d) (hany : d.isAny = true)
    (hitems : ShowAll g h below type vs documents) :
    Shows g h (readWith .unchecked below) type (.array documents) (.list vs) := by
  refine shows_untyped hd hany rfl fun n s hn hgraph => ?_
  rw [← hn.expected] at hitems
  refine Succeeds.bind ((succeeds_readUntypedItems hitems hgraph []).imp ?_)
  intro read s' ⟨hgraph', hlisted⟩
  exact hlisted.setValue hn.toBlank hgraph'

/-! ## Dictionaries -/

/-- The key does not start with a mark that says what is to be done. -/
def IsUnmarkedKey (key : String) : Prop :=
  ∀ c ∈ key.toList.head?, c ∉ ['-', '*', '!']

theorem isPrefixOf_eq_false {lead key : String} {mark : Char} {more : List Char}
    (hlead : lead.toList = mark :: more) (hkey : ∀ c ∈ key.toList.head?, c ≠ mark) :
    lead.toList.isPrefixOf key.toList = false := by
  rw [hlead]
  cases hlist : key.toList with
  | nil => rfl
  | cons c rest =>
      have hne : (mark == c) = false := by
        rw [beq_eq_false_iff_ne]
        exact Ne.symm (hkey c (by rw [hlist]; rfl))
      rw [List.isPrefixOf_cons_cons, hne]
      rfl

theorem after?_eq_none {lead key : String} {mark : Char} {more : List Char}
    (hlead : lead.toList = mark :: more) (hkey : ∀ c ∈ key.toList.head?, c ≠ mark) :
    Text.after? lead key = none := by
  unfold Text.after?
  rw [isPrefixOf_eq_false hlead hkey]
  rfl

namespace IsUnmarkedKey

variable {key : String}

theorem after? (hkey : IsUnmarkedKey key) : Text.after? "-" key = none :=
  after?_eq_none rfl fun c hc => by rintro rfl; exact hkey _ hc (by decide)

theorem startsWith (hkey : IsUnmarkedKey key) :
    (Text.startsWith "*" key || Text.startsWith "!" key) = false := by
  have hstar : Text.startsWith "*" key = false :=
    isPrefixOf_eq_false rfl fun c hc => by rintro rfl; exact hkey _ hc (by decide)
  have hbang : Text.startsWith "!" key = false :=
    isPrefixOf_eq_false rfl fun c hc => by rintro rfl; exact hkey _ hc (by decide)
  rw [hstar, hbang]
  rfl

theorem isIdentifierKey (hkey : IsUnmarkedKey key) : Document.isIdentifierKey key = false := by
  have hstar : ("*@" : String).toList = ['*', '@'] := rfl
  have hdash : ("-@" : String).toList = ['-', '@'] := rfl
  have hpatch : Text.startsWith "*@" key = false :=
    isPrefixOf_eq_false hstar fun c hc => by rintro rfl; exact hkey _ hc (by decide)
  have hdelete : Text.startsWith "-@" key = false :=
    isPrefixOf_eq_false hdash fun c hc => by rintro rfl; exact hkey _ hc (by decide)
  unfold Document.isIdentifierKey
  rw [hpatch, hdelete]
  rfl

end IsUnmarkedKey

theorem isUnmarkedKey_escape (key : String) : IsUnmarkedKey (Writer.escape key) := by
  intro c hc
  unfold Writer.escape at hc
  split at hc
  · rename_i first rest hkey
    split at hc
    · rw [String.toList_append] at hc
      cases hc
      decide
    · rename_i hmark
      rw [hkey] at hc
      cases hc
      simp only [List.contains_iff_mem, List.mem_cons, List.not_mem_nil, or_false, not_or] at hmark ⊢
      exact ⟨hmark.2.1, hmark.2.2.1, hmark.2.2.2⟩
  · rename_i hkey
    rw [hkey] at hc
    cases hc

/-- An escaped key reads back. -/
theorem unescape_escape (key : String) : unescape (Writer.escape key) = key := by
  unfold Writer.escape
  split
  · rename_i first rest hkey
    split
    · have hafter : Text.after? "^" ("^" ++ key) = some key := by
        unfold Text.after?
        rw [String.toList_append]
        exact congrArg some String.ofList_toList
      unfold unescape
      rw [hafter]
      rfl
    · rename_i hmark
      have hnone : Text.after? "^" key = none := by
        refine after?_eq_none rfl fun c hc => ?_
        rw [hkey] at hc
        cases hc
        rintro rfl
        exact hmark (by decide)
      unfold unescape
      rw [hnone]
      rfl
  · rename_i hkey
    have hempty : key = "" := String.toList_eq_nil_iff.mp hkey
    rw [hempty]
    rfl

/-- What is left when members were read into a dictionary: the node is as it was, and what was read looks
like what is `found` under the keys. -/
structure Entered (h before after : Heap) (n : Node) (found : String → Value) (entries : Entries Value)
    (members : List (String × Json)) (read : Node × Entries Value) : Prop where
  node : read.1 = n
  grows : before.GrowsTo after
  sorted : entries.Sorted → read.2.Sorted
  values : ∀ entry ∈ read.2, entry ∈ entries ∨
    (found entry.1).IsTwin (h.Alike after before.records.size) entry.2
  keys : ∀ key, (Entries.get? key read.2).isSome = true ↔
    (Entries.get? key entries).isSome = true ∨ ∃ member ∈ members, key = unescape member.1

theorem succeeds_readEntries {value : TypeId} (found : String → Value)
    {members : List (String × Json)} (hgraph : s.graph = g)
    (hmembers : ∀ member ∈ members, IsUnmarkedKey member.1 ∧
      Shows g h below value member.2 (found (unescape member.1))) (entries : Entries Value) :
    (readEntries below value n entries members).Succeeds s
      fun read s' => s'.graph = g ∧ Entered h s.heap s'.heap n found entries members read := by
  induction members generalizing s entries with
  | nil =>
      exact succeeds_pure ⟨hgraph, rfl, Heap.ChangesOnly.refl _ _, id, fun _ => Or.inl,
        fun key => ⟨Or.inl, fun h => h.resolve_right (by simp)⟩⟩
  | cons member rest ih =>
      obtain ⟨key, json⟩ := member
      obtain ⟨hkey, hshows⟩ := hmembers (key, json) List.mem_cons_self
      obtain ⟨child, s₁, hchild, hgraph₁, hfilled⟩ :=
        hshows _ s (vacant_ofSlot value (Node.pathBelow n.path (unescape key))) hgraph
      unfold readEntries
      rw [hkey.after?, hkey.startsWith]
      refine succeeds_bind_of_runOn hchild ?_
      rw [absorb_of_nil n hfilled.staged]
      refine (ih hgraph₁ (fun other hother => hmembers other (List.mem_cons_of_mem _ hother)) _).imp ?_
      rintro read s' ⟨hgraph', hread⟩
      refine ⟨hgraph', hread.node, hfilled.grows.trans hread.grows, fun h => hread.sorted h.insert,
        fun entry hentry => ?_, fun other => ?_⟩
      · -- an entry is from the members that follow, or it is the new one, or it was there
        rcases hread.values entry hentry with hthere | hlater
        · rcases Entries.mem_insert hthere with hnew | hold
          · right
            rw [hnew]
            exact hfilled.twin.mono (Heap.GrowsTo.alike hread.grows (Nat.le_refl _))
          · exact Or.inl hold
        · right
          exact hlater.mono (Heap.GrowsTo.alike (Heap.ChangesOnly.refl _ _) hfilled.grows.1)
      · rw [hread.keys, Entries.isSome_get?_insert]
        constructor
        · rintro ((hself | hold) | ⟨member, hmember, hlater⟩)
          · exact Or.inr ⟨(key, json), List.mem_cons_self, hself⟩
          · exact Or.inl hold
          · exact Or.inr ⟨member, List.mem_cons_of_mem _ hmember, hlater⟩
        · rintro (hold | ⟨member, hmember, hlater⟩)
          · exact Or.inl (Or.inr hold)
          · rcases List.mem_cons.mp hmember with hself | hrest
            · rw [hself] at hlater
              exact Or.inl (Or.inl hlater)
            · exact Or.inr ⟨member, hrest, hlater⟩

/-- The members show the entries: each member one of them, and each of them has a member. -/
structure ShowEntries (g : TypeGraph) (h : Heap) (below : NodeReader) (value : TypeId)
    (entries : Entries Value) (members : Entries Json) : Prop where
  shown : ∀ member ∈ members, ∃ key v, member.1 = Writer.escape key ∧ (key, v) ∈ entries ∧
    Shows g h below value member.2 v
  covered : ∀ entry ∈ entries, (Entries.get? (Writer.escape entry.1) members).isSome = true

theorem succeeds_readDictionary {value : TypeId} {entries : Entries Value} {members : Entries Json}
    (hn : Blank n) (hgraph : s.graph = g) (hsorted : entries.Sorted)
    (href : Entries.get? "_ref" members = none)
    (hshow : ShowEntries g h below value entries members) :
    (readDictionary .unchecked below value n (.object members)).Succeeds s
      fun n' s' => s'.graph = g ∧ Filled h s.heap s'.heap (.map entries) n' := by
  have hnone : refMember members = .ok none := by
    unfold refMember
    rw [href]
  have hfound : ∀ {key v}, (key, v) ∈ entries → (Entries.get? key entries).getD .null = v := by
    intro key v hentry
    rw [hsorted.get?_of_mem hentry]
    rfl
  have hmembers : ∀ member ∈ members, IsUnmarkedKey member.1 ∧
      Shows g h below value member.2 ((Entries.get? (unescape member.1) entries).getD .null) := by
    intro member hmember
    obtain ⟨key, v, hkey, hentry, hshows⟩ := hshow.shown member hmember
    rw [hkey, unescape_escape, hfound hentry]
    exact ⟨isUnmarkedKey_escape key, hshows⟩
  unfold readDictionary
  refine succeeds_known hnone ?_
  rw [hn.keptEntries]
  have hread := succeeds_readEntries (n := n) (fun key => (Entries.get? key entries).getD .null) hgraph
    hmembers []
  refine Succeeds.bind (hread.imp ?_)
  intro read s' ⟨hgraph', hread⟩
  show (setValue read.1 (.map read.2)).Succeeds s' _
  rw [hread.node]
  refine hn.setValue hgraph' hread.grows (Value.isTwin_map ?_)
  refine hsorted.forall₂ (hread.sorted Entries.sorted_nil) (fun key => ?_) fun key v w hv hw => ?_
  · rw [hread.keys]
    constructor
    · intro hthere
      obtain ⟨v, hv⟩ := Option.isSome_iff_exists.mp hthere
      obtain ⟨json, hjson⟩ := Option.isSome_iff_exists.mp
        (hshow.covered (key, v) (Entries.mem_of_get? hv))
      exact Or.inr ⟨_, Entries.mem_of_get? hjson, (unescape_escape key).symm⟩
    · rintro (hnil | ⟨member, hmember, hkey⟩)
      · cases hnil
      · obtain ⟨other, v, hother, hentry, _⟩ := hshow.shown member hmember
        rw [hkey, hother, unescape_escape, hsorted.get?_of_mem hentry]
        rfl
  · rcases hread.values (key, w) hw with hnil | htwin
    · cases hnil
    · dsimp only at htwin
      rw [hfound hv] at htwin
      exact htwin

theorem shows_dictionary {key value : TypeId} {entries : Entries Value} {members : Entries Json}
    (hd : g.table.get? type = some d) (hshape : d.shape = .dictionary key value)
    (hsorted : entries.Sorted) (href : Entries.get? "_ref" members = none)
    (hshow : ShowEntries g h below value entries members) :
    Shows g h (readWith .unchecked below) type (.object members) (.map entries) := by
  refine shows_of_shape hd rfl fun n s hn hgraph => ?_
  unfold readShape
  rw [hshape]
  exact succeeds_readDictionary hn.toBlank hgraph hsorted href hshow

theorem shows_untypedDictionary {entries : Entries Value} {members : Entries Json}
    (hd : g.table.get? type = some d) (hany : d.isAny = true) (hsorted : entries.Sorted)
    (href : Entries.get? "_ref" members = none) (htag : Entries.get? "_type" members = none)
    (hshow : ShowEntries g h below type entries members) :
    Shows g h (readWith .unchecked below) type (.object members) (.map entries) := by
  refine shows_untyped hd hany rfl fun n s hn hgraph => ?_
  unfold readUntyped readUntypedObject
  dsimp only
  rw [htag, hn.expected]
  exact succeeds_readDictionary hn.toBlank hgraph hsorted href hshow

end Document

end ResourceQuery
