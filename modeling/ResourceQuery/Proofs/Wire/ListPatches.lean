import ResourceQuery.Proofs.Wire.ItemEdits
import ResourceQuery.Proofs.Wire.Standard
import ResourceQuery.Proofs.Wire.Tracking

set_option autoImplicit false

/-! # Patching a list

What a document does that patches one list of an object: the object is copied, the items are read one after
another into the list that it has, the list goes to the copy if it was changed, and then all copies are written
back (`Document.runOn_read_itemPatch`). What is between the document and its items, names, types and slots, is
looked up and makes no difference.
-/

namespace ResourceQuery

open Reading

theorem Action.runOn_bind_ok {σ α β : Type} {x : Action σ α} {f : α → Action σ β} {s s₁ : σ} {a : α}
    (h : x.runOn s = (.ok a, s₁)) : (x >>= f).runOn s = (f a).runOn s₁ := by
  rw [runOn_bind, h]

theorem Action.runOn_bind_error {σ α β : Type} {x : Action σ α} {f : α → Action σ β} {s s₁ : σ} {e : Error}
    (h : x.runOn s = (.error e, s₁)) : (x >>= f).runOn s = (.error e, s₁) := by
  rw [runOn_bind, h]

/-! ## Writing back -/

theorem Heap.record_setRecord_cases (h : Heap) (x y : ObjectId) (r : Record) :
    (h.setRecord x r).record y = h.record y ∨ (h.setRecord x r).record y = r := by
  by_cases hy : y = x
  · by_cases hthere : x.index < h.records.size
    · rw [hy]
      exact .inr (record_setRecord_self hthere r)
    · left
      have hnone : h.records.size ≤ x.index := Nat.not_lt.mp hthere
      unfold record setRecord
      rw [Array.setIfInBounds_eq_of_size_le hnone]
  · exact .inl (record_setRecord_of_ne hy h r)

namespace Node

variable {h h' : Heap} {staged : List (ObjectId × ObjectId)} {x : ObjectId}

@[simp] theorem size_writeBack (h : Heap) (staged : List (ObjectId × ObjectId)) :
    (writeBack h staged).records.size = h.records.size := by
  induction staged generalizing h with
  | nil => rfl
  | cons pair rest ih => exact (ih _).trans (Heap.size_setRecord _ _ _)

@[simp] theorem cells_writeBack (h : Heap) (staged : List (ObjectId × ObjectId)) :
    (writeBack h staged).cells = h.cells := by
  induction staged generalizing h with
  | nil => rfl
  | cons pair rest ih => exact ih _

theorem writeBack_append (h : Heap) (first second : List (ObjectId × ObjectId)) :
    writeBack h (first ++ second) = writeBack (writeBack h first) second :=
  List.foldl_append

/-- What is no original keeps its record. -/
theorem record_writeBack_of_not_mem (hx : x ∉ staged.map Prod.fst) :
    (writeBack h staged).record x = h.record x := by
  induction staged generalizing h with
  | nil => rfl
  | cons pair rest ih =>
      obtain ⟨hne, hrest⟩ := not_or.mp (mt List.mem_cons.mpr hx)
      exact (ih hrest).trans (Heap.record_setRecord_of_ne hne _ _)

/-- What holds of the records of all objects in `W` holds of them after copies in `W` were written back. -/
theorem record_writeBack {W : ObjectId → Prop} {P : Record → Prop} (hP : ∀ x, W x → P (h.record x))
    (hstaged : ∀ pair ∈ staged, W pair.2) : ∀ x, W x → P ((writeBack h staged).record x) := by
  induction staged generalizing h with
  | nil => exact hP
  | cons pair rest ih =>
      refine ih (fun x hx => ?_) fun later hlater => hstaged later (List.mem_cons_of_mem _ hlater)
      rcases Heap.record_setRecord_cases h pair.1 x (h.record pair.2) with hsame | hwritten
      · exact (congrArg P hsame).mpr (hP x hx)
      · exact (congrArg P hwritten).mpr (hP pair.2 (hstaged pair List.mem_cons_self))

/-- Objects that are the same under other numbers in two heaps are so after the same patches were written
back. -/
theorem record_writeBack_rename {ρ : ObjectId → ObjectId} {f : Record → Record} {W : ObjectId → Prop}
    (hrecord : ∀ x, W x → h'.record (ρ x) = f (h.record x)) (hinjective : ∀ x y, W x → W y → ρ x = ρ y → x = y)
    (hthere : ∀ x, W x → x.index < h.records.size ∧ (ρ x).index < h'.records.size)
    (hstaged : ∀ pair ∈ staged, W pair.1 ∧ W pair.2) :
    ∀ x, W x →
      (writeBack h' (staged.map (Prod.map ρ ρ))).record (ρ x) = f ((writeBack h staged).record x) := by
  induction staged generalizing h h' with
  | nil => exact hrecord
  | cons pair rest ih =>
      obtain ⟨hfirst, hsecond⟩ := hstaged pair List.mem_cons_self
      refine ih (fun x hx => ?_) (fun x hx => ?_) fun later hlater => hstaged later (List.mem_cons_of_mem _ hlater)
      · dsimp only [Prod.map]
        unfold Heap.overwrite
        by_cases hsame : x = pair.1
        · rw [hsame, Heap.record_setRecord_self (hthere _ hfirst).1, Heap.record_setRecord_self (hthere _ hfirst).2,
            hrecord _ hsecond]
        · rw [Heap.record_setRecord_of_ne hsame,
            Heap.record_setRecord_of_ne fun heq => hsame (hinjective x _ hx hfirst heq), hrecord x hx]
      · unfold Heap.overwrite
        rw [Heap.size_setRecord, Heap.size_setRecord]
        exact hthere x hx

/-- Objects that are the same in two heaps are so after the same patches were written back. -/
theorem record_writeBack_congr {W : ObjectId → Prop} (hrecord : ∀ x, W x → h'.record x = h.record x)
    (hthere : ∀ x, W x → x.index < h.records.size ∧ x.index < h'.records.size)
    (hstaged : ∀ pair ∈ staged, W pair.1 ∧ W pair.2) :
    ∀ x, W x → (writeBack h' staged).record x = (writeBack h staged).record x := by
  intro x hx
  have hsame := record_writeBack_rename (ρ := id) (f := id) hrecord (fun _ _ _ _ heq => heq) hthere hstaged x hx
  rwa [Prod.map_id, List.map_id] at hsame

end Node

namespace Document

variable {ctx : Context} {below : NodeReader} {s s₁ : ReadState} {type element : TypeId} {owner : ObjectId}
  {key : String} {d : Descriptor} {p : Property} {items : List Value} {documents : List Json}

/-- The document that patches the list under `key` with these items. -/
def itemPatch (key : String) (items : List Json) : Json :=
  .object [(key, .array items)]

/-- The object `owner` has a list under `key`, which documents for the type `type` may patch. -/
structure HasList (s : ReadState) (type : TypeId) (owner : ObjectId) (key : String) (d : Descriptor)
    (p : Property) (element : TypeId) : Prop where
  expected : ∃ e, s.graph.table.get? type = some e ∧ e.members?.isSome = true
  known : s.graph.table.get? (s.heap.typeOf owner) = some d
  field : ∀ json, fieldOf d "" key json = .ok (some ⟨p, json, false, false⟩)
  unreserved : key ≠ "_ref"
  /-- What is written to the property is what is read from it. -/
  direct : p.readsField.getD p.name = p.writesField.getD p.name
  slot : ∃ e, s.graph.table.get? p.type = some e ∧ e.shape = .collection element
  item : ∃ e, s.graph.table.get? element = some e
  there : owner.index < s.heap.records.size

/-- The slot of the list. -/
def listSlot (d : Descriptor) (p : Property) (items : List Value) : Node :=
  .ofProperty d.id p "" (some (.list items))

/-- The state when the list, which held `items`, was written to the copy of its owner, and the copies were
written back. -/
def closeList (p : Property) (owner copy : ObjectId) (items : List Value) (read : Node × List Value)
    (s : ReadState) : ReadState :=
  let written :=
    if s.heap.equal (.list items) (.list read.2) then s
    else { s with heap := p.write s.heap copy (.list read.2), audit := .set p.name :: s.audit }
  { written with heap := Node.writeBack written.heap (read.1.staged ++ [(owner, copy)]) }

/-! ## Down to the items -/

/-- Reading an item adds patches to the node and changes nothing else of it. -/
theorem yields_readItem_staged (element : TypeId) (patching : Bool) (n : Node) (items : List Value) (item : Json) :
    Yields (fun r => ∃ more, r.1 = { n with staged := n.staged ++ more })
      (readItem ctx below element patching n items item) := by
  unfold readItem
  refine yields_then fun mark => ?_
  split
  · refine yields_then fun _ => yields_pure ⟨[], ?_⟩
    rw [List.append_nil]
  · exact yields_then fun _ => yields_then fun child => yields_pure ⟨child.staged, rfl⟩
  · have hadd : Yields (fun r : Node × List Value => ∃ more, r.1 = { n with staged := n.staged ++ more })
        (below (.ofSlot element n.path) item >>= fun child => pure (n.absorb child, items ++ [child.result])) :=
      yields_then fun child => yields_pure ⟨child.staged, rfl⟩
    cases patching with
    | false => exact hadd
    | true => exact yields_then fun _ => hadd

theorem yields_readItems_staged (element : TypeId) (patching : Bool) (n : Node) (items : List Value)
    (documents : List Json) :
    Yields (fun r => ∃ more, r.1 = { n with staged := n.staged ++ more })
      (readItems ctx below element patching n items documents) := by
  induction documents generalizing n items with
  | nil =>
      refine yields_pure ⟨[], ?_⟩
      rw [List.append_nil]
  | cons item rest ih =>
      unfold readItems
      refine yields_bind (yields_readItem_staged element patching n items item) fun r hr => ?_
      obtain ⟨more, hmore⟩ := hr
      intro s read s₁ hrun
      obtain ⟨later, hlater⟩ := ih r.1 r.2 s read s₁ hrun
      refine ⟨more ++ later, ?_⟩
      rw [hlater, hmore, List.append_assoc]

theorem filter_name_single (f : Field) (q : Property) :
    [f].filter (fun f => f.property.name == q.name) = if f.property.name = q.name then [f] else [] := by
  by_cases hname : f.property.name = q.name <;> simp [hname]

/-- A field of a type that has the property once is put in order once. -/
theorem inDeclarationOrder_single (hdistinct : Resolution.Distinct d.properties) {f : Field}
    (hf : f.property ∈ d.properties) : inDeclarationOrder d [f] = [f] := by
  unfold inDeclarationOrder
  generalize d.properties = table at hdistinct hf
  induction table with
  | nil => cases hf
  | cons first rest ih =>
      obtain ⟨hfirst, hrest⟩ := List.pairwise_cons.mp hdistinct
      rw [List.flatMap_cons, filter_name_single]
      by_cases hname : f.property.name = first.name
      · have hnone : (rest.flatMap fun q => [f].filter fun f => f.property.name == q.name) = [] := by
          refine List.flatMap_eq_nil_iff.mpr fun q hq => ?_
          rw [filter_name_single, if_neg]
          intro hother
          have hdiffer := hfirst q hq
          rw [← hother, hname] at hdiffer
          exact absurd (hdiffer.symm.trans (Text.sameIgnoringCase_refl first.name)) Bool.false_ne_true
        rw [if_pos hname, hnone, List.append_nil]
      · have hlater : f.property ∈ rest :=
          (List.mem_cons.mp hf).resolve_left fun hsame => hname (congrArg Property.name hsame)
        rw [if_neg hname, List.nil_append]
        exact ih hrest hlater

theorem assignAll_single (object : ObjectId) (m : HttpMethod) (n : Node) (f : Field) :
    assignAll ctx below d object m n [f] = assign ctx below d object m n f := by
  unfold assignAll assignAll
  exact bind_pure _

/-- The list is written if it was changed. -/
theorem runOn_assignList (hctx : ctx.UsesDefaults) {n : Node} {copy : ObjectId} {child : Node}
    {more : List (ObjectId × ObjectId)} {final : List Value}
    (hchild : child = ({ listSlot d p items with staged := more } : Node).setValue s.heap (.list final)) :
    (if child.dirty then do
        if isAsked ⟨p, .array documents, false, false⟩ (.list items) then checkAccess ctx d p .patch
        setProperty ctx copy p child.result
        pure (n.absorb child)
      else pure (n.absorb child) : Reading Node).runOn s =
      (.ok (n.absorb child),
        if s.heap.equal (.list items) (.list final) then s
        else { s with heap := p.write s.heap copy (.list final), audit := .set p.name :: s.audit }) := by
  have hdirty : child.dirty = !s.heap.equal (.list items) (.list final) := by
    rw [hchild]
    rfl
  have hresult : child.result = .list final := by
    rw [hchild]
    rfl
  rw [hdirty, hresult]
  cases s.heap.equal (.list items) (.list final) with
  | true => rfl
  | false =>
      unfold setProperty
      rw [hctx.setProperty]
      rfl

section

variable (hlist : HasList s type owner key d p element)

include hlist

theorem HasList.property : d.property? p.name = some p :=
  (declared_of_fieldOf (hlist.field .null)).1

theorem HasList.mem : p ∈ d.properties :=
  Descriptor.mem_of_property? hlist.property

theorem HasList.members : ∃ m, d.members? = some m := by
  obtain ⟨m, hm, -⟩ := Descriptor.exists_members?_of_mem hlist.mem
  exact ⟨m, hm⟩

/-- The key is none of the names that say something about the object. -/
theorem HasList.untold : key ≠ "_type" ∧ key ≠ "_uri" := by
  have hfield := hlist.field .null
  unfold fieldOf at hfield
  refine ⟨?_, ?_⟩
  · rintro rfl
    rw [if_pos (by decide)] at hfield
    cases hfield
  · rintro rfl
    rw [if_pos (by decide)] at hfield
    cases hfield

theorem HasList.get?_itemPatch {name : String} (hname : name = "_ref" ∨ name = "_type" ∨ name = "_uri")
    (json : Json) : Entries.get? name [(key, json)] = none := by
  unfold Entries.get?
  refine if_neg ?_
  rintro rfl
  rcases hname with hname | hname | hname
  · exact hlist.unreserved hname
  · exact hlist.untold.1 hname
  · exact hlist.untold.2 hname

/-- The array is read into the slot item by item. -/
theorem runOn_readArray (depth : Nat) (h : Heap) :
    (readNode ctx (depth + 1) (listSlot d p items) (.array documents)).runOn { s with heap := h } =
      (readItems ctx (readNode ctx depth) element true (listSlot d p items) items documents >>= fun read =>
        setValue read.1 (.list read.2)).runOn { s with heap := h } := by
  obtain ⟨e, he, hshape⟩ := hlist.slot
  have hlook : (descriptor p.type).runOn { s with heap := h } = (.ok e, { s with heap := h }) :=
    runOn_descriptor he
  refine (Action.runOn_bind_ok hlook).trans ?_
  have hnull : (Json.array documents).isNull ≠ true := Bool.false_ne_true
  rw [if_neg hnull, hshape]
  rfl

/-- The node that patches the owner of the list. -/
def ownerNode (s : ReadState) (type : TypeId) (owner : ObjectId) : Node :=
  { Node.root type (some (.object owner)) with type := s.heap.typeOf owner }

theorem runOn_readContent (m : Members) (hm : d.members? = some m)
    (hdistinct : Resolution.Distinct d.properties) :
    (readContent ctx below (.root type (some (.object owner))) [(key, .array documents)]).runOn s =
      (patchObject ctx below d (ownerNode s type owner) owner [⟨p, .array documents, false, false⟩]).runOn s := by
  have hlook : (descriptor (s.heap.typeOf owner)).runOn s = (.ok d, s) := runOn_descriptor hlist.known
  have hfields : fieldsOf d "" [(key, .array documents)] = .ok [⟨p, .array documents, false, false⟩] := by
    unfold fieldsOf fieldsOf
    rw [hlist.field]
    rfl
  have htype : (fromHeap (·.typeOf owner)).runOn s = (.ok (s.heap.typeOf owner), s) := rfl
  refine (Action.runOn_bind_ok htype).trans ?_
  refine (Action.runOn_bind_ok hlook).trans ?_
  rw [hm]
  dsimp only
  have hknown : (known (fieldsOf d "" [(key, .array documents)])).runOn s =
      (.ok [⟨p, .array documents, false, false⟩], s) := by
    rw [hfields]
    rfl
  refine (Action.runOn_bind_ok hknown).trans ?_
  rw [inDeclarationOrder_single hdistinct hlist.mem]
  rfl

theorem runOn_readNode_itemPatch (hg : s.graph.Arises) (depth : Nat) :
    (readNode ctx (depth + 1) (.root type (some (.object owner))) (itemPatch key documents)).runOn s =
      (patchObject ctx (readNode ctx depth) d (ownerNode s type owner) owner
        [⟨p, .array documents, false, false⟩]).runOn s := by
  obtain ⟨e, he, hmembers⟩ := hlist.expected
  obtain ⟨m, hm⟩ := hlist.members
  have hlook : (descriptor type).runOn s = (.ok e, s) := runOn_descriptor he
  have hnone : refMember [(key, .array documents)] = .ok none := by
    unfold refMember
    rw [hlist.get?_itemPatch (.inl rfl)]
  have hknown : (known (refMember [(key, .array documents)])).runOn s = (.ok none, s) := by
    rw [hnone]
    rfl
  have hobject : (readObject ctx (readNode ctx depth) (.root type (some (.object owner)))
      (itemPatch key documents)).runOn s =
      (patchObject ctx (readNode ctx depth) d (ownerNode s type owner) owner
        [⟨p, .array documents, false, false⟩]).runOn s := by
    refine (Action.runOn_bind_ok hknown).trans ?_
    refine (Action.runOn_bind_ok hlook).trans ?_
    unfold narrow
    rw [hlist.get?_itemPatch (.inr (.inl rfl)), hlist.get?_itemPatch (.inr (.inr rfl))]
    have hnarrowed : (pure (.root type (some (.object owner))) : Reading Node).runOn s =
        (.ok (.root type (some (.object owner))), s) := rfl
    refine (Action.runOn_bind_ok hnarrowed).trans ?_
    exact runOn_readContent hlist m hm (hg.sound.distinct _ d hlist.known)
  refine (Action.runOn_bind_ok hlook).trans ?_
  have hnull : (itemPatch key documents).isNull ≠ true := Bool.false_ne_true
  rw [if_neg hnull]
  obtain ⟨m, hm⟩ := Option.isSome_iff_exists.mp hmembers
  obtain hshape | ⟨address, hshape⟩ := Descriptor.shape_of_members? hm
  · rw [hshape]
    exact hobject
  · rw [hshape]
    exact hobject

/-- The state in which the items are read: the owner of the list has been copied. -/
def itemStart (s : ReadState) (owner : ObjectId) : ReadState :=
  { s with heap := (s.heap.detach owner).2 }

/-- The items of the document, read one after another into the list. -/
def readPatch (ctx : Context) (element : TypeId) (d : Descriptor) (p : Property) (items : List Value)
    (documents : List Json) : Reading (Node × List Value) :=
  readItems ctx (readNode ctx (Json.depthOfItems documents)) element true (listSlot d p items) items documents

/-- The list of the copy is read into the slot, and the copy is written. -/
theorem runOn_assign_list (hctx : ctx.UsesDefaults) (hitems : p.read s.heap owner = .list items) {n : Node}
    (hn : n.path = "") (documents : List Json) (depth : Nat) :
    (assign ctx (readNode ctx (depth + 1)) d ⟨s.heap.records.size⟩ .patch n
        ⟨p, .array documents, false, false⟩).runOn (itemStart s owner) =
      match (readItems ctx (readNode ctx depth) element true (listSlot d p items) items documents).runOn
        (itemStart s owner) with
      | (.ok read, t) => (.ok (n.absorb (read.1.setValue t.heap (.list read.2))),
          if t.heap.equal (.list items) (.list read.2) then t
          else { t with
            heap := p.write t.heap ⟨s.heap.records.size⟩ (.list read.2), audit := .set p.name :: t.audit })
      | (.error e, t) => (.error e, t) := by
  have hcurrent : p.read (itemStart s owner).heap ⟨s.heap.records.size⟩ = .list items :=
    (congrArg p.getFrom (Heap.record_alloc_self _ _)).trans hitems
  have hslot : fieldSlot d n ⟨p, .array documents, false, false⟩ (.list items) = listSlot d p items := by
    unfold fieldSlot listSlot
    rw [hn]
    rfl
  have harray : (readNode ctx (depth + 1) (listSlot d p items) (.array documents)).runOn (itemStart s owner) = _ :=
    runOn_readArray hlist depth _
  rw [runOn_assign, hcurrent, hslot]
  cases hread : (readItems ctx (readNode ctx depth) element true (listSlot d p items) items documents).runOn
      (itemStart s owner) with
  | mk outcome t =>
      cases outcome with
      | error e => exact Action.runOn_bind_error (harray.trans (Action.runOn_bind_error hread))
      | ok read =>
          obtain ⟨more, hmore⟩ := yields_readItems_staged element true _ items documents _ read t hread
          refine (Action.runOn_bind_ok (harray.trans (Action.runOn_bind_ok hread))).trans ?_
          exact runOn_assignList hctx (by rw [hmore])

/-- **A document that patches a list** reads its items, and is accepted if they are. -/
theorem runOn_read_itemPatch (hg : s.graph.Arises) (hctx : ctx.UsesDefaults)
    (hitems : p.read s.heap owner = .list items) :
    (read ctx type (itemPatch key documents) (some (.object owner))).runOn s =
      match (readPatch ctx element d p items documents).runOn (itemStart s owner) with
      | (.ok read, t) => (.ok (.object owner), closeList p owner ⟨s.heap.records.size⟩ items read t)
      | (.error e, t) => (.error e, t) := by
  have hdepth : (itemPatch key documents).depth = Json.depthOfItems documents + 1 + 1 := rfl
  have hnode : (readNode ctx (itemPatch key documents).depth (.root type (some (.object owner)))
      (itemPatch key documents)).runOn s =
      (assign ctx (readNode ctx (Json.depthOfItems documents + 1)) d ⟨s.heap.records.size⟩ .patch
          { ownerNode s type owner with operation := .patch } ⟨p, .array documents, false, false⟩ >>= fun n =>
        setValue (n.stage owner ⟨s.heap.records.size⟩) (.object owner)).runOn (itemStart s owner) := by
    rw [hdepth, runOn_readNode_itemPatch hlist hg]
    unfold patchObject
    simp only [assignAll_single]
    rfl
  have hassign := runOn_assign_list hlist hctx hitems (n := { ownerNode s type owner with operation := .patch }) rfl
    documents (Json.depthOfItems documents)
  unfold readPatch
  cases hread : (readItems ctx (readNode ctx (Json.depthOfItems documents)) element true (listSlot d p items) items
      documents).runOn (itemStart s owner) with
  | mk outcome t =>
      rw [hread] at hassign
      cases outcome with
      | error e => exact Action.runOn_bind_error (hnode.trans (Action.runOn_bind_error hassign))
      | ok read =>
          refine (Action.runOn_bind_ok (hnode.trans (Action.runOn_bind_ok hassign))).trans ?_
          rfl

end

/-! ## The objects afterwards -/

/-- The heap when the list was written to the copy, if it was changed. -/
def writtenHeap (p : Property) (copy : ObjectId) (items final : List Value) (h : Heap) : Heap :=
  if h.equal (.list items) (.list final) then h else p.write h copy (.list final)

section

variable {copy : ObjectId} {final : List Value} {read : Node × List Value} {h : Heap}

theorem size_writtenHeap (p : Property) (copy : ObjectId) (items final : List Value) (h : Heap) :
    (writtenHeap p copy items final h).records.size = h.records.size := by
  unfold writtenHeap
  split
  · rfl
  · exact Heap.size_setRecord _ _ _

theorem record_writtenHeap_of_ne {x : ObjectId} (hx : x ≠ copy) :
    (writtenHeap p copy items final h).record x = h.record x := by
  unfold writtenHeap
  split
  · rfl
  · exact Heap.record_setRecord_of_ne hx _ _

theorem typeOf_writtenHeap (hcopy : copy.index < h.records.size) :
    (writtenHeap p copy items final h).typeOf copy = h.typeOf copy := by
  unfold writtenHeap
  split
  · rfl
  · unfold Heap.typeOf Property.write Heap.setField
    rw [Heap.record_setRecord_self hcopy]

theorem field_writtenHeap_of_ne (hcopy : copy.index < h.records.size) {name : String}
    (hname : name ≠ p.writesField.getD p.name) :
    (writtenHeap p copy items final h).field copy name = h.field copy name := by
  unfold writtenHeap
  split
  · rfl
  · unfold Heap.field Property.write Heap.setField
    rw [Heap.record_setRecord_self hcopy, Entries.get?_insert_of_ne hname]

theorem field_writtenHeap (hcopy : copy.index < h.records.size)
    (hbefore : h.field copy (p.writesField.getD p.name) = .list items)
    (hsame : h.equal (.list items) (.list final) = true → final = items) :
    (writtenHeap p copy items final h).field copy (p.writesField.getD p.name) = .list final := by
  unfold writtenHeap
  split
  · rename_i hequal
    rw [hbefore, hsame hequal]
  · unfold Heap.field Property.write Heap.setField
    rw [Heap.record_setRecord_self hcopy, Entries.get?_insert_self]
    rfl

theorem heap_closeList (p : Property) (owner copy : ObjectId) (items : List Value) (read : Node × List Value)
    (s : ReadState) : (closeList p owner copy items read s).heap =
      (Node.writeBack (writtenHeap p copy items read.2 s.heap) read.1.staged).overwrite owner copy := by
  unfold closeList writtenHeap
  dsimp only
  rw [Node.writeBack_append]
  split <;> rfl

theorem graph_closeList (p : Property) (owner copy : ObjectId) (items : List Value) (read : Node × List Value)
    (s : ReadState) : (closeList p owner copy items read s).graph = s.graph := by
  unfold closeList
  dsimp only
  split <;> rfl

theorem cells_closeList (p : Property) (owner copy : ObjectId) (items : List Value) (read : Node × List Value)
    (s : ReadState) : (closeList p owner copy items read s).heap.cells = s.heap.cells := by
  unfold closeList
  dsimp only
  rw [Node.cells_writeBack]
  split <;> rfl

theorem size_closeList (p : Property) (owner copy : ObjectId) (items : List Value) (read : Node × List Value)
    (s : ReadState) : (closeList p owner copy items read s).heap.records.size = s.heap.records.size := by
  rw [heap_closeList]
  unfold Heap.overwrite
  rw [Heap.size_setRecord, Node.size_writeBack, size_writtenHeap]

/-- Objects other than the owner of the list are as the patches leave them. -/
theorem record_closeList_of_ne {x : ObjectId} (hx : x ≠ owner) :
    (closeList p owner copy items read s).heap.record x =
      (Node.writeBack (writtenHeap p copy items read.2 s.heap) read.1.staged).record x := by
  rw [heap_closeList]
  exact Heap.record_setRecord_of_ne hx _ _

/-- The owner of the list becomes what its copy is. -/
theorem record_closeList_self (howner : owner.index < s.heap.records.size)
    (hcopy : copy ∉ read.1.staged.map Prod.fst) :
    (closeList p owner copy items read s).heap.record owner =
      (writtenHeap p copy items read.2 s.heap).record copy := by
  rw [heap_closeList]
  unfold Heap.overwrite
  rw [Heap.record_setRecord_self (by rwa [Node.size_writeBack, size_writtenHeap]),
    Node.record_writeBack_of_not_mem hcopy]

end

end Document

end ResourceQuery
