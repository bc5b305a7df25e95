import ResourceQuery.Proofs.Data.Entries
import ResourceQuery.Proofs.Wire.Standard

set_option autoImplicit false

/-! # Slots that take values

A node is ready for a slot if what it holds so far conforms to the slot's type, or is null, and the
type that the document narrows it to may stand there (`Standard.Ready`). It is done if its result
conforms (`Standard.Done`). This module leads from the one to the other for scalars, references, lists
and dictionaries, where what is below a node is read by a reader that does so already
(`Standard.Reads`).
-/

namespace ResourceQuery

/-! ## Scalars -/

/-- What is read as a value of a kind is one. -/
theorem Document.hasScalar_scalarOfKind {d : Descriptor} {kind : ValueKind} {json : Json}
    {path : String} {v : Value} (hshape : d.shape = .value kind)
    (h : scalarOfKind kind json path = .ok v) : d.hasScalar v = true := by
  unfold scalarOfKind at h
  unfold Descriptor.hasScalar
  rw [hshape]
  cases kind with
  | boolean =>
      dsimp only at h
      split at h
      · cases h
        rfl
      · cases h
  | int32 =>
      dsimp only at h
      split at h
      · split at h
        · rename_i hfits
          cases h
          exact hfits
        · cases h
      · cases h
  | int64 =>
      dsimp only at h
      split at h
      · cases h
        rfl
      · cases h
  | double =>
      dsimp only at h
      split at h
      · cases h
        rfl
      · cases h
  | string =>
      dsimp only at h
      split at h
      · cases h
        rfl
      · cases h
  | dateTime =>
      dsimp only at h
      split at h
      · split at h
        · cases h
          rfl
        · cases h
      · cases h
  | any => cases h

/-- What is read as a scalar of a type is one, or it is a null that the type accepts. -/
theorem Document.scalar_cases {d : Descriptor} {json : Json} {path : String} {v : Value}
    (h : scalar d json path = .ok v) :
    json.isNull = true ∧ v = .null ∧ d.nullable = true ∨
      json.isNull = false ∧ d.hasScalar v = true := by
  unfold scalar at h
  cases hnull : json.isNull with
  | true =>
      rw [hnull, if_pos rfl] at h
      split at h
      · rename_i hnullable
        exact Or.inl ⟨rfl, (Except.ok.inj h).symm, hnullable⟩
      · cases h
  | false =>
      right
      refine ⟨rfl, ?_⟩
      rw [hnull, if_neg Bool.false_ne_true] at h
      split at h
      · cases h
      · rename_i kind _ hshape
        exact hasScalar_scalarOfKind hshape h
      · rename_i members hshape
        unfold enumMember at h
        split at h
        · cases h
        · split at h
          · rename_i member hmember
            cases h
            unfold Descriptor.enumMember? at hmember
            rw [hshape] at hmember
            unfold Descriptor.hasScalar
            rw [hshape]
            exact List.contains_iff_mem.mpr (List.mem_of_find?_eq_some hmember)
          · cases h
      · cases h

/-- An untyped slot holds any scalar. -/
theorem Descriptor.hasScalar_of_isAny {d e : Descriptor} {v : Value} (hany : d.isAny = true)
    (h : e.hasScalar v = true) : d.hasScalar v = true := by
  have hshape := shape_of_isAny hany
  unfold hasScalar at h ⊢
  rw [hshape]
  split at h <;> first | rfl | cases h

namespace Standard

open Reading Document

variable {w : Standard} {O O' : Objects} {type : TypeId} {d : Descriptor} {v : Value} {n : Node}
  {F : Objects → Prop} {ctx : Context} {below : NodeReader}

/-! ## Nodes -/

/-- Each copy is beside an original of the same type. -/
def Paired (pairs : List (ObjectId × ObjectId)) (O : Objects) : Prop :=
  ∀ pair ∈ pairs, ∃ concrete, O pair.1 concrete ∧ O pair.2 concrete

theorem Paired.append {ps qs : List (ObjectId × ObjectId)} (hps : Paired ps O) (hqs : Paired qs O) :
    Paired (ps ++ qs) O := by
  intro pair hpair
  rcases List.mem_append.mp hpair with h | h
  · exact hps pair h
  · exact hqs pair h

/-- The node is one for a slot of the type, and may be read into. -/
structure Ready (w : Standard) (type : TypeId) (n : Node) (O : Objects) : Prop where
  expected : n.expected = type
  narrowed : w.graph.isAssignable type n.type = true
  value : ∀ v, n.value = some v → v = .null ∨ w.Conforms O type v
  staged : Paired n.staged O

/-- The node was read: it holds a value of the type. -/
structure Done (w : Standard) (type : TypeId) (n : Node) (O : Objects) : Prop where
  result : w.Conforms O type n.result
  staged : Paired n.staged O

theorem stable_paired (pairs : List (ObjectId × ObjectId)) : Stable (Paired pairs) := by
  intro O O' hO h pair hpair
  obtain ⟨concrete, horiginal, hcopy⟩ := h pair hpair
  exact ⟨concrete, hO _ _ horiginal, hO _ _ hcopy⟩

theorem stable_ready (type : TypeId) (n : Node) : Stable (w.Ready type n) :=
  fun O O' hO h =>
    { h with
      value := fun v hv => (h.value v hv).imp_right fun hconforms => hconforms.grow hO
      staged := stable_paired _ O O' hO h.staged }

theorem stable_done (type : TypeId) (n : Node) : Stable (w.Done type n) :=
  fun O O' hO h => ⟨h.result.grow hO, stable_paired _ O O' hO h.staged⟩

theorem Ready.absorb (h : w.Ready type n O) {child : Node} (hchild : Paired child.staged O) :
    w.Ready type (n.absorb child) O :=
  { h with staged := h.staged.append hchild }

theorem ready_ofSlot (w : Standard) (type : TypeId) (path : String) (O : Objects) :
    w.Ready type (.ofSlot type path) O where
  expected := rfl
  narrowed := w.graph.isAssignable_self type
  value := fun _ h => nomatch h
  staged := fun _ h => nomatch h

/-- A slot that holds a value of its type, and may be read into in any way. -/
theorem Ready.withValue {path : String} {current : Option Value} {operation : NodeOperation}
    {owner : Option NodeOwner} (hvalue : ∀ v, current = some v → v = .null ∨ w.Conforms O type v) :
    w.Ready type { Node.ofSlot type path with operation, value := current, owner } O :=
  { ready_ofSlot w type path O with value := hvalue }

/-- The reader reads values of whatever type a slot has. -/
def Reads (w : Standard) (below : NodeReader) : Prop :=
  ∀ node json, w.Ends (fun O => w.Admits json ∧ w.Ready node.expected node O) (below node json)
    (w.Done node.expected)

/-- A sequence that starts by reading a slot. -/
theorem ends_below {β : Type} {R : β → Objects → Prop} (hF : Stable F) (hbelow : w.Reads below)
    {node : Node} {json : Json} {f : Node → Reading β}
    (hready : ∀ O, F O → w.Admits json ∧ w.Ready node.expected node O)
    (hf : ∀ child, w.Ends (fun O => F O ∧ w.Done node.expected child O) (f child) R) :
    w.Ends F (below node json >>= f) R :=
  ends_bind hF ((hbelow node json).imp hready fun _ _ h => h) hf

theorem ends_setValue (hF : ∀ O, F O → Paired n.staged O ∧ w.Conforms O type v) :
    w.Ends F (setValue n v) (w.Done type) :=
  ends_look fun s a O hanswer _ _ hO => by
    rw [← Except.ok.inj hanswer]
    exact ⟨(hF O hO).2, (hF O hO).1⟩

/-! ### Scalars and references -/

theorem conforms_null (hd : w.Knows type d) (h : d.nullable = true) : w.Conforms O type .null :=
  .null hd (Or.inl h)

theorem conforms_scalar (hd : w.Knows type d) (h : d.hasScalar v = true) : w.Conforms O type v := by
  refine .scalar hd h ?_
  cases v with
  | null =>
      unfold Descriptor.hasScalar at h
      split at h <;> contradiction
  | _ => trivial

/-- What comes out of a box: its type, and what it holds. -/
theorem ends_unbox (members : Entries Json) :
    w.Ends (fun _ => True) (unbox members) fun box _ => w.Knows box.1.id box.1 ∧
      ((Entries.get? "_type" members).bind Json.asString?).isSome = true ∧
      Entries.get? "value" members = some box.2 := by
  unfold unbox
  cases htag : (Entries.get? "_type" members).bind Json.asString? with
  | none => exact ends_misshapen _ _
  | some name =>
      cases hinner : Entries.get? "value" members with
      | none => exact ends_misshapen _ _
      | some inner =>
          refine ends_bind (stable_const True) (ends_typeNamed name) fun d => ?_
          exact ends_pure fun _ h => ⟨h.2, rfl, rfl⟩

/-- What is known of a slot when it is read by the shape of its type. -/
def Slot (w : Standard) (type : TypeId) (d : Descriptor) (n : Node) (O : Objects) : Prop :=
  w.Ready type n O ∧ w.Knows type d

theorem stable_slot (type : TypeId) (d : Descriptor) (n : Node) : Stable (w.Slot type d n) :=
  stable_and (stable_ready _ _) (stable_const _)

theorem ends_readScalar {kind : ValueKind} (hshape : d.shape = .value kind) {json : Json}
    (hjson : w.Admits json) :
    w.Ends (w.Slot type d n) (readScalar d kind n json) (w.Done type) := by
  unfold readScalar
  split
  · rename_i members
    refine ends_bind (stable_slot _ _ _) ((ends_unbox members).imp (fun _ _ => trivial) fun _ _ h => h)
      fun box => ?_
    dsimp only
    split
    · exact ends_misshapen _ _
    · rename_i hkind
      refine ends_known fun v hv => ends_setValue fun O h => ?_
      obtain ⟨⟨hready, hd⟩, _, htag, hinner⟩ := h
      refine ⟨hready.staged, ?_⟩
      rcases scalar_cases hv with ⟨hnull, rfl, _⟩ | ⟨_, hscalar⟩
      · -- the null came in a box, which is known of the document
        have hbox : (Json.object members).boxesNull = true := by
          unfold Json.boxesNull Json.isNullBox
          rw [htag, hinner, Option.any_some, hnull]
          rfl
        refine .null hd (Or.inr ⟨hjson hbox, ?_⟩)
        unfold Descriptor.valueKind?
        rw [hshape]
        rfl
      · -- the box is of the kind of the slot, and that is all that counts for other values
        have hsame : box.1.shape = .value kind := by
          unfold Descriptor.valueKind? at hkind
          split at hkind
          · rename_i kind' hboxed
            rw [hboxed]
            exact congrArg TypeShape.value (by simpa using hkind)
          · simp at hkind
        refine conforms_scalar hd ?_
        unfold Descriptor.hasScalar at hscalar ⊢
        rw [hshape]
        rw [hsame] at hscalar
        exact hscalar
  · refine ends_known fun v hv => ends_setValue fun O h => ⟨h.1.staged, ?_⟩
    exact conforms_scalar h.2 (hasScalar_scalarOfKind hshape hv)

/-- A reference stands for a resource of the type that the document narrowed the slot to. -/
theorem ends_readReference (hctx : ctx.UsesDefaults) (hscalar : d.isScalar = false) (uri : String) :
    w.Ends (w.Slot type d n) (readReference ctx n uri) (w.Done type) := by
  unfold readReference
  refine ends_note (ends_bind (stable_slot _ _ _) (M := fun v O => w.Conforms O type v) ?_ fun v =>
    ends_setValue fun O h => ⟨h.1.1.staged, h.2⟩)
  rw [hctx.reference]
  refine ends_onHeap fun h v h' O hrun hfits hslot => ?_
  cases hrun
  refine ⟨O, le_refl O, ⟨hfits.old, hfits.stores.congr rfl⟩, ?_⟩
  exact .reference hslot.2 hscalar hslot.1.narrowed trivial

/-! ### Lists -/

theorem ends_checkItem (n : Node) (m : HttpMethod) :
    w.Ends (fun _ => True) (checkItem ctx n m) fun _ _ => True := by
  unfold checkItem
  split
  · exact ends_pure fun _ _ => trivial
  · refine ends_bind (stable_const _) ((ends_descriptor _).imp (fun _ h => h) fun _ _ h => h) fun d =>
      ends_note ?_
    exact ends_look fun _ _ _ _ _ _ _ => trivial

/-- A sequence that starts with an action of which only the objects matter that it leaves. -/
theorem ends_then {α β : Type} {R : β → Objects → Prop} (hF : Stable F) {x : Reading α}
    {f : α → Reading β} (hx : w.Ends (fun _ => True) x fun _ _ => True)
    (hf : ∀ a, w.Ends F (f a) R) : w.Ends F (x >>= f) R :=
  ends_bind hF (hx.imp (fun _ _ => trivial) fun _ _ h => h) fun a =>
    (hf a).imp (fun _ h => h.1) fun _ _ h => h

theorem ends_locate (hbelow : w.Reads below) (element : TypeId) (name : String) {identifier : Json}
    (hjson : w.Admits identifier) (items : List Value) (path : String) :
    w.Ends (fun _ => True) (locate below element name identifier items path) fun _ _ => True := by
  unfold locate
  refine ends_then (stable_const _) (ends_look fun _ _ _ _ _ _ _ => trivial) fun d => ?_
  split
  · exact ends_misshapen _ _
  · rename_i p _
    refine ends_below (stable_const _) hbelow
      (fun O _ => ⟨hjson, ready_ofSlot w p.type path O⟩) fun read => ?_
    refine ends_then (stable_and (stable_const _) (stable_done _ _)) ?_ fun s => ?_
    · exact ends_look (f := fun s => .ok s) fun _ _ _ _ _ _ _ => trivial
    · split
      · exact ends_pure fun _ _ => trivial
      · exact ends_misshapen _ _

theorem ends_markedItem (hbelow : w.Reads below) (element : TypeId) (items : List Value)
    (path : String) (mark : Option (NodeOperation × Nat)) {members : List (String × Json)}
    (hmembers : ∀ member ∈ members, w.Admits member.2) :
    w.Ends (fun _ => True) (markedItem below element items path mark members) fun _ _ => True := by
  induction members generalizing mark with
  | nil => exact ends_pure fun _ _ => trivial
  | cons member rest ih =>
      obtain ⟨key, identifier⟩ := member
      have hrest := fun mark => ih mark fun other hother => hmembers other (by simp [hother])
      unfold markedItem
      split
      · exact ends_then (stable_const _)
          (ends_locate hbelow _ _ (hmembers (key, identifier) (by simp)) _ _) fun i => hrest _
      · exact hrest _

theorem admits_membersOf {json : Json} (h : w.Admits json) :
    ∀ member ∈ membersOf json, w.Admits member.2 := by
  cases json with
  | object members => exact fun member hmember => h.member hmember
  | _ => exact fun _ hmember => nomatch hmember

/-- A node of the type that has read some items of a list. -/
def Listing (w : Standard) (type element : TypeId) (read : Node × List Value) (O : Objects) : Prop :=
  w.Ready type read.1 O ∧ ∀ v ∈ read.2, w.Conforms O element v

theorem stable_all (type : TypeId) (items : List Value) :
    Stable fun O => ∀ v ∈ items, w.Conforms O type v :=
  fun _ _ hO h v hv => (h v hv).grow hO

theorem stable_listing (type element : TypeId) (read : Node × List Value) :
    Stable (w.Listing type element read) :=
  stable_and (stable_ready _ _) (stable_all _ _)

theorem ends_readItem (hbelow : w.Reads below) {element : TypeId} (patching : Bool)
    {items : List Value} {item : Json} (hitem : w.Admits item) :
    w.Ends (w.Listing type element (n, items)) (readItem ctx below element patching n items item)
      (w.Listing type element) := by
  have hlisting : Stable (w.Listing type element (n, items)) := stable_listing _ _ _
  unfold readItem
  refine ends_then hlisting (ends_markedItem hbelow _ _ _ _ (admits_membersOf hitem)) fun mark => ?_
  split
  · refine ends_then hlisting (ends_checkItem _ _) fun _ => ends_pure fun O h => ?_
    exact ⟨h.1, fun v hv => h.2 v (List.mem_of_mem_eraseIdx hv)⟩
  · rename_i operation i _
    refine ends_then hlisting (ends_checkItem _ _) fun _ => ?_
    -- the item that is patched is one of the list
    refine ends_below hlisting hbelow (fun O h => ⟨hitem, Ready.withValue fun v hv =>
      Or.inr (h.2 v (List.mem_of_getElem? hv))⟩) fun child => ends_pure fun O ⟨h, hchild⟩ => ?_
    refine ⟨h.1.absorb hchild.staged, fun v hv => ?_⟩
    rcases List.mem_or_eq_of_mem_set hv with hold | hnew
    · exact h.2 v hold
    · rw [hnew]
      exact hchild.result
  · have hadd : w.Ends (w.Listing type element (n, items)) (do
        let child ← below (Node.ofSlot element n.path) item
        pure (n.absorb child, items ++ [child.result])) (w.Listing type element) := by
      refine ends_below hlisting hbelow (fun O _ => ⟨hitem, ready_ofSlot w element n.path O⟩)
        fun child => ends_pure fun O ⟨h, hchild⟩ => ?_
      refine ⟨h.1.absorb hchild.staged, fun v hv => ?_⟩
      rcases List.mem_append.mp hv with hold | hnew
      · exact h.2 v hold
      · rw [List.mem_singleton.mp hnew]
        exact hchild.result
    dsimp only
    split
    · exact ends_then hlisting (ends_checkItem _ _) fun _ => hadd
    · exact hadd

theorem ends_readItems (hbelow : w.Reads below) {element : TypeId} (patching : Bool)
    {items : List Value} {documents : List Json} (hdocuments : ∀ item ∈ documents, w.Admits item) :
    w.Ends (w.Listing type element (n, items)) (readItems ctx below element patching n items documents)
      (w.Listing type element) := by
  induction documents generalizing n items with
  | nil => exact ends_pure fun _ h => h
  | cons item rest ih =>
      unfold readItems
      refine ends_bind (stable_listing _ _ _)
        (ends_readItem hbelow patching (hdocuments item (by simp))) fun read => ?_
      exact (ih fun other hother => hdocuments other (by simp [hother])).imp (fun _ h => h.2)
        fun _ _ h => h

/-- The items of a list conform to the type of items. -/
theorem Conforms.items {items : List Value} {element : TypeId} (h : w.Conforms O type (.list items))
    (hd : w.Knows type d) (hslot : d.itemSlot? = some element) :
    ∀ v ∈ items, w.Conforms O element v := by
  cases h with
  | scalar _ hscalar =>
      unfold Descriptor.hasScalar at hscalar
      split at hscalar <;> contradiction
  | list hd' hslot' hitems =>
      rw [Option.some.inj (hd.symm.trans hd'), hslot'] at hslot
      rw [← Option.some.inj hslot]
      exact hitems

theorem isScalar_of_itemSlot? {element : TypeId} (h : d.itemSlot? = some element) :
    d.isScalar = false := by
  unfold Descriptor.itemSlot? at h
  unfold Descriptor.isScalar
  split at h
  · rename_i hshape
    rw [hshape]
  · rename_i hshape
    rw [hshape]
  · cases h

theorem ends_readList (hctx : ctx.UsesDefaults) (hbelow : w.Reads below) {element : TypeId}
    (hslot : d.itemSlot? = some element) {json : Json} (hjson : w.Admits json) :
    w.Ends (w.Slot type d n) (readList ctx below element n json) (w.Done type) := by
  unfold readList
  refine ends_known fun uri _ => ?_
  split
  · exact ends_readReference hctx (isScalar_of_itemSlot? hslot) _
  · unfold readArrayItems
    split
    · rename_i documents
      have hstart : ∀ O, w.Slot type d n O → w.Listing type element (n, (keptList? n).getD []) O := by
        rintro O ⟨hready, hd⟩
        refine ⟨hready, ?_⟩
        unfold keptList?
        split
        · rename_i items hvalue
          split
          · rcases hready.value _ hvalue with hnull | hconforms
            · cases hnull
            · exact hconforms.items hd hslot
          · exact fun _ h => absurd h List.not_mem_nil
        · exact fun _ h => absurd h List.not_mem_nil
      refine ends_bind (stable_slot _ _ _)
        ((ends_readItems hbelow _ fun item hitem => hjson.item hitem).imp hstart fun _ _ h => h)
        fun read => ends_setValue fun O h => ⟨h.2.1.staged, ?_⟩
      exact .list h.1.2 hslot h.2.2 trivial
    · exact ends_misshapen _ _

/-! ### Dictionaries -/

/-- A node of the type that has read some entries of a dictionary. -/
def Filling (w : Standard) (type value : TypeId) (read : Node × Entries Value) (O : Objects) : Prop :=
  w.Ready type read.1 O ∧ ∀ entry ∈ read.2, w.Conforms O value entry.2

theorem stable_filling (type value : TypeId) (read : Node × Entries Value) :
    Stable (w.Filling type value read) :=
  stable_and (stable_ready _ _) fun _ _ hO h entry hentry => (h entry hentry).grow hO

theorem ends_readEntries (hbelow : w.Reads below) {value : TypeId} {entries : Entries Value}
    {members : List (String × Json)} (hmembers : ∀ member ∈ members, w.Admits member.2) :
    w.Ends (w.Filling type value (n, entries)) (readEntries below value n entries members)
      (w.Filling type value) := by
  induction members generalizing n entries with
  | nil => exact ends_pure fun _ h => h
  | cons member rest ih =>
      obtain ⟨key, json⟩ := member
      have hrest : ∀ other ∈ rest, w.Admits other.2 := fun other hother =>
        hmembers other (by simp [hother])
      unfold readEntries
      split
      · exact (ih hrest).imp (fun O h => ⟨h.1, fun entry hentry =>
          h.2 entry (Entries.mem_of_mem_erase hentry)⟩) fun _ _ h => h
      · split
        · exact ends_misshapen _ _
        · refine ends_below (stable_filling _ _ _) hbelow (fun O _ =>
            ⟨hmembers (key, json) (by simp), ready_ofSlot w value _ O⟩) fun child => ?_
          refine (ih hrest).imp (fun O ⟨h, hchild⟩ => ?_) fun _ _ h => h
          refine ⟨h.1.absorb hchild.staged, fun entry hentry => ?_⟩
          rcases Entries.mem_insert hentry with hnew | hold
          · rw [hnew]
            exact hchild.result
          · exact h.2 entry hold

/-- The values of a dictionary conform to the type of values. -/
theorem Conforms.entries {entries : Entries Value} {value : TypeId}
    (h : w.Conforms O type (.map entries)) (hd : w.Knows type d)
    (hslot : d.entrySlot? = some value) : ∀ entry ∈ entries, w.Conforms O value entry.2 := by
  cases h with
  | scalar _ hscalar =>
      unfold Descriptor.hasScalar at hscalar
      split at hscalar <;> contradiction
  | map hd' hslot' hentries =>
      rw [Option.some.inj (hd.symm.trans hd'), hslot'] at hslot
      rw [← Option.some.inj hslot]
      exact hentries

theorem ends_readDictionary (hctx : ctx.UsesDefaults) (hbelow : w.Reads below) {value : TypeId}
    (hscalar : d.isScalar = false) (hslot : ∀ O, w.Slot type d n O → d.entrySlot? = some value)
    {json : Json} (hjson : w.Admits json) :
    w.Ends (w.Slot type d n) (readDictionary ctx below value n json) (w.Done type) := by
  unfold readDictionary
  split
  · rename_i members
    refine ends_known fun uri _ => ?_
    split
    · exact ends_readReference hctx hscalar _
    · have hstart : ∀ O, w.Slot type d n O → w.Filling type value (n, keptEntries n) O := by
        intro O h
        obtain ⟨hready, hd⟩ := h
        refine ⟨hready, ?_⟩
        unfold keptEntries
        split
        · rename_i entries hvalue
          split
          · rcases hready.value _ hvalue with hnull | hconforms
            · cases hnull
            · exact hconforms.entries hd (hslot O ⟨hready, hd⟩)
          · exact fun _ h => absurd h List.not_mem_nil
        · exact fun _ h => absurd h List.not_mem_nil
      refine ends_bind (stable_slot _ _ _)
        ((ends_readEntries hbelow fun member hmember => hjson.member hmember).imp hstart
          fun _ _ h => h) fun read => ends_setValue fun O h => ⟨h.2.1.staged, ?_⟩
      exact .map h.1.2 (hslot O h.1) h.2.2 trivial
  · exact ends_misshapen _ _

end Standard

end ResourceQuery
