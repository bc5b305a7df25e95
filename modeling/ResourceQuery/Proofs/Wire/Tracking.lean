import ResourceQuery.Proofs.Type.Inheritance
import ResourceQuery.Proofs.Wire.Versions

set_option autoImplicit false

/-! # Following a property through the reader

The functions for the shapes of documents keep the invariant of `Versions.lean` when the declared masks
decide. Objects are written in two places only: a new object, which is no version, and the copy that a
patch works on (`keeps_assign`). Everything else passes on what its children staged, which is all that
`KeepsNode` says.

`evolves_read` is what comes out: between the start and the end of an accepted document the stored
value of the property evolved.
-/

namespace ResourceQuery

namespace Document

open Reading Watch Versions

variable {w : Watch} {below : NodeReader}

/-! ## Nodes that keep the invariant -/

/-- The action reads what the slot of `n` holds: besides the patches staged before, the node it ends
with has copies of versions staged only as versions. -/
def KeepsNode (w : Watch) (n : Node) (x : Reading Node) : Prop :=
  w.Keeps (Paired n.staged) x fun m => Paired m.staged

theorem keepsNode_setValue (n : Node) (v : Value) : KeepsNode w n (setValue n v) := by
  intro V s hfits hV m s' hrun
  cases hrun
  exact ⟨V, .refl V, hfits, hV⟩

/-- A sequence that starts by reading a slot with nothing staged. -/
theorem keeps_below {β : Type} {F : Versions → Prop} {G : β → Versions → Prop}
    (hF : Stable F) (hbelow : ∀ node json, KeepsNode w node (below node json)) {slot : Node}
    (hslot : slot.staged = []) {json : Json} {f : Node → Reading β}
    (hf : ∀ child, w.Keeps (fun V => F V ∧ Paired child.staged V) (f child) G) :
    w.Keeps F (below slot json >>= f) G := by
  refine keeps_bind hF ?_ hf
  refine (hbelow slot json).imp (fun V _ => ?_) fun _ _ h => h
  rw [hslot]
  exact paired_nil V

/-- A sequence that starts with an action of which only the growth of the heap matters. -/
theorem keeps_then {α β : Type} {F : Versions → Prop} {G : β → Versions → Prop} {x : Reading α}
    {f : α → Reading β} (hF : Stable F) (hx : w.Keeps (fun _ => True) x fun _ _ => True)
    (hf : ∀ a, w.Keeps F (f a) G) : w.Keeps F (x >>= f) G :=
  keeps_bind hF (hx.imp (fun _ _ => trivial) fun _ _ h => h) fun a =>
    (hf a).imp (fun _ h => h.1) fun _ _ h => h

/-! ## Scalars and references -/

theorem quiet_unbox (members : Entries Json) : Quiet (unbox members) := by
  unfold unbox
  split
  · exact quiet_fail _
  · split
    · exact quiet_fail _
    · exact quiet_bind (quiet_typeNamed _) fun d => quiet_pure _

theorem keepsNode_readScalar (expected : Descriptor) (kind : ValueKind) (n : Node) (json : Json) :
    KeepsNode w n (readScalar expected kind n json) := by
  unfold readScalar
  split
  · refine keeps_quiet_bind (quiet_unbox _) fun (boxed, inner) => ?_
    dsimp only
    split
    · exact keeps_misshapen _ _
    · exact keeps_quiet_bind (quiet_look _) fun v =>
        keepsNode_setValue { n with type := boxed.id } v
  · exact keeps_quiet_bind (quiet_look _) fun v => keepsNode_setValue _ v

theorem quiet_unloaded (n : Node) : Quiet (onHeap (Context.masked.reference n)) := by
  intro s
  show (((Context.unloaded n).runOn s.heap).2).records = s.heap.records ∧ _
  unfold Context.unloaded
  cases n.uri with
  | none => exact ⟨rfl, .refl _⟩
  | some uri => exact ⟨rfl, .refl _⟩

theorem keepsNode_readReference (n : Node) (uri : String) :
    KeepsNode w n (readReference .masked n uri) := by
  unfold readReference
  exact keeps_quiet_bind (quiet_note _) fun _ => keeps_quiet_bind (quiet_unloaded _) fun v =>
    keepsNode_setValue { n with uri := some uri } v

/-! ## Lists -/

theorem quiet_checkItem (n : Node) (m : HttpMethod) : Quiet (checkItem .masked n m) := by
  unfold checkItem
  split
  · exact quiet_pure _
  · exact quiet_bind (quiet_look _) fun d => quiet_bind (quiet_note _) fun _ => quiet_look _

theorem keeps_locate (hbelow : ∀ node json, KeepsNode w node (below node json)) (element : TypeId)
    (name : String) (identifier : Json) (items : List Value) (path : String) :
    w.Keeps (fun _ => True) (locate below element name identifier items path)
      fun _ _ => True := by
  unfold locate
  refine keeps_quiet_bind (quiet_look _) fun d => ?_
  split
  · exact keeps_misshapen _ _
  · refine keeps_below stable_true hbelow rfl fun read => keeps_quiet_bind quiet_get fun s => ?_
    split
    · exact keeps_pure fun _ _ => trivial
    · exact keeps_misshapen _ _

theorem keeps_markedItem (hbelow : ∀ node json, KeepsNode w node (below node json))
    (element : TypeId) (items : List Value) (path : String)
    (mark : Option (NodeOperation × Nat)) (members : List (String × Json)) :
    w.Keeps (fun _ => True) (markedItem below element items path mark members)
      fun _ _ => True := by
  induction members generalizing mark with
  | nil => exact keeps_pure fun _ _ => trivial
  | cons member rest ih =>
      obtain ⟨key, identifier⟩ := member
      unfold markedItem
      split
      · exact keeps_then stable_true (keeps_locate hbelow _ _ _ _ _) fun i => ih _
      · exact ih _

theorem keeps_readItem (hbelow : ∀ node json, KeepsNode w node (below node json))
    (element : TypeId) (patching : Bool) (n : Node) (items : List Value) (item : Json) :
    w.Keeps (Paired n.staged) (readItem .masked below element patching n items item)
      fun read => Paired read.1.staged := by
  unfold readItem
  refine keeps_then (stable_paired _) (keeps_markedItem hbelow _ _ _ _ _) fun mark => ?_
  split
  · exact keeps_quiet_bind (quiet_checkItem _ _) fun _ => keeps_pure fun _ h => h
  · refine keeps_quiet_bind (quiet_checkItem _ _) fun _ => ?_
    refine keeps_below (stable_paired _) hbelow rfl fun child => ?_
    exact keeps_pure fun _ h => h.1.append h.2
  · have hadd : w.Keeps (Paired n.staged) (do
        let child ← below (Node.ofSlot element n.path) item
        pure (n.absorb child, items ++ [child.result])) fun read => Paired read.1.staged :=
      keeps_below (stable_paired _) hbelow rfl fun child => keeps_pure fun _ h => h.1.append h.2
    dsimp only
    split
    · exact keeps_quiet_bind (quiet_checkItem _ _) fun _ => hadd
    · exact hadd

theorem keeps_readItems (hbelow : ∀ node json, KeepsNode w node (below node json))
    (element : TypeId) (patching : Bool) (n : Node) (items : List Value) (documents : List Json) :
    w.Keeps (Paired n.staged) (readItems .masked below element patching n items documents)
      fun read => Paired read.1.staged := by
  induction documents generalizing n items with
  | nil => exact keeps_pure fun _ h => h
  | cons item rest ih =>
      unfold readItems
      refine keeps_bind (stable_paired _) (keeps_readItem hbelow _ _ _ _ _) fun read => ?_
      exact (ih _ _).imp (fun _ h => h.2) fun _ _ h => h

theorem keepsNode_readList (hbelow : ∀ node json, KeepsNode w node (below node json))
    (element : TypeId) (n : Node) (json : Json) :
    KeepsNode w n (readList .masked below element n json) := by
  unfold readList
  refine keeps_quiet_bind (quiet_look _) fun uri => ?_
  split
  · exact keepsNode_readReference _ _
  · unfold readArrayItems
    split
    · refine keeps_bind (stable_paired _) (keeps_readItems hbelow _ _ _ _ _) fun read => ?_
      exact (keepsNode_setValue _ _).imp (fun _ h => h.2) fun _ _ h => h
    · exact keeps_misshapen _ _

/-! ## Dictionaries and untyped slots -/

theorem keeps_readEntries (hbelow : ∀ node json, KeepsNode w node (below node json))
    (valueType : TypeId) (n : Node) (entries : Entries Value) (members : List (String × Json)) :
    w.Keeps (Paired n.staged) (readEntries below valueType n entries members)
      fun read => Paired read.1.staged := by
  induction members generalizing n entries with
  | nil => exact keeps_pure fun _ h => h
  | cons member rest ih =>
      obtain ⟨key, json⟩ := member
      unfold readEntries
      split
      · exact ih _ _
      · split
        · exact keeps_misshapen _ _
        · refine keeps_below (stable_paired _) hbelow rfl fun child => ?_
          exact (ih _ _).imp (fun _ h => h.1.append h.2) fun _ _ h => h

theorem keepsNode_readDictionary (hbelow : ∀ node json, KeepsNode w node (below node json))
    (valueType : TypeId) (n : Node) (json : Json) :
    KeepsNode w n (readDictionary .masked below valueType n json) := by
  unfold readDictionary
  split
  · refine keeps_quiet_bind (quiet_look _) fun uri => ?_
    split
    · exact keepsNode_readReference _ _
    · refine keeps_bind (stable_paired _) (keeps_readEntries hbelow _ _ _ _) fun read => ?_
      exact (keepsNode_setValue _ _).imp (fun _ h => h.2) fun _ _ h => h
  · exact keeps_misshapen _ _

theorem keeps_readUntypedItems (hbelow : ∀ node json, KeepsNode w node (below node json))
    (n : Node) (done : List Value) (documents : List Json) :
    w.Keeps (Paired n.staged) (readUntypedItems below n done documents)
      fun read => Paired read.1.staged := by
  induction documents generalizing n done with
  | nil => exact keeps_pure fun _ h => h
  | cons item rest ih =>
      unfold readUntypedItems
      refine keeps_below (stable_paired _) hbelow rfl fun child => ?_
      exact (ih _ _).imp (fun _ h => h.1.append h.2) fun _ _ h => h

/-! ## Writing to objects -/

/-- The object is one of the heap, and if it is a version then it is being patched, as an object of the
type that is followed, by properties of that type. -/
def Writable (w : Watch) (object : ObjectId) (d : Descriptor) (m : HttpMethod)
    (fields : List Field) (V : Versions) : Prop :=
  object.index < V.size ∧ (V.isVersion object → d = w.descriptor ∧ m = .patch ∧
    ∀ f ∈ fields, d.property? f.property.name = some f.property)

theorem stable_writable (object : ObjectId) (d : Descriptor) (m : HttpMethod)
    (fields : List Field) : Stable (Writable w object d m fields) := by
  intro V V' hgrows h
  refine ⟨Nat.lt_of_lt_of_le h.1 hgrows.1, ?_⟩
  rw [hgrows.2 _ h.1]
  exact h.2

theorem Writable.mono {object : ObjectId} {d : Descriptor} {m : HttpMethod} {fs gs : List Field}
    {V : Versions} (h : Writable w object d m fs V) (hsub : ∀ f ∈ gs, f ∈ fs) :
    Writable w object d m gs V := by
  refine ⟨h.1, fun hversion => ?_⟩
  obtain ⟨hd, hm, hfields⟩ := h.2 hversion
  exact ⟨hd, hm, fun f hf => hfields f (hsub f hf)⟩

theorem writable_of_foreign {object : ObjectId} {V : Versions} (h : Foreign object V) (d : Descriptor)
    (m : HttpMethod) (fields : List Field) : Writable w object d m fields V :=
  ⟨h.1, fun hversion => absurd hversion h.2⟩

/-- A write keeps the invariant if, where the object is a version and the property is the one that is
followed, the value evolved from the one at the start. -/
theorem keeps_setProperty {F : Versions → Prop} {object : ObjectId} {q : Property} {v : Value}
    (hF : ∀ V, F V → object.index < V.size ∧ (V.isVersion object →
      w.descriptor.property? q.name = some q ∧ (q = w.property → w.property.Evolves w.old v))) :
    w.Keeps F (setProperty .masked object q v) fun _ V => F V := by
  intro V s hfits hV a s' hrun
  obtain ⟨hobject, hversion⟩ := hF V hV
  cases hrun
  refine ⟨V, .refl V, ?_, hV⟩
  have hwritten : w.Fits V { s with heap := q.write s.heap object v } := by
    refine hfits.setRecord hobject (fun hv => hfits.type object hv) fun hv => ?_
    obtain ⟨hq, hevolved⟩ := hversion hv
    -- a property without a setter writes the field of its name
    have hplain : q.writesField.getD q.name = q.name := by
      rw [w.plain q (Descriptor.mem_of_property? hq)]
      rfl
    show w.property.Evolves w.old ((Entries.get? w.property.name
      (Entries.insert (q.writesField.getD q.name) v (s.heap.record object).fields)).getD .null)
    rw [hplain]
    by_cases hname : w.property.name = q.name
    · -- a property of this name on this type is the one that is followed
      have hsame : q = w.property := by
        have hcalled := w.called
        rw [hname, hq] at hcalled
        exact Option.some.inj hcalled
      rw [hname, Entries.get?_insert_self]
      exact hevolved hsame
    · rw [Entries.get?_insert_of_ne hname]
      exact hfits.evolved object hv
  exact hwritten.congr rfl (.refl _)

theorem yields_checkAccess (d : Descriptor) (q : Property) (m : HttpMethod) :
    Yields (fun _ => q.access.contains m = true) (checkAccess .masked d q m) := by
  unfold checkAccess
  refine yields_then fun _ => yields_known fun _ hasked => ?_
  have hrequire : Context.require (q.access.contains m) d q m = .ok () := hasked
  unfold Context.require at hrequire
  split at hrequire
  · assumption
  · cases hrequire

theorem quiet_checkAccess (d : Descriptor) (q : Property) (m : HttpMethod) :
    Quiet (checkAccess .masked d q m) := by
  unfold checkAccess
  exact quiet_bind (quiet_note _) fun _ => quiet_look _

/-! ### Assignments -/

/-- A reader that, where a slot holds a list and is not forced to a new value, ends with edits of that
list or with no list. -/
def EditsLists (below : NodeReader) : Prop :=
  ∀ (node : Node) (json : Json) (n : Node) (s s' : ReadState) (xs : List Value) (e : Descriptor)
    (owner : NodeOwner), s.graph.table.get? node.expected = some e → e.isAny = false →
    node.owner = some owner → node.value = some (.list xs) → node.keeps = true →
    (below node json).runOn s = (.ok n, s') → EndsWithEdits owner.property.itemAccess xs n

theorem evolves_of_edits {p : Property} {xs : List Value} {n : Node}
    (h : EndsWithEdits p.itemAccess xs n) : p.Evolves (.list xs) n.result := by
  by_cases hlist : ∃ ys, n.result = .list ys
  · obtain ⟨ys, hys⟩ := hlist
    exact .allowed (Or.inr ⟨xs, ys, rfl, hys, h ys hys⟩)
  · exact .displaced rfl fun ys hys => hlist ⟨ys, hys⟩

/-- The object is one of the heap, and if it is a version then it is being patched, as an object of the
type that is followed; where nobody asks about the property that is followed, the value evolved from
the one at the start. -/
def Storable (w : Watch) (object : ObjectId) (d : Descriptor) (m : HttpMethod) (q : Property)
    (ask : Bool) (v : Value) (V : Versions) : Prop :=
  object.index < V.size ∧ (V.isVersion object → d = w.descriptor ∧ m = .patch ∧
    d.property? q.name = some q ∧
    (q = w.property → ask = false → w.property.Evolves w.old v))

theorem stable_storable (object : ObjectId) (d : Descriptor) (m : HttpMethod) (q : Property)
    (ask : Bool) (v : Value) : Stable (Storable w object d m q ask v) := by
  intro V V' hgrows h
  refine ⟨Nat.lt_of_lt_of_le h.1 hgrows.1, ?_⟩
  rw [hgrows.2 _ h.1]
  exact h.2

/-- The last steps of an assignment: the property is asked about or not, and written. -/
theorem keeps_store {object : ObjectId} {d : Descriptor} {m : HttpMethod} {q : Property}
    {ask : Bool} {v : Value} {n : Node} {F : Versions → Prop} (hF : Stable F)
    (hstore : ∀ V, F V → Storable w object d m q ask v V) :
    w.Keeps F (do
      if ask then checkAccess .masked d q m
      setProperty .masked object q v
      pure n) fun n' V => n' = n ∧ F V := by
  cases ask with
  | false =>
      refine keeps_bind hF (keeps_setProperty fun V hV => ?_) fun _ => keeps_pure fun _ h => ⟨rfl, h.1⟩
      obtain ⟨hobject, hversion⟩ := hstore V hV
      refine ⟨hobject, fun hv => ?_⟩
      obtain ⟨rfl, _, hq, hevolved⟩ := hversion hv
      exact ⟨hq, fun hsame => hevolved hsame rfl⟩
  | true =>
      refine keeps_bind hF (keeps_of_quiet (quiet_checkAccess d q m) (yields_checkAccess d q m))
        fun _ => ?_
      have hasked : Stable fun V => F V ∧ q.access.contains m = true :=
        stable_and hF fun _ _ _ h => h
      refine keeps_bind hasked (keeps_setProperty fun V hV => ?_) fun _ =>
        keeps_pure fun _ h => ⟨rfl, h.1.1⟩
      obtain ⟨hobject, hversion⟩ := hstore V hV.1
      refine ⟨hobject, fun hv => ?_⟩
      obtain ⟨rfl, rfl, hq, _⟩ := hversion hv
      refine ⟨hq, fun hsame => ?_⟩
      -- The mask of the property that is followed has PATCH, so any value is allowed.
      have hpatch : w.property.access.contains .patch = true := hsame ▸ hV.2
      exact .allowed (Or.inl hpatch)

/-- The slot of a field whose property holds `current`. -/
def fieldSlot (d : Descriptor) (n : Node) (field : Field) (current : Value) : Node :=
  let slot := Node.ofProperty d.id field.property n.path (some current)
  if field.forced then { slot with operation := .post } else slot

/-- Whether the context is asked about the property of a field, which holds `current`. -/
def isAsked (field : Field) (current : Value) : Bool :=
  !match current with
    | .list _ => !field.forced
    | _ => false

/-- What an assignment does once it has looked at the value that the property holds. -/
theorem runOn_assign (ctx : Context) (object : ObjectId) (d : Descriptor) (m : HttpMethod)
    (n : Node) (field : Field) (s : ReadState) :
    (assign ctx below d object m n field).runOn s =
      (below (fieldSlot d n field (field.property.read s.heap object)) field.json >>= fun child =>
        if child.dirty then do
          if isAsked field (field.property.read s.heap object) then
            checkAccess ctx d field.property m
          setProperty ctx object field.property child.result
          pure (n.absorb child)
        else pure (n.absorb child)).runOn s := rfl

theorem staged_fieldSlot (d : Descriptor) (n : Node) (field : Field) (current : Value) :
    (fieldSlot d n field current).staged = [] := by
  unfold fieldSlot
  dsimp only
  split
  · rfl
  · rfl

/-- Where nobody is asked about the property, the field is read into a slot that holds a list. -/
theorem fieldSlot_of_not_asked {field : Field} {current : Value} (h : isAsked field current = false)
    (d : Descriptor) (n : Node) :
    ∃ xs, current = .list xs ∧
      fieldSlot d n field current = Node.ofProperty d.id field.property n.path (some (.list xs)) := by
  cases current with
  | list xs =>
      have hforced : field.forced = false := by simpa [isAsked] using h
      refine ⟨xs, rfl, ?_⟩
      unfold fieldSlot
      rw [hforced]
      rfl
  | _ => cases h

/-- Where nobody is asked about the property that is followed, what is read into its slot evolved from
the value at the start. -/
theorem evolves_of_read (hedits : EditsLists below) {V : Versions} {s s₁ : ReadState}
    (hfits : w.Fits V s) {object : ObjectId} (hversion : V.isVersion object) {d : Descriptor}
    {n child : Node} {field : Field} (hsame : field.property = w.property)
    (hunasked : isAsked field (field.property.read s.heap object) = false)
    (hread : (below (fieldSlot d n field (field.property.read s.heap object)) field.json).runOn s =
      (.ok child, s₁)) :
    w.property.Evolves w.old child.result := by
  obtain ⟨xs, hlist, hslot⟩ := fieldSlot_of_not_asked hunasked d n
  have hfield : field.property.read s.heap object = s.heap.field object w.property.name := by
    rw [hsame]
    unfold Property.read Property.getFrom
    rw [w.direct]
    rfl
  have hstart := hfits.evolved object hversion
  rw [← hfield, hlist] at hstart
  rw [hslot, hsame] at hread
  have hends := hedits _ _ child s s₁ xs w.slot ⟨d.id, w.property⟩
    (hfits.types.get? w.slotKnown) w.typed rfl rfl rfl hread
  exact hstart.trans (evolves_of_edits hends)

/-- **Assigning a field keeps the invariant.** The value that the property holds is looked at before
the field is read; what is written afterwards is allowed by the property's mask, or came from that
value by edits, or displaced a list. -/
theorem keeps_assign (hbelow : ∀ node json, KeepsNode w node (below node json))
    (hedits : EditsLists below) {object : ObjectId} {d : Descriptor} {m : HttpMethod} {n : Node}
    {field : Field} :
    w.Keeps (fun V => Paired n.staged V ∧ Writable w object d m [field] V)
      (assign .masked below d object m n field) fun n' => Paired n'.staged := by
  intro V s hfits ⟨hpaired, hwritable⟩ n' s' hrun
  rw [runOn_assign, Action.runOn_bind] at hrun
  cases hread : (below (fieldSlot d n field (field.property.read s.heap object)) field.json).runOn s with
  | mk outcome s₁ =>
      rw [hread] at hrun
      cases outcome with
      | error e => cases hrun
      | ok child =>
          have hstorable : Storable w object d m field.property
              (isAsked field (field.property.read s.heap object)) child.result V := by
            refine ⟨hwritable.1, fun hversion => ?_⟩
            obtain ⟨hd, hm, hfields⟩ := hwritable.2 hversion
            exact ⟨hd, hm, hfields field (by simp), fun hsame hunasked =>
              evolves_of_read hedits hfits hversion hsame hunasked hread⟩
          obtain ⟨V₁, hgrows, hfits₁, hpaired₁⟩ := hbelow _ _ V s hfits
            (by rw [staged_fieldSlot]; exact paired_nil V) child s₁ hread
          -- What was known before the field was read is still known.
          have hV₁ := stable_and (stable_paired n.staged) (stable_storable _ _ _ _ _ _) V V₁ hgrows
            ⟨hpaired, hstorable⟩
          have hrest : w.Keeps (fun V => (Paired n.staged V ∧ Storable w object d m field.property
                (isAsked field (field.property.read s.heap object)) child.result V) ∧
                Paired child.staged V)
              (if child.dirty then do
                if isAsked field (field.property.read s.heap object) then
                  checkAccess .masked d field.property m
                setProperty .masked object field.property child.result
                pure (n.absorb child)
              else pure (n.absorb child)) fun n' => Paired n'.staged := by
            split
            · refine (keeps_store (stable_and (stable_and (stable_paired _)
                (stable_storable _ _ _ _ _ _)) (stable_paired _)) fun V h => h.1.2).imp
                (fun _ h => h) fun n' V h => ?_
              rw [h.1]
              exact h.2.1.1.append h.2.2
            · exact keeps_pure fun V h => h.1.1.append h.2
          obtain ⟨V₂, hgrows₂, hfits₂, hpaired₂⟩ := hrest V₁ s₁ hfits₁ ⟨hV₁, hpaired₁⟩ n' s' hrun
          exact ⟨V₂, hgrows.trans hgrows₂, hfits₂, hpaired₂⟩

theorem keeps_assignAll (hbelow : ∀ node json, KeepsNode w node (below node json))
    (hedits : EditsLists below) {object : ObjectId} {d : Descriptor} {m : HttpMethod} {n : Node}
    {fields : List Field} :
    w.Keeps (fun V => Paired n.staged V ∧ Writable w object d m fields V)
      (assignAll .masked below d object m n fields) fun n' => Paired n'.staged := by
  induction fields generalizing n with
  | nil => exact keeps_pure fun _ h => h.1
  | cons field rest ih =>
      unfold assignAll
      refine keeps_bind (stable_and (stable_paired _) (stable_writable _ _ _ _))
        ((keeps_assign hbelow hedits).imp (fun V h => ⟨h.1, h.2.mono (by simp)⟩) fun _ _ h => h)
        fun n' => ?_
      exact ih.imp (fun V h => ⟨h.2, h.1.2.mono fun f hf => by simp [hf]⟩) fun _ _ h => h

/-! ### Constructors -/

theorem keeps_setForeign {object : ObjectId} {q : Property} {v : Value}
    {F : Versions → Prop} (hF : ∀ V, F V → Foreign object V) :
    w.Keeps F (setProperty .masked object q v) fun _ V => F V :=
  keeps_setProperty fun V hV => ⟨(hF V hV).1, fun hversion => absurd hversion (hF V hV).2⟩

theorem keeps_construct (hbelow : ∀ node json, KeepsNode w node (below node json))
    {object : ObjectId} {d : Descriptor} {n : Node} {fields : List Field}
    {parameter : ConstructorParameter} :
    w.Keeps (fun V => Paired n.staged V ∧ Foreign object V)
      (construct .masked below d object n fields parameter) fun made => Paired made.1.staged := by
  have hF : Stable fun V => Paired n.staged V ∧ Foreign object V :=
    stable_and (stable_paired _) (stable_foreign _)
  unfold construct
  split
  · exact keeps_fail _ _
  · split
    · refine keeps_below hF hbelow rfl fun child => ?_
      refine keeps_quiet_bind (quiet_checkAccess _ _ _) fun _ => ?_
      refine keeps_bind (stable_and hF (stable_paired _)) (keeps_setForeign fun V h => h.1.2)
        fun _ => keeps_pure fun V h => h.1.1.1.append h.1.2
    · split
      · exact keeps_bind hF (keeps_setForeign fun V h => h.2) fun _ => keeps_pure fun V h => h.1.1
      · exact keeps_fail _ _

theorem keeps_constructAll (hbelow : ∀ node json, KeepsNode w node (below node json))
    {object : ObjectId} {d : Descriptor} {n : Node} {fields : List Field}
    {parameters : List ConstructorParameter} :
    w.Keeps (fun V => Paired n.staged V ∧ Foreign object V)
      (constructAll .masked below d object n fields parameters)
      fun made => Paired made.1.staged := by
  induction parameters generalizing n fields with
  | nil => exact keeps_pure fun _ h => h.1
  | cons parameter rest ih =>
      unfold constructAll
      refine keeps_bind (stable_and (stable_paired _) (stable_foreign _)) (keeps_construct hbelow)
        fun made => ?_
      exact ih.imp (fun V h => ⟨h.2, h.1.2⟩) fun _ _ h => h

/-! ## Objects -/

/-- The copy that a patch works on is a version if the object is one. -/
theorem keeps_detach {object : ObjectId} {d : Descriptor} {m : HttpMethod} {fields : List Field} :
    w.Keeps (Writable w object d m fields) (onHeap (Action.change fun h => h.detach object))
      fun copy V => Writable w copy d m fields V ∧ Paired [(object, copy)] V := by
  intro V s hfits ⟨hobject, hversion⟩ copy s' hrun
  cases hrun
  have hgrows := V.grows_push (V.isVersion object)
  have hcopy : (V.push (V.isVersion object)).isVersion ⟨s.heap.records.size⟩ ↔
      V.isVersion object := isVersion_push_self hfits.size
  have hlt : s.heap.records.size < (V.push (V.isVersion object)).size := by
    rw [hfits.size]
    exact Nat.lt_succ_self _
  refine ⟨_, hgrows, hfits.detach, ⟨hlt, fun h => hversion (hcopy.mp h)⟩, ?_⟩
  intro pair hpair
  rw [List.mem_singleton] at hpair
  rw [hpair]
  refine ⟨Nat.lt_of_lt_of_le hobject hgrows.1, hlt, fun h => ?_⟩
  exact hcopy.mpr ((hgrows.2 object hobject).mp h)

/-- A new object is no version. -/
theorem keeps_alloc {F : Versions → Prop} (r : Record) :
    w.Keeps F (onHeap (Action.change fun h => h.alloc r)) fun object V => Foreign object V := by
  intro V s hfits _ object s' hrun
  cases hrun
  refine ⟨_, V.grows_push False, hfits.alloc r, ?_, fun h => ?_⟩
  · show s.heap.records.size < V.size + 1
    rw [hfits.size]
    exact Nat.lt_succ_self _
  · exact (isVersion_push_self hfits.size).mp h

theorem keeps_patchObject (hbelow : ∀ node json, KeepsNode w node (below node json))
    (hedits : EditsLists below) {object : ObjectId} {d : Descriptor} {n : Node}
    {fields : List Field} :
    w.Keeps (fun V => Paired n.staged V ∧ Writable w object d .patch fields V)
      (patchObject .masked below d n object fields) fun n' => Paired n'.staged := by
  unfold patchObject
  refine keeps_bind (stable_and (stable_paired _) (stable_writable _ _ _ _))
    (keeps_detach.imp (fun V h => h.2) fun _ _ h => h) fun copy => ?_
  refine (keeps_bind (F := fun V => Paired [(object, copy)] V ∧
      (Paired n.staged V ∧ Writable w copy d .patch fields V))
    (stable_and (stable_paired _) (stable_and (stable_paired _) (stable_writable _ _ _ _)))
    ((keeps_assignAll (n := { n with operation := .patch }) hbelow hedits).imp
      (fun V h => h.2) fun _ _ h => h) fun n' => ?_).imp
    (fun V h => ⟨h.2.2, h.1.1, h.2.1⟩) fun _ _ h => h
  exact (keepsNode_setValue (n'.stage object copy) _).imp
    (fun V h => h.2.append h.1.1) fun _ _ h => h

theorem keepsNode_createObject (hbelow : ∀ node json, KeepsNode w node (below node json))
    (hedits : EditsLists below) (d : Descriptor) (m : Members) (n : Node) (fields : List Field) :
    KeepsNode w n (createObject .masked below d m n fields) := by
  unfold createObject
  split
  · exact keeps_misshapen _ _
  · refine keeps_bind (stable_paired _) (keeps_alloc _) fun object => ?_
    refine keeps_bind (stable_and (stable_paired _) (stable_foreign _))
      (keeps_constructAll (n := { n with operation := .post }) hbelow) fun made => ?_
    refine keeps_bind (stable_and (stable_and (stable_paired _) (stable_foreign _))
        (stable_paired _))
      ((keeps_assignAll hbelow hedits).imp (fun V h => ⟨h.2, writable_of_foreign h.1.2 _ _ _⟩)
        fun _ _ h => h) fun n' => ?_
    exact (keepsNode_setValue n' _).imp (fun V h => h.2) fun _ _ h => h

theorem keeps_narrow (expected : Descriptor) (n : Node) (members : Entries Json) :
    KeepsNode w n (narrow expected n members) := by
  unfold narrow
  split
  · exact keeps_pure fun _ h => h
  · refine keeps_quiet_bind (quiet_typeNamed _) fun tagged =>
      keeps_quiet_bind (quiet_look _) fun fits => ?_
    split
    · exact keeps_misshapen _ _
    · exact keeps_pure fun _ h => h
  · exact keeps_misshapen _ _

/-! ### The type of an object that is kept -/

/-- The type is that of an object of the heap, and if the object is a version then it is the type that
is followed; or it is the first type. -/
def TypeOf (w : Watch) (object : ObjectId) (type : TypeId) (V : Versions) : Prop :=
  (object.index < V.size ∧ (V.isVersion object → type = w.type)) ∨ type = ⟨0⟩

theorem stable_typeOf (object : ObjectId) (type : TypeId) : Stable (TypeOf w object type) := by
  intro V V' hgrows h
  rcases h with ⟨hobject, htype⟩ | hfirst
  · left
    refine ⟨Nat.lt_of_lt_of_le hobject hgrows.1, ?_⟩
    rw [hgrows.2 _ hobject]
    exact htype
  · exact Or.inr hfirst

theorem keeps_typeOf {F : Versions → Prop} (object : ObjectId) :
    w.Keeps F (fromHeap fun h => h.typeOf object) fun type V => TypeOf w object type V := by
  intro V s hfits _ type s' hrun
  cases hrun
  refine ⟨V, .refl V, hfits, ?_⟩
  by_cases hobject : object.index < V.size
  · exact Or.inl ⟨hobject, fun hversion => hfits.type object hversion⟩
  · right
    show ((s.heap.records[object.index]?).getD ⟨⟨0⟩, []⟩).type = ⟨0⟩
    rw [Array.getElem?_eq_none (by rw [hfits.size]; omega)]
    rfl

theorem keeps_descriptor {F : Versions → Prop} (type : TypeId) :
    w.Keeps F (descriptor type) fun d _ =>
      (type = w.type → d = w.descriptor) ∧ (type = ⟨0⟩ → d.members? = none) := by
  intro V s hfits _ d s' hrun
  have hget : s.graph.table.get? type = some d := by
    simp only [Reading.descriptor, Action.look, Action.runOn_ofFunction, TypeGraph.get] at hrun
    cases hlookup : s.graph.table.get? type with
    | none =>
        rw [hlookup] at hrun
        cases hrun
    | some found =>
        rw [hlookup] at hrun
        cases hrun
        rfl
  have hstate : s' = s := (congrArg Prod.snd hrun).symm
  rw [hstate]
  refine ⟨V, .refl V, hfits, fun htype => ?_, fun htype => ?_⟩
  · have hknown := hfits.types.get? w.known
    rw [← htype, hget] at hknown
    exact Option.some.inj hknown
  · obtain ⟨first, hfirst, hmembers⟩ := w.first
    have hthere := hfits.types.get? hfirst
    rw [← htype, hget] at hthere
    rw [Option.some.inj hthere]
    exact hmembers

/-! ### Fields -/

theorem property?_self {d : Descriptor} {name : String} {p : Property}
    (h : d.property? name = some p) : d.property? p.name = some p :=
  (Descriptor.property?_congr (Descriptor.isNamed_of_property? h)).trans h

/-- A member that is a property is one of the type. -/
theorem declared_of_fieldOf {d : Descriptor} {path key : String} {json : Json} {f : Field}
    (h : fieldOf d path key json = .ok (some f)) :
    d.property? f.property.name = some f.property ∧ f.json = json := by
  -- a member that is no property of the type is rejected, or tells the type or the identity
  unfold fieldOf at h
  split at h
  · cases h
  · dsimp only at h
    split at h
    · rename_i q hq
      cases h
      exact ⟨property?_self hq, rfl⟩
    · cases h

/-- Each field comes from a member. -/
theorem exists_member_of_fieldsOf {d : Descriptor} {path : String} {members : List (String × Json)}
    {fields : List Field} (h : fieldsOf d path members = .ok fields) :
    ∀ f ∈ fields, ∃ member ∈ members, fieldOf d path member.1 member.2 = .ok (some f) := by
  induction members generalizing fields with
  | nil =>
      cases h
      intro f hf
      cases hf
  | cons member rest ih =>
      obtain ⟨key, json⟩ := member
      unfold fieldsOf at h
      cases hfield : fieldOf d path key json with
      | error e =>
          rw [hfield] at h
          cases h
      | ok field =>
          cases hothers : fieldsOf d path rest with
          | error e =>
              rw [hfield, hothers] at h
              cases h
          | ok others =>
              rw [hfield, hothers] at h
              cases h
              intro f hf
              rcases List.mem_append.mp hf with hfirst | hlater
              · have hsome : field = some f := by simpa using hfirst
                exact ⟨(key, json), List.mem_cons_self, hsome ▸ hfield⟩
              · obtain ⟨member, hmember, hread⟩ := ih hothers f hlater
                exact ⟨member, List.mem_cons_of_mem _ hmember, hread⟩

theorem fieldsOf_declared {d : Descriptor} {path : String} {members : List (String × Json)}
    {fields : List Field} (h : fieldsOf d path members = .ok fields) :
    ∀ f ∈ fields, d.property? f.property.name = some f.property := by
  intro f hf
  obtain ⟨_, _, hread⟩ := exists_member_of_fieldsOf h f hf
  exact (declared_of_fieldOf hread).1

theorem mem_inDeclarationOrder {d : Descriptor} {fields : List Field} {f : Field}
    (h : f ∈ inDeclarationOrder d fields) : f ∈ fields := by
  unfold inDeclarationOrder at h
  obtain ⟨p, _, hf⟩ := List.mem_flatMap.mp h
  exact (List.mem_filter.mp hf).1

/-! ## Nodes -/

/-- An object that is kept is patched with fields of its own type. -/
theorem keeps_patchKept (hbelow : ∀ node json, KeepsNode w node (below node json))
    (hedits : EditsLists below) (n : Node) (object : ObjectId) (members : Entries Json) :
    w.Keeps (fun V => Paired n.staged V ∧ TypeOf w object n.type V) (do
      let d ← Reading.descriptor n.type
      match d.members? with
      | none => misshapen (.notStructured d.name)
      | some _ =>
        let fields ← Reading.known (fieldsOf d n.path members)
        patchObject .masked below d n object (inDeclarationOrder d fields))
      fun n' => Paired n'.staged := by
  refine keeps_bind (stable_and (stable_paired _) (stable_typeOf _ _)) (keeps_descriptor _)
    fun d => ?_
  split
  · exact keeps_misshapen _ _
  · rename_i m hmembers
    have hF : Stable fun V => (Paired n.staged V ∧ TypeOf w object n.type V) ∧
        (n.type = w.type → d = w.descriptor) ∧ (n.type = ⟨0⟩ → d.members? = none) :=
      stable_and (stable_and (stable_paired _) (stable_typeOf _ _)) fun _ _ _ h => h
    refine keeps_bind hF (keeps_of_quiet (quiet_look _)
      (yields_known fun fields hfields => fieldsOf_declared hfields)) fun fields => ?_
    refine (keeps_patchObject hbelow hedits).imp (fun V h => ?_) fun _ _ h => h
    obtain ⟨⟨⟨hpaired, htype⟩, hdescriptor, hfirst⟩, hdeclared⟩ := h
    refine ⟨hpaired, ?_⟩
    rcases htype with ⟨hobject, hversion⟩ | hzero
    · exact ⟨hobject, fun hv => ⟨hdescriptor (hversion hv), rfl,
        fun f hf => hdeclared f (mem_inDeclarationOrder hf)⟩⟩
    · -- A number without an object has the first type, and that has no members.
      rw [hfirst hzero] at hmembers
      cases hmembers

theorem keepsNode_readContent (hbelow : ∀ node json, KeepsNode w node (below node json))
    (hedits : EditsLists below) (n : Node) (members : Entries Json) :
    KeepsNode w n (readContent .masked below n members) := by
  have hcreate : KeepsNode w n (do
      let d ← Reading.descriptor n.type
      match d.members? with
      | none => misshapen (.notStructured d.name)
      | some m =>
        let fields ← Reading.known (fieldsOf d n.path members)
        createObject .masked below d m n (inDeclarationOrder d fields)) := by
    refine keeps_quiet_bind (quiet_look _) fun d => ?_
    split
    · exact keeps_misshapen _ _
    · exact keeps_quiet_bind (quiet_look _) fun fields =>
        keepsNode_createObject hbelow hedits _ _ _ _
  unfold readContent
  cases keptObject? n with
  | none => exact hcreate
  | some object =>
      exact keeps_bind (stable_paired _) (keeps_typeOf object) fun type =>
        keeps_patchKept hbelow hedits { n with type } object members

theorem keepsNode_readObject (hbelow : ∀ node json, KeepsNode w node (below node json))
    (hedits : EditsLists below) (n : Node) (json : Json) :
    KeepsNode w n (readObject .masked below n json) := by
  unfold readObject
  split
  · refine keeps_quiet_bind (quiet_look _) fun uri => ?_
    split
    · exact keepsNode_readReference _ _
    · refine keeps_quiet_bind (quiet_look _) fun expected => ?_
      refine keeps_bind (stable_paired _) (keeps_narrow _ _ _) fun typed => ?_
      refine Keeps.imp (F := Paired typed.staged) ?_ (fun V h => h.2) fun _ _ h => h
      split
      · exact keepsNode_readContent hbelow hedits _ _
      · split
        · exact keepsNode_readReference _ _
        · rename_i uri _ _
          exact keepsNode_readContent hbelow hedits { typed with uri := some uri } _
      · exact keeps_misshapen _ _
  · exact keeps_misshapen _ _

theorem keepsNode_readUntyped (hbelow : ∀ node json, KeepsNode w node (below node json))
    (hedits : EditsLists below) (n : Node) (json : Json) :
    KeepsNode w n (readUntyped .masked below n json) := by
  unfold readUntyped
  split
  · exact keepsNode_setValue _ _
  · exact keepsNode_setValue _ _
  · exact keepsNode_setValue _ _
  · exact keepsNode_setValue _ _
  · refine keeps_bind (stable_paired _) (keeps_readUntypedItems hbelow _ _ _) fun read => ?_
    exact (keepsNode_setValue _ _).imp (fun _ h => h.2) fun _ _ h => h
  · unfold readUntypedObject
    split
    · exact keepsNode_readDictionary hbelow _ _ _
    · refine keeps_quiet_bind (quiet_typeNamed _) fun d => ?_
      split
      · exact keepsNode_readObject hbelow hedits _ _
      · refine keeps_quiet_bind (quiet_unbox _) fun (boxed, inner) => ?_
        exact keeps_quiet_bind (quiet_look _) fun v =>
          keepsNode_setValue { n with type := boxed.id } v
    · exact keeps_misshapen _ _

theorem keepsNode_readWith (hbelow : ∀ node json, KeepsNode w node (below node json))
    (hedits : EditsLists below) (n : Node) (json : Json) :
    KeepsNode w n (readWith .masked below n json) := by
  unfold readWith
  refine keeps_quiet_bind (quiet_look _) fun expected => ?_
  split
  · split
    · exact keepsNode_setValue _ _
    · exact keeps_misshapen _ _
  · split
    · exact keepsNode_readUntyped hbelow hedits _ _
    · exact keepsNode_readScalar _ _ _ _
    · exact keeps_quiet_bind (quiet_look _) fun v => keepsNode_setValue _ v
    · exact keepsNode_readList hbelow _ _ _
    · exact keepsNode_readDictionary hbelow _ _ _
    · exact keepsNode_readObject hbelow hedits _ _
    · exact keepsNode_readObject hbelow hedits _ _

theorem editsLists_readNode (depth : Nat) : EditsLists (readNode .masked depth) :=
  fun _ _ _ _ _ _ _ _ hexpected htyped howner hvalue hkeeps hrun =>
    readNode_edits hexpected htyped howner hvalue hkeeps hrun

/-- **Reading a node keeps the invariant.** -/
theorem keepsNode_readNode (depth : Nat) (n : Node) (json : Json) :
    KeepsNode w n (readNode .masked depth n json) := by
  induction depth generalizing n json with
  | zero =>
      exact keepsNode_readWith (fun _ _ => keeps_misshapen _ _)
        (fun _ _ _ _ _ _ _ _ _ _ _ _ _ hrun => by cases hrun) n json
  | succ depth ih => exact keepsNode_readWith ih (editsLists_readNode depth) n json

/-- An accepted document leaves a value that evolved from the one at the start. -/
theorem evolves_read {id : ObjectId} {expected : TypeId} {json : Json} {existing : Option Value}
    {s : ReadState} {v : Value} (hid : id.index < s.heap.records.size)
    (htable : w.table = s.graph.table) (htype : w.type = s.heap.typeOf id)
    (hold : w.old = s.heap.field id w.property.name)
    (hrun : ((read .masked expected json existing).runOn s).1 = .ok v) :
    w.property.Evolves w.old
      (((read .masked expected json existing).runOn s).2.heap.field id w.property.name) := by
  -- At the start the object is its only version.
  have hstart : w.Fits ⟨s.heap.records.size, fun object => object = id⟩ s := by
    refine ⟨rfl, ?_, ?_, ?_, ?_⟩
    · rw [htable]
      exact .refl _
    · rintro object rfl
      exact hid
    · rintro object rfl
      exact htype.symm
    · rintro object rfl
      rw [hold]
      exact .same
  unfold read at hrun ⊢
  rw [Action.runOn_bind] at hrun ⊢
  cases hwalk : (readNode .masked json.depth (.root expected existing) json).runOn s with
  | mk outcome s₁ =>
      rw [hwalk] at hrun
      cases outcome with
      | error e => cases hrun
      | ok n =>
          obtain ⟨V, hgrows, hfits, hpaired⟩ := keepsNode_readNode json.depth
            (.root expected existing) json _ s hstart (paired_nil _) n s₁ hwalk
          have hversion : V.isVersion id := (hgrows.2 id hid).mpr rfl
          exact (hfits.writeBack hpaired).evolved id hversion

end Document

end ResourceQuery
