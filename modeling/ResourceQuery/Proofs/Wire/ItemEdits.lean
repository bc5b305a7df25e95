import Mathlib.Logic.Relation
import ResourceQuery.Wire.Reader

set_option autoImplicit false

/-! # Lists change item by item

A node that holds a list and is not forced to a new value changes the list item by item, and each
change is one that the context was asked about. This file says so of the **answer** of a node: whatever
shape the document has, if the node ends with a list then the list came from the old one by edits that
the mask allows (`readWith_edits`). The node may also end with no list at all; nobody is asked then.

`Reading.Yields Q x` says that what `x` answers satisfies `Q`. It is all that is needed here, because
what is below a node has no influence on which edits its items undergo.
-/

namespace ResourceQuery

/-! ## Edits -/

/-- An edit of a list of items that `mask` allows: to append needs `POST`, to put something in the
place of an item `PATCH`, and to remove one `DELETE`. -/
inductive ItemEdit (mask : HttpMethods) : List Value → List Value → Prop where
  | append (h : mask.contains .post = true) (items : List Value) (v : Value) :
      ItemEdit mask items (items ++ [v])
  | replace (h : mask.contains .patch = true) (items : List Value) (i : Nat) (v : Value) :
      ItemEdit mask items (items.set i v)
  | remove (h : mask.contains .delete = true) (items : List Value) (i : Nat) :
      ItemEdit mask items (items.eraseIdx i)

/-- Edits one after another, each of which `mask` allows. -/
def ItemEdits (mask : HttpMethods) : List Value → List Value → Prop :=
  Relation.ReflTransGen (ItemEdit mask)

/-- The value is no list. -/
def Value.NotList (v : Value) : Prop :=
  ∀ items, v ≠ .list items

/-! ## Answers -/

namespace Reading

variable {α β : Type}

/-- Whatever the state, what the action answers satisfies `Q`. -/
def Yields (Q : α → Prop) (x : Reading α) : Prop :=
  ∀ s a s', x.runOn s = (.ok a, s') → Q a

theorem yields_bind {P : α → Prop} {Q : β → Prop} {x : Reading α} {f : α → Reading β}
    (hx : Yields P x) (hf : ∀ a, P a → Yields Q (f a)) : Yields Q (x >>= f) := by
  intro s b s'' hrun
  rw [Action.runOn_bind] at hrun
  cases hfirst : x.runOn s with
  | mk outcome s' =>
      rw [hfirst] at hrun
      cases outcome with
      | error e => cases hrun
      | ok a => exact hf a (hx s a s' hfirst) s' b s'' hrun

/-- A sequence, where nothing need be known of the first answer. -/
theorem yields_then {Q : β → Prop} {x : Reading α} {f : α → Reading β}
    (hf : ∀ a, Yields Q (f a)) : Yields Q (x >>= f) :=
  yields_bind (P := fun _ => True) (fun _ _ _ _ => trivial) fun a _ => hf a

theorem yields_pure {Q : α → Prop} {a : α} (h : Q a) : Yields Q (pure a : Reading α) := by
  intro s b s' hrun
  cases hrun
  exact h

theorem yields_misshapen (Q : α → Prop) (cause : Misshapen) :
    Yields Q (misshapen cause : Reading α) := by
  intro s a s' hrun
  cases hrun

theorem yields_known {Q : α → Prop} {outcome : Except Error α} (h : ∀ a, outcome = .ok a → Q a) :
    Yields Q (known outcome) := by
  intro s a s' hrun
  have houtcome : outcome = .ok a := congrArg Prod.fst hrun
  exact h a houtcome

/-- A node that got a value has it. -/
theorem yields_setValue {Q : Node → Prop} (node : Node) {v : Value}
    (h : ∀ n : Node, n.result = v → Q n) : Yields Q (setValue node v) := by
  intro s n s' hrun
  cases hrun
  exact h _ rfl

end Reading

/-! ## The reader -/

namespace Document

open Reading

variable {below : NodeReader} {ctx : Context}

/-! ### Answers that are no lists -/

/-- The node ends without a list. -/
def EndsWithoutList (n : Node) : Prop :=
  n.result.NotList

theorem yields_setValue_notList (node : Node) {v : Value} (h : v.NotList) :
    Yields EndsWithoutList (setValue node v) := by
  refine yields_setValue node fun n hn => ?_
  unfold EndsWithoutList
  rw [hn]
  exact h

theorem notList_scalarOfKind {kind : ValueKind} {json : Json} {path : String} {v : Value}
    (h : scalarOfKind kind json path = .ok v) : v.NotList := by
  rintro items rfl
  cases kind with
  | any => cases h
  | boolean => cases json <;> cases h
  | int32 =>
      simp only [scalarOfKind] at h
      split at h
      · split at h <;> cases h
      · cases h
  | int64 => cases hread : json.asInt64? <;> simp [scalarOfKind, hread] at h
  | double => cases hread : json.asFloat? <;> simp [scalarOfKind, hread] at h
  | string => cases hread : json.asString? <;> simp [scalarOfKind, hread] at h
  | dateTime =>
      simp only [scalarOfKind] at h
      split at h
      · split at h <;> cases h
      · cases h

theorem notList_scalar {d : Descriptor} {json : Json} {path : String} {v : Value}
    (h : scalar d json path = .ok v) : v.NotList := by
  unfold scalar at h
  split at h
  · split at h
    · cases h
      rintro items ⟨⟩
    · cases h
  · split at h
    · cases h
    · exact notList_scalarOfKind h
    · unfold enumMember at h
      split at h
      · cases h
      · split at h
        · cases h
          rintro items ⟨⟩
        · cases h
    · cases h

theorem yields_readScalar (expected : Descriptor) (kind : ValueKind) (node : Node) (json : Json) :
    Yields EndsWithoutList (readScalar expected kind node json) := by
  unfold readScalar
  split
  · refine yields_then fun (boxed, inner) => ?_
    dsimp only
    split
    · exact yields_misshapen _ _
    · exact yields_bind (yields_known fun v hv => notList_scalar hv) fun v hv =>
        yields_setValue_notList _ hv
  · exact yields_bind (yields_known fun v hv => notList_scalarOfKind hv) fun v hv =>
      yields_setValue_notList _ hv

/-- What stands in for a resource is a reference. -/
theorem yields_readReference (node : Node) (uri : String) :
    Yields EndsWithoutList (readReference .masked node uri) := by
  unfold readReference
  refine yields_then fun _ => yields_bind (P := Value.NotList) ?_ fun v hv =>
    yields_setValue_notList _ hv
  intro s v s' hrun items hv
  rw [hv] at hrun
  cases hrun

theorem yields_readDictionary (valueType : TypeId) (node : Node) (json : Json) :
    Yields EndsWithoutList (readDictionary .masked below valueType node json) := by
  unfold readDictionary
  split
  · refine yields_then fun uri => ?_
    split
    · exact yields_readReference _ _
    · exact yields_then fun read => yields_setValue_notList read.1 (by rintro items ⟨⟩)
  · exact yields_misshapen _ _

/-- However it is read, an object is no list. -/
private theorem yields_setObject (node : Node) (id : ObjectId) :
    Yields EndsWithoutList (setValue node (.object id)) :=
  yields_setValue_notList node (by rintro items ⟨⟩)

private theorem yields_readSettled (kept : Option ObjectId) (typed : Node) (members : Entries Json) :
    Yields EndsWithoutList (do
      let d ← descriptor typed.type
      match d.members? with
      | none => misshapen (.notStructured d.name)
      | some m =>
        let fields ← known (fieldsOf d typed.path members)
        match kept with
        | some object => patchObject ctx below d typed object (inDeclarationOrder d fields)
        | none => createObject ctx below d m typed (inDeclarationOrder d fields)) := by
  refine yields_then fun d => ?_
  split
  · exact yields_misshapen _ _
  · refine yields_then fun fields => ?_
    split
    · exact yields_then fun copy => yields_then fun n => yields_setObject _ _
    · unfold createObject
      split
      · exact yields_misshapen _ _
      · exact yields_then fun object => yields_then fun made => yields_then fun n =>
          yields_setObject n object

theorem yields_readContent (node : Node) (members : Entries Json) :
    Yields EndsWithoutList (readContent ctx below node members) := by
  unfold readContent
  cases keptObject? node with
  | none => exact yields_readSettled none node members
  | some id => exact yields_then fun type => yields_readSettled (some id) { node with type } members

theorem yields_readObject (node : Node) (json : Json) :
    Yields EndsWithoutList (readObject .masked below node json) := by
  unfold readObject
  split
  · refine yields_then fun uri => ?_
    split
    · exact yields_readReference _ _
    · refine yields_then fun expected => yields_then fun n => ?_
      split
      · exact yields_readContent _ _
      · split
        · exact yields_readReference _ _
        · exact yields_readContent _ _
      · exact yields_misshapen _ _
  · exact yields_misshapen _ _

/-! ### Lists -/

variable {owner : NodeOwner}

/-- Whoever was asked about an item had a mask that allows it. -/
theorem yields_checkItem {node : Node} (howner : node.owner = some owner) (m : HttpMethod) :
    Yields (fun _ => owner.property.itemAccess.contains m = true) (checkItem .masked node m) := by
  unfold checkItem
  rw [howner]
  refine yields_then fun d => yields_then fun _ => yields_known fun _ hasked => ?_
  have hrequire : Context.require (owner.property.itemAccess.contains m) d owner.property m =
      .ok () := hasked
  unfold Context.require at hrequire
  split at hrequire
  · assumption
  · cases hrequire

/-- An item changes the list by one edit at most, and the node keeps its owner. -/
theorem yields_readItem {node : Node} (howner : node.owner = some owner) (element : TypeId)
    (items : List Value) (item : Json) :
    Yields (fun read => read.1.owner = some owner ∧
        ItemEdit owner.property.itemAccess items read.2)
      (readItem .masked below element true node items item) := by
  unfold readItem
  refine yields_then fun mark => ?_
  split
  · exact yields_bind (yields_checkItem howner _) fun _ hmask =>
      yields_pure ⟨howner, .remove hmask _ _⟩
  · exact yields_bind (yields_checkItem howner _) fun _ hmask => yields_then fun child =>
      yields_pure ⟨howner, .replace hmask _ _ _⟩
  · exact yields_bind (yields_checkItem howner _) fun _ hmask => yields_then fun child =>
      yields_pure ⟨howner, .append hmask _ _⟩

theorem yields_readItems {node : Node} (howner : node.owner = some owner) (element : TypeId)
    (items : List Value) (documents : List Json) :
    Yields (fun read => ItemEdits owner.property.itemAccess items read.2)
      (readItems .masked below element true node items documents) := by
  induction documents generalizing node items with
  | nil => exact yields_pure .refl
  | cons item rest ih =>
      unfold readItems
      refine yields_bind (yields_readItem howner element items item) fun (n, edited) hfirst => ?_
      obtain ⟨howner', hedit⟩ := hfirst
      intro s read s' hrun
      exact Relation.ReflTransGen.head hedit (ih howner' edited s read s' hrun)

/-- What a node that holds `xs` may end with: no list, or a list that came from `xs` by edits. -/
def EndsWithEdits (mask : HttpMethods) (xs : List Value) (n : Node) : Prop :=
  ∀ ys, n.result = .list ys → ItemEdits mask xs ys

theorem EndsWithoutList.edits {n : Node} (h : EndsWithoutList n) (mask : HttpMethods)
    (xs : List Value) : EndsWithEdits mask xs n :=
  fun ys hys => absurd hys (h ys)

theorem yields_edits {x : Reading Node} (h : Yields EndsWithoutList x) (mask : HttpMethods)
    (xs : List Value) : Yields (EndsWithEdits mask xs) x :=
  fun s n s' hrun => (h s n s' hrun).edits mask xs

theorem yields_readList {node : Node} {xs : List Value} (howner : node.owner = some owner)
    (hvalue : node.value = some (.list xs)) (hkeeps : node.keeps = true) (element : TypeId)
    (json : Json) :
    Yields (EndsWithEdits owner.property.itemAccess xs)
      (readList .masked below element node json) := by
  -- the list is kept, so the items of the document edit it
  have hkept : keptList? node = some xs := by
    unfold keptList?
    rw [hvalue]
    simp only [hkeeps, if_true]
  unfold readList
  refine yields_then fun uri => ?_
  split
  · exact yields_edits (yields_readReference _ _) _ _
  · unfold readArrayItems
    split
    · dsimp only
      rw [hkept]
      refine yields_bind (yields_readItems howner element xs _) fun read hitems => ?_
      refine yields_setValue read.1 fun n hn ys hys => ?_
      have hsame : read.2 = ys := by
        rw [hn] at hys
        exact Value.list.inj hys
      rw [← hsame]
      exact hitems
    · exact yields_misshapen _ _

/-! ### Nodes -/

/-- **A node that holds a list ends with an edited list or with none.** The slot must be one of a known
type that does not hold just anything: an untyped slot takes an array as a new value. -/
theorem readWith_edits {node : Node} {xs : List Value} {e : Descriptor} {s s' : ReadState}
    {json : Json} {n : Node} (hexpected : s.graph.table.get? node.expected = some e)
    (htyped : e.isAny = false) (howner : node.owner = some owner)
    (hvalue : node.value = some (.list xs)) (hkeeps : node.keeps = true)
    (hrun : (readWith .masked below node json).runOn s = (.ok n, s')) :
    EndsWithEdits owner.property.itemAccess xs n := by
  -- the slot has a known type, and its shape says how the document is read
  have hdescriptor : (descriptor node.expected).runOn s = (.ok e, s) := by
    simp only [descriptor, Action.look, Action.runOn_ofFunction, TypeGraph.get, hexpected]
  unfold readWith at hrun
  rw [Action.runOn_bind, hdescriptor] at hrun
  have hyields : ∀ x : Reading Node, Yields EndsWithoutList x → x.runOn s = (.ok n, s') →
      EndsWithEdits owner.property.itemAccess xs n :=
    fun x hx hx' => yields_edits hx _ _ s n s' hx'
  dsimp only at hrun
  split at hrun
  · split at hrun
    · exact hyields _ (yields_setValue_notList node (by rintro items ⟨⟩)) hrun
    · cases hrun
  · cases hshape : e.shape with
    | value kind =>
        -- only an untyped slot takes an array for a plain value
        have hkind : kind ≠ .any := by
          rintro rfl
          simp [Descriptor.isAny, hshape] at htyped
        rw [hshape] at hrun
        refine hyields _ (yields_readScalar e kind node json) ?_
        cases kind with
        | any => exact absurd rfl hkind
        | _ => exact hrun
    | enum members =>
        rw [hshape] at hrun
        exact hyields _ (yields_bind (yields_known fun v hv => notList_scalar hv) fun v hv =>
          yields_setValue_notList node hv) hrun
    | collection element =>
        rw [hshape] at hrun
        exact yields_readList howner hvalue hkeeps element json s n s' hrun
    | dictionary key value =>
        rw [hshape] at hrun
        exact hyields _ (yields_readDictionary value node json) hrun
    | structured m =>
        rw [hshape] at hrun
        exact hyields _ (yields_readObject node json) hrun
    | resource m a =>
        rw [hshape] at hrun
        exact hyields _ (yields_readObject node json) hrun

theorem readNode_edits {depth : Nat} {node : Node} {xs : List Value} {e : Descriptor}
    {s s' : ReadState} {json : Json} {n : Node}
    (hexpected : s.graph.table.get? node.expected = some e) (htyped : e.isAny = false)
    (howner : node.owner = some owner) (hvalue : node.value = some (.list xs))
    (hkeeps : node.keeps = true)
    (hrun : (readNode .masked depth node json).runOn s = (.ok n, s')) :
    EndsWithEdits owner.property.itemAccess xs n := by
  cases depth with
  | zero => exact readWith_edits hexpected htyped howner hvalue hkeeps hrun
  | succ depth => exact readWith_edits hexpected htyped howner hvalue hkeeps hrun

end Document

end ResourceQuery
