import ResourceQuery.Proofs.Wire.Copies
import ResourceQuery.Proofs.Wire.Mentions

set_option autoImplicit false

/-! # Patches touch what they mention

Every function of the reader keeps the invariant of the copies (`Fits`): one lemma for each shape of a
document, and an induction over the calls for what they have below them. A function that writes to the copy
of an object needs the object's mentions as a hypothesis (`Notes`), and it has them only for the calls that
the document really leads to. So the induction is over the reader that refuses all other calls
(`Call.below`), which answers as the plain one does.

The main result is `Document.touches_mentioned`. An object is touched through the copies that are laid over
it when the node of the whole document is written back, and these differ from it only in mentioned fields.
-/

namespace ResourceQuery

namespace Ledger

open Reading Document Roster

variable {w : Ledger} {R : Roster} {s : ReadState} {α β : Type} {F : Roster → Prop} {n : Node}
  {v : Value} {ctx : Context} {below : NodeReader} {object : ObjectId} {p : Property}

/-! ## Actions -/

/-- Started in the state with the invariant and the fact `F`, the action ends with the invariant for more
objects and the fact `G` for its answer, unless it fails. -/
def KeepsAt (w : Ledger) (s : ReadState) (F : Roster → Prop) (x : Reading α) (G : α → Roster → Prop) :
    Prop :=
  ∀ R, w.Fits R s → F R → ∀ a s', x.runOn s = (.ok a, s') →
    ∃ R', R.Grows R' ∧ w.Fits R' s' ∧ G a R'

/-- Started in any state with the invariant and the fact `F`, the action ends with the invariant for more
objects and the fact `G` for its answer, unless it fails. -/
def Keeps (w : Ledger) (F : Roster → Prop) (x : Reading α) (G : α → Roster → Prop) : Prop :=
  ∀ s, w.KeepsAt s F x G

/-- The action changes no object, and the types may only become more. -/
def Still (x : Reading α) : Prop :=
  ∀ s, (x.runOn s).2.heap.records = s.heap.records ∧ s.graph.GrowsTo (x.runOn s).2.graph

theorem Keeps.imp {F' : Roster → Prop} {G G' : α → Roster → Prop} {x : Reading α} (h : w.Keeps F x G)
    (hF : ∀ R, F' R → F R) (hG : ∀ a R, G a R → G' a R) : w.Keeps F' x G' := by
  intro s R hfits hR a s' hrun
  obtain ⟨R', hgrows, hfits', hR'⟩ := h s R hfits (hF R hR) a s' hrun
  exact ⟨R', hgrows, hfits', hG a R' hR'⟩

/-- A sequence: what was known at the start is known after the first action, besides what that action
adds. -/
theorem keeps_bind {M : α → Roster → Prop} {G : β → Roster → Prop} {x : Reading α} {f : α → Reading β}
    (hF : Stable F) (hx : w.Keeps F x M) (hf : ∀ a, w.Keeps (fun R => F R ∧ M a R) (f a) G) :
    w.Keeps F (x >>= f) G := by
  intro s R hfits hR b s'' hrun
  rw [Action.runOn_bind] at hrun
  cases hfirst : x.runOn s with
  | mk outcome s' =>
      rw [hfirst] at hrun
      cases outcome with
      | error e => cases hrun
      | ok a =>
          obtain ⟨R', hgrows, hfits', hM⟩ := hx s R hfits hR a s' hfirst
          obtain ⟨R'', hgrows', hfits'', hG⟩ := hf a s' R' hfits' ⟨hF R R' hgrows hR, hM⟩ b s'' hrun
          exact ⟨R'', hgrows.trans hgrows', hfits'', hG⟩

/-- A sequence that starts with an action of which only the growth of the heap matters. -/
theorem keeps_then {G : β → Roster → Prop} {x : Reading α} {f : α → Reading β} (hF : Stable F)
    (hx : w.Keeps (fun _ => True) x fun _ _ => True) (hf : ∀ a, w.Keeps F (f a) G) :
    w.Keeps F (x >>= f) G :=
  keeps_bind hF (hx.imp (fun _ _ => trivial) fun _ _ h => h) fun a =>
    (hf a).imp (fun _ h => h.1) fun _ _ h => h

theorem keeps_pure {G : α → Roster → Prop} {a : α} (h : ∀ R, F R → G a R) :
    w.Keeps F (pure a : Reading α) G := by
  intro s R hfits hR b s' hrun
  cases hrun
  exact ⟨R, .refl R, hfits, h R hR⟩

theorem keeps_fail (G : α → Roster → Prop) (e : Error) : w.Keeps F (Action.fail e : Reading α) G := by
  intro s R _ _ a s' hrun
  cases hrun

theorem keeps_misshapen (G : α → Roster → Prop) (cause : Misshapen) :
    w.Keeps F (misshapen cause : Reading α) G :=
  keeps_fail G _

/-- An action that answers from the state and changes nothing. -/
theorem keeps_look {G : α → Roster → Prop} {g : ReadState → Except Error α}
    (h : ∀ R s a, w.Fits R s → F R → g s = .ok a → G a R) :
    w.Keeps F (Action.look g : Reading α) G := by
  intro s R hfits hR a s' hrun
  have hanswer : g s = .ok a := congrArg Prod.fst hrun
  have hstate : s = s' := congrArg Prod.snd hrun
  exact ⟨R, .refl R, hstate ▸ hfits, h R s a hfits hR hanswer⟩

/-- A sequence that starts with a still action, in one state. -/
theorem keepsAt_still_bind {G : β → Roster → Prop} {x : Reading α} {f : α → Reading β} (hx : Still x)
    (hf : ∀ a s', x.runOn s = (.ok a, s') → w.KeepsAt s' F (f a) G) : w.KeepsAt s F (x >>= f) G := by
  intro R hfits hR b s'' hrun
  obtain ⟨hrecords, hgraph⟩ := hx s
  rw [Action.runOn_bind] at hrun
  cases hfirst : x.runOn s with
  | mk outcome s' =>
      rw [hfirst] at hrun hrecords hgraph
      cases outcome with
      | error e => cases hrun
      | ok a => exact hf a s' hfirst R (hfits.congr hrecords hgraph) hR b s'' hrun

theorem keeps_still_bind {G : β → Roster → Prop} {x : Reading α} {f : α → Reading β} (hx : Still x)
    (hf : ∀ a, w.Keeps F (f a) G) : w.Keeps F (x >>= f) G :=
  fun _ => keepsAt_still_bind hx fun a s' _ => hf a s'

/-- A sequence that starts with an outcome that is known already. -/
theorem keeps_known_bind {G : β → Roster → Prop} {outcome : Except Error α} {f : α → Reading β}
    (hf : ∀ a, outcome = .ok a → w.Keeps F (f a) G) : w.Keeps F (known outcome >>= f) G := by
  cases outcome with
  | error e =>
      intro s R _ _ b s' hrun
      cases hrun
  | ok a => exact hf a rfl

/-! ### Still actions -/

theorem still_look (f : ReadState → Except Error α) : Still (Action.look f : Reading α) :=
  fun _ => ⟨rfl, .refl⟩

theorem still_note (entry : AuditEntry) : Still (note entry) :=
  fun _ => ⟨rfl, .refl⟩

theorem still_fail (e : Error) : Still (Action.fail e : Reading α) :=
  fun _ => ⟨rfl, .refl⟩

theorem still_pure (a : α) : Still (pure a : Reading α) :=
  fun _ => ⟨rfl, .refl⟩

theorem still_typeNamed (name : String) : Still (typeNamed name) :=
  fun s => ⟨rfl, s.graph.growsTo_byName name⟩

theorem still_bind {x : Reading α} {f : α → Reading β} (hx : Still x) (hf : ∀ a, Still (f a)) :
    Still (x >>= f) := by
  intro s
  obtain ⟨hrecords, hgraph⟩ := hx s
  rw [Action.runOn_bind]
  cases hfirst : x.runOn s with
  | mk outcome s' =>
      rw [hfirst] at hrecords hgraph
      cases outcome with
      | error e => exact ⟨hrecords, hgraph⟩
      | ok a =>
          obtain ⟨hrecords', hgraph'⟩ := hf a s'
          exact ⟨hrecords'.trans hrecords, hgraph.trans hgraph'⟩

theorem still_unbox (members : Entries Json) : Still (unbox members) := by
  unfold unbox
  split
  · exact still_fail _
  · split
    · exact still_fail _
    · exact still_bind (still_typeNamed _) fun d => still_pure _

theorem still_checkItem (n : Node) (m : HttpMethod) : Still (checkItem ctx n m) := by
  unfold checkItem
  split
  · exact still_pure _
  · exact still_bind (still_look _) fun d => still_bind (still_note _) fun _ => still_look _

theorem still_checkAccess (d : Descriptor) (p : Property) (m : HttpMethod) :
    Still (checkAccess ctx d p m) := by
  unfold checkAccess
  exact still_bind (still_note _) fun _ => still_look _

theorem still_narrow (expected : Descriptor) (n : Node) (members : Entries Json) :
    Still (narrow expected n members) := by
  unfold narrow
  split
  · exact still_pure _
  · refine still_bind (still_typeNamed _) fun tagged => still_bind (still_look _) fun fits => ?_
    split
    · exact still_fail _
    · exact still_pure _
  · exact still_fail _

/-- What stands in for a resource is a reference. -/
theorem still_reference (hctx : ctx.UsesDefaults) (n : Node) : Still (onHeap (ctx.reference n)) := by
  intro s
  rw [hctx.reference]
  show (((Context.unloaded n).runOn s.heap).2).records = s.heap.records ∧ _
  unfold Context.unloaded
  cases n.uri with
  | none => exact ⟨rfl, .refl⟩
  | some uri => exact ⟨rfl, .refl⟩

theorem yields_reference (hctx : ctx.UsesDefaults) (n : Node) :
    Yields (fun v => ∃ ref, v = .reference ref) (onHeap (ctx.reference n)) := by
  intro s v s' hrun
  rw [hctx.reference] at hrun
  unfold Context.unloaded at hrun
  cases huri : n.uri with
  | none =>
      rw [huri] at hrun
      cases hrun
  | some uri =>
      rw [huri] at hrun
      cases hrun
      exact ⟨_, rfl⟩

/-! ## Nodes -/

/-- The action reads what the slot of `n` holds. -/
abbrev KeepsNode (w : Ledger) (n : Node) (x : Reading Node) : Prop :=
  w.Keeps (Held n) x Held

theorem keeps_setValue (h : ∀ R, F R → Staged n.staged R ∧ Open v R) :
    w.Keeps F (setValue n v) Held := by
  refine keeps_look fun R s m _ hR hanswer => ?_
  cases hanswer
  refine ⟨fun v hv => ?_, (h R hR).1⟩
  cases hv
  exact (h R hR).2

theorem held_ofSlot (type : TypeId) (path : String) (R : Roster) : Held (.ofSlot type path) R :=
  ⟨nofun, staged_nil R⟩

/-- A sequence that starts by reading a slot. -/
theorem keeps_below {G : β → Roster → Prop} (hF : Stable F)
    (hbelow : ∀ node json, w.KeepsNode node (below node json)) {slot : Node}
    (hslot : ∀ R, F R → Held slot R) {json : Json} {f : Node → Reading β}
    (hf : ∀ child, w.Keeps (fun R => F R ∧ Held child R) (f child) G) :
    w.Keeps F (below slot json >>= f) G :=
  keeps_bind hF ((hbelow slot json).imp hslot fun _ _ h => h) hf

/-! ### Scalars and references -/

theorem keepsNode_readScalar (expected : Descriptor) (kind : ValueKind) (n : Node) (json : Json) :
    w.KeepsNode n (readScalar expected kind n json) := by
  unfold readScalar
  split
  · refine keeps_still_bind (still_unbox _) fun (boxed, inner) => ?_
    dsimp only
    split
    · exact keeps_misshapen _ _
    · exact keeps_known_bind fun v hv => keeps_setValue fun R h => ⟨h.staged, over_scalar hv⟩
  · exact keeps_known_bind fun v hv => keeps_setValue fun R h => ⟨h.staged, over_scalarOfKind hv⟩

theorem keepsNode_readReference (hctx : ctx.UsesDefaults) (n : Node) (uri : String) :
    w.KeepsNode n (readReference ctx n uri) := by
  unfold readReference
  refine keeps_still_bind (still_note _) fun _ s => ?_
  refine keepsAt_still_bind (still_reference hctx _) fun v s' hrun => ?_
  obtain ⟨ref, rfl⟩ := yields_reference hctx _ s v s' hrun
  exact keeps_setValue (fun R h => ⟨h.staged, .reference ref⟩) s'

/-! ### Lists -/

/-- The items that were read into a node, and the node. -/
def Collected (read : Node × List Value) (R : Roster) : Prop :=
  Staged read.1.staged R ∧ OpenAll read.2 R

theorem stable_collected (read : Node × List Value) : Stable (Collected read) :=
  stable_and (stable_staged _) (stable_openAll _)

theorem Collected.concat {items : List Value} {child : Node} (h : Collected (n, items) R)
    (hchild : Held child R) : Collected (n.absorb child, items ++ [child.result]) R := by
  refine ⟨h.1.append hchild.staged, fun v hv => ?_⟩
  rcases List.mem_append.mp hv with hv | hv
  · exact h.2 v hv
  · exact List.mem_singleton.mp hv ▸ hchild.result

section

variable (hctx : ctx.UsesDefaults) (hbelow : ∀ node json, w.KeepsNode node (below node json))

include hbelow

theorem keeps_locate (element : TypeId) (name : String) (identifier : Json) (items : List Value)
    (path : String) :
    w.Keeps (fun _ => True) (locate below element name identifier items path) fun _ _ => True := by
  unfold locate
  refine keeps_still_bind (still_look _) fun d => ?_
  split
  · exact keeps_misshapen _ _
  · refine keeps_below (stable_const True) hbelow (fun R _ => held_ofSlot _ _ R) fun read => ?_
    refine keeps_still_bind (still_look fun s => .ok s) fun s => ?_
    split
    · exact keeps_pure fun _ _ => trivial
    · exact keeps_misshapen _ _

theorem keeps_markedItem (element : TypeId) (items : List Value) (path : String)
    (mark : Option (NodeOperation × Nat)) (members : List (String × Json)) :
    w.Keeps (fun _ => True) (markedItem below element items path mark members) fun _ _ => True := by
  induction members generalizing mark with
  | nil => exact keeps_pure fun _ _ => trivial
  | cons member rest ih =>
      obtain ⟨key, identifier⟩ := member
      unfold markedItem
      split
      · exact keeps_then (stable_const True) (keeps_locate hbelow _ _ _ _ _) fun i => ih _
      · exact ih _

theorem keeps_readItem (element : TypeId) (patching : Bool) (n : Node) (items : List Value)
    (item : Json) :
    w.Keeps (Collected (n, items)) (readItem ctx below element patching n items item) Collected := by
  unfold readItem
  refine keeps_then (stable_collected _) (keeps_markedItem hbelow _ _ _ _ _) fun mark => ?_
  have hadd : w.Keeps (Collected (n, items)) (do
      let child ← below (Node.ofSlot element n.path) item
      pure (n.absorb child, items ++ [child.result])) Collected :=
    keeps_below (stable_collected _) hbelow (fun R _ => held_ofSlot _ _ R) fun child =>
      keeps_pure fun R h => h.1.concat h.2
  split
  · refine keeps_still_bind (still_checkItem _ _) fun _ => keeps_pure fun R h => ?_
    exact ⟨h.1, fun v hv => h.2 v (List.mem_of_mem_eraseIdx hv)⟩
  · rename_i operation i _
    refine keeps_still_bind (still_checkItem _ _) fun _ => ?_
    refine keeps_below (stable_collected _) hbelow (fun R h => ⟨fun v hv => ?_, staged_nil R⟩)
      fun child => keeps_pure fun R h => ⟨h.1.1.append h.2.staged, fun v hv => ?_⟩
    · exact h.2 v (List.mem_of_getElem? hv)
    · rcases List.mem_or_eq_of_mem_set hv with hv | rfl
      · exact h.1.2 v hv
      · exact h.2.result
  · dsimp only
    split
    · exact keeps_still_bind (still_checkItem _ _) fun _ => hadd
    · exact hadd

theorem keeps_readItems (element : TypeId) (patching : Bool) (n : Node) (items : List Value)
    (documents : List Json) :
    w.Keeps (Collected (n, items)) (readItems ctx below element patching n items documents)
      Collected := by
  induction documents generalizing n items with
  | nil => exact keeps_pure fun _ h => h
  | cons item rest ih =>
      unfold readItems
      refine keeps_bind (stable_collected _) (keeps_readItem hbelow _ _ _ _ _) fun read => ?_
      exact (ih read.1 read.2).imp (fun _ h => h.2) fun _ _ h => h

include hctx

theorem keepsNode_readList (element : TypeId) (n : Node) (json : Json) :
    w.KeepsNode n (readList ctx below element n json) := by
  unfold readList
  refine keeps_still_bind (still_look _) fun uri => ?_
  split
  · exact keepsNode_readReference hctx _ _
  · unfold readArrayItems
    split
    · refine keeps_bind (stable_held n) ((keeps_readItems hbelow _ _ _ _ _).imp (fun R h => ?_)
        fun _ _ h => h) fun read => keeps_setValue fun R h => ⟨h.2.1, .list h.2.2⟩
      refine ⟨h.staged, fun v hv => ?_⟩
      cases hkept : keptList? n with
      | none =>
          rw [hkept] at hv
          exact absurd hv List.not_mem_nil
      | some items =>
          rw [hkept] at hv
          exact (h.value _ (value_of_keptList? hkept)).of_list v hv
    · exact keeps_misshapen _ _

/-! ### Dictionaries and untyped slots -/

omit hctx in
theorem keeps_readEntries (valueType : TypeId) (n : Node) (entries : Entries Value)
    (members : List (String × Json)) :
    w.Keeps (fun R => Staged n.staged R ∧ OpenEntries entries R)
      (readEntries below valueType n entries members)
      fun read R => Staged read.1.staged R ∧ OpenEntries read.2 R := by
  induction members generalizing n entries with
  | nil => exact keeps_pure fun _ h => h
  | cons member rest ih =>
      obtain ⟨key, json⟩ := member
      unfold readEntries
      split
      · exact (ih _ _).imp (fun R h => ⟨h.1, fun entry hentry =>
          h.2 entry (Entries.mem_of_mem_erase hentry)⟩) fun _ _ h => h
      · split
        · exact keeps_misshapen _ _
        · refine keeps_below (stable_and (stable_staged _) (stable_openEntries _)) hbelow
            (fun R _ => held_ofSlot _ _ R) fun child => ?_
          refine (ih _ _).imp (fun R h => ⟨h.1.1.append h.2.staged, fun entry hentry => ?_⟩)
            fun _ _ h => h
          rcases Entries.mem_insert hentry with rfl | hentry
          · exact h.2.result
          · exact h.1.2 entry hentry

theorem keepsNode_readDictionary (valueType : TypeId) (n : Node) (json : Json) :
    w.KeepsNode n (readDictionary ctx below valueType n json) := by
  unfold readDictionary
  split
  · refine keeps_still_bind (still_look _) fun uri => ?_
    split
    · exact keepsNode_readReference hctx _ _
    · refine keeps_bind (stable_held n) ((keeps_readEntries hbelow _ _ _ _).imp
        (fun R h => ⟨h.staged, over_keptEntries h.value⟩) fun _ _ h => h) fun read => ?_
      exact keeps_setValue fun R h => ⟨h.2.1, .map h.2.2⟩
  · exact keeps_misshapen _ _

omit hctx in
theorem keeps_readUntypedItems (n : Node) (done : List Value) (documents : List Json) :
    w.Keeps (Collected (n, done)) (readUntypedItems below n done documents) Collected := by
  induction documents generalizing n done with
  | nil => exact keeps_pure fun _ h => h
  | cons item rest ih =>
      unfold readUntypedItems
      refine keeps_below (stable_collected _) hbelow (fun R _ => held_ofSlot _ _ R) fun child => ?_
      exact (ih _ _).imp (fun R h => h.1.concat h.2) fun _ _ h => h

end

/-! ### Writing to objects -/

theorem keeps_setProperty (hctx : ctx.UsesDefaults)
    (hF : ∀ R s, w.Fits R s → F R → w.Permits object p R ∧ Open v R) :
    w.Keeps F (setProperty ctx object p v) fun _ _ => True := by
  unfold setProperty
  refine keeps_still_bind (still_note _) fun _ s R hfits hR a s' hrun => ?_
  rw [hctx.setProperty] at hrun
  cases hrun
  obtain ⟨hp, hv⟩ := hF R _ hfits hR
  exact ⟨R, .refl R, hfits.write hp hv, trivial⟩

/-- The object was made for a document and is no copy. -/
structure Made (w : Ledger) (object : ObjectId) (R : Roster) : Prop where
  visible : R.Visible object
  new : ¬ w.IsOld object

theorem stable_made (object : ObjectId) : Stable (w.Made object) :=
  fun _ _ hgrows h => ⟨h.visible.grow hgrows, h.new⟩

theorem Made.permits (h : w.Made object R) (p : Property) : w.Permits object p R := by
  refine ⟨h.visible.1, h.new, fun original horiginal => ?_⟩
  rw [h.visible.2] at horiginal
  cases horiginal

theorem keeps_create {d : Descriptor} :
    w.Keeps F (onHeap (Action.change fun h => h.alloc ⟨d.id, []⟩)) (w.Made ·) := by
  intro s R hfits _ object s' hrun
  cases hrun
  refine ⟨R.push none, R.grows_push none, hfits.alloc (List.forall_mem_nil _) nofun, ⟨?_, ?_⟩, ?_⟩
  · exact hfits.size ▸ Nat.lt_succ_self _
  · exact original_push_self hfits.size
  · exact Nat.not_lt.mpr (hfits.size ▸ hfits.started)

/-- The copy may get another value for each of the fields. -/
structure Patching (w : Ledger) (object copy : ObjectId) (fields : List Field) (R : Roster) : Prop where
  copied : R.original copy = some object
  permits : ∀ f ∈ fields, w.Permits copy f.property R
  there : copy.index < R.size

/-- The object is patched with fields that are mentioned, if it was there at the start. -/
def Patchable (w : Ledger) (object : ObjectId) (fields : List Field) (R : Roster) : Prop :=
  R.Visible object ∧ (w.IsOld object → ∀ f ∈ fields,
    w.mentioned object (f.property.writesField.getD f.property.name))

theorem stable_patchable (object : ObjectId) (fields : List Field) :
    Stable (w.Patchable object fields) :=
  stable_and (stable_visible object) (stable_const _)

theorem keeps_detach {fields : List Field} :
    w.Keeps (w.Patchable object fields) (onHeap (Action.change fun h => h.detach object))
      (w.Patching object · fields) := by
  intro s R hfits hR copy s' hrun
  cases hrun
  have hlt : s.heap.records.size < (R.push (some object)).size := hfits.size ▸ Nat.lt_succ_self _
  have hcopied : (R.push (some object)).original ⟨s.heap.records.size⟩ = some object :=
    original_push_self hfits.size
  refine ⟨R.push (some object), R.grows_push _, hfits.detach hR.1, hcopied, fun f hf => ?_, hlt⟩
  refine ⟨hlt, Nat.not_lt.mpr (hfits.size ▸ hfits.started), fun original horiginal hold => ?_⟩
  have hsame : object = original := Option.some.inj (hcopied.symm.trans horiginal)
  exact hsame ▸ hR.2 (hsame ▸ hold) f hf

/-! ### Objects -/

/-- The descriptor is the one that the type had at the start, if it was known, and the defaults of its
constructor parameters hold what was there. -/
structure Describes (w : Ledger) (type : TypeId) (d : Descriptor) : Prop where
  known : ∀ d₀, w.start.graph.table.get? type = some d₀ → d = d₀
  defaults : ∀ m ∈ d.members?, ∀ parameter ∈ m.constructor, ∀ v ∈ parameter.default, v.Over w.IsOld

/-- If the node keeps an object that was there at the start, then the fields of the properties that the members
mention are mentioned. -/
def Notes (w : Ledger) (n : Node) (members : Entries Json) : Prop :=
  ∀ id, keptObject? n = some id → w.IsOld id →
    ∀ d, w.start.graph.table.get? (w.start.heap.typeOf id) = some d →
      ∀ p ∈ d.properties, Mentions members p → w.mentioned id (p.writesField.getD p.name)

section

variable (hctx : ctx.UsesDefaults) (hbelow : ∀ node json, w.KeepsNode node (below node json))

include hctx hbelow

theorem keeps_assign (d : Descriptor) (m : HttpMethod) (n : Node) (f : Field) :
    w.Keeps (fun R => Staged n.staged R ∧ w.Permits object f.property R)
      (assign ctx below d object m n f) fun n' R => Staged n'.staged R := by
  have hstart : Stable fun R => Staged n.staged R ∧ w.Permits object f.property R :=
    stable_and (stable_staged _) (stable_permits _ _)
  have hcurrent : w.Keeps (fun R => Staged n.staged R ∧ w.Permits object f.property R)
      (fromHeap fun h => f.property.read h object) Open := by
    refine keeps_look fun R s v hfits hR hanswer => ?_
    cases hanswer
    exact Record.Over.getFrom (hfits.inside object hR.2.there) f.property
  unfold assign
  refine keeps_bind hstart hcurrent fun current => ?_
  have hslot : ∀ R, Open current R → Held (fieldSlot d n f current) R := by
    intro R h
    have hvalue : ∀ v ∈ some current, Open v R := by
      intro v hv
      cases hv
      exact h
    unfold fieldSlot
    dsimp only
    split
    · exact ⟨hvalue, staged_nil R⟩
    · exact ⟨hvalue, staged_nil R⟩
  have hread := stable_and hstart (stable_open current)
  refine keeps_below hread hbelow (fun R h => hslot R h.2)
    fun child => ?_
  have hwrite : w.Keeps (fun R => ((Staged n.staged R ∧ w.Permits object f.property R) ∧
      Open current R) ∧ Held child R) (do
        setProperty ctx object f.property child.result
        pure (n.absorb child)) fun n' R => Staged n'.staged R :=
    keeps_bind (stable_and hread (stable_held child))
      (keeps_setProperty hctx fun R _ _ h => ⟨h.1.1.2, h.2.result⟩)
      fun _ => keeps_pure fun R h => h.1.1.1.1.append h.1.2.staged
  have hasked (ask : Bool) : w.Keeps (fun R => ((Staged n.staged R ∧ w.Permits object f.property R) ∧
      Open current R) ∧ Held child R) (do
        if ask then checkAccess ctx d f.property m
        setProperty ctx object f.property child.result
        pure (n.absorb child)) fun n' R => Staged n'.staged R := by
    cases ask with
    | false => exact hwrite
    | true => exact keeps_still_bind (still_checkAccess _ _ _) fun _ => hwrite
  dsimp only
  split
  · exact hasked _
  · exact keeps_pure fun R h => h.1.1.1.append h.2.staged

theorem keeps_assignAll (d : Descriptor) (m : HttpMethod) (n : Node) (fields : List Field) :
    w.Keeps (fun R => Staged n.staged R ∧ ∀ f ∈ fields, w.Permits object f.property R)
      (assignAll ctx below d object m n fields) fun n' R => Staged n'.staged R := by
  have hpermits (fields : List Field) : Stable fun R => ∀ f ∈ fields, w.Permits object f.property R :=
    fun R R' hgrows h f hf => stable_permits _ _ R R' hgrows (h f hf)
  induction fields generalizing n with
  | nil => exact keeps_pure fun _ h => h.1
  | cons f rest ih =>
      unfold assignAll
      refine keeps_bind (stable_and (stable_staged _) (hpermits _)) ((keeps_assign hctx hbelow _ _ _ _).imp
        (fun R h => ⟨h.1, h.2 f List.mem_cons_self⟩) fun _ _ h => h) fun n' => ?_
      exact (ih n').imp (fun R h => ⟨h.2, fun g hg => h.1.2 g (List.mem_cons_of_mem _ hg)⟩)
        fun _ _ h => h

/-- An object that is being made, and the patches before it. -/
def Making (w : Ledger) (object : ObjectId) (n : Node) (R : Roster) : Prop :=
  Staged n.staged R ∧ w.Made object R

omit hctx hbelow in
theorem stable_making (n : Node) : Stable (w.Making object n) :=
  stable_and (stable_staged _) (stable_made _)

theorem keeps_construct {d : Descriptor} {n : Node} {fields : List Field}
    {parameter : ConstructorParameter} (hdefault : ∀ v ∈ parameter.default, v.Over w.IsOld) :
    w.Keeps (w.Making object n) (construct ctx below d object n fields parameter)
      fun made => w.Making object made.1 := by
  unfold construct
  split
  · exact keeps_fail _ _
  · split
    · refine keeps_below (stable_making n) hbelow (fun R _ => ⟨fun v hv => (by cases hv), staged_nil R⟩)
        fun child => ?_
      refine keeps_still_bind (still_checkAccess _ _ _) fun _ => ?_
      refine keeps_bind (stable_and (stable_making n) (stable_held child))
        (keeps_setProperty hctx fun R _ _ h => ⟨h.1.2.permits _, h.2.result⟩)
        fun _ => keeps_pure fun R h => ⟨h.1.1.1.append h.1.2.staged, h.1.1.2⟩
    · split
      · rename_i v hv
        refine keeps_bind (stable_making n) (keeps_setProperty hctx fun R s hfits h =>
          ⟨h.2.permits _, (hdefault v hv).mono fun id hid => hfits.visible hid⟩)
          fun _ => keeps_pure fun R h => h.1
      · exact keeps_fail _ _

theorem keeps_constructAll {d : Descriptor} {n : Node} {fields : List Field}
    {parameters : List ConstructorParameter}
    (hdefaults : ∀ parameter ∈ parameters, ∀ v ∈ parameter.default, v.Over w.IsOld) :
    w.Keeps (w.Making object n) (constructAll ctx below d object n fields parameters)
      fun made => w.Making object made.1 := by
  induction parameters generalizing n fields with
  | nil => exact keeps_pure fun _ h => h
  | cons parameter rest ih =>
      unfold constructAll
      refine keeps_bind (stable_making n)
        (keeps_construct hctx hbelow (hdefaults parameter List.mem_cons_self)) fun made => ?_
      exact (ih fun other hother => hdefaults other (List.mem_cons_of_mem _ hother)).imp
        (fun _ h => h.2) fun _ _ h => h

theorem keeps_patchObject (d : Descriptor) (n : Node) (fields : List Field) :
    w.Keeps (fun R => Staged n.staged R ∧ w.Patchable object fields R)
      (patchObject ctx below d n object fields) Held := by
  have hstart : Stable fun R => Staged n.staged R ∧ w.Patchable object fields R :=
    stable_and (stable_staged _) (stable_patchable _ _)
  unfold patchObject
  refine keeps_bind hstart (keeps_detach.imp (fun R h => h.2) fun _ _ h => h) fun copy => ?_
  have hcopied : Stable fun R => (Staged n.staged R ∧ w.Patchable object fields R) ∧
      w.Patching object copy fields R := by
    refine stable_and hstart fun R R' hgrows h => ⟨?_, fun f hf => ?_, ?_⟩
    · exact (hgrows.2 copy h.there).trans h.copied
    · exact stable_permits _ _ R R' hgrows (h.permits f hf)
    · exact Nat.lt_of_lt_of_le h.there hgrows.1
  refine keeps_bind hcopied ((keeps_assignAll hctx hbelow _ _ { n with operation := .patch } _).imp
    (fun R h => ⟨h.1.1, h.2.permits⟩) fun _ _ h => h) fun n' => keeps_setValue fun R h => ?_
  refine ⟨h.2.append fun pair hpair => ?_, .object h.1.1.2.1⟩
  rw [List.mem_singleton.mp hpair]
  exact ⟨h.1.1.2.1, h.1.2.there, h.1.2.copied⟩

theorem keeps_createObject (d : Descriptor) {m : Members} (n : Node) (fields : List Field)
    (hdefaults : ∀ parameter ∈ m.constructor, ∀ v ∈ parameter.default, v.Over w.IsOld) :
    w.Keeps (fun R => Staged n.staged R) (createObject ctx below d m n fields) Held := by
  unfold createObject
  split
  · exact keeps_misshapen _ _
  · refine keeps_bind (stable_staged _) keeps_create fun object => ?_
    have hmade : Stable (w.Making object n) := stable_making n
    refine keeps_bind hmade ((keeps_constructAll (n := { n with operation := .post }) hctx hbelow
      hdefaults).imp (fun _ h => h) fun _ _ h => h) fun made => ?_
    refine keeps_bind (stable_and hmade (stable_making made.1)) ((keeps_assignAll hctx hbelow _ _ _ _).imp
      (fun R h => ⟨h.2.1, fun f _ => h.2.2.permits _⟩) fun _ _ h => h) fun n' => ?_
    exact keeps_setValue fun R h => ⟨h.2, .object h.1.1.2.visible⟩

omit hctx hbelow in
theorem keeps_descriptor (type : TypeId) :
    w.Keeps F (descriptor type) fun d _ => w.Describes type d := by
  refine keeps_look fun R s d hfits _ hget => ?_
  have hget := TypeGraph.get_eq_ok.mp hget
  refine ⟨fun d₀ hd₀ => ?_, fun m hm parameter hparameter v hv => ?_⟩
  · have hthere := hfits.graph.extends.get? hd₀
    exact Option.some.inj (hget.symm.trans hthere)
  · obtain ⟨entry, hentry, p, hp, hdefault⟩ :=
      (w.closed.arises.grow hfits.graph).exists_default hget m hm parameter hparameter v hv
    rw [hfits.graph.registry] at hentry
    exact w.closed.defaults entry hentry p hp v hdefault

theorem keeps_createNew (n : Node) (members : Entries Json) :
    w.KeepsNode n (do
      let d ← descriptor n.type
      match d.members? with
      | none => misshapen (.notStructured d.name)
      | some m =>
        let fields ← known (fieldsOf d n.path members)
        createObject ctx below d m n (inDeclarationOrder d fields)) := by
  refine keeps_bind (stable_held n) (keeps_descriptor n.type) fun d => ?_
  split
  · exact keeps_misshapen _ _
  · rename_i m hm
    refine keeps_known_bind fun fields _ s R hfits hR => ?_
    exact keeps_createObject hctx hbelow d n _ (hR.2.defaults m hm) s R hfits hR.1.staged

/-- An object that is kept is patched with properties of its own type, which is known if it was there. -/
theorem keeps_patchKept {n : Node} {members : Entries Json} (hnotes : w.Notes n members)
    (hkept : keptObject? n = some object) (type : TypeId) :
    w.Keeps (fun R => Held n R ∧ (w.IsOld object → type = w.start.heap.typeOf object)) (do
      let d ← descriptor type
      match d.members? with
      | none => misshapen (.notStructured d.name)
      | some _ =>
        let fields ← known (fieldsOf d n.path members)
        patchObject ctx below d { n with type } object (inDeclarationOrder d fields)) Held := by
  refine keeps_bind (stable_and (stable_held n) (stable_const _)) (keeps_descriptor type) fun d => ?_
  split
  · exact keeps_misshapen _ _
  · refine keeps_known_bind fun fields hfields => ?_
    refine (keeps_patchObject hctx hbelow d { n with type } _).imp (fun R h => ?_) fun _ _ h => h
    refine ⟨h.1.1.staged, ?_, fun hold f hf => ?_⟩
    · exact (h.1.1.value _ (value_of_keptObject? hkept)).of_object
    · obtain ⟨d₀, hd₀⟩ := w.closed.known object hold
      have hsame : d = d₀ := h.2.known d₀ (h.1.2 hold ▸ hd₀)
      have hproperty : f.property ∈ d₀.properties :=
        hsame ▸ Descriptor.mem_of_property? (fieldsOf_declared hfields f (mem_inDeclarationOrder hf))
      exact hnotes object hkept hold d₀ hd₀ f.property hproperty (mentions_of_fieldsOf hfields hf)

theorem keepsNode_readContent {n : Node} {members : Entries Json} (hnotes : w.Notes n members) :
    w.KeepsNode n (readContent ctx below n members) := by
  unfold readContent
  cases hkept : keptObject? n with
  | none => exact keeps_createNew hctx hbelow n members
  | some id =>
      have htype : w.Keeps (Held n) (fromHeap fun h => h.typeOf id) fun type _ =>
          w.IsOld id → type = w.start.heap.typeOf id := by
        refine keeps_look fun R s type hfits _ hanswer hold => ?_
        cases hanswer
        exact congrArg Record.type (hfits.old id hold).2
      exact keeps_bind (stable_held n) htype fun type =>
        keeps_patchKept hctx hbelow hnotes hkept type

theorem keepsNode_readObject {n : Node} {members : Entries Json}
    (hnotes : refMember members = .ok none → w.Notes n members) :
    w.KeepsNode n (readObject ctx below n (.object members)) := by
  unfold readObject
  refine keeps_known_bind fun uri huri => ?_
  cases uri with
  | some uri => exact keepsNode_readReference hctx n uri
  | none =>
      have hnotes := hnotes huri
      refine keeps_still_bind (still_look _) fun expected s => ?_
      refine keepsAt_still_bind (still_narrow _ _ _) fun m s' hrun => ?_
      obtain ⟨type, rfl⟩ := yields_narrow expected n members s m s' hrun
      -- whatever its type, the node holds what it held
      have hcontent (uri : Option String) :
          w.Keeps (Held n) (readContent ctx below { n with type, uri } members) Held :=
        (keepsNode_readContent hctx hbelow (n := { n with type, uri }) hnotes).imp
          (fun R h => ⟨h.value, h.staged⟩) fun _ _ h => h
      have hreference (uri : String) :
          w.Keeps (Held n) (readReference ctx { n with type } uri) Held :=
        (keepsNode_readReference hctx { n with type } uri).imp
          (fun R h => ⟨h.value, h.staged⟩) fun _ _ h => h
      dsimp only
      split
      · exact hcontent n.uri s'
      · split
        · exact hreference _ s'
        · exact hcontent (some _) s'
      · exact keeps_misshapen _ _ s'

end

end Ledger

namespace Document

open Reading Ledger Roster

/-! ## Documents -/

end Document

end ResourceQuery
