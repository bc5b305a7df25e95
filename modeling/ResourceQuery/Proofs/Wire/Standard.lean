import ResourceQuery.Proofs.Value.Storing
import ResourceQuery.Proofs.Wire.Enforcement

set_option autoImplicit false

/-! # What a document is held against

Whether a value conforms to a type depends on the types that are known and on the objects that there
are, and both become more while a document is read. Types are taken as they are known in the end
(`Standard`). Which objects there are is a relation that grows, and `Standard.Ends F x R` says that
started on a heap that stores its objects well, `x` ends on one that stores these and more of them
well, unless it fails; `F` is what was known of the objects before, and `R` what is known of them and
of the answer afterwards.

The functions for the shapes of documents are held against it in `Slots.lean` and `Conformity.lean`.
-/

namespace ResourceQuery

/-! ## Boxes of null -/

/-- Whether the members are those of a box that holds null. -/
def Json.isNullBox (members : Entries Json) : Bool :=
  ((Entries.get? "_type" members).bind Json.asString?).isSome &&
    (Entries.get? "value" members).any Json.isNull

mutual

/-- Whether the document or a part of it is a box that holds null. -/
def Json.boxesNull : Json → Bool
  | .array items => boxesNullInItems items
  | .object members => isNullBox members || boxesNullInMembers members
  | _ => false

/-- Whether one of the items has a box that holds null. -/
def Json.boxesNullInItems : List Json → Bool
  | [] => false
  | item :: rest => boxesNull item || boxesNullInItems rest

/-- Whether one of the members has a box that holds null. -/
def Json.boxesNullInMembers : List (String × Json) → Bool
  | [] => false
  | (_, json) :: rest => boxesNull json || boxesNullInMembers rest

end

theorem Json.boxesNull_item {items : List Json} {item : Json} (h : item ∈ items)
    (hnull : item.boxesNull = true) : (Json.array items).boxesNull = true := by
  unfold boxesNull
  induction items with
  | nil => cases h
  | cons first rest ih =>
      unfold boxesNullInItems
      rw [Bool.or_eq_true]
      rcases List.mem_cons.mp h with hself | hrest
      · exact Or.inl (hself ▸ hnull)
      · exact Or.inr (ih hrest)

theorem Json.boxesNull_member {members : List (String × Json)} {member : String × Json}
    (h : member ∈ members) (hnull : member.2.boxesNull = true) :
    (Json.object members).boxesNull = true := by
  unfold boxesNull
  rw [Bool.or_eq_true]
  right
  induction members with
  | nil => cases h
  | cons first rest ih =>
      unfold boxesNullInMembers
      rw [Bool.or_eq_true]
      rcases List.mem_cons.mp h with hself | hrest
      · exact Or.inl (hself ▸ hnull)
      · exact Or.inr (ih hrest)

/-! ## Slots and graphs -/

/-- Where null may stand: where the type says so, and if `boxed`, also where the slot is for values of a
kind. -/
def Descriptor.TakesNull (boxed : Prop) (d : Descriptor) : Value → Prop
  | .null => d.nullable = true ∨ boxed ∧ d.valueKind?.isSome = true
  | _ => True

instance (boxed : Prop) [Decidable boxed] (d : Descriptor) (v : Value) :
    Decidable (d.TakesNull boxed v) :=
  match v with
  | .null => inferInstanceAs (Decidable (d.nullable = true ∨ boxed ∧ d.valueKind?.isSome = true))
  | .bool _ | .int _ | .float _ | .string _ | .dateTime _ | .enum _ | .list _ | .map _ | .object _
  | .group .. | .reference _ => isTrue trivial

theorem Descriptor.TakesNull.mono {boxed boxed' : Prop} (hboxed : boxed → boxed') (d : Descriptor)
    (v : Value) (h : d.TakesNull boxed v) : d.TakesNull boxed' v := by
  cases v with
  | null => exact h.imp (fun hnull => hnull) fun hbox => ⟨hboxed hbox.1, hbox.2⟩
  | _ => trivial

/-- A getter reads no field of a property with another type. -/
def TypeGraph.GettersAgree (g : TypeGraph) : Prop :=
  ∀ d ∈ g.types, ∀ p ∈ d.properties, ∀ q ∈ d.properties, p.readsField = some q.name → q.type = p.type

/-- Declared defaults conform to the types of their properties. -/
def TypeGraph.DefaultsConform (g : TypeGraph) (isObject : ObjectId → TypeId → Prop) : Prop :=
  ∀ d ∈ g.types, ∀ p ∈ d.properties, ∀ v, p.default = some v →
    Value.Conforms g (Descriptor.TakesNull False) isObject p.type v

/-- Whether declared defaults conform, where the objects are these. -/
def TypeGraph.defaultsConformBy (g : TypeGraph) (objects : List (ObjectId × TypeId)) : Bool :=
  g.types.all fun d => d.properties.all fun p => p.default.all fun v =>
    v.conformsBy g (Descriptor.TakesNull False) objects p.type

theorem TypeGraph.defaultsConform_of_defaultsConformBy {g : TypeGraph}
    {objects : List (ObjectId × TypeId)} (h : g.defaultsConformBy objects = true) :
    g.DefaultsConform fun id concrete => (id, concrete) ∈ objects := by
  intro d hd p hp v hv
  have hall := List.all_eq_true.mp (List.all_eq_true.mp h d hd) p hp
  rw [hv, Option.all_some] at hall
  exact Value.conforms_of_conformsBy v hall

/-- A context that makes references and writes properties as all contexts do by default. -/
structure Context.UsesDefaults (ctx : Context) : Prop where
  reference : ctx.reference = Context.unloaded
  setProperty : ctx.setProperty = Context.store

/-! ## The standard -/

/-- Which objects there are, by number and type. -/
abbrev Objects := ObjectId → TypeId → Prop

/-- What a document is held against: the types that are known in the end, the objects that are there
before, and whether the document may box null. -/
structure Standard where
  graph : TypeGraph
  boxed : Prop
  old : Objects
  arises : graph.Arises
  plain : graph.HasNoSetters
  getters : graph.GettersAgree
  defaults : graph.DefaultsConform old

namespace Standard

open Reading

variable {w : Standard} {O O' : Objects} {type : TypeId} {d : Descriptor} {v : Value} {n : Node}

/-- The number is that of the type. -/
def Knows (w : Standard) (type : TypeId) (d : Descriptor) : Prop :=
  w.graph.table.get? type = some d

/-- The value is one of the type. -/
def Conforms (w : Standard) (O : Objects) (type : TypeId) (v : Value) : Prop :=
  Value.Conforms w.graph (Descriptor.TakesNull w.boxed) O type v

theorem Conforms.grow (h : w.Conforms O type v) (hO : O ≤ O') : w.Conforms O' type v :=
  Value.Conforms.mono h (.refl _) (fun _ _ h => h) hO

/-- The heap stores the objects well. -/
structure Fits (w : Standard) (O : Objects) (h : Heap) : Prop where
  old : w.old ≤ O
  stores : h.Stores w.graph (Descriptor.TakesNull w.boxed) O

/-- The document boxes null only if that is allowed for. -/
def Admits (w : Standard) (json : Json) : Prop :=
  json.boxesNull = true → w.boxed

theorem Admits.item {items : List Json} (h : w.Admits (.array items)) {item : Json}
    (hitem : item ∈ items) : w.Admits item :=
  fun hnull => h (Json.boxesNull_item hitem hnull)

theorem Admits.member {members : List (String × Json)} (h : w.Admits (.object members))
    {member : String × Json} (hmember : member ∈ members) : w.Admits member.2 :=
  fun hnull => h (Json.boxesNull_member hmember hnull)

/-! ## Actions -/

section

variable {α β : Type} {F F' : Objects → Prop}

/-- A fact on objects that stays true when there are more of them. -/
def Stable (F : Objects → Prop) : Prop :=
  ∀ O O', O ≤ O' → F O → F O'

theorem stable_const (C : Prop) : Stable fun _ => C :=
  fun _ _ _ h => h

theorem stable_and (hF : Stable F) (hF' : Stable F') : Stable fun O => F O ∧ F' O :=
  fun O O' hO h => ⟨hF O O' hO h.1, hF' O O' hO h.2⟩

/-- Started on a heap that stores the objects `O` well, and with the fact `F`, the action ends, unless
it fails, on a heap that stores these and further objects well, and with the fact `R` for its answer.
That is so if the types that it leaves are known in the end; they become only more. -/
def Ends (w : Standard) (F : Objects → Prop) (x : Reading α) (R : α → Objects → Prop) : Prop :=
  ∀ s a s', x.runOn s = (.ok a, s') → s.graph.GrowsTo s'.graph ∧
    (s'.graph.table.Extends w.graph.table → ∀ O, w.Fits O s.heap → F O →
      ∃ O', O ≤ O' ∧ w.Fits O' s'.heap ∧ R a O')

theorem Ends.imp {x : Reading α} {R R' : α → Objects → Prop} (h : w.Ends F x R)
    (hF : ∀ O, F' O → F O) (hR : ∀ a O, R a O → R' a O) : w.Ends F' x R' := by
  intro s a s' hrun
  obtain ⟨hgrows, hends⟩ := h s a s' hrun
  refine ⟨hgrows, fun hknown O hfits hO => ?_⟩
  obtain ⟨O', hle, hfits', hR'⟩ := hends hknown O hfits (hF O hO)
  exact ⟨O', hle, hfits', hR a O' hR'⟩

/-- A sequence: what was known at the start is known after the first action, besides what that action
adds. -/
theorem ends_bind {x : Reading α} {f : α → Reading β} {M : α → Objects → Prop}
    {R : β → Objects → Prop} (hF : Stable F) (hx : w.Ends F x M)
    (hf : ∀ a, w.Ends (fun O => F O ∧ M a O) (f a) R) : w.Ends F (x >>= f) R := by
  intro s b s'' hrun
  rw [Action.runOn_bind] at hrun
  cases hfirst : x.runOn s with
  | mk outcome s' =>
      rw [hfirst] at hrun
      cases outcome with
      | error e => cases hrun
      | ok a =>
          obtain ⟨hgrows, hends⟩ := hx s a s' hfirst
          obtain ⟨hgrows', hends'⟩ := hf a s' b s'' hrun
          refine ⟨hgrows.trans hgrows', fun hknown O hfits hO => ?_⟩
          -- the types that are known in between are among those that are known afterwards
          obtain ⟨O', hle, hfits', hM⟩ := hends (hgrows'.extends.trans hknown) O hfits hO
          obtain ⟨O'', hle', hfits'', hR⟩ := hends' hknown O' hfits' ⟨hF O O' hle hO, hM⟩
          exact ⟨O'', hle.trans hle', hfits'', hR⟩

theorem ends_pure {a : α} {R : α → Objects → Prop} (h : ∀ O, F O → R a O) :
    w.Ends F (pure a : Reading α) R := by
  intro s b s' hrun
  cases hrun
  exact ⟨.refl, fun _ O hfits hO => ⟨O, le_refl O, hfits, h O hO⟩⟩

theorem ends_fail (R : α → Objects → Prop) (e : Error) : w.Ends F (Action.fail e : Reading α) R := by
  intro s a s' hrun
  cases hrun

theorem ends_misshapen (R : α → Objects → Prop) (cause : Misshapen) :
    w.Ends F (Reading.misshapen cause : Reading α) R :=
  ends_fail R _

/-- An action that answers from the state and changes nothing. -/
theorem ends_look {f : ReadState → Except Error α} {R : α → Objects → Prop}
    (h : ∀ s a O, f s = .ok a → s.graph.table.Extends w.graph.table → w.Fits O s.heap → F O → R a O) :
    w.Ends F (Action.look f : Reading α) R := by
  intro s a s' hrun
  have hanswer : f s = .ok a := congrArg Prod.fst hrun
  have hstate : s = s' := congrArg Prod.snd hrun
  rw [← hstate]
  exact ⟨.refl, fun hknown O hfits hO => ⟨O, le_refl O, hfits, h s a O hanswer hknown hfits hO⟩⟩

/-- A sequence that starts with an action of which only the answer matters, if anything. -/
theorem ends_known {outcome : Except Error α} {f : α → Reading β} {R : β → Objects → Prop}
    (hf : ∀ a, outcome = .ok a → w.Ends F (f a) R) : w.Ends F (Reading.known outcome >>= f) R := by
  intro s b s' hrun
  rw [Action.runOn_bind] at hrun
  cases outcome with
  | error e => cases hrun
  | ok a => exact hf a rfl s b s' hrun

theorem ends_note {f : Unit → Reading β} {R : β → Objects → Prop} {entry : AuditEntry}
    (hf : w.Ends F (f ()) R) : w.Ends F (Reading.note entry >>= f) R := by
  intro s b s' hrun
  rw [Action.runOn_bind] at hrun
  exact hf { s with audit := entry :: s.audit } b s' hrun

theorem ends_descriptor (type : TypeId) : w.Ends F (descriptor type) fun d _ => w.Knows type d :=
  ends_look fun _ _ _ hget hknown _ _ => hknown.get? (TypeGraph.get_eq_ok.mp hget)

/-- The type that a name leads to stands at its own number. -/
theorem ends_typeNamed (name : String) : w.Ends F (typeNamed name) fun d _ => w.Knows d.id d := by
  intro s d s' hrun
  have hanswer : (s.graph.byName name).1 = .ok d := congrArg Prod.fst hrun
  have hstate : { s with graph := (s.graph.byName name).2 } = s' := congrArg Prod.snd hrun
  rw [← hstate]
  refine ⟨s.graph.growsTo_byName name, fun hknown O hfits _ => ⟨O, le_refl O, hfits, ?_⟩⟩
  obtain ⟨id, hid⟩ := TypeGraph.exists_of_byName hanswer
  have hthere := hknown.get? hid
  unfold Knows
  rw [w.arises.sound.id id d hthere]
  exact hthere

/-- An action on the heap. -/
theorem ends_onHeap {x : Action Heap α} {R : α → Objects → Prop}
    (h : ∀ heap a heap' O, x.runOn heap = (.ok a, heap') → w.Fits O heap → F O →
      ∃ O', O ≤ O' ∧ w.Fits O' heap' ∧ R a O') : w.Ends F (onHeap x) R := by
  intro s a s' hrun
  have hanswer : (x.runOn s.heap).1 = .ok a := congrArg Prod.fst hrun
  have hstate : { s with heap := (x.runOn s.heap).2 } = s' := congrArg Prod.snd hrun
  rw [← hstate]
  exact ⟨.refl, fun _ O hfits hO => h s.heap a _ O (by rw [← hanswer]) hfits hO⟩

end

end Standard

end ResourceQuery
