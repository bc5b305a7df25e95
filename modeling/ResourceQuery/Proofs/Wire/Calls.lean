import ResourceQuery.Proofs.Wire.Tracking

set_option autoImplicit false

/-! # Which calls are made while a document is read

The reading of a node asks for the nodes below it, and has properties written. What it asks for, with
which parts of the document and in which states, is nowhere noted: it follows from what was read before.
So it is told by what happens if a request is refused. A request is *made* by the reading of a node if
that fails with whatever error the request is refused with (`Call.Makes`). A document leads to the calls
that are reached from its root by requests to read (`Call.Reaches`).

All functions of the reader make their requests in one way, by sequences (`Asks`). So refusing a request
either fails or makes no difference, and readers that agree on the requests which are made do the same
(`Asks.agree`). What is shown of a reading may therefore take for granted that no other calls are made.
-/

namespace ResourceQuery

/-! ## Parts of documents -/

/-- An item of an array, or the content of a member of an object. -/
inductive Json.IsChild : (child json : Json) → Prop
  | item {items : List Json} {item : Json} (h : item ∈ items) : IsChild item (.array items)
  | member {members : Entries Json} {member : String × Json} (h : member ∈ members) :
      IsChild member.2 (.object members)

/-- A document inside another one, at any depth. -/
abbrev Json.IsInside : Json → Json → Prop :=
  Relation.TransGen Json.IsChild

theorem Json.isInside_item {items : List Json} {item : Json} (h : item ∈ items) :
    item.IsInside (.array items) :=
  .single (.item h)

theorem Json.isInside_member {members : Entries Json} {member : String × Json}
    (h : member ∈ members) : member.2.IsInside (.object members) :=
  .single (.member h)

/-- Writes properties like another function does. -/
def Context.withSetter (ctx : Context) (set : ObjectId → Property → Value → Action Heap Unit) :
    Context :=
  { ctx with setProperty := set }

theorem Reading.yields_fail {α : Type} (Q : α → Prop) (e : Error) :
    Yields Q (Action.fail e : Reading α) := by
  intro s a s' hrun
  cases hrun

namespace Document

open Reading

theorem isInside_membersOf {json : Json} {member : String × Json} (h : member ∈ membersOf json) :
    member.2.IsInside json := by
  cases json with
  | object members => exact Json.isInside_member h
  | _ => cases h

/-! ## Requests -/

/-- That a property of an object is to be written. -/
structure SetCall where
  object : ObjectId
  property : Property
  value : Value
  heap : Heap

/-- What the reading of a node asks for, and when. -/
inductive Request where
  | read (n : Node) (json : Json) (s : ReadState)
  | set (w : SetCall)

/-- The request is to read a document of `Q` or, if that is allowed, to write a property. -/
def Request.IsOf (Q : Json → Prop) (writes : Prop) : Request → Prop
  | .read _ json _ => Q json
  | .set _ => writes

/-- What answers requests. -/
structure Oracle where
  read : NodeReader
  set : ObjectId → Property → Value → Action Heap Unit

namespace Oracle

open Classical in
/-- The oracle that refuses one request with an error. -/
noncomputable def refusing (O : Oracle) (r : Request) (e : Error) : Oracle where
  read n json := Action.ofFunction fun s =>
    if r = .read n json s then (.error e, s) else (O.read n json).runOn s
  set object p v := Action.ofFunction fun h =>
    if r = .set ⟨object, p, v, h⟩ then (.error e, h) else (O.set object p v).runOn h

/-- The oracles give the same answer to a request. -/
def AgreesOn (O O' : Oracle) : Request → Prop
  | .read n json s => (O'.read n json).runOn s = (O.read n json).runOn s
  | .set w => (O'.set w.object w.property w.value).runOn w.heap =
      (O.set w.object w.property w.value).runOn w.heap

variable {O : Oracle} {r : Request} {e : Error}

theorem read_refusing_self {n : Node} {json : Json} {s : ReadState} :
    ((O.refusing (.read n json s) e).read n json).runOn s = (.error e, s) := by
  rw [refusing, Action.runOn_ofFunction, if_pos rfl]

theorem read_refusing_of_ne {n : Node} {json : Json} {s : ReadState} (hne : r ≠ .read n json s) :
    ((O.refusing r e).read n json).runOn s = (O.read n json).runOn s := by
  rw [refusing, Action.runOn_ofFunction, if_neg hne]

theorem set_refusing_self {object : ObjectId} {p : Property} {v : Value} {h : Heap} :
    ((O.refusing (.set ⟨object, p, v, h⟩) e).set object p v).runOn h = (.error e, h) := by
  rw [refusing, Action.runOn_ofFunction, if_pos rfl]

theorem set_refusing_of_ne {object : ObjectId} {p : Property} {v : Value} {h : Heap}
    (hne : r ≠ .set ⟨object, p, v, h⟩) :
    ((O.refusing r e).set object p v).runOn h = (O.set object p v).runOn h := by
  rw [refusing, Action.runOn_ofFunction, if_neg hne]

end Oracle

/-! ## How a reading asks -/

theorem runOn_onHeap {α : Type} (action : Action Heap α) (s : ReadState) :
    (onHeap action).runOn s = ((action.runOn s.heap).1, { s with heap := (action.runOn s.heap).2 }) :=
  rfl

/-- A function of the reader, as it depends on what answers its requests: it does something of its own,
asks to read a document of `Q` or, if it `writes`, to write a property, or goes on with an answer. -/
inductive Asks (Q : Json → Prop) (writes : Prop) : {α : Type} → (Oracle → Reading α) → Prop
  | action {α : Type} (x : Reading α) : Asks Q writes fun _ => x
  | read (n : Node) {json : Json} (h : Q json) : Asks Q writes fun O => O.read n json
  | set (h : writes) (object : ObjectId) (p : Property) (v : Value) :
      Asks Q writes fun O => onHeap (O.set object p v)
  | sequence {α β : Type} {F : Oracle → Reading α} {G : α → Oracle → Reading β} {P : α → Prop}
      (hF : Asks Q writes F) (hP : ∀ O, Yields P (F O)) (hG : ∀ a, P a → Asks Q writes (G a)) :
      Asks Q writes fun O => F O >>= fun a => G a O

/-- Whatever the request is refused with, the reading fails with it. -/
def Makes {α : Type} (F : Oracle → Reading α) (O : Oracle) (s : ReadState) (r : Request) : Prop :=
  ∀ e, ((F (O.refusing r e)).runOn s).1 = .error e

/-- No outcome is all errors. -/
theorem not_forall_eq_error {α : Type} (outcome : Except Error α) : ¬ ∀ e, outcome = .error e := by
  intro h
  cases (h (.serializationFormat .boxTag)).symm.trans (h (.serializationFormat .boxValue))

namespace Asks

variable {α β : Type} {Q : Json → Prop} {writes : Prop} {F : Oracle → Reading α} {O O' : Oracle} {s : ReadState}
  {r : Request}

/-- A sequence, where nothing need be known of the first answer. -/
theorem bind {G : α → Oracle → Reading β} (hF : Asks Q writes F) (hG : ∀ a, Asks Q writes (G a)) :
    Asks Q writes fun O => F O >>= fun a => G a O :=
  hF.sequence (P := fun _ => True) (fun _ _ _ _ _ => trivial) fun a _ => hG a

/-- What the first part of a sequence asks for, the whole asks for. -/
theorem makes_bind (h : Makes F O s r) (G : α → Oracle → Reading β) :
    Makes (fun O => F O >>= fun a => G a O) O s r := by
  intro e
  have hfailed := h e
  rw [Action.runOn_bind]
  cases hrun : (F (O.refusing r e)).runOn s with
  | mk outcome s' =>
      rw [hrun] at hfailed
      cases hfailed
      rfl

/-- **A request is made, or it makes no difference what the answer to it is.** -/
theorem makes_or_spares (hF : Asks Q writes F) (O : Oracle) (s : ReadState) (r : Request) :
    Makes F O s r ∨ ∀ e, (F (O.refusing r e)).runOn s = (F O).runOn s := by
  induction hF generalizing s with
  | action x => exact .inr fun _ => rfl
  | @read n json _ =>
      by_cases hself : r = .read n json s
      · exact .inl fun e => congrArg Prod.fst (hself ▸ Oracle.read_refusing_self)
      · exact .inr fun e => Oracle.read_refusing_of_ne hself
  | set _ object p v =>
      by_cases hself : r = .set ⟨object, p, v, s.heap⟩
      · refine .inl fun e => ?_
        rw [runOn_onHeap, hself, Oracle.set_refusing_self]
      · refine .inr fun e => ?_
        rw [runOn_onHeap, Oracle.set_refusing_of_ne hself]
        rfl
  | @sequence _ _ F G _ _ hP _ ihF ihG =>
      rcases ihF s with hmade | hspared
      · exact .inl (makes_bind hmade G)
      · simp only [Makes, Action.runOn_bind, hspared]
        cases hrun : (F O).runOn s with
        | mk outcome s' =>
            cases outcome with
            | error e => exact .inr fun _ => rfl
            | ok a => exact ihG a (hP O s a s' hrun) s'

/-- A request is not made if it makes no difference what the answer to it is. -/
theorem not_makes (h : ∀ e, (F (O.refusing r e)).runOn s = (F O).runOn s) : ¬ Makes F O s r := by
  intro hmade
  exact not_forall_eq_error ((F O).runOn s).1 fun e => h e ▸ hmade e

/-- **Oracles that agree on the requests which are made are used alike.** -/
theorem agree (hF : Asks Q writes F) (s : ReadState) (h : ∀ r, Makes F O s r → O.AgreesOn O' r) :
    (F O').runOn s = (F O).runOn s := by
  induction hF generalizing s with
  | action x => rfl
  | read n hjson =>
      exact h (.read n _ s) fun e => congrArg Prod.fst Oracle.read_refusing_self
  | set _ object p v =>
      have hsame := h (.set ⟨object, p, v, s.heap⟩) fun e => by
        rw [runOn_onHeap, Oracle.set_refusing_self]
      rw [runOn_onHeap, runOn_onHeap, show (O'.set object p v).runOn s.heap = _ from hsame]
  | @sequence _ _ F G _ hF hP _ ihF ihG =>
      rw [Action.runOn_bind, Action.runOn_bind, ihF s fun r hmade => h r (makes_bind hmade G)]
      cases hrun : (F O).runOn s with
      | mk outcome s' =>
          cases outcome with
          | error e => rfl
          | ok a =>
              refine ihG a (hP O s a s' hrun) s' fun r hmade => h r ?_
              -- the first part may ask for the same
              rcases hF.makes_or_spares O s r with hbefore | hspared
              · exact makes_bind hbefore G
              · intro e
                rw [Action.runOn_bind, hspared, hrun]
                exact hmade e

/-- **What a reading asks for is among what it may ask for.** -/
theorem of_makes (hF : Asks Q writes F) (h : Makes F O s r) : r.IsOf Q writes := by
  refine Classical.byContradiction fun hnot => not_makes (fun e => ?_) h
  clear h
  induction hF generalizing s with
  | action x => rfl
  | read n hjson => exact Oracle.read_refusing_of_ne fun heq => hnot (heq ▸ hjson)
  | set hwrites object p v =>
      rw [runOn_onHeap, Oracle.set_refusing_of_ne fun heq => hnot (by rw [heq]; exact hwrites)]
      rfl
  | @sequence _ _ F G _ _ hP _ ihF ihG =>
      rw [Action.runOn_bind, Action.runOn_bind, ihF]
      cases hrun : (F O).runOn s with
      | mk outcome s' =>
          cases outcome with
          | error e => rfl
          | ok a => exact ihG a (hP O s a s' hrun)

end Asks

/-! ## The reader, shape by shape

Properties are written by whoever answers requests, and everything else is asked of the context. -/

section

variable {Q : Json → Prop} {writes : Prop} (ctx : Context)

theorem asks_readReference (n : Node) (uri : String) :
    Asks Q writes fun O => readReference (ctx.withSetter O.set) n uri :=
  .action (readReference ctx n uri)

theorem asks_checkItem (n : Node) (m : HttpMethod) :
    Asks Q writes fun O => checkItem (ctx.withSetter O.set) n m :=
  .action (checkItem ctx n m)

theorem asks_checkAccess (d : Descriptor) (p : Property) (m : HttpMethod) :
    Asks Q writes fun O => checkAccess (ctx.withSetter O.set) d p m :=
  .action (checkAccess ctx d p m)

/-! ### Lists and dictionaries -/

theorem asks_locate (element : TypeId) (name : String) {identifier : Json} (h : Q identifier)
    (items : List Value) (path : String) :
    Asks Q writes fun O => locate O.read element name identifier items path := by
  unfold locate
  refine .bind (.action _) fun d => ?_
  cases d.property? name with
  | none => exact .action _
  | some p => exact .bind (.read _ h) fun read => .action _

theorem asks_markedItem (element : TypeId) (items : List Value) (path : String)
    (mark : Option (NodeOperation × Nat)) {members : List (String × Json)}
    (h : ∀ member ∈ members, Q member.2) :
    Asks Q writes fun O => markedItem O.read element items path mark members := by
  induction members generalizing mark with
  | nil => exact .action _
  | cons member rest ih =>
      obtain ⟨key, identifier⟩ := member
      have hrest := fun mark => ih mark fun other hother => h other (List.mem_cons_of_mem _ hother)
      unfold markedItem
      cases isIdentifierKey key with
      | true =>
          exact .bind (asks_locate _ _ (h (key, identifier) List.mem_cons_self) _ _)
            fun i => hrest _
      | false => exact hrest mark

theorem asks_readItem (element : TypeId) (patching : Bool) (n : Node) (items : List Value) {item : Json}
    (hitem : Q item) (hmembers : ∀ member ∈ membersOf item, Q member.2) :
    Asks Q writes fun O => readItem (ctx.withSetter O.set) O.read element patching n items item := by
  unfold readItem
  refine .bind (asks_markedItem _ _ _ _ hmembers) fun mark => ?_
  have hadd : Asks Q writes fun O => (do
      let child ← O.read (Node.ofSlot element n.path) item
      pure (n.absorb child, items ++ [child.result])) :=
    .bind (.read _ hitem) fun child => .action _
  have hchange (operation : NodeOperation) (i : Nat) : Asks Q writes fun O => (do
      checkItem (ctx.withSetter O.set) n .patch
      let child ← O.read { Node.ofSlot element n.path with operation, value := items[i]? } item
      pure (n.absorb child, items.set i child.result)) :=
    .bind (asks_checkItem ctx _ _) fun _ => .bind (.read _ hitem) fun child => .action _
  cases mark with
  | none =>
      cases patching with
      | true => exact .bind (asks_checkItem ctx _ _) fun _ => hadd
      | false => exact hadd
  | some marked =>
      obtain ⟨operation, i⟩ := marked
      cases operation with
      | delete => exact .bind (asks_checkItem ctx _ _) fun _ => .action _
      | _ => exact hchange _ i

theorem asks_readItems (element : TypeId) (patching : Bool) (n : Node) (items : List Value)
    {documents : List Json} (h : ∀ item ∈ documents, Q item ∧ ∀ member ∈ membersOf item, Q member.2) :
    Asks Q writes fun O => readItems (ctx.withSetter O.set) O.read element patching n items documents := by
  induction documents generalizing n items with
  | nil => exact .action _
  | cons item rest ih =>
      obtain ⟨hitem, hmembers⟩ := h item List.mem_cons_self
      unfold readItems
      exact .bind (asks_readItem ctx _ _ _ _ hitem hmembers) fun read =>
        ih _ _ fun other hother => h other (List.mem_cons_of_mem _ hother)

theorem asks_readList (element : TypeId) (n : Node) (json : Json) :
    Asks (Json.IsInside · json) writes fun O =>
      readList (ctx.withSetter O.set) O.read element n json := by
  unfold readList
  refine .bind (.action _) fun uri => ?_
  cases uri with
  | some uri => exact asks_readReference ctx n uri
  | none =>
      unfold readArrayItems
      cases json with
      | array items =>
          refine .bind (asks_readItems ctx _ _ _ _ fun item hitem => ?_) fun read => .action _
          have hinside := Json.isInside_item hitem
          exact ⟨hinside, fun member hmember => (isInside_membersOf hmember).trans hinside⟩
      | _ => exact .action _

theorem asks_readEntries (valueType : TypeId) (n : Node) (entries : Entries Value)
    {members : List (String × Json)} (h : ∀ member ∈ members, Q member.2) :
    Asks Q writes fun O => readEntries O.read valueType n entries members := by
  induction members generalizing n entries with
  | nil => exact .action _
  | cons member rest ih =>
      obtain ⟨key, json⟩ := member
      have hrest := fun n entries => ih n entries fun other hother =>
        h other (List.mem_cons_of_mem _ hother)
      unfold readEntries
      cases Text.after? "-" key with
      | some removed => exact hrest _ _
      | none =>
          cases Text.startsWith "*" key || Text.startsWith "!" key with
          | true => exact .action _
          | false =>
              exact .bind (.read _ (h (key, json) List.mem_cons_self)) fun child => hrest _ _

theorem asks_readDictionary (valueType : TypeId) (n : Node) (json : Json) :
    Asks (Json.IsInside · json) writes fun O =>
      readDictionary (ctx.withSetter O.set) O.read valueType n json := by
  unfold readDictionary
  cases json with
  | object members =>
      refine .bind (.action _) fun uri => ?_
      cases uri with
      | some uri => exact asks_readReference ctx n uri
      | none =>
          exact .bind (asks_readEntries _ _ _ fun member hmember => Json.isInside_member hmember)
            fun read => .action _
  | _ => exact .action _

/-! ### Objects -/

theorem asks_setProperty (object : ObjectId) (p : Property) (v : Value) :
    Asks Q True fun O => setProperty (ctx.withSetter O.set) object p v := by
  unfold setProperty
  exact .bind (.action _) fun _ => .set trivial _ _ _

theorem asks_construct (d : Descriptor) (object : ObjectId) (n : Node) {fields : List Field}
    (h : ∀ f ∈ fields, Q f.json) (parameter : ConstructorParameter) :
    Asks Q True fun O => construct (ctx.withSetter O.set) O.read d object n fields parameter := by
  unfold construct
  cases d.property? parameter.property with
  | none => exact .action _
  | some p =>
      cases hfound : fields.find? (·.property.name == p.name) with
      | some field =>
          simp only [hfound]
          exact .bind (.read _ (h field (List.mem_of_find?_eq_some hfound))) fun child =>
            .bind (asks_checkAccess ctx _ _ _) fun _ =>
            .bind (asks_setProperty ctx _ _ _) fun _ => .action _
      | none =>
          simp only [hfound]
          cases parameter.default with
          | some v => exact .bind (asks_setProperty ctx _ _ _) fun _ => .action _
          | none => exact .action _

theorem mem_fetch {name : String} {fields : List Field} {f : Field} (hf : f ∈ fetch name fields) :
    ∃ g ∈ fields, g.json = f.json ∧ g.property = f.property := by
  induction fields with
  | nil => cases hf
  | cons first rest ih =>
      unfold fetch at hf
      split at hf
      · rcases List.mem_cons.mp hf with rfl | hrest
        · exact ⟨first, List.mem_cons_self, rfl, rfl⟩
        · exact ⟨f, List.mem_cons_of_mem _ hrest, rfl, rfl⟩
      · rcases List.mem_cons.mp hf with rfl | hrest
        · exact ⟨f, List.mem_cons_self, rfl, rfl⟩
        · obtain ⟨g, hg, hsame⟩ := ih hrest
          exact ⟨g, List.mem_cons_of_mem _ hg, hsame⟩

/-- The fields that a constructor leaves over have documents of the fields before. -/
theorem yields_construct {ctx : Context} {below : NodeReader} {d : Descriptor} {object : ObjectId}
    {n : Node} {fields : List Field} (h : ∀ f ∈ fields, Q f.json) (parameter : ConstructorParameter) :
    Yields (fun made => ∀ f ∈ made.2, Q f.json) (construct ctx below d object n fields parameter) := by
  unfold construct
  split
  · exact yields_fail _ _
  · split
    · refine yields_then fun child => yields_then fun _ => yields_then fun _ => yields_pure fun f hf => ?_
      obtain ⟨g, hg, hjson, -⟩ := mem_fetch hf
      exact hjson ▸ h g hg
    · split
      · exact yields_then fun _ => yields_pure h
      · exact yields_fail _ _

theorem asks_constructAll (d : Descriptor) (object : ObjectId) (n : Node) {fields : List Field}
    (h : ∀ f ∈ fields, Q f.json) (parameters : List ConstructorParameter) :
    Asks Q True fun O => constructAll (ctx.withSetter O.set) O.read d object n fields parameters := by
  induction parameters generalizing n fields with
  | nil => exact .action _
  | cons parameter rest ih =>
      unfold constructAll
      exact .sequence (asks_construct ctx _ _ _ h _) (fun O => yields_construct h _)
        fun made hmade => ih _ hmade

theorem yields_constructAll {below : NodeReader} {d : Descriptor} {object : ObjectId}
    {n : Node} {fields : List Field} (h : ∀ f ∈ fields, Q f.json)
    (parameters : List ConstructorParameter) :
    Yields (fun made => ∀ f ∈ made.2, Q f.json)
      (constructAll ctx below d object n fields parameters) := by
  induction parameters generalizing n fields with
  | nil => exact yields_pure h
  | cons parameter rest ih =>
      unfold constructAll
      exact yields_bind (yields_construct h _) fun made hmade => ih hmade

theorem asks_assign (d : Descriptor) (object : ObjectId) (m : HttpMethod) (n : Node) {f : Field}
    (h : Q f.json) : Asks Q True fun O => assign (ctx.withSetter O.set) O.read d object m n f := by
  have hwrite (child : Node) : Asks Q True fun O => (do
      setProperty (ctx.withSetter O.set) object f.property child.result
      pure (n.absorb child)) :=
    .bind (asks_setProperty ctx _ _ _) fun _ => .action _
  have hasked (child : Node) (ask : Bool) : Asks Q True fun O => (do
      if ask then checkAccess (ctx.withSetter O.set) d f.property m
      setProperty (ctx.withSetter O.set) object f.property child.result
      pure (n.absorb child)) := by
    cases ask with
    | true => exact .bind (asks_checkAccess ctx _ _ _) fun _ => hwrite child
    | false => exact hwrite child
  unfold assign
  refine .bind (.action _) fun current => .bind (.read _ h) fun child => ?_
  cases child.dirty with
  | false => exact .action _
  | true => exact hasked child (isAsked f current)

theorem asks_assignAll (d : Descriptor) (object : ObjectId) (m : HttpMethod) (n : Node)
    {fields : List Field} (h : ∀ f ∈ fields, Q f.json) :
    Asks Q True fun O => assignAll (ctx.withSetter O.set) O.read d object m n fields := by
  induction fields generalizing n with
  | nil => exact .action _
  | cons f rest ih =>
      unfold assignAll
      exact .bind (asks_assign ctx _ _ _ _ (h f List.mem_cons_self)) fun n =>
        ih _ fun other hother => h other (List.mem_cons_of_mem _ hother)

theorem asks_patchObject (d : Descriptor) (n : Node) (object : ObjectId) {fields : List Field}
    (h : ∀ f ∈ fields, Q f.json) :
    Asks Q True fun O => patchObject (ctx.withSetter O.set) O.read d n object fields := by
  unfold patchObject
  exact .bind (.action _) fun copy => .bind (asks_assignAll ctx _ _ _ _ h) fun n => .action _

theorem asks_createObject (d : Descriptor) (m : Members) (n : Node) {fields : List Field}
    (h : ∀ f ∈ fields, Q f.json) :
    Asks Q True fun O => createObject (ctx.withSetter O.set) O.read d m n fields := by
  unfold createObject
  cases m.isAbstract with
  | true => exact .action _
  | false =>
      refine .bind (.action _) fun object => ?_
      refine .sequence (asks_constructAll ctx _ _ _ h _) (fun O => yields_constructAll _ h _)
        fun made hmade => ?_
      exact .bind (asks_assignAll ctx _ _ _ _ fun f hf => hmade f (List.mem_filter.mp hf).1)
        fun n => .action _

/-- The documents of fields are those of members. -/
theorem asks_fields {d : Descriptor} {path : String} {members : Entries Json}
    {F : Oracle → List Field → Reading Node}
    (hF : ∀ fields, (∀ f ∈ fields, f.json.IsInside (.object members)) →
      Asks (Json.IsInside · (.object members)) True fun O => F O fields) :
    Asks (Json.IsInside · (.object members)) True fun O =>
      known (fieldsOf d path members) >>= fun fields => F O (inDeclarationOrder d fields) := by
  refine .sequence (P := fun fields => fieldsOf d path members = .ok fields) (.action _)
    (fun O => yields_known fun _ h => h) fun fields hfields => hF _ fun f hf => ?_
  obtain ⟨member, hmember, hread⟩ := exists_member_of_fieldsOf hfields f (mem_inDeclarationOrder hf)
  exact (declared_of_fieldOf hread).2 ▸ Json.isInside_member hmember

theorem asks_readContent (n : Node) (members : Entries Json) :
    Asks (Json.IsInside · (.object members)) True fun O =>
      readContent (ctx.withSetter O.set) O.read n members := by
  unfold readContent
  cases keptObject? n with
  | none =>
      refine .bind (.action _) fun typed => .bind (.action _) fun d => ?_
      cases d.members? with
      | none => exact .action _
      | some m => exact asks_fields fun fields hinside => asks_createObject ctx _ _ _ hinside
  | some id =>
      refine .bind (.action _) fun type => .bind (.action _) fun typed => .bind (.action _) fun d => ?_
      cases d.members? with
      | none => exact .action _
      | some m => exact asks_fields fun fields hinside => asks_patchObject ctx _ _ _ hinside

theorem asks_readObject (n : Node) (json : Json) :
    Asks (Json.IsInside · json) True fun O => readObject (ctx.withSetter O.set) O.read n json := by
  unfold readObject
  cases json with
  | object members =>
      refine .bind (.action _) fun uri => ?_
      cases uri with
      | some uri => exact asks_readReference ctx n uri
      | none =>
          refine .bind (.action _) fun expected => .bind (.action _) fun n => ?_
          cases Entries.get? "_uri" members with
          | none => exact asks_readContent ctx n members
          | some json =>
              cases json with
              | string uri =>
                  cases isBareUri members with
                  | true => exact asks_readReference ctx n uri
                  | false => exact asks_readContent ctx { n with uri := some uri } members
              | _ => exact .action _
  | _ => exact .action _

/-! ### Untyped slots -/

theorem asks_readUntypedItems (n : Node) (done : List Value) {documents : List Json}
    (h : ∀ item ∈ documents, Q item) :
    Asks Q writes fun O => readUntypedItems O.read n done documents := by
  induction documents generalizing n done with
  | nil => exact .action _
  | cons item rest ih =>
      unfold readUntypedItems
      exact .bind (.read _ (h item List.mem_cons_self)) fun child =>
        ih _ _ fun other hother => h other (List.mem_cons_of_mem _ hother)

theorem asks_readUntypedObject (n : Node) (members : Entries Json) :
    Asks (Json.IsInside · (.object members)) True fun O =>
      readUntypedObject (ctx.withSetter O.set) O.read n members := by
  unfold readUntypedObject
  cases Entries.get? "_type" members with
  | none => exact asks_readDictionary ctx _ _ _
  | some json =>
      cases json with
      | string name =>
          refine .bind (.action _) fun d => ?_
          cases d.members?.isSome with
          | true => exact asks_readObject ctx _ _
          | false => exact .action _
      | _ => exact .action _

theorem asks_readUntyped (n : Node) (json : Json) :
    Asks (Json.IsInside · json) True fun O => readUntyped (ctx.withSetter O.set) O.read n json := by
  unfold readUntyped
  cases json with
  | array items =>
      exact .bind (asks_readUntypedItems _ _ fun item hitem => Json.isInside_item hitem) fun read =>
        .action _
  | object members => exact asks_readUntypedObject ctx n members
  | _ => exact .action _

/-! ### Nodes -/

/-- **The reading of a node asks for what is inside its document.** -/
theorem asks_readWith (n : Node) (json : Json) :
    Asks (Json.IsInside · json) True fun O => readWith (ctx.withSetter O.set) O.read n json := by
  unfold readWith
  refine .bind (.action _) fun expected => ?_
  cases json.isNull with
  | true => cases expected.nullable <;> exact .action _
  | false =>
      cases expected.shape with
      | value kind =>
          cases kind with
          | any => exact asks_readUntyped ctx n json
          | _ => exact .action _
      | enum members => exact .action _
      | collection element => exact asks_readList ctx element n json
      | dictionary key value => exact asks_readDictionary ctx value n json
      | structured members => exact asks_readObject ctx n json
      | resource members address => exact asks_readObject ctx n json

end

/-! ## Calls -/

/-- What reads below a node that is `depth` levels above the deepest one. -/
def belowAt (ctx : Context) : (depth : Nat) → NodeReader
  | 0 => fun _ _ => misshapen .malformedJson
  | depth + 1 => readNode ctx depth

/-- That a document is read into a node, in a state. -/
structure Call where
  depth : Nat
  node : Node
  json : Json
  state : ReadState

namespace Call

/-- What a node is read with, as it depends on what answers requests. -/
def reader (ctx : Context) (c : Call) (O : Oracle) : Reading Node :=
  readWith (ctx.withSetter O.set) O.read c.node c.json

/-- What answers the requests of a call. -/
def oracle (ctx : Context) (c : Call) : Oracle :=
  ⟨belowAt ctx c.depth, ctx.setProperty⟩

/-- The call makes a request itself, not by the calls that it leads to: whatever the request is refused
with, reading the node fails with it. -/
def Makes (ctx : Context) (c : Call) (r : Request) : Prop :=
  Document.Makes (c.reader ctx) (c.oracle ctx) c.state r

/-- The call asks for another one. -/
def LeadsTo (ctx : Context) (c c' : Call) : Prop :=
  c.depth = c'.depth + 1 ∧ c.Makes ctx (.read c'.node c'.json c'.state)

/-- The call is the first one or comes of it. -/
def Reaches (ctx : Context) : Call → Call → Prop :=
  Relation.ReflTransGen (LeadsTo ctx)

/-- The first call for a document. -/
def root (expected : TypeId) (json : Json) (existing : Option Value) (s : ReadState) : Call :=
  ⟨json.depth, .root expected existing, json, s⟩

variable {ctx : Context} {c c' : Call}

theorem asks_reader (ctx : Context) (c : Call) : Asks (Json.IsInside · c.json) True (c.reader ctx) :=
  asks_readWith ctx c.node c.json

/-- A call asks to read what is inside its own document. -/
theorem LeadsTo.isInside (h : c.LeadsTo ctx c') : c'.json.IsInside c.json :=
  (c.asks_reader ctx).of_makes h.2

/-- **The calls that come of a document read the document or what is inside it.** -/
theorem Reaches.json (h : c.Reaches ctx c') : c'.json = c.json ∨ c'.json.IsInside c.json := by
  induction h with
  | refl => exact .inl rfl
  | tail _ hleads ih =>
      rcases ih with heq | hinside
      · exact .inr (heq ▸ hleads.isInside)
      · exact .inr (.trans hleads.isInside hinside)

open Classical in
/-- What reads below the node of a call, where only the calls are accepted that the call leads to. -/
noncomputable def below (ctx : Context) (c : Call) : NodeReader :=
  fun n json => Action.ofFunction fun s =>
    if c.Makes ctx (.read n json s) then (belowAt ctx c.depth n json).runOn s
    else (.error (.serializationFormat .malformedJson), s)

/-- The context that refuses to write a property once. -/
noncomputable def refusing (ctx : Context) (w : SetCall) (e : Error) : Context :=
  ctx.withSetter ((Oracle.mk (belowAt ctx 0) ctx.setProperty).refusing (.set w) e).set

end Call

end Document

end ResourceQuery
