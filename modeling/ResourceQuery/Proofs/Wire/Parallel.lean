import ResourceQuery.Proofs.Wire.Encoding
import ResourceQuery.Proofs.Wire.Renumbering
import ResourceQuery.Proofs.Wire.Slots
import ResourceQuery.Proofs.Wire.Tracking

set_option autoImplicit false

/-! # Two readings side by side

A node that is read on renumbered objects is read alike: from nodes that are the same under other numbers the
same document leads to nodes that are the same again (`Renumbering.follows_readNode`), however deep the two
readers go beyond what the document needs. There is a lemma for each shape, as in `Frame.lean`.

What is written to an object while its fields are read is kept apart (`Renumbering.Writes`), since the object
need not be open: the copy of an object that is patched keeps the fields that no document names, whatever they
hold.
-/

namespace ResourceQuery

open Reading

/-! ## Plain values -/

theorem Descriptor.over_of_hasScalar {d : Descriptor} {v : Value} {S : ObjectId → Prop}
    (h : d.hasScalar v = true) : v.Over S := by
  cases v with
  | null => exact .null
  | bool b => exact .bool b
  | int n => exact .int n
  | float x => exact .float x
  | string s => exact .string s
  | dateTime t => exact .dateTime t
  | enum member => exact .enum member
  | reference ref => exact .reference ref
  | object id => exact absurd (d.hasScalar_object id ▸ h) Bool.false_ne_true
  | list items => unfold hasScalar at h; split at h <;> contradiction
  | map entries => unfold hasScalar at h; split at h <;> contradiction
  | group key items => unfold hasScalar at h; split at h <;> contradiction

namespace Document

variable {S : ObjectId → Prop} {json : Json} {path : String} {v : Value}

theorem over_scalar {d : Descriptor} (h : scalar d json path = .ok v) : v.Over S := by
  rcases scalar_cases h with ⟨-, rfl, -⟩ | ⟨-, hscalar⟩
  · exact .null
  · exact Descriptor.over_of_hasScalar hscalar

theorem over_scalarOfKind {kind : ValueKind} (h : scalarOfKind kind json path = .ok v) : v.Over S := by
  let d : Descriptor := ⟨⟨0⟩, "", false, [], .value kind⟩
  exact Descriptor.over_of_hasScalar (hasScalar_scalarOfKind (d := d) rfl h)

theorem over_untypedNumber (json : Json) : (untypedNumber json).Over S := by
  unfold untypedNumber
  split
  · exact .int _
  · exact .float _

/-! ## Nodes under other numbers -/

variable {ρ : ObjectId → ObjectId} (n : Node)

theorem keptList?_rename : keptList? (n.rename ρ) = (keptList? n).map (List.map (Value.rename ρ)) := by
  unfold keptList? Node.keeps Node.rename
  cases n.value with
  | none => rfl
  | some v =>
      cases v with
      | list items =>
          simp only [Option.map_some, Value.rename_list]
          split <;> rfl
      | _ => rfl

theorem keptEntries_rename :
    keptEntries (n.rename ρ) = (keptEntries n).map (Prod.map id (Value.rename ρ)) := by
  unfold keptEntries Node.keeps Node.rename
  cases n.value with
  | none => rfl
  | some v =>
      cases v with
      | map entries =>
          simp only [Option.map_some, Value.rename_map]
          split <;> rfl
      | _ => rfl

theorem value_of_keptList? {n : Node} {items : List Value} (h : keptList? n = some items) :
    n.value = some (.list items) := by
  unfold keptList? at h
  split at h
  · rename_i hvalue
    split at h
    · cases h
      exact hvalue
    · cases h
  · cases h

theorem over_keptEntries {n : Node} (h : ∀ v ∈ n.value, v.Over S) :
    ∀ entry ∈ keptEntries n, entry.2.Over S := by
  unfold keptEntries
  split
  · rename_i hvalue
    split
    · exact (h _ hvalue).of_map
    · exact List.forall_mem_nil _
  · exact List.forall_mem_nil _

theorem value_of_keptObject? {n : Node} {x : ObjectId} (h : keptObject? n = some x) :
    n.value = some (.object x) := by
  unfold keptObject? at h
  split at h
  · rename_i hvalue
    split at h
    · cases h
      exact hvalue
    · cases h
  · cases h

theorem depth_lt_of_mem_fetch {name : String} {fields : List Field} {bound : Nat}
    (h : ∀ field ∈ fields, field.json.depth < bound) :
    ∀ field ∈ fetch name fields, field.json.depth < bound := by
  induction fields with
  | nil => exact h
  | cons f rest ih =>
      obtain ⟨hf, hrest⟩ := List.forall_mem_cons.mp h
      unfold fetch
      split
      · exact List.forall_mem_cons.mpr ⟨hf, hrest⟩
      · exact List.forall_mem_cons.mpr ⟨hf, ih hrest⟩

theorem keptObject?_rename : keptObject? (n.rename ρ) = (keptObject? n).map ρ := by
  unfold keptObject? Node.keeps Node.rename
  cases n.value with
  | none => rfl
  | some v =>
      cases v with
      | object x =>
          simp only [Option.map_some, Value.rename_object]
          split <;> rfl
      | _ => rfl

end Document

/-! ## Depth -/

namespace Json

theorem depth_lt_of_mem_members {member : String × Json} {members : List (String × Json)}
    (h : member ∈ members) : member.2.depth < (Json.object members).depth :=
  Nat.lt_succ_of_le (depth_le_of_mem_members h)

theorem depth_le_of_mem_items {item : Json} {items : List Json} (h : item ∈ items) :
    item.depth ≤ depthOfItems items := by
  induction items with
  | nil => cases h
  | cons first rest ih =>
      unfold depthOfItems
      rcases List.mem_cons.mp h with rfl | hlater
      · exact Nat.le_max_left _ _
      · exact (ih hlater).trans (Nat.le_max_right _ _)

theorem depth_lt_of_mem {item : Json} {items : List Json} (h : item ∈ items) :
    item.depth < (Json.array items).depth :=
  Nat.lt_succ_of_le (depth_le_of_mem_items h)

theorem depth_lt_of_mem_membersOf {json : Json} {member : String × Json}
    (h : member ∈ Document.membersOf json) : member.2.depth < json.depth := by
  cases json with
  | object members => exact depth_lt_of_mem_members h
  | _ => cases h

end Json

namespace Renumbering

open Document

variable {R : Renumbering} {k bound : Nat} {ctx : Context} {below below' : NodeReader}
  {I : ReadState → ReadState → Prop} {n n' : Node} {x : ObjectId}

/-- What is nested less deep than `bound` is read alike by both readers. -/
def Reads (R : Renumbering) (I : ReadState → ReadState → Prop) (k bound : Nat)
    (below below' : NodeReader) : Prop :=
  ∀ json : Json, json.depth < bound → ∀ k' n n', k ≤ k' → R.SameNode k' n n' →
    Follows I k' (below n json) (below' n' json) R.SameNode

theorem Reads.mono {k' bound' : Nat} (h : R.Reads I k bound below below') (hk : k ≤ k')
    (hbound : bound' ≤ bound) : R.Reads I k' bound' below below' :=
  fun json hdepth j n n' hj => h json (Nat.lt_of_lt_of_le hdepth hbound) j n n' (hk.trans hj)

/-! ## Scalars and references -/

theorem follows_unbox (members : Entries Json) : Follows R.Pairs k (unbox members) (unbox members) Same := by
  unfold unbox
  cases (Entries.get? "_type" members).bind Json.asString? with
  | none => exact leads_misshapen _
  | some name =>
      cases Entries.get? "value" members with
      | none => exact leads_misshapen _
      | some inner => exact follows_then (follows_typeNamed name) fun d => follows_pure fun _ _ => rfl

theorem follows_readScalar (hn : R.SameNode k n n') (expected : Descriptor) (kind : ValueKind) (json : Json) :
    Follows R.Pairs k (readScalar expected kind n json) (readScalar expected kind n' json) R.SameNode := by
  obtain rfl := hn.eq
  unfold readScalar
  split
  · refine follows_bind (follows_unbox _) fun k' box _ hk heq => ?_
    cases heq
    dsimp only
    split
    · exact leads_misshapen _
    · exact leads_ofKnown fun v hv =>
        follows_setValue ((hn.mono hk).withType box.1.id) (sameValue_plain (over_scalar hv))
  · exact leads_ofKnown fun v hv => follows_setValue hn (sameValue_plain (over_scalarOfKind hv))

/-- In both states a reference is made, under the same number. -/
theorem Pairs.newRef {s s' : ReadState} (h : R.Pairs s s') (uri : String) (type : TypeId) (state : RefState) :
    R.Pairs { s with heap := (s.heap.newRef uri type state).2 }
        { s' with heap := (s'.heap.newRef uri type state).2 } ∧
      (s'.heap.newRef uri type state).1 = (s.heap.newRef uri type state).1 := by
  have hcells := h.cells
  unfold Heap.newRef
  refine ⟨⟨h.graph, h.grown, h.arises, h.plain, ?_, h.started, h.size, h.record, h.closed⟩, ?_⟩
  · dsimp only
    rw [hcells]
  · rw [hcells]

theorem follows_reference (hctx : ctx.UsesDefaults) (huri : n'.uri = n.uri) (htype : n'.type = n.type) :
    Follows R.Pairs k (onHeap (ctx.reference n)) (onHeap (ctx.reference n'))
      fun k' v v' => R.SameValue k' v v' ∧ ∃ ref, v = .reference ref := by
  rw [hctx.reference]
  unfold Context.unloaded
  rw [huri, htype]
  cases n.uri with
  | none => exact leads_fail _
  | some uri =>
      intro s s' v s₁ _ h hrun
      cases hrun
      obtain ⟨hpairs, href⟩ := h.newRef uri n.type .unresolved
      exact ⟨_, _, rfl, Nat.le_refl _, hpairs, ⟨congrArg Value.reference href, .reference _⟩, _, rfl⟩

theorem follows_readReference (hctx : ctx.UsesDefaults) (hn : R.SameNode k n n') (uri : String) :
    Follows R.Pairs k (readReference ctx n uri) (readReference ctx n' uri) R.SameNode := by
  obtain rfl := hn.eq
  unfold readReference
  refine follows_bind (follows_note _) fun k' _ _ hk _ => ?_
  exact follows_bind (follows_reference hctx rfl rfl) fun k'' v v' hk' hv =>
    follows_setValue ((hn.mono (hk.trans hk')).withUri (some uri)) hv.1

/-! ## Lists -/

theorem follows_checkItem (howner : n'.owner = n.owner) (m : HttpMethod) :
    Follows R.Pairs k (checkItem ctx n m) (checkItem ctx n' m) Same := by
  unfold checkItem
  rw [howner]
  cases n.owner with
  | none => exact follows_pure fun _ _ => rfl
  | some owner =>
      exact follows_ofDescriptor (fun _ _ h => h) fun d _ => follows_then (follows_note _) fun _ => follows_known _

/-- In both states the items are told alike by the property called `name`, whatever its value is compared to. -/
def Tells (R : Renumbering) (I : ReadState → ReadState → Prop) (k : Nat) (name : String)
    (items items' : List Value) : Prop :=
  ∀ s s' wanted wanted', k ≤ s.heap.records.size → I s s' → R.SameValue s.heap.records.size wanted wanted' →
    items'.findIdx? (isIdentified s' name wanted') = items.findIdx? (isIdentified s name wanted)

theorem Tells.mono {k' : Nat} {name : String} {items items' : List Value} (h : R.Tells I k name items items')
    (hk : k ≤ k') : R.Tells I k' name items items' :=
  fun s s' wanted wanted' hsize => h s s' wanted wanted' (hk.trans hsize)

theorem isIdentified_eq {s s' : ReadState} (h : R.Pairs s s') {v wanted wanted' : Value} (name : String)
    (hv : v.Over (R.Open s.heap.records.size)) (hwanted : R.SameValue s.heap.records.size wanted wanted') :
    isIdentified s' name wanted' (v.rename R.rename) = isIdentified s name wanted v := by
  cases hv with
  | object hx =>
      rw [Value.rename_object]
      unfold isIdentified
      dsimp only
      rw [h.graph, h.typeOf hx]
      cases (s.graph.table.get? (s.heap.typeOf _)).bind (·.property? name) with
      | none => rfl
      | some p =>
          obtain ⟨hread, hover⟩ := h.read hx p
          dsimp only
          rw [hread, hwanted.eq, h.renames.looselyEqual_eq hover hwanted.inside]
  | list _ =>
      rw [Value.rename_list]
      rfl
  | map _ =>
      rw [Value.rename_map]
      rfl
  | group _ _ =>
      rw [Value.rename_group]
      rfl
  | _ => rfl

theorem findIdx?_isIdentified {s s' : ReadState} (h : R.Pairs s s') {items : List Value}
    {wanted wanted' : Value} (name : String) (hitems : ∀ v ∈ items, v.Over (R.Open s.heap.records.size))
    (hwanted : R.SameValue s.heap.records.size wanted wanted') :
    (items.map (Value.rename R.rename)).findIdx? (isIdentified s' name wanted') =
      items.findIdx? (isIdentified s name wanted) := by
  induction items with
  | nil => rfl
  | cons v rest ih =>
      rw [List.map_cons, List.findIdx?_cons, List.findIdx?_cons,
        isIdentified_eq h name (hitems v List.mem_cons_self) hwanted,
        ih fun w hw => hitems w (List.mem_cons_of_mem _ hw)]

theorem SameItems.tells {items items' : List Value} (h : R.SameItems k items items') (name : String) :
    R.Tells R.Pairs k name items items' := by
  intro s s' wanted wanted' hk hpairs hwanted
  rw [h.eq]
  exact findIdx?_isIdentified hpairs name (h.mono hk).inside hwanted

section

variable (hI : ∀ s s', I s s' → R.Pairs s s')

include hI

theorem follows_locate (hbelow : R.Reads I k bound below below') (element : TypeId) {name : String}
    {identifier : Json} {items items' : List Value} (path : String) (hdepth : identifier.depth < bound) (htells : R.Tells I k name items items') :
    Follows I k (locate below element name identifier items path)
      (locate below' element name identifier items' path) Same := by
  unfold locate
  refine follows_ofDescriptor hI fun d _ => ?_
  cases d.property? name with
  | none => exact leads_misshapen _
  | some p =>
      refine follows_bind (hbelow identifier hdepth k _ _ (Nat.le_refl k) (sameNode_ofSlot p.type path))
        fun k' read read' hk hread => ?_
      have hwanted := hread.result
      -- the state is asked for the items that the identifier is compared with
      intro s s' i s₁ hk' h hrun
      have hfind := htells s s' read.result read'.result (hk.trans hk') h (hwanted.mono hk')
      have hget : ∀ t : ReadState, (get : Reading ReadState).runOn t = (.ok t, t) := fun _ => rfl
      dsimp only at hrun ⊢
      rw [Action.runOn_bind, hget] at hrun
      dsimp only at hrun
      cases hplace : items.findIdx? (isIdentified s name read.result) with
      | none =>
          rw [hplace] at hrun
          cases hrun
      | some place =>
          rw [hplace] at hrun
          cases hrun
          refine ⟨i, s', ?_, Nat.le_refl _, h, rfl⟩
          rw [Action.runOn_bind, hget]
          dsimp only
          rw [hfind, hplace]
          rfl

theorem follows_markedItem (hbelow : R.Reads I k bound below below') (element : TypeId)
    {items items' : List Value} (path : String) {members : List (String × Json)} (hdepth : ∀ member ∈ members, member.2.depth < bound)
    (htells : ∀ member ∈ members, isIdentifierKey member.1 = true →
      R.Tells I k (String.ofList (member.1.toList.drop 2)) items items')
    (mark : Option (NodeOperation × Nat)) :
    Follows I k (markedItem below element items path mark members)
      (markedItem below' element items' path mark members) Same := by
  induction members generalizing k mark with
  | nil => exact follows_pure fun _ _ => rfl
  | cons member rest ih =>
      obtain ⟨key, identifier⟩ := member
      have hrest : ∀ member ∈ rest, member.2.depth < bound :=
        fun member hmember => hdepth member (List.mem_cons_of_mem _ hmember)
      unfold markedItem
      split
      · rename_i hkey
        have hidentifier : identifier.depth < bound := hdepth (key, identifier) List.mem_cons_self
        have htold := htells (key, identifier) List.mem_cons_self hkey
        refine follows_bind (follows_locate hI hbelow element path hidentifier htold) fun k' i _ hk heq => ?_
        cases heq
        exact ih (hbelow.mono hk (Nat.le_refl _)) hrest (fun member hmember hmark =>
          (htells member (List.mem_cons_of_mem _ hmember) hmark).mono hk) _
      · exact ih hbelow hrest (fun member hmember => htells member (List.mem_cons_of_mem _ hmember)) _

end

section

variable (hbelow : R.Reads R.Pairs 0 bound below below')

include hbelow

theorem follows_readItem (element : TypeId) (patching : Bool) {items items' : List Value} {item : Json}
    (hdepth : item.depth < bound) (hn : R.SameNode k n n') (hitems : R.SameItems k items items') :
    Follows R.Pairs k (readItem ctx below element patching n items item)
      (readItem ctx below' element patching n' items' item)
      fun k' r r' => R.SameNode k' r.1 r'.1 ∧ R.SameItems k' r.2 r'.2 := by
  obtain rfl := hn.eq
  have hmembers : ∀ member ∈ membersOf item, member.2.depth < bound :=
    fun member hmember => (Json.depth_lt_of_mem_membersOf hmember).trans hdepth
  unfold readItem
  have hreads := hbelow.mono (Nat.zero_le k) (Nat.le_refl _)
  refine follows_bind (follows_markedItem (fun _ _ h => h) hreads element n.path hmembers
    (fun member _ _ => hitems.tells _) none) fun k₁ mark _ hk₁ heq => ?_
  cases heq
  cases mark with
  | none =>
      have hadd : ∀ k', k ≤ k' → Follows R.Pairs k'
          (below (.ofSlot element n.path) item >>= fun child =>
            pure (n.absorb child, items ++ [child.result]))
          (below' (.ofSlot element n.path) item >>= fun child =>
            pure ((n.rename R.rename).absorb child, items' ++ [child.result]))
          fun k' r r' => R.SameNode k' r.1 r'.1 ∧ R.SameItems k' r.2 r'.2 := by
        intro k' hk'
        refine follows_bind (hbelow item hdepth k' _ _ (Nat.zero_le _) (sameNode_ofSlot element n.path))
          fun k'' child child' hk'' hchild => follows_pure fun j hj => ?_
        have hle : k ≤ j := hk'.trans (hk''.trans hj)
        exact ⟨(hn.mono hle).absorb (hchild.mono hj), (hitems.mono hle).concat (hchild.mono hj).result⟩
      dsimp only
      cases patching with
      | false => exact hadd k₁ hk₁
      | true =>
          exact follows_bind (follows_checkItem rfl .post) fun k₂ _ _ hk₂ _ =>
            hadd k₂ (hk₁.trans hk₂)
  | some mark =>
      obtain ⟨operation, i⟩ := mark
      have hpatch : ∀ operation', Follows R.Pairs k₁
          (checkItem ctx n .patch >>= fun _ =>
            below { Node.ofSlot element n.path with operation := operation', value := items[i]? } item >>=
              fun child => pure (n.absorb child, items.set i child.result))
          (checkItem ctx (n.rename R.rename) .patch >>= fun _ =>
            below' { Node.ofSlot element n.path with operation := operation', value := items'[i]? } item >>=
              fun child => pure ((n.rename R.rename).absorb child, items'.set i child.result))
          fun k' r r' => R.SameNode k' r.1 r'.1 ∧ R.SameItems k' r.2 r'.2 := by
        intro operation'
        refine follows_bind (follows_checkItem rfl .patch) fun k₂ _ _ hk₂ _ => ?_
        obtain ⟨hplace, hover⟩ := (hitems.mono (hk₁.trans hk₂)).getElem? i
        have hslot := (sameNode_withValue (n := .ofSlot element n.path) hplace hover rfl).withOperation operation'
        refine follows_bind (hbelow item hdepth k₂ _ _ (Nat.zero_le _) hslot)
          fun k₃ child child' hk₃ hchild => follows_pure fun j hj => ?_
        have hle : k ≤ j := hk₁.trans (hk₂.trans (hk₃.trans hj))
        exact ⟨(hn.mono hle).absorb (hchild.mono hj), (hitems.mono hle).set (hchild.mono hj).result i⟩
      cases operation with
      | delete =>
          exact follows_bind (follows_checkItem rfl .delete) fun k₂ _ _ hk₂ _ =>
            follows_pure fun j hj => ⟨hn.mono (hk₁.trans (hk₂.trans hj)),
              (hitems.mono (hk₁.trans (hk₂.trans hj))).eraseIdx i⟩
      | default => exact hpatch .default
      | post => exact hpatch .post
      | patch => exact hpatch .patch

theorem follows_readItems (element : TypeId) (patching : Bool) {items items' : List Value}
    {documents : List Json} (hdepth : ∀ item ∈ documents, item.depth < bound) (hn : R.SameNode k n n')
    (hitems : R.SameItems k items items') :
    Follows R.Pairs k (readItems ctx below element patching n items documents)
      (readItems ctx below' element patching n' items' documents)
      fun k' r r' => R.SameNode k' r.1 r'.1 ∧ R.SameItems k' r.2 r'.2 := by
  induction documents generalizing k n n' items items' with
  | nil => exact follows_pure fun _ hk => ⟨hn.mono hk, hitems.mono hk⟩
  | cons item rest ih =>
      unfold readItems
      exact follows_bind
        (follows_readItem hbelow element patching (hdepth item List.mem_cons_self) hn hitems)
        fun _ _ _ _ hread =>
          ih (fun later hlater => hdepth later (List.mem_cons_of_mem _ hlater)) hread.1 hread.2

theorem follows_readList (hctx : ctx.UsesDefaults) (element : TypeId) {json : Json}
    (hdepth : json.depth ≤ bound) (hn : R.SameNode k n n') :
    Follows R.Pairs k (readList ctx below element n json) (readList ctx below' element n' json)
      R.SameNode := by
  unfold readList
  refine leads_ofKnown fun uri _ => ?_
  cases uri with
  | some uri => exact follows_readReference hctx hn uri
  | none =>
      obtain rfl := hn.eq
      dsimp only
      unfold readArrayItems
      cases json with
      | array documents =>
          have hitems : R.SameItems k ((keptList? n).getD []) ((keptList? (n.rename R.rename)).getD []) := by
            rw [keptList?_rename]
            refine ⟨by cases keptList? n <;> rfl, fun v hv => ?_⟩
            cases hkept : keptList? n with
            | none =>
                rw [hkept] at hv
                exact absurd hv List.not_mem_nil
            | some items =>
                rw [hkept] at hv
                exact (hn.value _ (value_of_keptList? hkept)).of_list v hv
          have hpatching : (keptList? (n.rename R.rename)).isSome = (keptList? n).isSome := by
            rw [keptList?_rename, Option.isSome_map]
          dsimp only
          rw [hpatching]
          refine follows_bind (follows_readItems hbelow element _ (fun item hitem =>
            Nat.lt_of_lt_of_le (Json.depth_lt_of_mem hitem) hdepth) hn hitems) fun k' r r' _ hread => ?_
          refine follows_setValue hread.1 ⟨?_, .list hread.2.inside⟩
          rw [hread.2.eq, Value.rename_list]
      | _ => exact leads_misshapen _

/-! ## Dictionaries and untyped slots -/

theorem follows_readEntries (valueType : TypeId) {entries entries' : Entries Value}
    {members : List (String × Json)} (hdepth : ∀ member ∈ members, member.2.depth < bound)
    (hn : R.SameNode k n n') (hentries : R.SameEntries k entries entries') :
    Follows R.Pairs k (readEntries below valueType n entries members)
      (readEntries below' valueType n' entries' members)
      fun k' r r' => R.SameNode k' r.1 r'.1 ∧ R.SameEntries k' r.2 r'.2 := by
  induction members generalizing k n n' entries entries' with
  | nil => exact follows_pure fun _ hk => ⟨hn.mono hk, hentries.mono hk⟩
  | cons member rest ih =>
      obtain ⟨key, json⟩ := member
      have hrest : ∀ member ∈ rest, member.2.depth < bound :=
        fun member hmember => hdepth member (List.mem_cons_of_mem _ hmember)
      have hjson : json.depth < bound := hdepth (key, json) List.mem_cons_self
      unfold readEntries
      cases Text.after? "-" key with
      | some removed =>
          refine ih hrest hn ⟨by rw [hentries.eq, Entries.erase_map], fun entry hentry => ?_⟩
          exact hentries.inside entry (Entries.mem_of_mem_erase hentry)
      | none =>
          obtain rfl := hn.eq
          dsimp only
          split
          · exact leads_misshapen _
          · refine follows_bind (hbelow json hjson k _ _ (Nat.zero_le _) (sameNode_ofSlot valueType _))
              fun k' child child' hk hchild => ih hrest ((hn.mono hk).absorb hchild) ⟨?_, fun entry hentry => ?_⟩
            · rw [hentries.eq, hchild.result.eq, Entries.insert_map]
            · rcases Entries.mem_insert hentry with rfl | hentry
              · exact hchild.result.inside
              · exact (hentries.mono hk).inside entry hentry

theorem follows_readDictionary (hctx : ctx.UsesDefaults) (valueType : TypeId) {json : Json}
    (hdepth : json.depth ≤ bound) (hn : R.SameNode k n n') :
    Follows R.Pairs k (readDictionary ctx below valueType n json)
      (readDictionary ctx below' valueType n' json) R.SameNode := by
  unfold readDictionary
  cases json with
  | object members =>
      refine leads_ofKnown fun uri _ => ?_
      cases uri with
      | some uri => exact follows_readReference hctx hn uri
      | none =>
          obtain rfl := hn.eq
          have hentries : R.SameEntries k (keptEntries n) (keptEntries (n.rename R.rename)) :=
            ⟨keptEntries_rename n, fun entry hentry => over_keptEntries hn.value entry hentry⟩
          refine follows_bind (follows_readEntries hbelow valueType (fun member hmember =>
            Nat.lt_of_lt_of_le (Json.depth_lt_of_mem_members hmember) hdepth) hn hentries)
            fun k' r r' _ hread => follows_setValue hread.1 ⟨?_, .map hread.2.inside⟩
          rw [hread.2.eq, Value.rename_map]
  | _ => exact leads_misshapen _

theorem follows_readUntypedItems {documents : List Json} (hdepth : ∀ item ∈ documents, item.depth < bound)
    {done done' : List Value} (hn : R.SameNode k n n') (hdone : R.SameItems k done done') :
    Follows R.Pairs k (readUntypedItems below n done documents) (readUntypedItems below' n' done' documents)
      fun k' r r' => R.SameNode k' r.1 r'.1 ∧ R.SameItems k' r.2 r'.2 := by
  induction documents generalizing k n n' done done' with
  | nil => exact follows_pure fun _ hk => ⟨hn.mono hk, hdone.mono hk⟩
  | cons item rest ih =>
      obtain rfl := hn.eq
      unfold readUntypedItems
      exact follows_bind (hbelow item (hdepth item List.mem_cons_self) k _ _ (Nat.zero_le _)
        (sameNode_ofSlot n.expected n.path)) fun k' child child' hk hchild =>
          ih (fun later hlater => hdepth later (List.mem_cons_of_mem _ hlater)) ((hn.mono hk).absorb hchild)
            ((hdone.mono hk).concat hchild.result)

end

/-! ## Objects -/

/-- A document narrows the type alike, whatever the nodes hold. -/
theorem follows_narrowed (expected : Descriptor) (members : Entries Json) (htype : n'.type = n.type) :
    Follows R.Pairs k (narrow expected n members) (narrow expected n' members)
      fun _ m m' => ∃ type, m = { n with type } ∧ m' = { n' with type } := by
  unfold narrow
  cases Entries.get? "_type" members with
  | none =>
      refine follows_pure fun _ _ => ⟨n.type, rfl, ?_⟩
      rw [← htype]
  | some tag =>
      cases tag with
      | string name =>
          refine follows_then (follows_typeNamed name) fun tagged => ?_
          refine follows_then (follows_look fun s s' fits _ h hanswer => ⟨fits, h.graph ▸ hanswer, rfl⟩)
            fun fits => ?_
          split
          · exact leads_misshapen _
          · exact follows_pure fun _ _ => ⟨tagged.id, rfl, rfl⟩
      | _ => exact leads_misshapen _

theorem follows_narrow (expected : Descriptor) (members : Entries Json) (hn : R.SameNode k n n') :
    Follows R.Pairs k (narrow expected n members) (narrow expected n' members) R.SameNode := by
  have htype : n'.type = n.type := by
    rw [hn.eq]
    rfl
  refine (follows_narrowed expected members htype).imp (fun _ _ h => h) (fun _ _ h => h)
    fun k' m m' hk hnarrowed => ?_
  obtain ⟨type, rfl, rfl⟩ := hnarrowed
  exact (hn.mono hk).withType type

/-- With `k` objects or more in the first state, what is written to `object` there may be written in the second
state as well, and the properties in `named` hold the same values. -/
structure Writes (R : Renumbering) (I : ReadState → ReadState → Prop) (k : Nat) (object : ObjectId)
    (named : Property → Prop) : Prop where
  note : ∀ s s' entry, I s s' →
    I { s with audit := entry :: s.audit } { s' with audit := entry :: s'.audit }
  read : ∀ s s' p, k ≤ s.heap.records.size → I s s' → named p →
    R.SameValue s.heap.records.size (p.read s.heap object) (p.read s'.heap (R.rename object))
  write : ∀ s s' (p : Property) (v : Value), k ≤ s.heap.records.size → I s s' →
    v.Over (R.Open s.heap.records.size) →
    I { s with heap := p.write s.heap object v }
      { s' with heap := p.write s'.heap (R.rename object) (v.rename R.rename) }

theorem Writes.mono {object : ObjectId} {named : Property → Prop} {k' : Nat} (h : R.Writes I k object named)
    (hk : k ≤ k') : R.Writes I k' object named where
  note := h.note
  read s s' p hsize := h.read s s' p (hk.trans hsize)
  write s s' p v hsize := h.write s s' p v (hk.trans hsize)

/-- Whatever is written to an open object is written in both states. -/
theorem writes_of_open {named : Property → Prop} (hx : R.Open k x) : R.Writes R.Pairs k x named where
  note s s' entry h := by
    have hpairs := h.congr .refl (entry :: s.audit) (entry :: s'.audit)
    have hgraph := h.graph
    cases s'
    cases hgraph
    exact hpairs
  read s s' p hsize h _ := ⟨(h.read (hx.mono hsize) p).1, (h.read (hx.mono hsize) p).2⟩
  write s s' p v hsize h hv := h.write (hx.mono hsize) p hv

theorem sameNode_fieldSlot (d : Descriptor) (n : Node) (field : Field) {current current' : Value}
    (h : R.SameValue k current current') :
    R.SameNode k (fieldSlot d n field current) (fieldSlot d (n.rename R.rename) field current') := by
  have hslot : R.SameNode k (.ofProperty d.id field.property n.path (some current))
      (.ofProperty d.id field.property n.path (some current')) := by
    refine sameNode_withValue (n := .ofProperty d.id field.property n.path none) (congrArg some h.eq)
      (fun w hw => ?_) rfl
    cases hw
    exact h.inside
  unfold fieldSlot
  dsimp only
  split
  · exact hslot.withOperation .post
  · exact hslot

theorem isAsked_of_same (field : Field) {current current' : Value} (h : R.SameValue k current current') :
    isAsked field current' = isAsked field current := by
  rw [h.eq]
  unfold isAsked
  cases current <;> simp [Value.rename]

section

variable {object : ObjectId} {named : Property → Prop} (hwrites : R.Writes I k object named)

include hwrites

theorem Writes.follows_note (entry : AuditEntry) : Follows I k (Reading.note entry) (Reading.note entry) Same := by
  intro s s' a s₁ _ h hrun
  cases hrun
  exact ⟨(), { s' with audit := entry :: s'.audit }, rfl, Nat.le_refl _, hwrites.note s s' entry h, rfl⟩

theorem follows_checkAccess (d : Descriptor) (p : Property) (m : HttpMethod) :
    Follows I k (checkAccess ctx d p m) (checkAccess ctx d p m) Same := by
  unfold checkAccess
  exact follows_then (hwrites.follows_note _) fun _ => follows_known _

theorem follows_setProperty (hctx : ctx.UsesDefaults) (p : Property) {v v' : Value}
    (hv : R.SameValue k v v') :
    Follows I k (setProperty ctx object p v) (setProperty ctx (R.rename object) p v') Same := by
  unfold setProperty
  rw [hctx.setProperty, hv.eq]
  refine follows_then (hwrites.follows_note _) fun _ => ?_
  intro s s' a s₁ hk h hrun
  cases hrun
  exact ⟨(), _, rfl, (Heap.size_setRecord _ _ _).ge, hwrites.write s s' p v hk h (hv.mono hk).inside, rfl⟩

theorem follows_assign (hctx : ctx.UsesDefaults) (hbelow : R.Reads I k bound below below') (d : Descriptor)
    (m : HttpMethod) {field : Field} (hnamed : named field.property) (hdepth : field.json.depth < bound)
    (hn : R.Carries k n n') :
    Follows I k (assign ctx below d object m n field) (assign ctx below' d (R.rename object) m n' field)
      fun k' r r' => R.Carries k' r r' ∧ r.value = n.value := by
  obtain rfl := hn.eq
  -- what an assignment does once it has looked at the value that the property holds
  have hrest : ∀ k₁ current current', k ≤ k₁ → R.SameValue k₁ current current' → Follows I k₁
      (below (fieldSlot d n field current) field.json >>= fun child =>
        if child.dirty then do
          if isAsked field current then checkAccess ctx d field.property m
          setProperty ctx object field.property child.result
          pure (n.absorb child)
        else pure (n.absorb child))
      (below' (fieldSlot d (n.rename R.rename) field current') field.json >>= fun child =>
        if child.dirty then do
          if isAsked field current' then checkAccess ctx d field.property m
          setProperty ctx (R.rename object) field.property child.result
          pure ((n.rename R.rename).absorb child)
        else pure ((n.rename R.rename).absorb child))
      fun k' r r' => R.Carries k' r r' ∧ r.value = n.value := by
    intro k₁ current current' hk₁ hcurrent
    refine follows_bind (hbelow field.json hdepth k₁ _ _ hk₁ (sameNode_fieldSlot d n field hcurrent))
      fun k₂ child child' hk₂ hchild => ?_
    have hdirty : child'.dirty = child.dirty := by
      rw [hchild.eq]
      rfl
    have habsorb : ∀ k', k₂ ≤ k' → R.Carries k' (n.absorb child) ((n.rename R.rename).absorb child') ∧
        (n.absorb child).value = n.value :=
      fun k' hk' => ⟨(hn.mono (hk₁.trans (hk₂.trans hk'))).absorb (hchild.mono hk').carries, rfl⟩
    have hwrite : ∀ k', k₂ ≤ k' → Follows I k'
        (setProperty ctx object field.property child.result >>= fun _ => pure (n.absorb child))
        (setProperty ctx (R.rename object) field.property child'.result >>= fun _ =>
          pure ((n.rename R.rename).absorb child'))
        fun k' r r' => R.Carries k' r r' ∧ r.value = n.value :=
      fun k' hk' => follows_bind (follows_setProperty (hwrites.mono (hk₁.trans (hk₂.trans hk'))) hctx _
        (hchild.mono hk').result) fun k'' _ _ hk'' _ => follows_pure fun j hj => habsorb j (hk'.trans (hk''.trans hj))
    rw [hdirty, isAsked_of_same field hcurrent]
    split
    · cases isAsked field current with
      | false => exact hwrite k₂ (Nat.le_refl _)
      | true =>
          exact follows_bind (follows_checkAccess (hwrites.mono (hk₁.trans hk₂)) _ _ _)
            fun k' _ _ hk' _ => hwrite k' hk'
    · exact follows_pure habsorb
  intro s s' a s₁ hk h hrun
  rw [runOn_assign] at hrun
  exact hrest _ _ _ hk (hwrites.read s s' field.property hk h hnamed) s s' a s₁ (Nat.le_refl _) h hrun

theorem follows_assignAll (hctx : ctx.UsesDefaults) (hbelow : R.Reads I k bound below below') (d : Descriptor)
    (m : HttpMethod) {fields : List Field}
    (hfields : ∀ field ∈ fields, named field.property ∧ field.json.depth < bound) (hn : R.Carries k n n') :
    Follows I k (assignAll ctx below d object m n fields)
      (assignAll ctx below' d (R.rename object) m n' fields)
      fun k' r r' => R.Carries k' r r' ∧ r.value = n.value := by
  induction fields generalizing k n n' with
  | nil => exact follows_pure fun _ hk => ⟨hn.mono hk, rfl⟩
  | cons field rest ih =>
      obtain ⟨hnamed, hdepth⟩ := hfields field List.mem_cons_self
      unfold assignAll
      refine follows_bind (follows_assign hwrites hctx hbelow d m hnamed hdepth hn) fun k₁ r r' hk₁ hread => ?_
      rw [← hread.2]
      exact ih (hwrites.mono hk₁) (hbelow.mono hk₁ (Nat.le_refl _))
        (fun f hf => hfields f (List.mem_cons_of_mem _ hf)) hread.1

end

section

variable (hctx : ctx.UsesDefaults) (hbelow : R.Reads R.Pairs 0 bound below below')

include hctx hbelow

theorem follows_construct {object : ObjectId} (hobject : R.Open k object) {d : Descriptor}
    {fields : List Field} (hfields : ∀ field ∈ fields, field.json.depth < bound)
    {parameter : ConstructorParameter} (hplain : ∀ v ∈ parameter.default, v.Over fun _ => False)
    (hn : R.SameNode k n n') :
    Follows R.Pairs k (construct ctx below d object n fields parameter)
      (construct ctx below' d (R.rename object) n' fields parameter)
      fun k' r r' => R.SameNode k' r.1 r'.1 ∧ r'.2 = r.2 ∧ ∀ field ∈ r.2, field.json.depth < bound := by
  obtain rfl := hn.eq
  have hwrites : ∀ k', k ≤ k' → R.Writes R.Pairs k' object fun _ => True :=
    fun k' hk' => writes_of_open (hobject.mono hk')
  unfold construct
  cases d.property? parameter.property with
  | none => exact leads_fail _
  | some p =>
      cases hfind : fields.find? (·.property.name == p.name) with
      | some field =>
          have hdepth := hfields field (List.mem_of_find?_eq_some hfind)
          dsimp only
          rw [hfind]
          refine follows_bind (hbelow field.json hdepth k _ _ (Nat.zero_le _) ⟨rfl, nofun, nofun⟩)
            fun k₁ child child' hk₁ hchild => ?_
          refine follows_bind (follows_checkAccess (hwrites k₁ hk₁) d p .post) fun k₂ _ _ hk₂ _ => ?_
          refine follows_bind (follows_setProperty (hwrites k₂ (hk₁.trans hk₂)) hctx p (hchild.mono hk₂).result)
            fun k₃ _ _ hk₃ _ => follows_pure fun j hj => ?_
          have hle : k₁ ≤ j := hk₂.trans (hk₃.trans hj)
          exact ⟨(hn.mono (hk₁.trans hle)).absorb (hchild.mono hle), rfl, depth_lt_of_mem_fetch hfields⟩
      | none =>
          dsimp only
          rw [hfind]
          cases hdefault : parameter.default with
          | none => exact leads_fail _
          | some v =>
              refine follows_bind (follows_setProperty (hwrites k (Nat.le_refl _)) hctx p
                (sameValue_plain (hplain v hdefault))) fun k₁ _ _ hk₁ _ => follows_pure fun j hj => ?_
              exact ⟨hn.mono (hk₁.trans hj), rfl, hfields⟩

theorem follows_constructAll {object : ObjectId} (hobject : R.Open k object) {d : Descriptor}
    {fields : List Field} (hfields : ∀ field ∈ fields, field.json.depth < bound)
    {parameters : List ConstructorParameter}
    (hplain : ∀ parameter ∈ parameters, ∀ v ∈ parameter.default, v.Over fun _ => False)
    (hn : R.SameNode k n n') :
    Follows R.Pairs k (constructAll ctx below d object n fields parameters)
      (constructAll ctx below' d (R.rename object) n' fields parameters)
      fun k' r r' => R.SameNode k' r.1 r'.1 ∧ r'.2 = r.2 ∧ ∀ field ∈ r.2, field.json.depth < bound := by
  induction parameters generalizing k n n' fields with
  | nil => exact follows_pure fun _ hk => ⟨hn.mono hk, rfl, hfields⟩
  | cons parameter rest ih =>
      unfold constructAll
      refine follows_bind (follows_construct hctx hbelow hobject hfields (hplain parameter List.mem_cons_self) hn)
        fun k₁ made made' hk₁ hmade => ?_
      obtain ⟨made, fields₁⟩ := made
      obtain ⟨made', fields₁'⟩ := made'
      obtain ⟨hsame, rfl, hfields₁⟩ := hmade
      exact ih (hobject.mono hk₁) hfields₁ (fun p hp => hplain p (List.mem_cons_of_mem _ hp)) hsame

theorem follows_patchObject {d : Descriptor} {fields : List Field}
    (hfields : ∀ field ∈ fields, field.json.depth < bound) (hx : R.Open k x) (hn : R.SameNode k n n') :
    Follows R.Pairs k (patchObject ctx below d n x fields) (patchObject ctx below' d n' (R.rename x) fields)
      R.SameNode := by
  unfold patchObject
  refine follows_bind (Q := fun k' copy copy' => copy' = R.rename copy ∧ R.Open k' copy) ?_
    fun k₁ copy copy' hk₁ hcopy => ?_
  · intro s s' copy s₁ hk h hrun
    cases hrun
    have hopen := hx.mono hk
    obtain ⟨hpairs, hnew⟩ := h.alloc (h.record x hopen) (h.closed x hopen)
    refine ⟨_, _, rfl, ?_, hpairs, hnew, .inr ⟨h.started, ?_⟩⟩
    · exact (Array.size_push _).symm ▸ Nat.le_succ _
    · exact (Array.size_push _).symm ▸ Nat.lt_succ_self _
  · obtain ⟨rfl, hopen⟩ := hcopy
    have hwrites : R.Writes R.Pairs k₁ copy fun _ => True := writes_of_open hopen
    refine follows_bind (follows_assignAll hwrites hctx (hbelow.mono (Nat.zero_le _) (Nat.le_refl _)) d .patch
      (fun field hfield => ⟨trivial, hfields field hfield⟩) ((hn.mono hk₁).withOperation .patch).carries)
      fun k₂ read read' hk₂ hread => ?_
    have hsame := hread.1.sameNode (hread.2 ▸ (hn.mono (hk₁.trans hk₂)).value)
    exact follows_setValue (hsame.stage (hx.mono (hk₁.trans hk₂)) (hopen.mono hk₂))
      ⟨rfl, .object (hx.mono (hk₁.trans hk₂))⟩

theorem follows_createObject {d : Descriptor} {m : Members} (hplain : d.HasPlainDefaults)
    (hm : d.members? = some m) {fields : List Field} (hfields : ∀ field ∈ fields, field.json.depth < bound)
    (hn : R.SameNode k n n') :
    Follows R.Pairs k (createObject ctx below d m n fields) (createObject ctx below' d m n' fields)
      R.SameNode := by
  unfold createObject
  split
  · exact leads_misshapen _
  · refine follows_bind (Q := fun k' object object' => object' = R.rename object ∧ R.Open k' object) ?_
      fun k₁ object object' hk₁ hobject => ?_
    · intro s s' object s₁ hk h hrun
      cases hrun
      obtain ⟨hpairs, hnew⟩ := h.alloc (r := ⟨d.id, []⟩) rfl (List.forall_mem_nil _)
      refine ⟨_, _, rfl, ?_, hpairs, hnew, .inr ⟨h.started, ?_⟩⟩
      · exact (Array.size_push _).symm ▸ Nat.le_succ _
      · exact (Array.size_push _).symm ▸ Nat.lt_succ_self _
    · obtain ⟨rfl, hopen⟩ := hobject
      refine follows_bind (follows_constructAll hctx hbelow hopen hfields (hplain m hm)
        ((hn.mono hk₁).withOperation .post)) fun k₂ made made' hk₂ hmade => ?_
      obtain ⟨made, fields₁⟩ := made
      obtain ⟨made', fields₁'⟩ := made'
      obtain ⟨hsame, rfl, hfields₁⟩ := hmade
      have hwrites : R.Writes R.Pairs k₂ object fun _ => True := writes_of_open (hopen.mono hk₂)
      refine follows_bind (follows_assignAll hwrites hctx (hbelow.mono (Nat.zero_le _) (Nat.le_refl _)) d .post
        (fun field hfield => ⟨trivial, hfields₁ field (List.mem_of_mem_filter hfield)⟩) hsame.carries)
        fun k₃ read read' hk₃ hread => ?_
      have hdone := hread.1.sameNode (hread.2 ▸ (hsame.mono hk₃).value)
      exact follows_setValue hdone ⟨rfl, .object (hopen.mono (hk₂.trans hk₃))⟩

/-- What is read once it is known which object is kept and of which type the new value is. -/
theorem follows_readSettled {kept : Option ObjectId} (hkept : ∀ x ∈ kept, R.Open k x) {members : Entries Json}
    (hdepth : (Json.object members).depth ≤ bound) (hn : R.SameNode k n n') :
    Follows R.Pairs k
      (descriptor n.type >>= fun d =>
        match d.members? with
        | none => misshapen (.notStructured d.name)
        | some m => known (fieldsOf d n.path members) >>= fun fields =>
          match kept with
          | some object => patchObject ctx below d n object (inDeclarationOrder d fields)
          | none => createObject ctx below d m n (inDeclarationOrder d fields))
      (descriptor n'.type >>= fun d =>
        match d.members? with
        | none => misshapen (.notStructured d.name)
        | some m => known (fieldsOf d n'.path members) >>= fun fields =>
          match kept.map R.rename with
          | some object => patchObject ctx below' d n' object (inDeclarationOrder d fields)
          | none => createObject ctx below' d m n' (inDeclarationOrder d fields)) R.SameNode := by
  obtain rfl := hn.eq
  refine follows_ofDescriptor (fun _ _ h => h) fun d hplain => ?_
  cases hm : d.members? with
  | none => exact leads_misshapen _
  | some m =>
      refine leads_ofKnown fun fields hfields => ?_
      have hbelowFields : ∀ field ∈ inDeclarationOrder d fields, field.json.depth < bound := by
        intro field hfield
        obtain ⟨member, hmember, hread⟩ := exists_member_of_fieldsOf hfields field (mem_inDeclarationOrder hfield)
        rw [(declared_of_fieldOf hread).2]
        exact Nat.lt_of_lt_of_le (Json.depth_lt_of_mem_members hmember) hdepth
      cases kept with
      | some x => exact follows_patchObject hctx hbelow hbelowFields (hkept x rfl) hn
      | none => exact follows_createObject hctx hbelow hplain hm hbelowFields hn

theorem follows_readContent {members : Entries Json} (hdepth : (Json.object members).depth ≤ bound)
    (hn : R.SameNode k n n') :
    Follows R.Pairs k (readContent ctx below n members) (readContent ctx below' n' members) R.SameNode := by
  obtain rfl := hn.eq
  have hopen : ∀ x ∈ keptObject? n, R.Open k x :=
    fun x hx => (hn.value _ (value_of_keptObject? hx)).of_object
  unfold readContent
  rw [keptObject?_rename]
  cases hkept : keptObject? n with
  | none =>
      have hnone : ∀ x ∈ (none : Option ObjectId), R.Open k x := nofun
      exact follows_readSettled hctx hbelow hnone hdepth hn
  | some x =>
      refine follows_bind (Q := Same) (follows_look fun s s' type hk h hanswer => ?_)
        fun k₁ type _ hk₁ heq => ?_
      · cases hanswer
        exact ⟨_, rfl, h.typeOf ((hopen x hkept).mono hk)⟩
      · cases heq
        have hsome : ∀ y ∈ some x, R.Open k₁ y := fun y hy => Option.some.inj hy ▸ (hopen x hkept).mono hk₁
        exact follows_readSettled hctx hbelow hsome hdepth ((hn.mono hk₁).withType type)

theorem follows_readObject {json : Json} (hdepth : json.depth ≤ bound) (hn : R.SameNode k n n') :
    Follows R.Pairs k (readObject ctx below n json) (readObject ctx below' n' json) R.SameNode := by
  obtain rfl := hn.eq
  unfold readObject
  cases json with
  | object members =>
      refine leads_ofKnown fun uri _ => ?_
      cases uri with
      | some uri => exact follows_readReference hctx hn uri
      | none =>
          refine follows_ofDescriptor (fun _ _ h => h) fun expected _ => ?_
          refine follows_bind (follows_narrow expected members hn) fun k₁ typed typed' hk₁ htyped => ?_
          cases Entries.get? "_uri" members with
          | none => exact follows_readContent hctx hbelow hdepth htyped
          | some place =>
              cases place with
              | string uri =>
                  dsimp only
                  split
                  · exact follows_readReference hctx htyped uri
                  · exact follows_readContent hctx hbelow hdepth (htyped.withUri (some uri))
              | _ => exact leads_misshapen _
  | _ => exact leads_misshapen _

/-! ## Nodes -/

theorem follows_readUntypedObject {members : Entries Json} (hdepth : (Json.object members).depth ≤ bound)
    (hn : R.SameNode k n n') :
    Follows R.Pairs k (readUntypedObject ctx below n members) (readUntypedObject ctx below' n' members)
      R.SameNode := by
  obtain rfl := hn.eq
  unfold readUntypedObject
  cases Entries.get? "_type" members with
  | none => exact follows_readDictionary hbelow hctx _ hdepth hn
  | some tag =>
      cases tag with
      | string name =>
          refine follows_then (follows_typeNamed name) fun d => ?_
          split
          · exact follows_readObject hctx hbelow hdepth hn
          · refine follows_bind (follows_unbox members) fun k₁ box _ hk₁ heq => ?_
            cases heq
            exact leads_ofKnown fun v hv =>
              follows_setValue ((hn.mono hk₁).withType box.1.id) (sameValue_plain (over_scalar hv))
      | _ => exact leads_misshapen _

theorem follows_readUntyped {json : Json} (hdepth : json.depth ≤ bound) (hn : R.SameNode k n n') :
    Follows R.Pairs k (readUntyped ctx below n json) (readUntyped ctx below' n' json) R.SameNode := by
  unfold readUntyped
  cases json with
  | null => exact follows_setValue hn (sameValue_plain .null)
  | bool b => exact follows_setValue hn (sameValue_plain (.bool b))
  | number x => exact follows_setValue hn (sameValue_plain (over_untypedNumber _))
  | string s => exact follows_setValue hn (sameValue_plain (.string s))
  | array documents =>
      refine follows_bind (follows_readUntypedItems hbelow (fun item hitem =>
        Nat.lt_of_lt_of_le (Json.depth_lt_of_mem hitem) hdepth) hn ⟨rfl, List.forall_mem_nil _⟩)
        fun k₁ r r' _ hread => follows_setValue hread.1 ⟨?_, .list hread.2.inside⟩
      rw [hread.2.eq, Value.rename_list]
  | object members => exact follows_readUntypedObject hctx hbelow hdepth hn

theorem follows_readWith {json : Json} (hdepth : json.depth ≤ bound) (hn : R.SameNode k n n') :
    Follows R.Pairs k (readWith ctx below n json) (readWith ctx below' n' json) R.SameNode := by
  obtain rfl := hn.eq
  unfold readWith
  refine follows_ofDescriptor (fun _ _ h => h) fun expected _ => ?_
  split
  · split
    · exact follows_setValue hn (sameValue_plain .null)
    · exact leads_misshapen _
  · cases expected.shape with
    | value kind =>
        cases kind with
        | any => exact follows_readUntyped hctx hbelow hdepth hn
        | _ => exact follows_readScalar hn expected _ json
    | enum members => exact leads_ofKnown fun v hv => follows_setValue hn (sameValue_plain (over_scalar hv))
    | collection element => exact follows_readList hbelow hctx element hdepth hn
    | dictionary key value => exact follows_readDictionary hbelow hctx value hdepth hn
    | structured m => exact follows_readObject hctx hbelow hdepth hn
    | resource m address => exact follows_readObject hctx hbelow hdepth hn

end

/-- **A document is read alike on renumbered objects**, where both readers go as deep as the document does. -/
theorem follows_readNode (hctx : ctx.UsesDefaults) {depth depth' : Nat} {json : Json} (hdepth : json.depth ≤ depth)
    (hdepth' : json.depth ≤ depth') (hn : R.SameNode k n n') :
    Follows R.Pairs k (readNode ctx depth n json) (readNode ctx depth' n' json) R.SameNode := by
  induction depth generalizing depth' json k n n' with
  | zero =>
      -- a document without depth has nothing below it
      have hbelow : ∀ below below', R.Reads R.Pairs 0 json.depth below below' :=
        fun _ _ child hchild => absurd (Nat.lt_of_lt_of_le hchild hdepth) (Nat.not_lt_zero _)
      cases depth' with
      | zero => exact follows_readWith hctx (hbelow _ _) (Nat.le_refl _) hn
      | succ depth' => exact follows_readWith hctx (hbelow _ _) (Nat.le_refl _) hn
  | succ depth ih =>
      cases depth' with
      | zero =>
          have hbelow : ∀ below below', R.Reads R.Pairs 0 json.depth below below' :=
            fun _ _ child hchild => absurd (Nat.lt_of_lt_of_le hchild hdepth') (Nat.not_lt_zero _)
          exact follows_readWith hctx (hbelow _ _) (Nat.le_refl _) hn
      | succ depth' =>
          have hbelow : R.Reads R.Pairs 0 json.depth (readNode ctx depth) (readNode ctx depth') :=
            fun child hchild j m m' _ hm => ih (Nat.le_of_lt_succ (Nat.lt_of_lt_of_le hchild hdepth))
              (Nat.le_of_lt_succ (Nat.lt_of_lt_of_le hchild hdepth')) hm
          exact follows_readWith hctx hbelow (Nat.le_refl _) hn

/-- What is nested less deep than both readers go is read alike. -/
theorem reads_readNode (hctx : ctx.UsesDefaults) {depth depth' : Nat} (hbound : bound ≤ depth + 1)
    (hbound' : bound ≤ depth' + 1) : R.Reads R.Pairs 0 bound (readNode ctx depth) (readNode ctx depth') :=
  fun _ hjson _ _ _ _ hn => follows_readNode hctx (Nat.le_of_lt_succ (Nat.lt_of_lt_of_le hjson hbound))
    (Nat.le_of_lt_succ (Nat.lt_of_lt_of_le hjson hbound')) hn

end Renumbering

end ResourceQuery
