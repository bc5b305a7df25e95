import ResourceQuery.Proofs.Wire.ItemEdits
import ResourceQuery.Proofs.Wire.ObjectPatches

set_option autoImplicit false

/-! # An item of a list, on renumbered objects

The items of a list need not be open: they may be objects whose fields lead anywhere. Still an item is read alike
in both states (`Renumbering.exists_readItem`) if its identifiers tell the objects in the list alike
(`Renumbering.Told`), and the object that it patches may be patched in both (`Renumbering.Patchable`).
-/

namespace ResourceQuery

open Reading Document

namespace Renumbering

variable {R : Renumbering} {k : Nat} {x copy : ObjectId} {s s' : ReadState}

/-! ## Telling the items -/

/-- The objects that were there before have the records that they had. -/
structure Unmoved (R : Renumbering) (h₀ h₀' h h' : Heap) : Prop where
  first : ∀ x : ObjectId, x.index < R.start → h.record x = h₀.record x
  second : ∀ x : ObjectId, x.index < R.start' → h'.record x = h₀'.record x

theorem lasting_unmoved (R : Renumbering) (h₀ h₀' : Heap) : R.Lasting (R.Unmoved h₀ h₀') := by
  intro h h₁ h' h₁' hstart hstart' hchange hchange' hunmoved
  refine ⟨fun x hx => ?_, fun x hx => ?_⟩
  · exact (hchange.2 x (Nat.lt_of_lt_of_le hx hstart) (Nat.not_le.mpr hx)).trans (hunmoved.first x hx)
  · exact (hchange'.2 x (Nat.lt_of_lt_of_le hx hstart') (Nat.not_le.mpr hx)).trans (hunmoved.second x hx)

/-- The object is there in both heaps, and has the same type and the same value under `name`, which holds open
objects. -/
structure Told (R : Renumbering) (name : String) (h₀ h₀' : Heap) (x : ObjectId) : Prop where
  before : x.index < R.start
  before' : (R.rename x).index < R.start'
  type : h₀'.typeOf (R.rename x) = h₀.typeOf x
  value : ∃ d, R.graph.table.get? (h₀.typeOf x) = some d ∧ ∀ q, d.property? name = some q →
    q.read h₀' (R.rename x) = (q.read h₀ x).rename R.rename ∧ (q.read h₀ x).Over R.Old

theorem isIdentified_eq_of_told {name : String} {h₀ h₀' : Heap} (hx : R.Told name h₀ h₀' x) (h : R.Pairs s s')
    (hunmoved : R.Unmoved h₀ h₀' s.heap s'.heap) {wanted wanted' : Value}
    (hwanted : R.SameValue s.heap.records.size wanted wanted') :
    isIdentified s' name wanted' (.object (R.rename x)) = isIdentified s name wanted (.object x) := by
  have hrecord := hunmoved.first x hx.before
  have hrecord' := hunmoved.second (R.rename x) hx.before'
  have htype : s.heap.typeOf x = h₀.typeOf x := congrArg Record.type hrecord
  have htype' : s'.heap.typeOf (R.rename x) = h₀.typeOf x := (congrArg Record.type hrecord').trans hx.type
  obtain ⟨d, hd, hvalue⟩ := hx.value
  unfold isIdentified
  dsimp only
  rw [h.graph, htype, htype', h.grown.extends.get? hd]
  cases hq : d.property? name with
  | none =>
      dsimp only [Option.bind]
      rw [hq]
  | some q =>
      obtain ⟨hread, hover⟩ := hvalue q hq
      have hsame : q.read s.heap x = q.read h₀ x := congrArg q.getFrom hrecord
      have hsame' : q.read s'.heap (R.rename x) = (q.read h₀ x).rename R.rename :=
        (congrArg q.getFrom hrecord').trans hread
      dsimp only [Option.bind]
      rw [hq]
      dsimp only
      rw [hsame, hsame', hwanted.eq]
      exact h.renames.looselyEqual_eq (hover.mono fun _ hy => .inl hy) hwanted.inside

theorem tells_of_told {name : String} {h₀ h₀' : Heap} {items : List Value}
    (htold : ∀ x, .object x ∈ items → R.Told name h₀ h₀' x) :
    R.Tells (fun s s' => R.Pairs s s' ∧ R.Unmoved h₀ h₀' s.heap s'.heap) k name items
      (items.map (Value.rename R.rename)) := by
  intro s s' wanted wanted' _ h hwanted
  induction items with
  | nil => rfl
  | cons v rest ih =>
      have hv : isIdentified s' name wanted' (v.rename R.rename) = isIdentified s name wanted v := by
        cases v with
        | object x => exact isIdentified_eq_of_told (htold x List.mem_cons_self) h.1 h.2 hwanted
        | list items =>
            rw [Value.rename_list]
            rfl
        | map entries =>
            rw [Value.rename_map]
            rfl
        | group key items =>
            rw [Value.rename_group]
            rfl
        | _ => rfl
      rw [List.map_cons, List.findIdx?_cons, List.findIdx?_cons, hv,
        ih fun x hx => htold x (List.mem_cons_of_mem _ hx)]

end Renumbering

namespace Document

variable {below : NodeReader} {element : TypeId} {items : List Value} {path : String}

/-- An identifier marks an object. -/
theorem yields_locate (name : String) (identifier : Json) :
    Yields (fun i => ∃ x, items[i]? = some (.object x)) (locate below element name identifier items path) := by
  unfold locate
  refine yields_then fun d => ?_
  split
  · exact yields_misshapen _ _
  · refine yields_then fun read => yields_then fun s => ?_
    split
    · rename_i i hfind
      refine yields_pure ?_
      obtain ⟨hlt, hidentified, -⟩ := List.findIdx?_eq_some_iff_getElem.mp hfind
      cases hv : items[i] with
      | object x => exact ⟨x, (List.getElem?_eq_getElem hlt).trans (congrArg some hv)⟩
      | _ =>
          rw [hv] at hidentified
          exact absurd hidentified Bool.false_ne_true
    · exact yields_misshapen _ _

/-- What is marked is an object, to be patched or taken out. -/
def Marks (items : List Value) (mark : Option (NodeOperation × Nat)) : Prop :=
  ∀ operation i, mark = some (operation, i) →
    (operation = .patch ∨ operation = .delete) ∧ ∃ x, items[i]? = some (.object x)

theorem yields_markedItem {mark : Option (NodeOperation × Nat)} (hmark : Marks items mark)
    (members : List (String × Json)) :
    Yields (Marks items) (markedItem below element items path mark members) := by
  induction members generalizing mark with
  | nil => exact yields_pure hmark
  | cons member rest ih =>
      obtain ⟨key, identifier⟩ := member
      unfold markedItem
      split
      · refine yields_bind (yields_locate _ _) fun i hi => ih fun operation j hj => ?_
        cases hj
        refine ⟨?_, hi⟩
        split
        · exact .inr rfl
        · exact .inl rfl
      · exact ih hmark

/-- Only items of types with properties are marked. -/
theorem members_of_markedItem {s s₁ : ReadState} {e : Descriptor} (he : s.graph.table.get? element = some e)
    {members : List (String × Json)} {mark : NodeOperation × Nat}
    (hrun : (markedItem below element items path none members).runOn s = (.ok (some mark), s₁)) :
    e.members?.isSome = true := by
  induction members with
  | nil => cases hrun
  | cons member rest ih =>
      obtain ⟨key, identifier⟩ := member
      unfold markedItem at hrun
      split at hrun
      · -- the first identifier looks up the type before anything is read
        have hlook : (descriptor element).runOn s = (.ok e, s) :=
          congrArg (Prod.mk · s) (TypeGraph.get_eq_ok.mpr he)
        unfold locate at hrun
        rw [Action.runOn_bind, Action.runOn_bind, hlook] at hrun
        dsimp only at hrun
        cases hp : e.property? (String.ofList (key.toList.drop 2)) with
        | none =>
            rw [hp] at hrun
            cases hrun
        | some p =>
            unfold Descriptor.property? at hp
            cases hm : e.members? with
            | none =>
                rw [hm] at hp
                cases hp
            | some m => rfl
      · exact ih hrun

end Document

/-! ## Reading an item -/

namespace Renumbering

variable {R : Renumbering} {ctx : Context} {n n' : Node} {x copy owner : ObjectId} {s s' s₁ : ReadState}
  {element : TypeId} {items : List Value}

/-- The object may be patched in both heaps by a document with these members. -/
structure Patchable (R : Renumbering) (copy owner : ObjectId) (path : String) (members : Entries Json)
    (h₀ h₀' : Heap) (x : ObjectId) : Prop where
  live : Live copy R.start x
  before' : (R.rename x).index < R.start'
  ne : x ≠ owner
  record : h₀'.record (R.rename x) = (h₀.record x).rename R.rename
  inside : (h₀.record x).Over (Live copy R.start)
  named : ∃ d, R.graph.table.get? (h₀.typeOf x) = some d ∧ ∀ member ∈ members, ∀ f,
    fieldOf d path member.1 member.2 = .ok (some f) → (f.property.read h₀ x).Over R.Old

theorem Patchable.waits {path : String} {members : Entries Json} {h₀ h₀' : Heap}
    (hx : R.Patchable copy owner path members h₀ h₀' x) (h : R.Pairs s s')
    (hunmoved : R.Unmoved h₀ h₀' s.heap s'.heap) :
    R.Waits copy x (h₀.typeOf x) (fun p => (p.read h₀ x).Over R.Old) s.heap s'.heap := by
  have hrecord := hunmoved.first x hx.live.1
  refine ⟨⟨?_, ?_, fun p hp => ?_⟩, congrArg Record.type hrecord⟩
  · rw [hunmoved.second _ hx.before', hx.record, hrecord]
  · rw [hrecord]
    exact hx.inside.mono fun _ hy => hy.mono h.started
  · rw [hrecord]
    exact hp.mono fun _ hy => .inl hy

/-- The lists are the same in the end under other numbers, and so are the patches that were added. The second
list was changed unless it is literally the one before. -/
structure ItemRead (ρ : ObjectId → ObjectId) (copy owner : ObjectId) (n n' : Node) (items' : List Value) (k : Nat)
    (r r' : Node × List Value) : Prop where
  eq : r'.2 = r.2.map (Value.rename ρ)
  inside : ∀ v ∈ r.2, v.Over (Live copy k)
  staged : ∃ new, r.1.staged = n.staged ++ new ∧ r'.1.staged = n'.staged ++ new.map (Prod.map ρ ρ) ∧
    ∀ pair ∈ new, (Live copy k pair.1 ∧ pair.1 ≠ owner) ∧ Live copy k pair.2 ∧ pair.2 ≠ owner
  path : r.1.path = n.path
  owned : r.1.owner = n.owner
  changed : ∀ h : Heap, h.equal (.list items') (.list r'.2) = true → r'.2 = items'

/-- Lists of different lengths are not equal. -/
theorem length_eq_of_equal {h : Heap} {xs ys : List Value} (heq : h.equal (.list xs) (.list ys) = true) :
    xs.length = ys.length :=
  (Value.equalItems_iff.mp heq).length_eq

section

variable (hctx : ctx.UsesDefaults) (hcopy : R.Excludes copy) (howner : R.Excludes owner)
  (hpath : n'.path = n.path) (howned : n'.owner = n.owner) (hitems : ∀ v ∈ items, v.Over (Live copy R.start))
  {depth depth' : Nat} {item : Json} (hdepth : item.depth ≤ depth) (hdepth' : item.depth ≤ depth')

include hctx hcopy howner hpath howned hitems hdepth hdepth'

theorem leads_append (k : Nat) :
    Leads R.Pairs (R.Ended copy) k
      (checkItem ctx n .post >>= fun _ => readNode ctx depth (.ofSlot element n.path) item >>= fun child =>
        pure (n.absorb child, items ++ [child.result]))
      (checkItem ctx n' .post >>= fun _ => readNode ctx depth' (.ofSlot element n'.path) item >>= fun child =>
        pure (n'.absorb child, items.map (Value.rename R.rename) ++ [child.result]))
      (ItemRead R.rename copy owner n n' (items.map (Value.rename R.rename))) := by
  rw [hpath]
  refine leads_bind (follows_checkItem howned .post) fun k₁ _ _ _ _ => ?_
  refine leads_bind (follows_readNode hctx hdepth hdepth' (sameNode_ofSlot element n.path))
    fun k₂ child child' _ hchild => ?_
  intro s s' a s₁ hk h hrun
  cases hrun
  have hread := (hchild.mono hk).sameRead hcopy howner h.started
  refine ⟨_, s', rfl, Nat.le_refl _, h.ended hcopy, ?_, fun v hv => ?_, ⟨child.staged, rfl, ?_, hread.live⟩, rfl, rfl,
    fun heap hequal => ?_⟩
  · dsimp only
    rw [hread.result, List.map_append, List.map_singleton]
  · rcases List.mem_append.mp hv with hv | hv
    · exact (hitems v hv).mono fun _ hy => hy.mono h.started
    · exact List.mem_singleton.mp hv ▸ hread.inside
  · exact congrArg (n'.staged ++ ·) hread.staged
  · have hlength := length_eq_of_equal hequal
    dsimp only at hlength
    rw [List.length_append] at hlength
    exact absurd hlength (Nat.succ_ne_self _).symm

omit hctx howner hdepth hdepth' hpath in
theorem leads_remove (k i : Nat) :
    Leads R.Pairs (R.Ended copy) k
      (checkItem ctx n .delete >>= fun _ => pure (n, items.eraseIdx i))
      (checkItem ctx n' .delete >>= fun _ => pure (n', (items.map (Value.rename R.rename)).eraseIdx i))
      (ItemRead R.rename copy owner n n' (items.map (Value.rename R.rename))) := by
  refine leads_bind (follows_checkItem howned .delete) fun k₁ _ _ _ _ => ?_
  intro s s' a s₁ _ h hrun
  cases hrun
  refine ⟨_, s', rfl, Nat.le_refl _, h.ended hcopy, List.eraseIdx_map .., fun v hv => ?_, ⟨[], ?_, ?_, nofun⟩, rfl, rfl,
    fun heap hequal => ?_⟩
  · exact (hitems v (List.mem_of_mem_eraseIdx hv)).mono fun _ hy => hy.mono h.started
  · exact (List.append_nil _).symm
  · exact (List.append_nil _).symm
  · have hlength := length_eq_of_equal hequal
    by_cases hlt : i < (items.map (Value.rename R.rename)).length
    · rw [List.length_eraseIdx_of_lt hlt] at hlength
      omega
    · exact List.eraseIdx_of_length_le (Nat.not_lt.mp hlt)

theorem leads_patch {h₀ h₀' : Heap} {e : Descriptor} (he : R.graph.table.get? element = some e)
    (hmembers : e.members?.isSome = true) {members : Entries Json} (hitem : item = .object members) (k : Nat) {i : Nat}
    (hi : items[i]? = some (.object x)) (hx : R.Patchable copy owner n.path members h₀ h₀' x) :
    Leads (fun s s' => R.Pairs s s' ∧ R.Unmoved h₀ h₀' s.heap s'.heap) (R.Ended copy) k
      (checkItem ctx n .patch >>= fun _ =>
        readNode ctx depth { Node.ofSlot element n.path with operation := .patch, value := items[i]? } item >>=
          fun child => pure (n.absorb child, items.set i child.result))
      (checkItem ctx n' .patch >>= fun _ =>
        readNode ctx depth' { Node.ofSlot element n'.path with
          operation := .patch, value := (items.map (Value.rename R.rename))[i]? } item >>=
          fun child => pure (n'.absorb child, (items.map (Value.rename R.rename)).set i child.result))
      (ItemRead R.rename copy owner n n' (items.map (Value.rename R.rename))) := by
  obtain ⟨d, hd, hnamed⟩ := hx.named
  have hi' : (items.map (Value.rename R.rename))[i]? = some (.object (R.rename x)) := by
    rw [List.getElem?_map, hi]
    rfl
  have hsparing := allows_sparing (n := R.start) hctx.hasNoSideEffects
  have hsparing' := allows_sparing (n := R.start') hctx.hasNoSideEffects
  refine leads_bind ((follows_checkItem howned .patch).keeping (lasting_unmoved R h₀ h₀')
    (along_checkItem hsparing n .patch) (along_checkItem hsparing' n' .patch)) fun k₁ _ _ _ _ => ?_
  rw [hi, hi', hpath]
  -- a document with members has something below it, so both readers go on
  have hpositive : 0 < item.depth := by
    rw [hitem]
    exact Nat.succ_pos _
  obtain ⟨lower, rfl⟩ := Nat.exists_eq_succ_of_ne_zero (Nat.ne_of_gt (Nat.lt_of_lt_of_le hpositive hdepth))
  obtain ⟨lower', rfl⟩ := Nat.exists_eq_succ_of_ne_zero (Nat.ne_of_gt (Nat.lt_of_lt_of_le hpositive hdepth'))
  have hanywhere : ReadsAnywhere item.depth (readNode ctx lower) (readNode ctx lower') :=
    readsAnywhere_readNode hctx hdepth hdepth'
  have hslot : Leads (fun s s' => R.Pairs s s' ∧ R.Unmoved h₀ h₀' s.heap s'.heap) (R.Ended copy) k₁
      (readWith ctx (readNode ctx lower)
        { Node.ofSlot element n.path with operation := .patch, value := some (.object x) } item)
      (readWith ctx (readNode ctx lower')
        { Node.ofSlot element n.path with operation := .patch, value := some (.object (R.rename x)) } item)
      (SamePatch R.rename copy owner x) := by
    rw [hitem] at hanywhere ⊢
    exact (leads_readWith hctx hanywhere hcopy howner he hmembers hx.live hx.before' hx.ne hd hnamed (Nat.le_refl _)
      rfl rfl).imp (fun _ _ h => ⟨h.1, hx.waits h.1 h.2⟩) (fun _ _ h => h) fun _ _ _ _ h => h
  refine leads_bind hslot fun k₂ child child' _ hchild => ?_
  intro s s' a s₁ hk h hrun
  cases hrun
  have hlive : ∀ y, Live copy k₂ y → Live copy s.heap.records.size y := fun y hy => hy.mono hk
  refine ⟨_, s', rfl, Nat.le_refl _, h, ?_, fun v hv => ?_, ⟨child.staged, rfl, ?_, fun pair hpair => ?_⟩, rfl, rfl,
    fun heap hequal => ?_⟩
  · dsimp only
    rw [hchild.result, List.map_set]
  · rcases List.mem_or_eq_of_mem_set hv with hv | rfl
    · exact (hitems v hv).mono fun _ hy => hy.mono h.started
    · exact hchild.inside.mono hlive
  · exact congrArg (n'.staged ++ ·) hchild.staged
  · obtain ⟨hfirst, hsecond⟩ := hchild.live pair hpair
    exact ⟨⟨hlive _ hfirst.1, hfirst.2⟩, hlive _ hsecond.1, hsecond.2⟩
  · obtain ⟨hlt, hplace⟩ := List.getElem?_eq_some_iff.mp hi'
    dsimp only at hequal ⊢
    rcases hchild.stays with hstays | ⟨ref, hstays⟩
    · -- the same object stays where it was
      rw [hchild.result, hstays, Value.rename_object, ← hplace]
      exact List.set_getElem_self hlt
    · have hplaces := (List.forall₂_iff_get.mp (Value.equalItems_iff.mp hequal)).2 i hlt
        ((List.length_set ..).symm ▸ hlt)
      rw [List.get_eq_getElem, List.get_eq_getElem, hplace, List.getElem_set_self, hchild.result, hstays,
        Value.rename_reference] at hplaces
      exact absurd hplaces Bool.false_ne_true

/-- **An item of a list is read alike on renumbered objects**, if its identifiers tell the objects in the list
alike and the object that it patches, if any, may be patched in both states. -/
theorem exists_readItem (h : R.Pairs s s') {e : Descriptor} (he : R.graph.table.get? element = some e)
    (htold : ∀ member ∈ membersOf item, isIdentifierKey member.1 = true → ∀ x, .object x ∈ items →
      R.Told (String.ofList (member.1.toList.drop 2)) s.heap s'.heap x)
    (hpatched : ∀ i x s₁,
      (markedItem (readNode ctx depth) element items n.path none (membersOf item)).runOn s =
        (.ok (some (.patch, i)), s₁) → items[i]? = some (.object x) →
      R.Patchable copy owner n.path (membersOf item) s.heap s'.heap x) {r : Node × List Value}
    (hrun : (readItem ctx (readNode ctx depth) element true n items item).runOn s = (.ok r, s₁)) :
    ∃ r' s₁', (readItem ctx (readNode ctx depth') element true n' (items.map (Value.rename R.rename)) item).runOn s' =
        (.ok r', s₁') ∧ s.heap.records.size ≤ s₁.heap.records.size ∧ R.Ended copy s₁ s₁' ∧
      ItemRead R.rename copy owner n n' (items.map (Value.rename R.rename)) s₁.heap.records.size r r' := by
  have hmarked : Follows (fun t t' => R.Pairs t t' ∧ R.Unmoved s.heap s'.heap t.heap t'.heap) 0
      (markedItem (readNode ctx depth) element items n.path none (membersOf item))
      (markedItem (readNode ctx depth') element (items.map (Value.rename R.rename)) n'.path none (membersOf item))
      Same := by
    rw [hpath]
    have hanywhere : ReadsAnywhere item.depth (readNode ctx depth) (readNode ctx depth') :=
      readsAnywhere_readNode hctx (Nat.le_succ_of_le hdepth) (Nat.le_succ_of_le hdepth')
    refine follows_markedItem (fun _ _ h => h.1)
      ((hanywhere.reads R).keeping (lasting_unmoved R s.heap s'.heap) (hanywhere.spares _) (hanywhere.spares' _))
      element n.path (fun member hmember => Json.depth_lt_of_mem_membersOf hmember)
      (fun member hmember hkey => tells_of_told (htold member hmember hkey)) none
  unfold readItem at hrun ⊢
  rw [Action.runOn_bind] at hrun
  cases hfirst : (markedItem (readNode ctx depth) element items n.path none (membersOf item)).runOn s with
  | mk outcome t =>
      rw [hfirst] at hrun
      cases outcome with
      | error e => cases hrun
      | ok mark =>
          obtain ⟨mark', t', hfirst', hsize, ht, hsame⟩ :=
            hmarked s s' mark t (Nat.zero_le _) ⟨h, ⟨fun _ _ => rfl, fun _ _ => rfl⟩⟩ hfirst
          rw [Action.runOn_bind, hfirst', hsame]
          cases mark with
          | none =>
              obtain ⟨r', s₁', hrun', hsize', hended, hread⟩ := leads_append hctx hcopy howner hpath howned hitems
                hdepth hdepth' 0 t t' r s₁ (Nat.zero_le _) ht.1 hrun
              exact ⟨r', s₁', hrun', hsize.trans hsize', hended, hread⟩
          | some mark =>
              obtain ⟨operation, i⟩ := mark
              have hnone : Marks items none := fun _ _ h => nomatch h
              obtain ⟨hoperation, x, hi⟩ := yields_markedItem hnone _ s _ t hfirst operation i rfl
              rcases hoperation with rfl | rfl
              · have hmembers := members_of_markedItem (h.grown.extends.get? he) hfirst
                cases item with
                | object members =>
                    have hx := hpatched i x t hfirst hi
                    obtain ⟨r', s₁', hrun', hsize', hended, hread⟩ := leads_patch hctx hcopy howner hpath howned
                      hitems hdepth hdepth' he hmembers rfl 0 hi hx t t' r s₁ (Nat.zero_le _) ht hrun
                    exact ⟨r', s₁', hrun', hsize.trans hsize', hended, hread⟩
                | _ => cases hfirst
              · obtain ⟨r', s₁', hrun', hsize', hended, hread⟩ :=
                  leads_remove hcopy howned hitems 0 i t t' r s₁ (Nat.zero_le _) ht.1 hrun
                exact ⟨r', s₁', hrun', hsize.trans hsize', hended, hread⟩

end

end Renumbering

end ResourceQuery
