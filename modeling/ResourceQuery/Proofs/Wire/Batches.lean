import ResourceQuery.Proofs.Wire.ItemPatches
import ResourceQuery.Proofs.Wire.ListPatches
import ResourceQuery.Proofs.Wire.Rejection

set_option autoImplicit false

/-! # Items in one document or in several

A document that patches a list may have many items, or there may be one document for each of them. Items of one
document are not committed before all of them are accepted: until then the objects that they patch are as they
were, and so is the owner of the list. So what an item does is the same in both cases if it does not come across
any of these (`Document.Undisturbed`): it tells the objects of the list by values that the patches before it left
alone, and it changes neither an object that was patched before nor anything from where one is reached.

If that is so for each item, documents for the single items are accepted whenever the one for all of them is, and
in the end the list and all objects are the same (`Document.readInTurn_of_read`). The numbers of the objects that
were made differ, as each document makes a copy of the owner. The two sides are followed item by item
(`Document.Abreast`).
-/

namespace ResourceQuery

open Reading Renumbering

/-- No object of `D` is reached from the value. -/
def Heap.Avoids (h : Heap) (D : ObjectId → Prop) (v : Value) : Prop :=
  ∃ S : ObjectId → Prop, (∀ x, S x → ¬D x ∧ (h.record x).Over S) ∧ v.Over S

namespace Document

variable {ctx : Context} {below : NodeReader} {ρ : ObjectId → ObjectId} {copy owner x : ObjectId} {d : Descriptor}
  {p : Property} {σ τ σ₁ : ReadState} {n : Node} {items : List Value} {type element : TypeId} {key : String}

/-! ## Documents for the single items -/

/-- Patches the list under `key` by one document for each item. -/
def readInTurn (ctx : Context) (type : TypeId) (key : String) (owner : ObjectId) : List Json → Reading Unit
  | [] => pure ()
  | item :: rest => do
    let _ ← read ctx type (itemPatch key [item]) (some (.object owner))
    readInTurn ctx type key owner rest

/-! ## Items that are not disturbed -/

/-- The objects that will not stay as they are when the document is accepted: the owner of the list, and those
that were patched so far. -/
def Pending (owner : ObjectId) (n : Node) (x : ObjectId) : Prop :=
  x = owner ∨ x ∈ n.staged.map Prod.fst

/-- The patches so far leave alone what an identifier called `name` is compared with. -/
structure Settled (s : ReadState) (owner : ObjectId) (n : Node) (name : String) (x : ObjectId) : Prop where
  ne : x ≠ owner
  type : (Node.writeBack s.heap n.staged).typeOf x = s.heap.typeOf x
  value : ∃ d, s.graph.table.get? (s.heap.typeOf x) = some d ∧ ∀ q, d.property? name = some q →
    q.read (Node.writeBack s.heap n.staged) x = q.read s.heap x ∧
      s.heap.Avoids (Pending owner n) (q.read s.heap x)

/-- The object was not patched so far, and the properties that the members name lead to no object that was. -/
structure Untouched (s : ReadState) (owner : ObjectId) (n : Node) (members : Entries Json) (x : ObjectId) :
    Prop where
  fresh : ¬Pending owner n x
  named : ∃ d, s.graph.table.get? (s.heap.typeOf x) = some d ∧ ∀ member ∈ members, ∀ f,
    fieldOf d n.path member.1 member.2 = .ok (some f) → s.heap.Avoids (Pending owner n) (f.property.read s.heap x)

/-- An item that comes across no object that was patched before. -/
structure ItemUndisturbed (below : NodeReader) (element : TypeId) (owner : ObjectId) (n : Node)
    (items : List Value) (item : Json) (s : ReadState) : Prop where
  identified : ∀ member ∈ membersOf item, isIdentifierKey member.1 = true → ∀ x, .object x ∈ items →
    Settled s owner n (String.ofList (member.1.toList.drop 2)) x
  patched : ∀ i x s₁, (markedItem below element items n.path none (membersOf item)).runOn s =
    (.ok (some (.patch, i)), s₁) → items[i]? = some (.object x) → Untouched s owner n (membersOf item) x

/-- Items, read one after another from the state `s`, that come across no object that was patched by those
before. The list that held `before` is changed in the end, unless it is literally the same. -/
def Undisturbed (ctx : Context) (below : NodeReader) (element : TypeId) (owner : ObjectId) (before : List Value) :
    Node → List Value → List Json → ReadState → Prop
  | _, items, [], s => s.heap.equal (.list before) (.list items) = true → items = before
  | n, items, item :: rest, s => ItemUndisturbed below element owner n items item s ∧
      ∀ read s₁, (readItem ctx below element true n items item).runOn s = (.ok read, s₁) →
        Undisturbed ctx below element owner before read.1 read.2 rest s₁

/-! ### A test

Whether items come across no object that was patched before can be told by reading them, if the properties that
they are told by and those that they name hold no lists and objects. -/

/-- Both are null, the same text or the same whole number. -/
def samePlain : Value → Value → Bool
  | .null, .null => true
  | .string a, .string b => a == b
  | .int a, .int b => a == b
  | _, _ => false

theorem eq_of_samePlain {v w : Value} (h : samePlain v w = true) : v = w ∧ w.Over fun _ => False := by
  unfold samePlain at h
  split at h
  · exact ⟨rfl, .null⟩
  · exact ⟨congrArg Value.string (eq_of_beq h), .string _⟩
  · exact ⟨congrArg Value.int (eq_of_beq h), .int _⟩
  · cases h

theorem avoids_plain {h : Heap} {D : ObjectId → Prop} {v : Value} (hv : v.Over fun _ => False) : h.Avoids D v :=
  ⟨fun _ => False, fun _ => False.elim, hv⟩

/-- Whether the patches so far leave alone what an identifier called `name` is compared with. -/
def isSettled (s : ReadState) (owner : ObjectId) (n : Node) (name : String) (x : ObjectId) : Bool :=
  x != owner && (Node.writeBack s.heap n.staged).typeOf x == s.heap.typeOf x &&
    match s.graph.table.get? (s.heap.typeOf x) with
    | some d =>
        (d.property? name).all fun q => samePlain (q.read (Node.writeBack s.heap n.staged) x) (q.read s.heap x)
    | none => false

theorem settled_of_isSettled {s : ReadState} {name : String} (h : isSettled s owner n name x = true) :
    Settled s owner n name x := by
  unfold isSettled at h
  rw [Bool.and_eq_true, Bool.and_eq_true, bne_iff_ne, beq_iff_eq] at h
  obtain ⟨⟨hne, htype⟩, hvalue⟩ := h
  refine ⟨hne, htype, ?_⟩
  cases hd : s.graph.table.get? (s.heap.typeOf x) with
  | none =>
      rw [hd] at hvalue
      cases hvalue
  | some d =>
      rw [hd] at hvalue
      refine ⟨d, rfl, fun q hq => ?_⟩
      dsimp only at hvalue
      rw [hq] at hvalue
      obtain ⟨hsame, hplain⟩ := eq_of_samePlain hvalue
      exact ⟨hsame, avoids_plain hplain⟩

/-- Whether the object was not patched so far, and the properties that the members name lead nowhere. -/
def isUntouched (s : ReadState) (owner : ObjectId) (n : Node) (members : Entries Json) (x : ObjectId) : Bool :=
  x != owner && !(n.staged.map Prod.fst).contains x &&
    match s.graph.table.get? (s.heap.typeOf x) with
    | some d => members.all fun member =>
        match fieldOf d n.path member.1 member.2 with
        | .ok (some f) => samePlain (f.property.read s.heap x) (f.property.read s.heap x)
        | _ => true
    | none => false

theorem untouched_of_isUntouched {s : ReadState} {members : Entries Json}
    (h : isUntouched s owner n members x = true) : Untouched s owner n members x := by
  unfold isUntouched at h
  rw [Bool.and_eq_true, Bool.and_eq_true, bne_iff_ne, Bool.not_eq_true', List.contains_eq_mem,
    decide_eq_false_iff_not] at h
  obtain ⟨⟨hne, hfresh⟩, hnamed⟩ := h
  refine ⟨fun hpending => hpending.elim hne hfresh, ?_⟩
  cases hd : s.graph.table.get? (s.heap.typeOf x) with
  | none =>
      rw [hd] at hnamed
      cases hnamed
  | some d =>
      rw [hd] at hnamed
      refine ⟨d, rfl, fun member hmember f hf => ?_⟩
      have hplain := List.all_eq_true.mp hnamed member hmember
      rw [hf] at hplain
      exact avoids_plain (eq_of_samePlain hplain).2

/-- Whether the item comes across no object that was patched before. -/
def isItemUndisturbed (below : NodeReader) (element : TypeId) (owner : ObjectId) (n : Node) (items : List Value)
    (item : Json) (s : ReadState) : Bool :=
  ((membersOf item).all fun member => !isIdentifierKey member.1 ||
    (items.filterMap Value.asObject?).all (isSettled s owner n (String.ofList (member.1.toList.drop 2)))) &&
  match ((markedItem below element items n.path none (membersOf item)).runOn s).1 with
  | .ok (some (.patch, i)) => (items[i]?.bind Value.asObject?).all (isUntouched s owner n (membersOf item))
  | _ => true

theorem itemUndisturbed_of_isItemUndisturbed {s : ReadState} {item : Json}
    (h : isItemUndisturbed below element owner n items item s = true) :
    ItemUndisturbed below element owner n items item s := by
  unfold isItemUndisturbed at h
  rw [Bool.and_eq_true] at h
  obtain ⟨hidentified, hpatched⟩ := h
  refine ⟨fun member hmember hkey x hx => ?_, fun i x s₁ hrun hi => ?_⟩
  · have hmember := List.all_eq_true.mp hidentified member hmember
    rw [hkey, Bool.not_true, Bool.false_or] at hmember
    exact settled_of_isSettled (List.all_eq_true.mp hmember x (List.mem_filterMap.mpr ⟨_, hx, rfl⟩))
  · rw [hrun] at hpatched
    dsimp only at hpatched
    rw [hi] at hpatched
    exact untouched_of_isUntouched hpatched

/-- Whether items, read one after another, come across no object that was patched by those before. -/
def isUndisturbed (ctx : Context) (below : NodeReader) (element : TypeId) (owner : ObjectId) (before : List Value) :
    Node → List Value → List Json → ReadState → Bool
  | _, items, [], s => !s.heap.equal (.list before) (.list items)
  | n, items, item :: rest, s => isItemUndisturbed below element owner n items item s &&
      match (readItem ctx below element true n items item).runOn s with
      | (.ok read, s₁) => isUndisturbed ctx below element owner before read.1 read.2 rest s₁
      | (.error _, _) => true

theorem undisturbed_of_isUndisturbed {s : ReadState} {before : List Value} {documents : List Json}
    (h : isUndisturbed ctx below element owner before n items documents s = true) :
    Undisturbed ctx below element owner before n items documents s := by
  induction documents generalizing n items s with
  | nil =>
      intro hequal
      unfold isUndisturbed at h
      rw [hequal] at h
      cases h
  | cons item rest ih =>
      unfold isUndisturbed at h
      rw [Bool.and_eq_true] at h
      refine ⟨itemUndisturbed_of_isItemUndisturbed h.1, fun read s₁ hrun => ih ?_⟩
      have hrest := h.2
      rw [hrun] at hrest
      exact hrest

/-! ## Side by side -/

/-- In `σ` some items of one document were read, in `τ` there were documents for them. Up to the numbers, `τ` has
the objects as they are in `σ` once the patches so far are written back. Only the owner of the list differs, which
has in `τ` the list that has been read in `σ`. -/
structure Abreast (ρ : ObjectId → ObjectId) (copy owner : ObjectId) (d : Descriptor) (p : Property)
    (σ τ : ReadState) (n : Node) (items : List Value) : Prop where
  graph : τ.graph = σ.graph
  arises : σ.graph.Arises
  plain : σ.graph.registry.HasPlainDefaults
  cells : τ.heap.cells = σ.heap.cells
  copied : copy.index < σ.heap.records.size
  owned : owner.index < copy.index
  old : ∀ x : ObjectId, x.index < copy.index → ρ x = x
  there : ∀ x, Live copy σ.heap.records.size x → (ρ x).index < τ.heap.records.size
  injective : ∀ x y, Live copy σ.heap.records.size x → Live copy σ.heap.records.size y → ρ x = ρ y → x = y
  record : ∀ x, Live copy σ.heap.records.size x → x ≠ owner →
    τ.heap.record (ρ x) = ((Node.writeBack σ.heap n.staged).record x).rename ρ
  inside : ∀ x, Live copy σ.heap.records.size x → (σ.heap.record x).Over (Live copy σ.heap.records.size)
  held : ∀ v ∈ items, v.Over (Live copy σ.heap.records.size)
  staged : ∀ pair ∈ n.staged, (Live copy σ.heap.records.size pair.1 ∧ pair.1 ≠ owner) ∧
    Live copy σ.heap.records.size pair.2 ∧ pair.2 ≠ owner
  path : n.path = (listSlot d p []).path
  slot : n.owner = (listSlot d p []).owner
  type : τ.heap.typeOf owner = σ.heap.typeOf owner
  list : τ.heap.field owner (p.writesField.getD p.name) = .list (items.map (Value.rename ρ))
  rest : ∀ name, name ≠ p.writesField.getD p.name → τ.heap.field owner name = σ.heap.field owner name

namespace Abreast

variable (h : Abreast ρ copy owner d p σ τ n items)

include h

/-- Records of live objects hold live objects, also after the patches so far were written back. -/
theorem over_writeBack (hx : Live copy σ.heap.records.size x) :
    ((Node.writeBack σ.heap n.staged).record x).Over (Live copy σ.heap.records.size) :=
  Node.record_writeBack h.inside (fun pair hpair => (h.staged pair hpair).2.1) x hx

theorem live_owner : Live copy σ.heap.records.size owner :=
  ⟨h.owned.trans h.copied, fun heq => absurd h.owned (heq ▸ Nat.lt_irrefl _)⟩

omit h in
theorem not_mem_of_fresh (hx : ¬Pending owner n x) : x ∉ n.staged.map Prod.fst :=
  fun hmem => hx (.inr hmem)

/-- What the next item may look at. -/
def renumbering : Renumbering where
  rename x := if x.index < σ.heap.records.size then ρ x
    else ⟨τ.heap.records.size + 1 + (x.index - σ.heap.records.size)⟩
  Old x := Live copy σ.heap.records.size x ∧ σ.heap.Avoids (Pending owner n) (.object x)
  graph := σ.graph
  start := σ.heap.records.size
  start' := τ.heap.records.size + 1
  old x hx := by
    rw [if_pos hx.1.1]
    exact ⟨hx.1.1, Nat.lt_succ_of_lt (h.there x hx.1)⟩
  injective x y hx hy heq := by
    rw [if_pos hx.1.1, if_pos hy.1.1] at heq
    exact h.injective x y hx.1 hy.1 heq
  fresh i := by
    rw [if_neg (Nat.not_lt.mpr (Nat.le_add_right _ i))]
    exact congrArg ObjectId.mk (congrArg _ (Nat.add_sub_cancel_left _ i))

theorem rename_of_lt (hx : x.index < σ.heap.records.size) : h.renumbering.rename x = ρ x :=
  if_pos hx

theorem rename_of_made (hx : σ.heap.records.size ≤ x.index) :
    h.renumbering.rename x = ⟨τ.heap.records.size + 1 + (x.index - σ.heap.records.size)⟩ :=
  if_neg (Nat.not_lt.mpr hx)

theorem rename_congr {r : Record} (hr : r.Over (Live copy σ.heap.records.size)) :
    r.rename h.renumbering.rename = r.rename ρ :=
  hr.rename_congr fun _ hx => h.rename_of_lt hx.1

theorem excludes_copy : h.renumbering.Excludes copy :=
  ⟨h.copied, fun hold => hold.1.2 rfl⟩

theorem excludes_owner : h.renumbering.Excludes owner := by
  refine ⟨h.live_owner.1, fun hold => ?_⟩
  obtain ⟨S, hS, hover⟩ := hold.2
  exact (hS owner hover.of_object).1 (.inl rfl)

/-- Values from which no pending object is reached hold open objects. -/
theorem over_old {v : Value} (hv : v.Over (Live copy σ.heap.records.size))
    (havoids : σ.heap.Avoids (Pending owner n) v) : v.Over h.renumbering.Old := by
  obtain ⟨S, hS, hover⟩ := havoids
  exact (hv.and hover).mono fun x hx => ⟨hx.1, S, hS, .object hx.2⟩

/-- The objects are the same once the owner was copied in `τ`. -/
theorem record_start (hx : Live copy σ.heap.records.size x) (hne : x ≠ owner) :
    (itemStart τ owner).heap.record (h.renumbering.rename x) =
      ((Node.writeBack σ.heap n.staged).record x).rename h.renumbering.rename := by
  rw [h.rename_congr (h.over_writeBack hx), h.rename_of_lt hx.1]
  exact (Heap.record_alloc_of_lt (h.there x hx) _).trans (h.record x hx hne)

theorem record_start_of_fresh (hx : Live copy σ.heap.records.size x) (hfresh : ¬Pending owner n x) :
    (itemStart τ owner).heap.record (h.renumbering.rename x) =
      (σ.heap.record x).rename h.renumbering.rename := by
  rw [h.record_start hx fun heq => hfresh (.inl heq),
    Node.record_writeBack_of_not_mem (not_mem_of_fresh hfresh)]

theorem pairs : h.renumbering.Pairs σ (itemStart τ owner) := by
  have hopen : ∀ x, h.renumbering.Open σ.heap.records.size x → h.renumbering.Old x := by
    rintro x (hx | ⟨hle, hlt⟩)
    · exact hx
    · exact absurd hlt (Nat.not_lt.mpr hle)
  refine ⟨h.graph, .refl, h.arises, h.plain, h.cells, Nat.le_refl _, ?_, fun x hx => ?_, fun x hx => ?_⟩
  · have hsize : (itemStart τ owner).heap.records.size = τ.heap.records.size + 1 := size_alloc _ _
    rw [hsize]
    exact Nat.add_comm _ _
  · obtain ⟨hlive, S, hS, hover⟩ := hopen x hx
    exact h.record_start_of_fresh hlive (hS x hover.of_object).1
  · obtain ⟨hlive, S, hS, hover⟩ := hopen x hx
    intro entry hentry
    exact (h.over_old (h.inside x hlive entry hentry)
      ⟨S, hS, (hS x hover.of_object).2 entry hentry⟩).mono fun _ hy => .inl hy

/-- What is told apart in `σ` is told apart in `τ` alike. -/
theorem told {name : String} (hx : Live copy σ.heap.records.size x) (hsettled : Settled σ owner n name x) :
    h.renumbering.Told name σ.heap (itemStart τ owner).heap x := by
  obtain ⟨d, hd, hvalue⟩ := hsettled.value
  have hrecord := h.record_start hx hsettled.ne
  refine ⟨hx.1, ?_, ?_, d, hd, fun q hq => ?_⟩
  · rw [h.rename_of_lt hx.1]
    exact Nat.lt_succ_of_lt (h.there x hx)
  · exact (congrArg Record.type hrecord).trans hsettled.type
  · obtain ⟨hread, havoids⟩ := hvalue q hq
    refine ⟨?_, h.over_old ((h.inside x hx).getFrom q) havoids⟩
    unfold Property.read at hread ⊢
    rw [hrecord, Record.getFrom_rename, hread]

/-- What may be patched in `σ` may be patched in `τ` alike. -/
theorem patchable {members : Entries Json} (hx : Live copy σ.heap.records.size x)
    (huntouched : Untouched σ owner n members x) :
    h.renumbering.Patchable copy owner n.path members σ.heap (itemStart τ owner).heap x := by
  obtain ⟨d, hd, hnamed⟩ := huntouched.named
  refine ⟨hx, ?_, fun heq => huntouched.fresh (.inl heq), h.record_start_of_fresh hx huntouched.fresh, h.inside x hx,
    d, hd, fun member hmember f hf => ?_⟩
  · rw [h.rename_of_lt hx.1]
    exact Nat.lt_succ_of_lt (h.there x hx)
  · exact h.over_old ((h.inside x hx).getFrom f.property) (hnamed member hmember f hf)

theorem index_owner : owner.index < τ.heap.records.size := by
  have hthere := h.there owner h.live_owner
  rwa [h.old owner h.owned] at hthere

/-- The copy of the owner in `τ` is none of the objects that are the same. -/
theorem rename_ne_copy (hx : x ≠ copy) : h.renumbering.rename x ≠ ⟨τ.heap.records.size⟩ := by
  intro heq
  by_cases hlt : x.index < σ.heap.records.size
  · have hthere := h.there x ⟨hlt, hx⟩
    rw [h.rename_of_lt hlt] at heq
    rw [heq] at hthere
    exact absurd hthere (Nat.lt_irrefl _)
  · rw [h.rename_of_made (Nat.not_lt.mp hlt), ObjectId.mk.injEq] at heq
    omega

theorem injective_next {y : ObjectId} (hx : x ≠ copy) (hy : y ≠ copy)
    (heq : h.renumbering.rename x = h.renumbering.rename y) : x = y := by
  by_cases hltx : x.index < σ.heap.records.size
  · have htherex := h.there x ⟨hltx, hx⟩
    rw [h.rename_of_lt hltx] at heq
    by_cases hlty : y.index < σ.heap.records.size
    · rw [h.rename_of_lt hlty] at heq
      exact h.injective x y ⟨hltx, hx⟩ ⟨hlty, hy⟩ heq
    · rw [heq, h.rename_of_made (Nat.not_lt.mp hlty)] at htherex
      dsimp only at htherex
      omega
  · rw [h.rename_of_made (Nat.not_lt.mp hltx)] at heq
    by_cases hlty : y.index < σ.heap.records.size
    · have htherey := h.there y ⟨hlty, hy⟩
      rw [h.rename_of_lt hlty] at heq
      rw [← heq] at htherey
      dsimp only at htherey
      omega
    · rw [h.rename_of_made (Nat.not_lt.mp hlty), ObjectId.mk.injEq] at heq
      refine ObjectId.mk.injEq .. |>.mpr ?_
      omega

end Abreast

/-! ### The next item -/

/-- The item has been read: in `σ`, which led to `σ₁`, and in `τ` once the owner was copied, which led to `t`. -/
structure Abreast.Read (h : Abreast ρ copy owner d p σ τ n items) (σ₁ t : ReadState) (r r' : Node × List Value) :
    Prop where
  ended : h.renumbering.Ended copy σ₁ t
  item : ItemRead h.renumbering.rename copy owner n (listSlot d p (items.map (Value.rename ρ)))
    (items.map (Value.rename ρ)) σ₁.heap.records.size r r'
  change : Heap.ChangesOnly (fun x => σ.heap.records.size ≤ x.index) σ.heap σ₁.heap
  change' : Heap.ChangesOnly (fun x => τ.heap.records.size + 1 ≤ x.index) (itemStart τ owner).heap t.heap

namespace Abreast.Read

variable {h : Abreast ρ copy owner d p σ τ n items} {t : ReadState} {r r' : Node × List Value}
  (hr : h.Read σ₁ t r r')

include hr

theorem record_before (hx : x.index < σ.heap.records.size) : σ₁.heap.record x = σ.heap.record x :=
  hr.change.2 x hx (Nat.not_le.mpr hx)

theorem record_before' (hx : x.index < τ.heap.records.size + 1) :
    t.heap.record x = (itemStart τ owner).heap.record x :=
  hr.change'.2 x ((size_alloc _ _).symm ▸ hx) (Nat.not_le.mpr hx)

theorem size_lt : τ.heap.records.size < t.heap.records.size :=
  (size_alloc _ _).ge.trans hr.change'.1

/-- The copy of the owner has what the owner has. -/
theorem record_copy : t.heap.record ⟨τ.heap.records.size⟩ = τ.heap.record owner :=
  (hr.record_before' (Nat.lt_succ_self _)).trans (Heap.record_alloc_self _ _)

theorem there (hx : Live copy σ₁.heap.records.size x) :
    (h.renumbering.rename x).index < t.heap.records.size := by
  have hsize : t.heap.records.size + σ.heap.records.size = σ₁.heap.records.size + (τ.heap.records.size + 1) :=
    hr.ended.size
  have hstarted : σ.heap.records.size ≤ σ₁.heap.records.size := hr.ended.started
  by_cases hlt : x.index < σ.heap.records.size
  · have hthere := h.there x ⟨hlt, hx.2⟩
    rw [h.rename_of_lt hlt]
    omega
  · have hnew := hx.1
    rw [h.rename_of_made (Nat.not_lt.mp hlt)]
    dsimp only
    omega

theorem inside (hx : Live copy σ₁.heap.records.size x) :
    (σ₁.heap.record x).Over (Live copy σ₁.heap.records.size) := by
  by_cases hlt : x.index < σ.heap.records.size
  · rw [hr.record_before hlt]
    exact (h.inside x ⟨hlt, hx.2⟩).mono fun _ hy => hy.mono hr.change.1
  · exact (hr.ended.record x (Nat.not_lt.mp hlt) hx.1).2

/-- Before the patches of the item are written back, the objects are the same. -/
theorem record_read (hx : Live copy σ₁.heap.records.size x) (hne : x ≠ owner) :
    t.heap.record (h.renumbering.rename x) =
      ((Node.writeBack σ₁.heap n.staged).record x).rename h.renumbering.rename := by
  by_cases hlt : x.index < σ.heap.records.size
  · have hlive : Live copy σ.heap.records.size x := ⟨hlt, hx.2⟩
    have hsame := Node.record_writeBack_congr (W := Live copy σ.heap.records.size)
      (fun y hy => hr.record_before hy.1) (fun y hy => ⟨hy.1, Nat.lt_of_lt_of_le hy.1 hr.change.1⟩)
      (fun pair hpair => ⟨(h.staged pair hpair).1.1, (h.staged pair hpair).2.1⟩) x hlive
    rw [hsame, ← h.record_start hlive hne]
    refine hr.record_before' ?_
    rw [h.rename_of_lt hlt]
    exact Nat.lt_succ_of_lt (h.there x hlive)
  · have hold : x ∉ n.staged.map Prod.fst := by
      intro hmem
      obtain ⟨pair, hpair, rfl⟩ := List.mem_map.mp hmem
      exact hlt (h.staged pair hpair).1.1.1
    rw [Node.record_writeBack_of_not_mem hold]
    exact (hr.ended.record x (Nat.not_lt.mp hlt) hx.1).1

/-- The objects are the same when the document for the item has been read as well. -/
theorem record_closed (hx : Live copy σ₁.heap.records.size x) (hne : x ≠ owner) :
    (closeList p owner ⟨τ.heap.records.size⟩ (items.map (Value.rename ρ)) r' t).heap.record
        (h.renumbering.rename x) =
      ((Node.writeBack σ₁.heap r.1.staged).record x).rename h.renumbering.rename := by
  obtain ⟨new, hstaged, hstaged', hlive⟩ := hr.item.staged
  have howner : h.renumbering.rename owner = owner :=
    (h.rename_of_lt h.live_owner.1).trans (h.old owner h.owned)
  have hne' : h.renumbering.rename x ≠ owner := fun heq =>
    hne (h.injective_next hx.2 h.live_owner.2 (heq.trans howner.symm))
  rw [record_closeList_of_ne hne', hstaged, Node.writeBack_append, hstaged']
  refine Node.record_writeBack_rename (W := fun y => Live copy σ₁.heap.records.size y ∧ y ≠ owner)
    (fun y hy => ?_) (fun y z hy hz => h.injective_next hy.1.2 hz.1.2) (fun y hy => ?_)
    (fun pair hpair => hlive pair hpair) x ⟨hx, hne⟩
  · rw [record_writtenHeap_of_ne (h.rename_ne_copy hy.1.2)]
    exact hr.record_read hy.1 hy.2
  · rw [Node.size_writeBack, size_writtenHeap]
    exact ⟨hy.1.1, hr.there hy.1⟩

/-- The owner of the list becomes what its copy is. -/
theorem record_owner :
    (closeList p owner ⟨τ.heap.records.size⟩ (items.map (Value.rename ρ)) r' t).heap.record owner =
      (writtenHeap p ⟨τ.heap.records.size⟩ (items.map (Value.rename ρ)) r'.2 t.heap).record
        ⟨τ.heap.records.size⟩ := by
  obtain ⟨new, -, hstaged', hlive⟩ := hr.item.staged
  refine record_closeList_self (h.index_owner.trans hr.size_lt) fun hmem => ?_
  rw [hstaged'] at hmem
  obtain ⟨pair, hpair, heq⟩ := List.mem_map.mp hmem
  obtain ⟨original, horiginal, rfl⟩ := List.mem_map.mp hpair
  exact h.rename_ne_copy (hlive original horiginal).1.1.2 heq

/-- **An item keeps the two sides abreast.** -/
theorem abreast : Abreast h.renumbering.rename copy owner d p σ₁
    (closeList p owner ⟨τ.heap.records.size⟩ (items.map (Value.rename ρ)) r' t) r.1 r.2 := by
  obtain ⟨new, hstaged, -, hlive⟩ := hr.item.staged
  have hself := hr.record_owner
  have hcopy := hr.record_copy
  have howner := hr.record_before h.live_owner.1
  exact
    { graph := (graph_closeList ..).trans hr.ended.graph
      arises := hr.ended.arises
      plain := hr.ended.plain
      cells := (cells_closeList ..).trans hr.ended.cells
      copied := Nat.lt_of_lt_of_le h.copied hr.change.1
      owned := h.owned
      old := fun x hx => (h.rename_of_lt (hx.trans h.copied)).trans (h.old x hx)
      there := fun x hx => (size_closeList ..).symm ▸ hr.there hx
      injective := fun x y hx hy => h.injective_next hx.2 hy.2
      record := fun x hx hne => hr.record_closed hx hne
      inside := fun x hx => hr.inside hx
      held := hr.item.inside
      staged := fun pair hpair => by
        rw [hstaged] at hpair
        rcases List.mem_append.mp hpair with hpair | hpair
        · obtain ⟨hfirst, hsecond⟩ := h.staged pair hpair
          exact ⟨⟨hfirst.1.mono hr.change.1, hfirst.2⟩, hsecond.1.mono hr.change.1, hsecond.2⟩
        · exact hlive pair hpair
      path := hr.item.path.trans h.path
      slot := hr.item.owned.trans h.slot
      type := by
        have htype := (congrArg Record.type hself).trans (typeOf_writtenHeap hr.size_lt)
        exact htype.trans ((congrArg Record.type hcopy).trans (h.type.trans (congrArg Record.type howner.symm)))
      list := by
        have hbefore : t.heap.field ⟨τ.heap.records.size⟩ (p.writesField.getD p.name) =
            .list (items.map (Value.rename ρ)) := (congrArg (Record.field · _) hcopy).trans h.list
        rw [← hr.item.eq, ← field_writtenHeap hr.size_lt hbefore (hr.item.changed t.heap)]
        exact congrArg (Record.field · _) hself
      rest := fun name hname => by
        have hfield := (congrArg (Record.field · name) hself).trans (field_writtenHeap_of_ne hr.size_lt hname)
        refine hfield.trans ((congrArg (Record.field · name) hcopy).trans ((h.rest name hname).trans ?_))
        exact congrArg (Record.field · name) howner.symm }

end Abreast.Read

/-! ## Item by item -/

theorem HasList.mono {s t : ReadState} (h : HasList s type owner key d p element)
    (hgraph : s.graph.GrowsTo t.graph) (htype : t.heap.typeOf owner = s.heap.typeOf owner)
    (hsize : s.heap.records.size ≤ t.heap.records.size) : HasList t type owner key d p element where
  expected := h.expected.imp fun _ he => ⟨hgraph.extends.get? he.1, he.2⟩
  known := htype ▸ hgraph.extends.get? h.known
  field := h.field
  unreserved := h.unreserved
  direct := h.direct
  slot := h.slot.imp fun _ he => ⟨hgraph.extends.get? he.1, he.2⟩
  item := h.item.imp fun _ he => hgraph.extends.get? he
  there := Nat.lt_of_lt_of_le h.there hsize

section

variable (hctx : ctx.UsesDefaults) {depth : Nat}

include hctx

theorem changesOnly_readItem {m : Nat} (hm : m ≤ σ.heap.records.size) {item : Json} {r : Node × List Value}
    (hrun : (readItem ctx (readNode ctx depth) element true n items item).runOn σ = (.ok r, σ₁)) :
    Heap.ChangesOnly (fun x => m ≤ x.index) σ.heap σ₁.heap := by
  have hchange := along_readItem (allows_sparing hctx.hasNoSideEffects)
    (spares_readNode hctx.hasNoSideEffects depth) element true n items item σ hm
  rwa [hrun] at hchange

theorem changesOnly_readItems {m : Nat} (hm : m ≤ σ.heap.records.size) {documents : List Json}
    {r : Node × List Value}
    (hrun : (readItems ctx (readNode ctx depth) element true n items documents).runOn σ = (.ok r, σ₁)) :
    Heap.ChangesOnly (fun x => m ≤ x.index) σ.heap σ₁.heap := by
  have hchange := along_readItems (allows_sparing hctx.hasNoSideEffects)
    (spares_readNode hctx.hasNoSideEffects depth) element true n items documents σ hm
  rwa [hrun] at hchange

/-- **The document for an item is accepted** if the item is, and keeps the two sides abreast. -/
theorem Abreast.exists_read (h : Abreast ρ copy owner d p σ τ n items) (hlist : HasList τ type owner key d p element)
    {item : Json} (hitem : ItemUndisturbed (readNode ctx depth) element owner n items item σ)
    (hdepth : item.depth ≤ depth) {r : Node × List Value}
    (hrun : (readItem ctx (readNode ctx depth) element true n items item).runOn σ = (.ok r, σ₁)) :
    ∃ ρ₁ τ₁, (read ctx type (itemPatch key [item]) (some (.object owner))).runOn τ = (.ok (.object owner), τ₁) ∧
      Abreast ρ₁ copy owner d p σ₁ τ₁ r.1 r.2 ∧ HasList τ₁ type owner key d p element := by
  have hsame : items.map (Value.rename h.renumbering.rename) = items.map (Value.rename ρ) :=
    List.map_congr_left fun v hv => (h.held v hv).rename_congr fun x hx => h.rename_of_lt hx.1
  obtain ⟨e, he⟩ := hlist.item
  rw [h.graph] at he
  have hlive : ∀ x, .object x ∈ items → Live copy σ.heap.records.size x := fun x hx => (h.held _ hx).of_object
  have hdepth' : item.depth ≤ Json.depthOfItems [item] := Json.depth_le_of_mem_items List.mem_cons_self
  have hpath : (listSlot d p (items.map (Value.rename ρ))).path = n.path := h.path.symm
  have hslot : (listSlot d p (items.map (Value.rename ρ))).owner = n.owner := h.slot.symm
  obtain ⟨r', t, hrun', -, hended, hread⟩ := exists_readItem hctx h.excludes_copy h.excludes_owner
    hpath hslot h.held hdepth hdepth' h.pairs he
    (fun member hmember hkey x hx => h.told (hlive x hx) (hitem.identified member hmember hkey x hx))
    (fun i x t hmark hi => h.patchable (hlive x (List.mem_of_getElem? hi)) (hitem.patched i x t hmark hi)) hrun
  rw [hsame] at hrun' hread
  have hr : h.Read σ₁ t r r' := ⟨hended, hread, changesOnly_readItem hctx (Nat.le_refl _) hrun,
    changesOnly_readItem hctx (size_alloc _ _).ge hrun'⟩
  refine ⟨_, _, ?_, hr.abreast, hlist.mono ?_ ?_ ?_⟩
  · have harises : τ.graph.Arises := h.graph ▸ h.arises
    have hvalue : p.read τ.heap owner = .list (items.map (Value.rename ρ)) := by
      unfold Property.read Property.getFrom
      rw [hlist.direct]
      exact h.list
    have hpatch : (readPatch ctx element d p (items.map (Value.rename ρ)) [item]).runOn (itemStart τ owner) =
        (.ok r', t) := Action.runOn_bind_ok hrun'
    rw [runOn_read_itemPatch hlist harises hctx hvalue, hpatch]
  · have hgrows := along_readItem (allows_growing ctx) (along_readNode (allows_growing ctx) depth) element true n
      items item σ trivial
    rw [hrun] at hgrows
    rw [hr.abreast.graph, h.graph]
    exact hgrows
  · rw [hr.abreast.type, h.type]
    exact congrArg Record.type (hr.record_before h.live_owner.1)
  · rw [size_closeList]
    exact Nat.le_of_lt hr.size_lt

/-- **The documents for the items are accepted** if the items are, read one after another. -/
theorem Abreast.exists_readInTurn {before : List Value} {documents : List Json}
    (h : Abreast ρ copy owner d p σ τ n items) (hlist : HasList τ type owner key d p element)
    (hundisturbed : Undisturbed ctx (readNode ctx depth) element owner before n items documents σ)
    (hdepth : ∀ item ∈ documents, item.depth ≤ depth) {r : Node × List Value}
    (hrun : (readItems ctx (readNode ctx depth) element true n items documents).runOn σ = (.ok r, σ₁)) :
    ∃ ρ₁ τ₁, (readInTurn ctx type key owner documents).runOn τ = (.ok (), τ₁) ∧
      Abreast ρ₁ copy owner d p σ₁ τ₁ r.1 r.2 ∧
      (σ₁.heap.equal (.list before) (.list r.2) = true → r.2 = before) := by
  induction documents generalizing ρ σ τ n items with
  | nil =>
      cases hrun
      exact ⟨ρ, τ, rfl, h, hundisturbed⟩
  | cons item rest ih =>
      obtain ⟨hitem, hlater⟩ := hundisturbed
      unfold readItems at hrun
      rw [Action.runOn_bind] at hrun
      cases hfirst : (readItem ctx (readNode ctx depth) element true n items item).runOn σ with
      | mk outcome σ₂ =>
          rw [hfirst] at hrun
          cases outcome with
          | error e => cases hrun
          | ok first =>
              obtain ⟨ρ₂, τ₂, hread, habreast, hlist₂⟩ :=
                h.exists_read hctx hlist hitem (hdepth item List.mem_cons_self) hfirst
              obtain ⟨ρ₁, τ₁, hreads, hend⟩ := ih habreast hlist₂ (hlater first σ₂ hfirst)
                (fun later hmem => hdepth later (List.mem_cons_of_mem _ hmem)) hrun
              refine ⟨ρ₁, τ₁, ?_, hend⟩
              unfold readInTurn
              exact (Action.runOn_bind_ok hread).trans hreads

end

/-! ## In the end -/

/-- Before anything is read the two sides are abreast. -/
theorem abreast_start {s : ReadState} (harises : s.graph.Arises) (hplain : s.graph.registry.HasPlainDefaults)
    (hheap : ∀ x : ObjectId, x.index < s.heap.records.size →
      (s.heap.record x).Over fun y => y.index < s.heap.records.size)
    (hlist : HasList s type owner key d p element) (hitems : p.read s.heap owner = .list items) :
    Abreast id ⟨s.heap.records.size⟩ owner d p (itemStart s owner) s (listSlot d p items) items := by
  have hsize : (itemStart s owner).heap.records.size = s.heap.records.size + 1 := size_alloc _ _
  have hlive : ∀ x, Live ⟨s.heap.records.size⟩ (itemStart s owner).heap.records.size x ↔
      x.index < s.heap.records.size := by
    intro x
    unfold Live
    rw [hsize]
    refine ⟨fun h => ?_, fun h => ⟨Nat.lt_succ_of_lt h, ?_⟩⟩
    · exact Nat.lt_of_le_of_ne (Nat.le_of_lt_succ h.1) fun heq => h.2 (congrArg ObjectId.mk heq)
    · rintro rfl
      exact absurd h (Nat.lt_irrefl _)
  have hrecord : ∀ x : ObjectId, x.index < s.heap.records.size →
      (itemStart s owner).heap.record x = s.heap.record x := fun x hx => Heap.record_alloc_of_lt hx _
  have howner := hrecord owner hlist.there
  have hread : (Value.list items).Over fun y => y.index < s.heap.records.size :=
    hitems ▸ (hheap owner hlist.there).getFrom p
  exact
    { graph := rfl
      arises := harises
      plain := hplain
      cells := rfl
      copied := hsize ▸ Nat.lt_succ_self _
      owned := hlist.there
      old := fun _ _ => rfl
      there := fun x hx => (hlive x).mp hx
      injective := fun _ _ _ _ heq => heq
      record := fun x hx _ =>
        (hrecord x ((hlive x).mp hx)).symm.trans
          (Record.Over.rename_eq_self (S := fun _ => True)
            (fun entry hentry => (hheap x ((hlive x).mp hx) entry (hrecord x ((hlive x).mp hx) ▸ hentry)).mono
              fun _ _ => trivial) fun _ _ => rfl).symm
      inside := fun x hx => by
        rw [hrecord x ((hlive x).mp hx)]
        exact (hheap x ((hlive x).mp hx)).mono fun y hy => (hlive y).mpr hy
      held := fun v hv => (hread.of_list v hv).mono fun y hy => (hlive y).mpr hy
      staged := nofun
      path := rfl
      slot := rfl
      type := (congrArg Record.type howner).symm
      list := by
        unfold Property.read Property.getFrom at hitems
        rw [hlist.direct] at hitems
        have hsame : items.map (Value.rename id) = items :=
          (List.map_congr_left fun v hv => (hread.of_list v hv).rename_eq_self fun _ _ => rfl).trans (List.map_id' _)
        rw [hsame]
        exact hitems
      rest := fun name _ => (congrArg (Record.field · name) howner).symm }

/-- The objects of the first heap, but for `left`, are in the second one, and `left` is reached from none of them.
Those that were there before `left` have the same numbers. -/
structure SameBut (ρ : ObjectId → ObjectId) (left : ObjectId) (h h' : Heap) : Prop where
  old : ∀ x : ObjectId, x.index < left.index → ρ x = x
  injective : ∀ x y, Live left h.records.size x → Live left h.records.size y → ρ x = ρ y → x = y
  type : ∀ x, Live left h.records.size x → h'.typeOf (ρ x) = h.typeOf x
  field : ∀ x, Live left h.records.size x → ∀ name, h'.field (ρ x) name = (h.field x name).rename ρ
  closed : ∀ x, Live left h.records.size x → ∀ name, (h.field x name).Over (Live left h.records.size)

namespace Abreast

variable (h : Abreast ρ copy owner d p σ τ n items) {before : List Value}

include h

/-- Objects other than the owner are as the patches leave them. -/
theorem record_end_of_ne (hx : Live copy σ.heap.records.size x) (hne : x ≠ owner) :
    (closeList p owner copy before (n, items) σ).heap.record x = (Node.writeBack σ.heap n.staged).record x := by
  rw [record_closeList_of_ne hne]
  refine Node.record_writeBack_congr (fun y hy => record_writtenHeap_of_ne hy.2) (fun y hy => ?_)
    (fun pair hpair => ⟨(h.staged pair hpair).1.1, (h.staged pair hpair).2.1⟩) x hx
  rw [size_writtenHeap]
  exact ⟨hy.1, hy.1⟩

/-- The owner gets what its copy has. -/
theorem record_end_owner (before : List Value) : (closeList p owner copy before (n, items) σ).heap.record owner =
    (writtenHeap p copy before items σ.heap).record copy := by
  refine record_closeList_self h.live_owner.1 fun hmem => ?_
  obtain ⟨pair, hpair, heq⟩ := List.mem_map.mp hmem
  exact (h.staged pair hpair).1.1.2 heq

/-- The owner gets the list that was read, and keeps everything else. -/
theorem field_end_owner (hcopy : σ.heap.record copy = σ.heap.record owner)
    (hbefore : σ.heap.field owner (p.writesField.getD p.name) = .list before)
    (hsame : σ.heap.equal (.list before) (.list items) = true → items = before) (name : String) :
    (closeList p owner copy before (n, items) σ).heap.field owner name =
      if name = p.writesField.getD p.name then .list items else σ.heap.field owner name := by
  have hself := congrArg (Record.field · name) (h.record_end_owner before)
  refine hself.trans ?_
  by_cases hname : name = p.writesField.getD p.name
  · rw [if_pos hname, hname]
    exact field_writtenHeap h.copied ((congrArg (Record.field · _) hcopy).trans hbefore) hsame
  · rw [if_neg hname]
    exact (field_writtenHeap_of_ne h.copied hname).trans (congrArg (Record.field · name) hcopy)

/-- Once the one document is accepted, all objects are the same. -/
theorem sameBut (hcopy : σ.heap.record copy = σ.heap.record owner)
    (howner : (σ.heap.record owner).Over fun y => y.index < copy.index)
    (hbefore : σ.heap.field owner (p.writesField.getD p.name) = .list before)
    (hsame : σ.heap.equal (.list before) (.list items) = true → items = before) :
    SameBut ρ copy (closeList p owner copy before (n, items) σ).heap τ.heap := by
  have hsize : (closeList p owner copy before (n, items) σ).heap.records.size = σ.heap.records.size :=
    size_closeList ..
  have hfield := h.field_end_owner hcopy hbefore hsame
  have hold : ρ owner = owner := h.old owner h.owned
  have hlive : ∀ y : ObjectId, y.index < copy.index → Live copy σ.heap.records.size y := fun y hy =>
    ⟨hy.trans h.copied, fun heq => absurd hy (heq ▸ Nat.lt_irrefl _)⟩
  refine ⟨h.old, fun x y hx hy => h.injective x y (hsize ▸ hx) (hsize ▸ hy), fun x hx => ?_, fun x hx name => ?_,
    fun x hx name => ?_⟩
  · rw [hsize] at hx
    by_cases hne : x = owner
    · rw [hne, hold, h.type]
      have htype := (congrArg Record.type (h.record_end_owner before)).trans
        (typeOf_writtenHeap h.copied)
      exact (htype.trans (congrArg Record.type hcopy)).symm
    · exact (congrArg Record.type (h.record x hx hne)).trans (congrArg Record.type (h.record_end_of_ne hx hne)).symm
  · rw [hsize] at hx
    by_cases hne : x = owner
    · rw [hne, hold, hfield name]
      split
      · rename_i hname
        rw [hname, h.list, Value.rename_list]
      · rename_i hname
        rw [h.rest name hname]
        exact ((howner.field name).rename_eq_self fun y hy => h.old y hy).symm
    · have hrecord := (congrArg (Record.field · name) (h.record x hx hne)).trans (Record.field_rename name)
      rw [← h.record_end_of_ne hx hne] at hrecord
      exact hrecord
  · rw [hsize] at hx ⊢
    by_cases hne : x = owner
    · rw [hne, hfield name]
      split
      · exact .list h.held
      · exact (howner.field name).mono hlive
    · have hover := (h.over_writeBack hx).field name
      rw [← h.record_end_of_ne hx hne] at hover
      exact hover

end Abreast

/-- **One document for all items or one for each.** If no item of an accepted document comes across an object that
was patched before, then documents for the single items are accepted as well, and in the end all objects are the
same. -/
theorem readInTurn_of_read {s s₁ : ReadState} {documents : List Json} {v : Value} (hctx : ctx.UsesDefaults)
    (harises : s.graph.Arises) (hplain : s.graph.registry.HasPlainDefaults)
    (hheap : ∀ x : ObjectId, x.index < s.heap.records.size →
      (s.heap.record x).Over fun y => y.index < s.heap.records.size)
    (hlist : HasList s type owner key d p element) (hitems : p.read s.heap owner = .list items)
    (hundisturbed : Undisturbed ctx (readNode ctx (Json.depthOfItems documents)) element owner items
      (listSlot d p items) items documents (itemStart s owner))
    (hrun : (read ctx type (itemPatch key documents) (some (.object owner))).runOn s = (.ok v, s₁)) :
    ∃ ρ s₂, (readInTurn ctx type key owner documents).runOn s = (.ok (), s₂) ∧
      SameBut ρ ⟨s.heap.records.size⟩ s₁.heap s₂.heap := by
  rw [runOn_read_itemPatch hlist harises hctx hitems] at hrun
  unfold readPatch at hrun
  cases hread : (readItems ctx (readNode ctx (Json.depthOfItems documents)) element true (listSlot d p items) items
      documents).runOn (itemStart s owner) with
  | mk outcome σ₁ =>
      rw [hread] at hrun
      cases outcome with
      | error e => cases hrun
      | ok r =>
          cases hrun
          have hstart : (itemStart s owner).heap.records.size = s.heap.records.size + 1 := size_alloc _ _
          obtain ⟨ρ, s₂, hreads, habreast, hsame⟩ :=
            (abreast_start harises hplain hheap hlist hitems).exists_readInTurn hctx hlist hundisturbed
              (fun item hmem => Json.depth_le_of_mem_items hmem) hread
          -- the owner and its copy still have what the owner had before
          have hchange := changesOnly_readItems hctx hstart.ge hread
          have hcopy : σ₁.heap.record ⟨s.heap.records.size⟩ = s.heap.record owner :=
            (hchange.2 _ (hstart ▸ Nat.lt_succ_self _) (Nat.not_le.mpr (Nat.lt_succ_self _))).trans
              (Heap.record_alloc_self _ _)
          have howner : σ₁.heap.record owner = s.heap.record owner :=
            (hchange.2 _ (hstart ▸ Nat.lt_succ_of_lt hlist.there)
              (Nat.not_le.mpr (Nat.lt_succ_of_lt hlist.there))).trans (Heap.record_alloc_of_lt hlist.there _)
          have hbefore : s.heap.field owner (p.writesField.getD p.name) = .list items := by
            unfold Property.read Property.getFrom at hitems
            rw [hlist.direct] at hitems
            exact hitems
          exact ⟨ρ, s₂, hreads, habreast.sameBut (hcopy.trans howner.symm) (howner ▸ hheap owner hlist.there)
            ((congrArg (Record.field · _) howner).trans hbefore) hsame⟩

/-! ### Hats

Critters have a name and a hat, and may have friends. -/

/-- Critters with a name, a hat and friends. -/
def hatters : Registry :=
  Registry.empty.withType
    { SourceType.bare "Critter" .resource with
      properties :=
        [.ofType "Name" (.value .string), .ofType "Hat" (.value .string),
          .ofType "Friends" (.list (.named "Critter"))] }

/-- A critter with two friends, before anything is read. -/
def hatState : ReadState :=
  ⟨hatters.graph,
    ⟨#[⟨critterType, [("Friends", .list [.object ⟨1⟩, .object ⟨2⟩]), ("Name", .string "Cleo")]⟩,
        ⟨critterType, [("Name", .string "Ada")]⟩, ⟨critterType, [("Name", .string "Bob")]⟩], #[]⟩, []⟩

/-- The descriptor of the critters. -/
def hatter : Descriptor :=
  (hatters.graph.table.get? critterType).get (by decide +kernel)

/-- The friends of a critter. -/
def companions : Property :=
  (hatter.property? "Friends").get (by decide +kernel)

theorem hatter_known : hatters.graph.table.get? critterType = some hatter :=
  (Option.some_get _).symm

theorem companions_known : hatter.property? "Friends" = some companions :=
  (Option.some_get _).symm

theorem fieldOf_companions (json : Json) :
    fieldOf hatter "" "Friends" json = .ok (some ⟨companions, json, false, false⟩) := by
  have hordinary : ("Friends" == "_type" || "Friends" == "_uri" || isIdentifierKey "Friends") = false := by
    decide +kernel
  have hunforced : Text.after? "!" "Friends" = none := by decide +kernel
  have hunescaped : unescape "Friends" = "Friends" := by decide +kernel
  unfold fieldOf
  rw [hordinary, hunforced]
  dsimp only
  rw [hunescaped, companions_known]
  rfl

theorem companions_slot :
    ∃ e, hatters.graph.table.get? companions.type = some e ∧ e.shape = .collection critterType := by
  have hlist : (hatters.graph.table.get? companions.type).bind Descriptor.element? = some critterType := by
    decide +kernel
  obtain ⟨e, he, helement⟩ := Option.bind_eq_some_iff.mp hlist
  refine ⟨e, he, ?_⟩
  unfold Descriptor.element? at helement
  split at helement
  · rename_i hshape
    cases helement
    exact hshape
  · cases helement

theorem hasList_companions : HasList hatState critterType ⟨0⟩ "Friends" hatter companions critterType where
  expected := ⟨hatter, hatter_known, by decide +kernel⟩
  known := hatter_known
  field := fieldOf_companions
  unreserved := by decide
  direct := by decide +kernel
  slot := companions_slot
  item := ⟨hatter, hatter_known⟩
  there := by decide

/-- Ada gets a hat, Bob leaves, and Cy comes. -/
def changeOfFriends : List Json :=
  [.object [("*@Name", .string "Ada"), ("Hat", .string "bowler")], .object [("-@Name", .string "Bob")],
    .object [("Name", .string "Cy")]]

/-- The objects hold no others than those that are there. -/
theorem over_hatState (x : ObjectId) (hx : x.index < hatState.heap.records.size) :
    (hatState.heap.record x).Over fun y => y.index < hatState.heap.records.size := by
  obtain ⟨i⟩ := x
  intro entry hentry
  change i < 3 at hx
  have hcases : i = 0 ∨ i = 1 ∨ i = 2 := by omega
  rcases hcases with rfl | rfl | rfl
  · rcases List.mem_cons.mp hentry with rfl | hentry
    · refine .list fun v hv => ?_
      rcases List.mem_cons.mp hv with rfl | hv
      · exact .object (by decide)
      · rw [List.mem_singleton.mp hv]
        exact .object (by decide)
    · rw [List.mem_singleton.mp hentry]
      exact .string _
  · rw [List.mem_singleton.mp hentry]
    exact .string _
  · rw [List.mem_singleton.mp hentry]
    exact .string _

/-- One document with items for the friends of the first critter. -/
def patchAtOnce (documents : List Json) : Reading Value :=
  read .masked critterType (itemPatch "Friends" documents) (some (.object ⟨0⟩))

/-- A document for each of the items. -/
def patchInTurn (documents : List Json) : Reading Unit :=
  readInTurn .masked critterType "Friends" ⟨0⟩ documents

theorem exists_runOn_of_failure? {α : Type} {x : Reading α} {s : ReadState} (h : failure? (x.runOn s).1 = none) :
    ∃ a, x.runOn s = (.ok a, (x.runOn s).2) := by
  obtain ⟨a, ha⟩ := exists_ok_of_failure? h
  exact ⟨a, Prod.ext ha rfl⟩

/-- A friend with a hat, one less and one more: it is the same in one document and in three. -/
theorem friends_changed_inTurn :
    ∃ v s₁ ρ s₂, (patchAtOnce changeOfFriends).runOn hatState = (.ok v, s₁) ∧
      (patchInTurn changeOfFriends).runOn hatState = (.ok (), s₂) ∧ SameBut ρ ⟨3⟩ s₁.heap s₂.heap := by
  obtain ⟨v, hrun⟩ := exists_runOn_of_failure?
    (show failure? ((patchAtOnce changeOfFriends).runOn hatState).1 = none by decide +kernel)
  have hresolvable : hatters.isResolvable = true := by decide +kernel
  have harises : hatState.graph.Arises :=
    Registry.arises_graph (Registry.keyedByName_empty.withType _) hresolvable
  have hplain : hatState.graph.registry.HasPlainDefaults :=
    (Registry.registry_graph hatters).symm ▸ Registry.hasPlainDefaults_of_isNone (by decide)
  have hitems : companions.read hatState.heap ⟨0⟩ = .list [.object ⟨1⟩, .object ⟨2⟩] := by
    have hfield : companions.readsField.getD companions.name = "Friends" := by decide +kernel
    unfold Property.read Property.getFrom
    rw [hfield]
    rfl
  have hundisturbed : Undisturbed .masked (readNode .masked (Json.depthOfItems changeOfFriends)) critterType ⟨0⟩
      [.object ⟨1⟩, .object ⟨2⟩] (listSlot hatter companions [.object ⟨1⟩, .object ⟨2⟩])
      [.object ⟨1⟩, .object ⟨2⟩] changeOfFriends (itemStart hatState ⟨0⟩) :=
    undisturbed_of_isUndisturbed (by decide +kernel)
  obtain ⟨ρ, s₂, hreads, hsame⟩ :=
    readInTurn_of_read ⟨rfl, rfl⟩ harises hplain over_hatState hasList_companions hitems hundisturbed hrun
  exact ⟨v, _, ρ, s₂, hrun, hreads, hsame⟩

/-! Without the conditions it is not so. -/

/-- The friends that the first critter has. -/
def companionsIn (s : ReadState) : List ObjectId :=
  match s.heap.field ⟨0⟩ "Friends" with
  | .list items => items.filterMap Value.asObject?
  | _ => []

/-- Ada gets a hat, and then another name. -/
def twoChanges : List Json :=
  [.object [("*@Name", .string "Ada"), ("Hat", .string "bowler")],
    .object [("*@Name", .string "Ada"), ("Name", .string "Bea")]]

/-- Bob leaves, and another Bob comes. -/
def anotherBob : List Json :=
  [.object [("-@Name", .string "Bob")], .object [("Name", .string "Bob")]]

/-- **The last patch of an object is written over those before it.** In one document the hat is accepted and then
lost, in two documents it stays. And one document does not replace a friend by another one who is equal, while two
documents do. -/
theorem first_patch_lost :
    (∃ v s₁ s₂, (patchAtOnce twoChanges).runOn hatState = (.ok v, s₁) ∧
      (patchInTurn twoChanges).runOn hatState = (.ok (), s₂) ∧
      (s₁.heap.field ⟨1⟩ "Name" = .string "Bea" ∧ s₁.heap.field ⟨1⟩ "Hat" = .null) ∧
      s₂.heap.field ⟨1⟩ "Name" = .string "Bea" ∧ s₂.heap.field ⟨1⟩ "Hat" = .string "bowler") ∧
    ∃ v s₁ s₂, (patchAtOnce anotherBob).runOn hatState = (.ok v, s₁) ∧
      (patchInTurn anotherBob).runOn hatState = (.ok (), s₂) ∧
      companionsIn s₁ = [⟨1⟩, ⟨2⟩] ∧ companionsIn s₂ = [⟨1⟩, ⟨5⟩] := by
  constructor
  · obtain ⟨v, hrun⟩ := exists_runOn_of_failure?
      (show failure? ((patchAtOnce twoChanges).runOn hatState).1 = none by decide +kernel)
    obtain ⟨_, hruns⟩ := exists_runOn_of_failure?
      (show failure? ((patchInTurn twoChanges).runOn hatState).1 = none by decide +kernel)
    exact ⟨v, _, _, hrun, hruns,
      ⟨(eq_of_samePlain (by decide +kernel)).1, (eq_of_samePlain (by decide +kernel)).1⟩,
      (eq_of_samePlain (by decide +kernel)).1, (eq_of_samePlain (by decide +kernel)).1⟩
  · obtain ⟨v, hrun⟩ := exists_runOn_of_failure?
      (show failure? ((patchAtOnce anotherBob).runOn hatState).1 = none by decide +kernel)
    obtain ⟨_, hruns⟩ := exists_runOn_of_failure?
      (show failure? ((patchInTurn anotherBob).runOn hatState).1 = none by decide +kernel)
    exact ⟨v, _, _, hrun, hruns, by decide +kernel, by decide +kernel⟩

end Document

end ResourceQuery
