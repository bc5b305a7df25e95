import ResourceQuery.Proofs.Wire.Encoding
import ResourceQuery.Proofs.Wire.Instances
import Mathlib.Logic.Relation

set_option autoImplicit false

/-! # Documents read back

A value that was written with everything inline is read back as a value that equals it
(`Document.read_write`). What is written has to be what is read: objects are followed only if none of
them is met inside itself, a property that clients may not read must not have a value, and what a
document cannot show in a slot, such as a grouping or a dictionary with the key of a reference, must not
be there (`Heap.carries`, `Heap.Portable`).

The writer goes down to objects by a bound on the length of a way, so the induction is on that bound: a
writer that goes one level further is faithful if the writer below is (`Writer.isFaithful_writeVia`). A
reader goes down by the depth of the document, which says how much of it is left.
-/

namespace ResourceQuery

open Expr (exists_of_bind_eq_ok)

/-! ## Values that a document can carry -/

/-- The value mentions the object `x`. -/
inductive Value.Mentions (x : ObjectId) : Value → Prop
  | object : Mentions x (.object x)
  | item {items : List Value} {v : Value} (hv : v ∈ items) (h : Mentions x v) : Mentions x (.list items)
  | entry {entries : List (String × Value)} {entry : String × Value} (hentry : entry ∈ entries)
      (h : Mentions x entry.2) : Mentions x (.map entries)
  | key {key : Value} {items : List Value} (h : Mentions x key) : Mentions x (.group key items)
  | row {key : Value} {items : List Value} {v : Value} (hv : v ∈ items) (h : Mentions x v) :
      Mentions x (.group key items)

namespace Heap

/-- A field of the object `x` mentions the object `y`. -/
def Holds (h : Heap) (x y : ObjectId) : Prop :=
  ∃ name, (h.field x name).Mentions y

/-- Whether a value was loaded for the reference. -/
def isResolved (h : Heap) (r : LazyRef) : Bool :=
  match h.state r with
  | .resolved _ => true
  | _ => false

/-- Whether a document can show the value in a slot of the type `d`, as far as it is not about other
values. -/
def carries (h : Heap) (d : Descriptor) (v : Value) : Bool :=
  match v with
  | .null => d.nullable
  | .float x => x.isFinite
  | .dateTime t => t.isProper
  | .enum _ => !d.isAny
  | .map entries => decide (Entries.Sorted entries) && (Entries.get? "_ref" entries).isNone &&
      (!d.isAny || (Entries.get? "_type" entries).isNone)
  | .group .. => false
  | .reference r => !h.isResolved r && r.target = d.id
  | _ => true

/-- What the slots of the heap ask of values. -/
abbrev Carries (h : Heap) (d : Descriptor) (v : Value) : Prop :=
  h.carries d v = true

/-- The objects that `isObject` speaks of can be written: what has a value is a property that clients may
read, what a constructor takes is there unless it may be null, and no object is met inside itself. -/
structure Presentable (h : Heap) (g : TypeGraph) (isObject : ObjectId → TypeId → Prop) : Prop
    extends h.Populates g h.Carries isObject where
  inHeap : ∀ x concrete, isObject x concrete → x.index < h.records.size
  sorted : ∀ x concrete, isObject x concrete → Entries.Sorted (h.record x).fields
  readable : ∀ x concrete d name, isObject x concrete → g.table.get? concrete = some d →
    h.field x name ≠ .null → ∃ p ∈ d.properties, p.name = name ∧ p.isReadable = true
  constructible : ∀ x concrete d m, isObject x concrete → g.table.get? concrete = some d →
    d.members? = some m → ∀ c ∈ m.constructor, ∀ p ∈ d.properties, p.name = c.property →
      h.field x p.name = .null → ∃ e, g.table.get? p.type = some e ∧ e.nullable = true
  acyclic : ∀ x concrete, isObject x concrete → ¬ Relation.TransGen h.Holds x x

/-- The objects can be written and made anew: what a constructor takes and a document does not tell, as
clients may not read it, is null where the document says nothing. -/
structure Portable (h : Heap) (g : TypeGraph) (isObject : ObjectId → TypeId → Prop) : Prop
    extends h.Presentable g isObject where
  restorable : ∀ x concrete d m, isObject x concrete → g.table.get? concrete = some d →
    d.members? = some m → ∀ c ∈ m.constructor, ∀ p ∈ d.properties, p.name = c.property →
      h.field x p.name = .null → p.isReadable = true ∨ p.default = some .null

section

variable {h : Heap} {x y : ObjectId}

/-- What stands in a field is in the record. -/
theorem exists_of_field_ne_null {name : String} (hvalue : h.field x name ≠ .null) :
    ∃ v, Entries.get? name (h.record x).fields = some v ∧ h.field x name = v := by
  unfold field at hvalue ⊢
  cases hget : Entries.get? name (h.record x).fields with
  | none =>
      rw [hget] at hvalue
      exact absurd rfl hvalue
  | some v => exact ⟨v, rfl, rfl⟩

theorem exists_entry_of_holds (hholds : h.Holds x y) :
    ∃ entry ∈ (h.record x).fields, entry.2.Mentions y := by
  obtain ⟨name, hmentions⟩ := hholds
  have hvalue : h.field x name ≠ .null := by
    intro hnull
    rw [hnull] at hmentions
    cases hmentions
  obtain ⟨v, hget, hfield⟩ := exists_of_field_ne_null hvalue
  rw [hfield] at hmentions
  exact ⟨(name, v), Entries.mem_of_get? hget, hmentions⟩

/-- Where objects hold earlier ones only, none is met inside itself. -/
theorem not_transGen_of_earlier (hearlier : ∀ x y, h.Holds x y → y.index < x.index) (x : ObjectId) :
    ¬ Relation.TransGen h.Holds x x := by
  have hlt : ∀ y, Relation.TransGen h.Holds x y → y.index < x.index := by
    intro y hy
    induction hy with
    | single hxy => exact hearlier _ _ hxy
    | tail _ hyz ih => exact (hearlier _ _ hyz).trans ih
  exact fun hcycle => Nat.lt_irrefl _ (hlt x hcycle)

end

end Heap

namespace Document

open Reading Action

variable {g : TypeGraph} {h : Heap} {s : ReadState} {type : TypeId} {d : Descriptor} {json : Json}
  {v : Value}

/-! ## Reading to the end of a document -/

/-- Wherever it stands, the document shows the value to a reader that goes deep enough. -/
structure ReadsBack (g : TypeGraph) (h : Heap) (type : TypeId) (json : Json) (v : Value) : Prop where
  unmarked : IsUnmarked json
  shows : ∀ depth, json.depth ≤ depth → Shows g h (readNode .unchecked depth) type json v

theorem isUnmarked_of_not_object (hjson : ∀ members, json ≠ .object members) : IsUnmarked json := by
  cases json with
  | object members => exact absurd rfl (hjson members)
  | _ => exact fun _ h => absurd h List.not_mem_nil

/-- A document that is read without going down. -/
theorem readsBack_of_flat (hunmarked : IsUnmarked json)
    (hshows : ∀ below, Shows g h (readWith .unchecked below) type json v) :
    ReadsBack g h type json v := by
  refine ⟨hunmarked, fun depth _ => ?_⟩
  cases depth with
  | zero => exact hshows _
  | succ depth => exact hshows _

/-- A document that is read by going down one level. -/
theorem readsBack_of_deep {inner : Nat} (hunmarked : IsUnmarked json) (hdepth : json.depth = inner + 1)
    (hshows : ∀ depth, inner ≤ depth →
      Shows g h (readWith .unchecked (readNode .unchecked depth)) type json v) :
    ReadsBack g h type json v := by
  refine ⟨hunmarked, fun depth hdeep => ?_⟩
  rw [hdepth] at hdeep
  cases depth with
  | zero => exact absurd hdeep (Nat.not_succ_le_zero inner)
  | succ depth => exact hshows depth (Nat.le_of_succ_le_succ hdeep)

theorem showAll_of_readsBack {element : TypeId} {vs : List Value} {documents : List Json} {depth : Nat}
    (hitems : List.Forall₂ (fun v json => ReadsBack g h element json v) vs documents)
    (hdepth : Json.depthOfItems documents ≤ depth) :
    ShowAll g h (readNode .unchecked depth) element vs documents := by
  induction hitems with
  | nil => exact .nil
  | cons hfirst _ ih =>
      unfold Json.depthOfItems at hdepth
      exact .cons (hfirst.shows depth (le_trans (Nat.le_max_left _ _) hdepth))
        (ih (le_trans (Nat.le_max_right _ _) hdepth))

theorem unmarked_of_readsBack {element : TypeId} {vs : List Value} {documents : List Json}
    (hitems : List.Forall₂ (fun v json => ReadsBack g h element json v) vs documents) :
    ∀ item ∈ documents, IsUnmarked item := by
  induction hitems with
  | nil => exact nofun
  | cons hfirst _ ih =>
      intro item hitem
      rcases List.mem_cons.mp hitem with hself | hlater
      · rw [hself]
        exact hfirst.unmarked
      · exact ih item hlater

/-! ## Scalars -/

/-- A scalar that a document can show equals itself. -/
theorem equalBy_scalar (hscalar : d.hasScalar v = true) (hcarries : h.Carries d v)
    (same : ObjectId → ObjectId → Bool) : Value.equalBy same v v = true := by
  unfold Value.equalBy
  cases v with
  | bool b => exact beq_self_eq_true _
  | int n => exact beq_self_eq_true _
  | float x => exact Float.beq_self_of_isFinite hcarries
  | string text => exact beq_self_eq_true _
  | enum member => exact beq_self_eq_true _
  | dateTime t => exact beq_self_eq_true _
  | _ =>
      unfold Descriptor.hasScalar at hscalar
      split at hscalar <;> contradiction

theorem readsBack_ofKind {kind : ValueKind} (hd : g.table.get? type = some d)
    (hshape : d.shape = .value kind) (hkind : kind ≠ .any) (hobject : ∀ members, json ≠ .object members)
    (hnull : json.isNull = false) (hread : ∀ path, scalarOfKind kind json path = .ok v)
    (hself : ∀ same, Value.equalBy same v v = true) : ReadsBack g h type json v :=
  readsBack_of_flat (isUnmarked_of_not_object hobject) fun _ =>
    shows_ofKind hd hshape hkind hnull hobject hread hself

/-- What a reader of an untyped slot makes of a document that is a scalar. -/
theorem shows_plain (hd : g.table.get? type = some d) (hany : d.isAny = true)
    (hnull : json.isNull = false) (hself : ∀ same, Value.equalBy same v v = true)
    (hread : ∀ below n, readUntyped .unchecked below n json = setValue n v) (below : NodeReader) :
    Shows g h (readWith .unchecked below) type json v := by
  refine shows_untyped hd hany hnull fun n s hn hgraph => ?_
  rw [hread]
  exact hn.setSelf hgraph hself

section

variable {w : Writer} {below : Writer.SlotWriter} {slot : WriteSlot}

/-- **A scalar is read back**, in a slot of its kind as one of that kind, and in an untyped slot by the
shape of the document. -/
theorem readsBack_scalar (hg : w.graph.Arises) (hnames : w.graph.NamesDiffer)
    (hd : w.graph.table.get? slot.expected = some d) (hscalar : d.hasScalar v = true)
    (hcarries : h.Carries d v) (hwrite : w.writeVia below slot v = .ok json) :
    ReadsBack w.graph h slot.expected json v := by
  have hget := TypeGraph.get_eq_ok.mpr hd
  have hself := equalBy_scalar hscalar hcarries
  unfold Descriptor.hasScalar at hscalar
  -- the cases are the lines of the table of scalars: first the slots of a kind, then the untyped one
  split at hscalar
  case h_1 b hshape =>
    rw [Writer.writeVia, hget] at hwrite
    cases hwrite
    exact readsBack_ofKind hd hshape (by simp) (by simp) rfl (fun _ => rfl) hself
  case h_2 n hshape =>
    rw [Writer.writeVia, hget] at hwrite
    cases hwrite
    have hread : ∀ path, scalarOfKind .int32 (.ofInt n.toInt) path = .ok (.int n) := fun path => by
      simp only [scalarOfKind, Json.ofInt, Json.asInt64?, Parser.int64?_toInt, hscalar, if_true]
    exact readsBack_ofKind hd hshape (by simp) (by simp [Json.ofInt]) rfl hread hself
  case h_3 n hshape =>
    rw [Writer.writeVia, hget] at hwrite
    cases hwrite
    have hread : ∀ path, scalarOfKind .int64 (.ofInt n.toInt) path = .ok (.int n) := fun path => by
      simp only [scalarOfKind, Json.ofInt, Json.asInt64?, Parser.int64?_toInt]
    exact readsBack_ofKind hd hshape (by simp) (by simp [Json.ofInt]) rfl hread hself
  case h_4 x hshape =>
    have hjson : Writer.floatJson x = .number (.float x) := if_pos hcarries
    rw [Writer.writeVia, hget, hjson] at hwrite
    cases hwrite
    exact readsBack_ofKind hd hshape (by simp) (by simp) rfl (fun _ => rfl) hself
  case h_5 text hshape =>
    rw [Writer.writeVia, hget] at hwrite
    cases hwrite
    exact readsBack_ofKind hd hshape (by simp) (by simp) rfl (fun _ => rfl) hself
  case h_6 t hshape =>
    have hany : d.isAny = false := by
      unfold Descriptor.isAny
      rw [hshape]
    have hread : ∀ path, scalarOfKind .dateTime (.string t.format) path = .ok (.dateTime t) :=
      fun path => by simp only [scalarOfKind, Json.asString?, Timestamp.parse?_format hcarries]
    rw [Writer.writeVia, hget] at hwrite
    have hjson : (if d.isAny then Writer.boxed .dateTime (.string t.format) else .string t.format) = json :=
      Except.ok.inj hwrite
    rw [hany] at hjson
    cases hjson
    exact readsBack_ofKind hd hshape (by simp) (by simp) rfl hread hself
  case h_7 members member hshape =>
    rw [Writer.writeVia, hget] at hwrite
    cases hwrite
    exact readsBack_of_flat (isUnmarked_of_not_object (by simp)) fun _ =>
      shows_enum hd hshape (List.contains_iff_mem.mp hscalar) (hnames.members d (TypeGraph.mem_types hd))
  case h_8 b hshape =>
    rw [Writer.writeVia, hget] at hwrite
    cases hwrite
    exact readsBack_of_flat (isUnmarked_of_not_object (by simp))
      (shows_plain hd (Descriptor.isAny_of_shape hshape) rfl hself fun _ _ => rfl)
  case h_9 n hshape =>
    rw [Writer.writeVia, hget] at hwrite
    cases hwrite
    have hnumber : untypedNumber (.ofInt n.toInt) = .int n := by
      simp only [untypedNumber, Json.ofInt, Json.asInt64?, Parser.int64?_toInt]
    refine readsBack_of_flat (isUnmarked_of_not_object (by simp [Json.ofInt]))
      (shows_plain hd (Descriptor.isAny_of_shape hshape) rfl hself fun _ n => ?_)
    exact congrArg (setValue n) hnumber
  case h_10 x hshape =>
    have hjson : Writer.floatJson x = .number (.float x) := if_pos hcarries
    rw [Writer.writeVia, hget, hjson] at hwrite
    cases hwrite
    exact readsBack_of_flat (isUnmarked_of_not_object (by simp))
      (shows_plain hd (Descriptor.isAny_of_shape hshape) rfl hself fun _ _ => rfl)
  case h_11 text hshape =>
    rw [Writer.writeVia, hget] at hwrite
    cases hwrite
    exact readsBack_of_flat (isUnmarked_of_not_object (by simp))
      (shows_plain hd (Descriptor.isAny_of_shape hshape) rfl hself fun _ _ => rfl)
  case h_12 t hshape =>
    have hany := Descriptor.isAny_of_shape hshape
    rw [Writer.writeVia, hget] at hwrite
    have hjson : (if d.isAny then Writer.boxed .dateTime (.string t.format) else .string t.format) = json :=
      Except.ok.inj hwrite
    rw [hany] at hjson
    cases hjson
    have hunmarked : IsUnmarked (Writer.boxed .dateTime (.string t.format)) := by
      have hkeys : isIdentifierKey "_type" = false ∧ isIdentifierKey "value" = false := by decide
      intro member hmember
      rcases Entries.mem_insert hmember with hvalue | htype
      · rw [hvalue]
        exact hkeys.2
      · rw [List.mem_singleton.mp htype]
        exact hkeys.1
    exact readsBack_of_flat hunmarked fun _ => shows_boxed hg hnames hd hany hcarries
  case h_13 member hshape =>
    have hany : (!d.isAny) = true := hcarries
    rw [Descriptor.isAny_of_shape hshape] at hany
    cases hany
  case h_14 => cases hscalar

/-! ## References -/

theorem readsBack_reference {r : LazyRef} (hd : w.graph.table.get? slot.expected = some d)
    (hself : d.id = slot.expected) (hslot : d.isScalar = false)
    (hcarries : w.heap.Carries d (.reference r)) (hwrite : w.writeReference below slot r = .ok json) :
    ReadsBack w.graph h slot.expected json (.reference r) := by
  unfold Heap.Carries Heap.carries at hcarries
  rw [Bool.and_eq_true, decide_eq_true_eq] at hcarries
  obtain ⟨hunresolved, htarget⟩ := hcarries
  have hjson : Writer.reference r.uri = json := by
    unfold Heap.isResolved at hunresolved
    unfold Writer.writeReference at hwrite
    cases hstate : w.heap.state r with
    | resolved target =>
        rw [hstate] at hunresolved
        cases hunresolved
    | _ =>
        rw [hstate] at hwrite
        exact Except.ok.inj hwrite
  rw [← hjson]
  have hunmarked : IsUnmarked (Writer.reference r.uri) := by
    have hkey : isIdentifierKey "_ref" = false := by decide
    intro member hmember
    rw [List.mem_singleton.mp hmember]
    exact hkey
  exact readsBack_of_flat hunmarked fun _ => shows_reference hd hslot (htarget.trans hself)

/-! ## Lists -/

theorem itemType_eq {element : TypeId} (hslot : d.itemSlot? = some element) :
    Writer.itemType d = element := by
  unfold Descriptor.itemSlot? at hslot
  unfold Writer.itemType Descriptor.element?
  split at hslot
  · rename_i hshape
    rw [hshape]
    exact Option.some.inj hslot
  · rename_i hshape
    rw [hshape]
    exact Option.some.inj hslot
  · cases hslot

theorem readsBack_list (hg : w.graph.Arises) {element : TypeId} {vs : List Value}
    (hd : w.graph.table.get? slot.expected = some d) (hslot : d.itemSlot? = some element)
    (hitems : ∀ v ∈ vs, ∀ json, w.writeVia below { slot with expected := element } v = .ok json →
      ReadsBack w.graph h element json v) (hwrite : w.writeVia below slot (.list vs) = .ok json) :
    ReadsBack w.graph h slot.expected json (.list vs) := by
  rw [Writer.writeVia, TypeGraph.get_eq_ok.mpr hd] at hwrite
  obtain ⟨_, hself, hwrite⟩ := exists_of_bind_eq_ok hwrite
  cases hself
  obtain ⟨documents, hdocuments, hjson⟩ := exists_of_bind_eq_ok hwrite
  rw [itemType_eq hslot] at hdocuments
  rw [← Except.ok.inj hjson]
  have hall : List.Forall₂ (fun v json => ReadsBack w.graph h element json v) vs documents :=
    ((List.forall₂_and_left _ _).mpr ⟨hitems, Writer.forall₂_of_writeItems hdocuments⟩).imp
      fun v json ⟨hread, hjson⟩ => hread json hjson
  refine readsBack_of_deep nofun (by unfold Json.depth; rfl) fun depth hdepth => ?_
  have hshow := showAll_of_readsBack hall hdepth
  unfold Descriptor.itemSlot? at hslot
  split at hslot
  · rename_i hshape
    cases hslot
    exact shows_list hd hshape hshow (unmarked_of_readsBack hall)
  · rename_i hshape
    have hany := Descriptor.isAny_of_shape hshape
    rw [← Option.some.inj hslot, ← hg.eq_untyped hd hany] at hshow
    exact shows_untypedList hd hany hshow
  · cases hslot

/-! ## Dictionaries -/

theorem entryType_eq {value : TypeId} (hslot : d.entrySlot? = some value) :
    Writer.entryType d = value := by
  unfold Descriptor.entrySlot? at hslot
  unfold Writer.entryType
  split at hslot
  · rename_i hshape
    rw [hshape]
    exact Option.some.inj hslot
  · rename_i hshape
    rw [hshape]
    exact Option.some.inj hslot
  · cases hslot

/-- A name that needs no escape is among the members only if it is among the keys. -/
theorem get?_eq_none_of_entered {entries : Entries Value} {members : Entries Json} {name : String}
    (hentered : Writer.Entered w below slot entries [] members) (hsorted : entries.Sorted)
    (hname : unescape name = name) (hnone : Entries.get? name entries = none) :
    Entries.get? name members = none := by
  cases hthere : Entries.get? name members with
  | none => rfl
  | some json =>
      obtain ⟨entry, hentry, hkey, _⟩ := (hentered.source _ (Entries.mem_of_get? hthere)).resolve_left nofun
      have hkey : name = Writer.escape entry.1 := hkey
      have hsome := hsorted.get?_of_mem hentry
      rw [← unescape_escape entry.1, ← hkey, hname, hnone] at hsome
      cases hsome

theorem readsBack_map (hg : w.graph.Arises) {value : TypeId} {entries : Entries Value}
    (hd : w.graph.table.get? slot.expected = some d) (hslot : d.entrySlot? = some value)
    (hcarries : h.Carries d (.map entries))
    (hentries : ∀ entry ∈ entries, ∀ path json, w.writeVia below
      ⟨value, path, false, slot.around⟩ entry.2 = .ok json → ReadsBack w.graph h value json entry.2)
    (hwrite : w.writeVia below slot (.map entries) = .ok json) :
    ReadsBack w.graph h slot.expected json (.map entries) := by
  rw [Writer.writeVia, TypeGraph.get_eq_ok.mpr hd] at hwrite
  obtain ⟨_, hself, hwrite⟩ := exists_of_bind_eq_ok hwrite
  cases hself
  obtain ⟨members, hmembers, hjson⟩ := exists_of_bind_eq_ok hwrite
  rw [entryType_eq hslot] at hmembers
  rw [← Except.ok.inj hjson]
  have hentered := Writer.entered_of_writeEntries hmembers
  unfold Heap.Carries Heap.carries at hcarries
  rw [Bool.and_eq_true, Bool.and_eq_true, decide_eq_true_eq] at hcarries
  obtain ⟨⟨hsorted, href⟩, htag⟩ := hcarries
  have href := get?_eq_none_of_entered hentered hsorted rfl (Option.isNone_iff_eq_none.mp href)
  have hunmarked : IsUnmarked (.object members) := by
    intro member hmember
    obtain ⟨entry, _, hkey, _⟩ := (hentered.source member hmember).resolve_left nofun
    rw [hkey]
    exact (isUnmarkedKey_escape entry.1).isIdentifierKey
  refine readsBack_of_deep hunmarked (by unfold Json.depth; rfl) fun depth hdepth => ?_
  have hshow : ShowEntries w.graph h (readNode .unchecked depth) value entries members := by
    refine ⟨fun member hmember => ?_, hentered.written⟩
    obtain ⟨entry, hentry, hkey, hjson⟩ := (hentered.source member hmember).resolve_left nofun
    exact ⟨entry.1, entry.2, hkey, hentry, (hentries entry hentry _ _ hjson).shows depth
      ((Json.depth_le_of_mem_members hmember).trans hdepth)⟩
  unfold Descriptor.entrySlot? at hslot
  split at hslot
  · rename_i hshape
    cases hslot
    exact shows_dictionary hd hshape hsorted href hshow
  · rename_i hshape
    have hany := Descriptor.isAny_of_shape hshape
    rw [hany, Bool.not_true, Bool.false_or] at htag
    have htag := get?_eq_none_of_entered hentered hsorted rfl (Option.isNone_iff_eq_none.mp htag)
    rw [← Option.some.inj hslot, ← hg.eq_untyped hd hany] at hshow
    exact shows_untypedDictionary hd hany hsorted href htag hshow
  · cases hslot

end

end Document

/-! ## Objects -/

/-- What a writer works on, if what it writes is to be read back: names that lead to what they name,
fields that hold the properties themselves, and objects that can be made anew. -/
structure Writer.Complete (w : Writer) (isObject : ObjectId → TypeId → Prop) : Prop where
  arises : w.graph.Arises
  names : w.graph.NamesDiffer
  noGetters : w.graph.HasNoGetters
  noSetters : w.graph.HasNoSetters
  portable : w.heap.Portable w.graph isObject
  all : w.expansion = .all

/-- No object around the place is met in the value. -/
def WriteSlot.IsClear (slot : WriteSlot) (h : Heap) (v : Value) : Prop :=
  ∀ x ∈ slot.around, ∀ y, v.Mentions y → Relation.TransGen h.Holds x y

/-- What is written by `write` is read back. -/
def Writer.IsFaithful (w : Writer) (isObject : ObjectId → TypeId → Prop) (write : Writer.SlotWriter) :
    Prop :=
  ∀ slot v json, write slot v = .ok json →
    v.Conforms w.graph w.heap.Carries isObject slot.expected → slot.IsClear w.heap v →
      Document.ReadsBack w.graph w.heap slot.expected json v

namespace Document

open Reading Action

section

variable {w : Writer} {below : Writer.SlotWriter} {slot : WriteSlot}
  {isObject : ObjectId → TypeId → Prop} {x : ObjectId} {concrete : TypeId}

theorem isPlain_of_complete (hw : w.Complete isObject) {d : Descriptor}
    (hd : w.graph.table.get? concrete = some d) : IsPlain d where
  reads := hw.noGetters d (TypeGraph.mem_types hd)
  writes := hw.noSetters d (TypeGraph.mem_types hd)
  distinct := hw.arises.sound.distinct _ _ hd

/-- The members of an object are those that tell it. -/
theorem told_of_put (hw : w.Complete isObject) (hbelow : w.IsFaithful isObject below)
    (hobject : isObject x concrete) {d : Descriptor} {m : Members}
    (hd : w.graph.table.get? concrete = some d) (hm : d.members? = some m)
    (hconcrete : m.isAbstract = false) (hclear : slot.IsClear w.heap (.object x))
    {tags members : Entries Json} (htags : Writer.Tagged w slot d x tags)
    (hput : Writer.Put w below { slot with around := x :: slot.around } (w.heap.record x) d.properties
      tags members) {depth : Nat} (hdepth : Json.depthOfMembers members ≤ depth) :
    Told w.graph w.heap (readNode .unchecked depth) slot.expected d m x members := by
  have hplain := isPlain_of_complete hw hd
  have hletters := hw.names.properties d (TypeGraph.mem_types hd)
  have hself := hw.arises.sound.id _ _ hd
  have htype := hw.portable.type x concrete hobject
  -- a property with a value is one that clients may read, and it has a member
  have hcovered : ∀ name, (w.heap.record x).field name ≠ .null →
      ∃ p ∈ d.properties, p.name = name ∧ (Entries.get? p.jsonName members).isSome = true := by
    intro name hvalue
    obtain ⟨p, hp, hname, hreadable⟩ := hw.portable.readable x concrete d name hobject hd hvalue
    refine ⟨p, hp, hname, hput.written p hp hreadable fun hnull => ?_⟩
    rw [hplain.getFrom hp, hname] at hnull
    exact absurd hnull hvalue
  refine ⟨hw.portable.inHeap x concrete hobject, htype.trans hself.symm,
    hw.portable.sorted x concrete hobject, hplain, hletters, hconcrete,
    ⟨hput.sorted htags.sorted, ?_, ?_, fun member hmember => ?_, hcovered⟩, fun c hc => ?_⟩
  · rw [hput.other "_type" fun p hp => jsonName_ne (hletters p hp) rfl]
    exact htags.type
  · rw [hput.other "_uri" fun p hp => jsonName_ne (hletters p hp) rfl]
    refine htags.uri.imp_right fun ⟨huri, relative, hrelative⟩ => ⟨huri, ?_⟩
    -- beside the address there is the primary id
    obtain ⟨p, hp, hvalue⟩ := TypeGraph.exists_primaryId_of_uriOf (by rw [htype]; exact hd) hrelative
    unfold Property.read at hvalue
    rw [hplain.getFrom hp] at hvalue
    obtain ⟨q, hq, hname, hthere⟩ := hcovered p.name hvalue
    obtain ⟨json, hjson⟩ := Option.isSome_iff_exists.mp hthere
    refine List.all_eq_false.mpr ⟨_, Entries.mem_of_get? hjson, ?_⟩
    have huriKey : q.jsonName ≠ "_uri" := jsonName_ne (hletters q hq) rfl
    have htypeKey : q.jsonName ≠ "_type" := jsonName_ne (hletters q hq) rfl
    simp [huriKey, htypeKey]
  · rcases hput.source member hmember with htag | ⟨p, hp, hname, htells, hjson⟩
    · exact (htags.keys member htag).imp_right Or.inl
    · rw [hplain.getFrom hp] at hjson
      refine Or.inr (Or.inr ⟨p, hp, hname, (hbelow _ _ _ hjson ?_ ?_).shows depth
        ((Json.depth_le_of_mem_members hmember).trans hdepth)⟩)
      · rcases hw.portable.property x concrete d p hobject hd hp with hnull | hconforms
        · have hnull : (w.heap.record x).field p.name = .null := hnull
          unfold Writer.Tells at htells
          rw [hplain.getFrom hp] at htells
          obtain ⟨e, he, hnullable⟩ := htells hnull
          rw [hnull]
          exact .null he hnullable
        · exact hconforms
      · intro around haround y hy
        have hholds : w.heap.Holds x y := ⟨p.name, hy⟩
        rcases List.mem_cons.mp haround with hsame | houter
        · rw [hsame]
          exact .single hholds
        · exact (hclear around houter x .object).tail hholds
  · obtain ⟨p, hp, hname, hdefault⟩ := hw.arises.sound.parameters _ d m hd hm c hc
    have hp : p ∈ d.properties := by
      unfold Descriptor.properties
      rw [hm]
      exact hp
    refine ⟨p, Descriptor.property?_of_mem hplain.distinct hp ?_, ?_⟩
    · rw [← hname]
      exact Text.sameIgnoringCase_refl _
    · by_cases hvalue : (w.heap.record x).field p.name = .null
      · have hnullable := hw.portable.constructible x concrete d m hobject hd hm c hc p hp hname hvalue
        rcases hw.portable.restorable x concrete d m hobject hd hm c hc p hp hname hvalue with
          hreadable | hnull
        · exact Or.inl (hput.written p hp hreadable fun _ => hnullable)
        · exact Or.inr ⟨hdefault ▸ hnull, hvalue⟩
      · obtain ⟨q, hq, hsame, hthere⟩ := hcovered p.name hvalue
        rw [hplain.eq_of_name hq hp hsame] at hthere
        exact Or.inl hthere

theorem readsBack_object (hw : w.Complete isObject) (hbelow : w.IsFaithful isObject below)
    {e : Descriptor} (he : w.graph.table.get? slot.expected = some e) (hobject : isObject x concrete)
    (hfits : w.graph.isAssignable slot.expected concrete = true)
    (hclear : slot.IsClear w.heap (.object x)) {json : Json}
    (hwrite : w.writeObject below slot x = .ok json) :
    ReadsBack w.graph w.heap slot.expected json (.object x) := by
  obtain ⟨d, m, hd, hm, hconcrete⟩ := hw.portable.instantiable x concrete hobject
  have htype : (w.heap.record x).type = concrete := hw.portable.type x concrete hobject
  have hself := hw.arises.sound.id _ _ hd
  -- the object is not inside itself, so it is written with all its members
  have hout : slot.around.contains x = false := by
    by_contra hinside
    have haround : x ∈ slot.around := by simpa using hinside
    exact hw.portable.acyclic x concrete hobject (hclear x haround x .object)
  have hinline : w.inlines slot = true := by
    unfold Writer.inlines Expansion.contains
    rw [hw.all]
    exact Bool.or_true _
  unfold Writer.writeObject at hwrite
  obtain ⟨c, hc, hwrite⟩ := exists_of_bind_eq_ok hwrite
  rw [htype, TypeGraph.get_eq_ok, hd] at hc
  cases hc
  dsimp only at hwrite
  rw [hout, hinline, Bool.not_true, Bool.or_false, Bool.and_false] at hwrite
  obtain ⟨tags, htags, hwrite⟩ := exists_of_bind_eq_ok hwrite
  obtain ⟨members, hmembers, hjson⟩ := exists_of_bind_eq_ok hwrite
  rw [← Except.ok.inj hjson]
  have htagged := Writer.tagged_of_tags htags
  have hput := Writer.put_of_properties hmembers
  have hletters := hw.names.properties d (TypeGraph.mem_types hd)
  have hunmarked : IsUnmarked (.object members) := by
    have htype : isIdentifierKey "_type" = false := by decide
    have huri : isIdentifierKey "_uri" = false := by decide
    intro member hmember
    rcases hput.source member hmember with htag | ⟨p, hp, hname, _⟩
    · rcases htagged.keys member htag with hkey | hkey
      · rw [hkey, htype]
      · rw [hkey, huri]
    · rw [hname]
      exact (isUnmarkedKey_jsonName (hletters p hp)).isIdentifierKey
  have hslot : e.isAny = true ∨
      e.members?.isSome = true ∧ w.graph.isAssignable slot.expected d.id = true := by
    cases hany : e.isAny with
    | true => exact Or.inl rfl
    | false =>
        rw [hself]
        exact Or.inr ⟨hw.arises.hasMembers_of_isAssignable hw.names he hany hd (by rw [hm]; rfl) hfits, hfits⟩
  have href : Entries.get? "_ref" members = none := by
    rw [hput.other "_ref" fun p hp => jsonName_ne (hletters p hp) rfl]
    cases href : Entries.get? "_ref" tags with
    | none => rfl
    | some json =>
        rcases htagged.keys _ (Entries.mem_of_get? href) with hkey | hkey
        · exact absurd hkey (show "_ref" ≠ "_type" by decide)
        · exact absurd hkey (show "_ref" ≠ "_uri" by decide)
  rw [← hself] at hd
  refine readsBack_of_deep hunmarked (by unfold Json.depth; rfl) fun depth hdepth => ?_
  rw [hself] at hd
  have htold := told_of_put hw hbelow hobject hd hm hconcrete hclear htagged hput hdepth
  exact shows_object (by rw [hself]; exact hd) hm htold he (hw.arises.sound.id _ _ he)
    (hw.arises.byName_name hw.names hd) hslot href

/-! ## Writers -/

/-- **What is written is read back if what is written one level further down is.** -/
theorem isFaithful_writeVia (hw : w.Complete isObject) (hbelow : w.IsFaithful isObject below) :
    w.IsFaithful isObject (w.writeVia below) := by
  intro slot v json hwrite hv hclear
  generalize htype : slot.expected = type at hv ⊢
  induction hv generalizing slot json with
  | @null type d hd h =>
      rw [← htype] at hd ⊢
      rw [Writer.writeVia, TypeGraph.get_eq_ok.mpr hd] at hwrite
      cases hwrite
      exact readsBack_of_flat nofun fun _ => shows_null hd h
  | @scalar type d v hd hscalar h =>
      rw [← htype] at hd ⊢
      exact readsBack_scalar hw.arises hw.names hd hscalar h hwrite
  | @list type element d items hd hslot _ h ih =>
      rw [← htype] at hd ⊢
      refine readsBack_list hw.arises hd hslot (fun v hv json hjson => ?_) hwrite
      exact ih v hv _ _ hjson (fun x hx y hy => hclear x hx y (.item hv hy)) rfl
  | @map type value d entries hd hslot _ h ih =>
      rw [← htype] at hd ⊢
      refine readsBack_map hw.arises hd hslot h (fun entry hentry path json hjson => ?_) hwrite
      exact ih entry hentry _ _ hjson (fun x hx y hy => hclear x hx y (.entry hentry hy)) rfl
  | group hd hslot _ _ h => cases h
  | @object type concrete d x hd hobject hfits =>
      rw [← htype] at hd hfits ⊢
      rw [Writer.writeVia, TypeGraph.get_eq_ok.mpr hd] at hwrite
      exact readsBack_object hw hbelow hd hobject hfits hclear hwrite
  | @reference type d r hd hslot hfits h =>
      rw [← htype] at hd ⊢
      rw [Writer.writeVia, TypeGraph.get_eq_ok.mpr hd] at hwrite
      exact readsBack_reference hd (hw.arises.sound.id _ _ hd) hslot h hwrite

/-- However far down a writer may go, what it writes is read back. -/
theorem isFaithful_writeWithin (hw : w.Complete isObject) (depth : Nat) :
    w.IsFaithful isObject (w.writeWithin depth) := by
  induction depth with
  | zero => exact isFaithful_writeVia hw nofun
  | succ depth ih => exact isFaithful_writeVia hw ih

end

/-! ## The main statement -/

/-- **A value that was written with everything inline is read back as an equal one.** Reading leaves the
types and the objects that are there as they are. -/
theorem read_write {s : ReadState} {base : String} {isObject : ObjectId → TypeId → Prop}
    {type : TypeId} {v : Value} {json : Json} (harises : s.graph.Arises) (hnames : s.graph.NamesDiffer)
    (hgetters : s.graph.HasNoGetters) (hsetters : s.graph.HasNoSetters)
    (hportable : s.heap.Portable s.graph isObject)
    (hv : v.Conforms s.graph s.heap.Carries isObject type)
    (hwrite : (⟨s.graph, s.heap, base, .all⟩ : Writer).write type v = .ok json) :
    ∃ v' s', (read .unchecked type json none).runOn s = (.ok v', s') ∧ s'.graph = s.graph ∧
      s.heap.GrowsTo s'.heap ∧ s'.heap.equal v v' = true ∧ s'.heap.equal v' v = true := by
  have hw : (⟨s.graph, s.heap, base, .all⟩ : Writer).Complete isObject :=
    ⟨harises, hnames, hgetters, hsetters, hportable, rfl⟩
  have hback := isFaithful_writeWithin hw _ _ _ _ hwrite hv nofun
  have hroot : Vacant type (.root type none) := ⟨⟨rfl, rfl, rfl⟩, rfl, rfl⟩
  obtain ⟨n, s', hrun, hgraph, hfilled⟩ := hback.shows json.depth (Nat.le_refl _) _ s hroot rfl
  -- nothing was patched, so nothing is written back
  have hcommit : n.commit s'.heap = ({ n with staged := [] }, s'.heap) := by
    unfold Node.commit Node.writeBack
    rw [hfilled.staged]
    rfl
  refine ⟨n.result, s', ?_, hgraph, hfilled.grows, Heap.equal_of_alike hfilled.grows hfilled.twin⟩
  unfold read
  rw [runOn_bind, hrun]
  show (onHeap (Action.change fun h => n.commit h) >>= _ : Reading Value).runOn s' = _
  have hheap : (onHeap (Action.change fun h => n.commit h)).runOn s' =
      (.ok { n with staged := [] }, s') := by
    show (Except.ok (n.commit s'.heap).1, { s' with heap := (n.commit s'.heap).2 }) = _
    rw [hcommit]
  rw [runOn_bind, hheap]
  rfl

/-! ### Crates

Crates may stand in crates. A crate is made from its label and its seal, and clients may not read the
seal. -/

/-- Crates, with what the constructor takes for the seal. -/
def crates (unsealed : Option Value) : Registry :=
  Registry.empty.withType
    { SourceType.bare "Crate" .valueObject with
      properties :=
        [.ofType "Label" (.value .string), .ofType "Parts" (.list (.named "Crate")),
          .ofType "Note" (.value .any),
          { PropertyDef.ofType "Seal" (.value .string) with
            access := .ofList [.post], default := unsealed }]
      constructor := some ["Label", "Seal"] }

/-- The type of crates, after the value kinds. -/
def crateType : TypeId := ⟨ValueKind.all.length⟩

/-- A large crate with a dated note and a small crate in it. Neither has a seal. -/
def nestedCrates : Heap :=
  ⟨#[⟨crateType, [("Label", .string "small")]⟩,
      ⟨crateType,
        [("Label", .string "large"),
          ("Note", .map [("-left", .dateTime ⟨2024, 2, 29, 8, 30, 0, 250000000, 60⟩)]),
          ("Parts", .list [.object ⟨0⟩])]⟩], #[]⟩

/-- The two crates. -/
abbrev isCrate (x : ObjectId) (type : TypeId) : Prop :=
  (x, type) ∈ [((⟨0⟩ : ObjectId), crateType), (⟨1⟩, crateType)]

theorem type_of_isCrate {x : ObjectId} {type : TypeId} (h : isCrate x type) :
    type = crateType ∧ (x = ⟨0⟩ ∨ x = ⟨1⟩) := by
  simp only [List.mem_cons, Prod.mk.injEq, List.not_mem_nil, or_false] at h
  rcases h with ⟨rfl, rfl⟩ | ⟨rfl, rfl⟩
  · exact ⟨rfl, Or.inl rfl⟩
  · exact ⟨rfl, Or.inr rfl⟩

/-- The crates before a document is read. -/
def crateState (unsealed : Option Value) : ReadState :=
  ⟨(crates unsealed).graph, nestedCrates, []⟩

/-- The large crate, written. -/
def writtenCrate (unsealed : Option Value) : Except Error Json :=
  (⟨(crates unsealed).graph, nestedCrates, "", .all⟩ : Writer).write crateType (.object ⟨1⟩)

theorem arises_crates {unsealed : Option Value} (h : (crates unsealed).isResolvable = true) :
    (crates unsealed).graph.Arises :=
  Registry.arises_graph (Registry.keyedByName_empty.withType _) h

/-- The large crate holds the small one. -/
theorem nestedCrates_holds {x y : ObjectId} (h : nestedCrates.Holds x y) : y.index < x.index := by
  obtain ⟨entry, hentry, hmentions⟩ := Heap.exists_entry_of_holds h
  obtain ⟨index⟩ := x
  rcases index with _ | _ | index
  · obtain rfl := List.mem_singleton.mp hentry
    cases hmentions
  · -- of the three fields only the parts mention a crate
    have hfields : entry ∈ [("Label", .string "large"),
        ("Note", .map [("-left", .dateTime ⟨2024, 2, 29, 8, 30, 0, 250000000, 60⟩)]),
        ("Parts", .list [.object ⟨0⟩])] := hentry
    simp only [List.mem_cons, List.not_mem_nil, or_false] at hfields
    rcases hfields with rfl | rfl | rfl
    · cases hmentions
    · cases hmentions with
      | entry hinner hdate =>
          obtain rfl := List.mem_singleton.mp hinner
          cases hdate
    · cases hmentions with
      | item hinner hcrate =>
          obtain rfl := List.mem_singleton.mp hinner
          cases hcrate
          exact Nat.zero_lt_one
  · cases hentry

/-- The crates can be written, whatever the constructor takes for the seal. -/
theorem presentable_crates {g : TypeGraph}
    (hpopulated : nestedCrates.populatedBy g nestedCrates.Carries
      [((⟨0⟩ : ObjectId), crateType), (⟨1⟩, crateType)] = true)
    (hproperties : ∀ d ∈ g.table.get? crateType,
      (∀ name ∈ ["Label", "Note", "Parts"], ∃ p ∈ d.properties, p.name = name ∧ p.isReadable = true) ∧
        ∀ p ∈ d.properties, (g.table.get? p.type).any (·.nullable) = true) :
    nestedCrates.Presentable g isCrate := by
  refine { Heap.populates_of_populatedBy hpopulated with
    inHeap := fun x _ h => ?_
    sorted := fun x _ h => ?_
    readable := fun x _ d name h hd hvalue => ?_
    constructible := fun x _ d m h hd _ _ _ p hp _ _ => ?_
    acyclic := fun x _ _ => Heap.not_transGen_of_earlier (fun _ _ => nestedCrates_holds) x }
  · rcases (type_of_isCrate h).2 with rfl | rfl <;> decide
  · rcases (type_of_isCrate h).2 with rfl | rfl <;> decide +kernel
  · obtain ⟨rfl, hx⟩ := type_of_isCrate h
    refine (hproperties d hd).1 name ?_
    obtain ⟨v, hget, _⟩ := Heap.exists_of_field_ne_null hvalue
    have hkey := List.mem_map_of_mem (f := Prod.fst) (Entries.mem_of_get? hget)
    have hkeys : ∀ key ∈ (nestedCrates.record x).fields.map Prod.fst,
        key ∈ ["Label", "Note", "Parts"] := by
      rcases hx with rfl | rfl <;> decide +kernel
    exact hkeys _ hkey
  · obtain ⟨rfl, _⟩ := type_of_isCrate h
    exact (Option.any_eq_true _ _).mp ((hproperties d hd).2 p hp)

/-- A decision that a value is null. -/
theorem eq_null_of_isNull {v : Value} (h : v.isNull = true) : v = .null := by
  cases v with
  | null => rfl
  | _ => cases h

/-- **The nested crates are read back.** No document tells the seals, and the constructor takes null for
them. -/
theorem nestedCrates_read_back :
    ∃ json v' s', writtenCrate (some .null) = .ok json ∧
      (read .unchecked crateType json none).runOn (crateState (some .null)) = (.ok v', s') ∧
        s'.heap.equal (.object ⟨1⟩) v' = true ∧ s'.heap.equal v' (.object ⟨1⟩) = true := by
  obtain ⟨json, hwrite⟩ : ∃ json, writtenCrate (some .null) = .ok json :=
    exists_ok_of_failure? (by decide +kernel)
  have harises : (crates (some .null)).graph.Arises := arises_crates (by decide +kernel)
  have hnames : (crates (some .null)).graph.NamesDiffer := by
    constructor <;> decide +kernel
  have hgetters : (crates (some .null)).graph.HasNoGetters := by
    unfold TypeGraph.HasNoGetters
    decide +kernel
  have hsetters : (crates (some .null)).graph.HasNoSetters := by
    unfold TypeGraph.HasNoSetters
    decide +kernel
  have hdefaults : ∀ d ∈ (crates (some .null)).graph.table.get? crateType, ∀ p ∈ d.properties,
      p.isReadable = true ∨ p.default.any Value.isNull = true := by decide +kernel
  have hportable : nestedCrates.Portable (crates (some .null)).graph isCrate := by
    refine { presentable_crates (by decide +kernel) (by decide +kernel) with
      restorable := fun x type d m h hd _ _ _ p hp _ _ => ?_ }
    rw [(type_of_isCrate h).1] at hd
    refine (hdefaults d hd p hp).imp_right fun hdefault => ?_
    obtain ⟨v, hv, hnull⟩ := (Option.any_eq_true _ _).mp hdefault
    rw [hv, eq_null_of_isNull hnull]
  have hv : Value.Conforms (crates (some .null)).graph nestedCrates.Carries isCrate crateType
      (.object ⟨1⟩) := Value.conforms_of_conformsBy _ (by decide +kernel)
  obtain ⟨v', s', hread, _, _, hthere, hback⟩ :=
    @read_write (crateState (some .null)) _ _ _ _ _ harises hnames hgetters hsetters hportable hv hwrite
  exact ⟨json, v', s', hwrite, hread, hthere, hback⟩

/-- **A seal that the constructor asks for is not told.** The crates are as `read_write` asks for them but
for the seals, which are null, may be null, and have no default; they are written and not read back. -/
theorem unsealed_lost :
    let g := (crates none).graph
    (g.Arises ∧ g.NamesDiffer ∧ g.HasNoGetters ∧ g.HasNoSetters ∧ nestedCrates.Presentable g isCrate ∧
      Value.Conforms g nestedCrates.Carries isCrate crateType (.object ⟨1⟩)) ∧
        ∃ json, writtenCrate none = .ok json ∧
          ((read .unchecked crateType json none).runOn (crateState none)).1 =
            .error (.missingProperty "Crate" "Seal" "") := by
  intro g
  refine ⟨⟨arises_crates (by decide +kernel), ?_, ?_, ?_,
    presentable_crates (by decide +kernel) (by decide +kernel),
    Value.conforms_of_conformsBy _ (by decide +kernel)⟩, ?_⟩
  · constructor <;> decide +kernel
  · unfold TypeGraph.HasNoGetters
    decide +kernel
  · unfold TypeGraph.HasNoSetters
    decide +kernel
  · obtain ⟨json, hwrite⟩ : ∃ json, writtenCrate none = .ok json :=
      exists_ok_of_failure? (by decide +kernel)
    refine ⟨json, hwrite, eq_error_of_failure? ?_⟩
    have hread : failure? (writtenCrate none >>= fun json =>
        ((read .unchecked crateType json none).runOn (crateState none)).1) =
          some (.missingProperty "Crate" "Seal" "") := by decide +kernel
    rw [hwrite] at hread
    exact hread

end Document

end ResourceQuery
