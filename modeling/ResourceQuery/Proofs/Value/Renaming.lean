import ResourceQuery.Proofs.Value.Equivalence

set_option autoImplicit false

/-! # Objects under other numbers

The number of an object says when it was made and nothing else. So a value may be renamed, which puts every
object in it under another number, and two heaps may hold the same objects under different numbers. Only
some objects need be the same: `Heap.Renames h h' ρ S` says so of the objects of a set `S` from which no
others are reached.

Equality sees no difference (`Heap.Renames.equal_eq`, `Heap.Renames.looselyEqual_eq`). The budget of a
comparison is the number of pairs of objects, which is another one in a heap of another size, so the two
comparisons are run side by side: as each step adds a pair of objects that are there, and no pair twice,
neither ever comes to the end of its budget.
-/

namespace ResourceQuery

/-! ## Values over a set of objects -/

/-- The value holds objects of `S` only. -/
inductive Value.Over (S : ObjectId → Prop) : Value → Prop
  | null : Over S .null
  | bool (b : Bool) : Over S (.bool b)
  | int (n : Int64) : Over S (.int n)
  | float (x : Float) : Over S (.float x)
  | string (s : String) : Over S (.string s)
  | dateTime (t : Timestamp) : Over S (.dateTime t)
  | enum (member : String) : Over S (.enum member)
  | list {items : List Value} (h : ∀ item ∈ items, Over S item) : Over S (.list items)
  | map {entries : List (String × Value)} (h : ∀ entry ∈ entries, Over S entry.2) :
      Over S (.map entries)
  | object {x : ObjectId} (h : S x) : Over S (.object x)
  | group {key : Value} {items : List Value} (hkey : Over S key) (h : ∀ item ∈ items, Over S item) :
      Over S (.group key items)
  | reference (ref : LazyRef) : Over S (.reference ref)

namespace Value

variable {S T : ObjectId → Prop} {ρ σ : ObjectId → ObjectId} {v w : Value}

theorem Over.mono (hv : v.Over S) (hST : ∀ x, S x → T x) : v.Over T := by
  induction hv with
  | null => exact .null
  | bool b => exact .bool b
  | int n => exact .int n
  | float x => exact .float x
  | string s => exact .string s
  | dateTime t => exact .dateTime t
  | enum member => exact .enum member
  | list _ ih => exact .list ih
  | map _ ih => exact .map ih
  | object h => exact .object (hST _ h)
  | group _ _ ihkey ih => exact .group ihkey ih
  | reference ref => exact .reference ref

/-- A value over two sets of objects is one over what they share. -/
theorem Over.and (hS : v.Over S) (hT : v.Over T) : v.Over fun x => S x ∧ T x := by
  induction hS with
  | null => exact .null
  | bool b => exact .bool b
  | int n => exact .int n
  | float x => exact .float x
  | string s => exact .string s
  | dateTime t => exact .dateTime t
  | enum member => exact .enum member
  | list _ ih =>
      cases hT with
      | list h => exact .list fun item hitem => ih item hitem (h item hitem)
  | map _ ih =>
      cases hT with
      | map h => exact .map fun entry hentry => ih entry hentry (h entry hentry)
  | object h =>
      cases hT with
      | object h' => exact .object ⟨h, h'⟩
  | group _ _ ihkey ih =>
      cases hT with
      | group hkey h => exact .group (ihkey hkey) fun item hitem => ih item hitem (h item hitem)
  | reference ref => exact .reference ref

theorem Over.of_object {x : ObjectId} (h : (Value.object x).Over S) : S x := by
  cases h with
  | object hx => exact hx

theorem Over.of_list {items : List Value} (h : (Value.list items).Over S) : ∀ item ∈ items, item.Over S := by
  cases h with
  | list hitems => exact hitems

theorem Over.of_map {entries : Entries Value} (h : (Value.map entries).Over S) :
    ∀ entry ∈ entries, entry.2.Over S := by
  cases h with
  | map hentries => exact hentries

/-! ## Renamed values -/

mutual

/-- The value with every object under another number. -/
def rename (ρ : ObjectId → ObjectId) : Value → Value
  | .null => .null
  | .bool b => .bool b
  | .int n => .int n
  | .float x => .float x
  | .string s => .string s
  | .dateTime t => .dateTime t
  | .enum member => .enum member
  | .list items => .list (renameItems ρ items)
  | .map entries => .map (renameEntries ρ entries)
  | .object x => .object (ρ x)
  | .group key items => .group (rename ρ key) (renameItems ρ items)
  | .reference ref => .reference ref

/-- The items with every object under another number. -/
def renameItems (ρ : ObjectId → ObjectId) : List Value → List Value
  | [] => []
  | v :: rest => rename ρ v :: renameItems ρ rest

/-- The entries with every object under another number. -/
def renameEntries (ρ : ObjectId → ObjectId) : List (String × Value) → List (String × Value)
  | [] => []
  | (key, v) :: rest => (key, rename ρ v) :: renameEntries ρ rest

end

theorem renameItems_eq_map (items : List Value) : renameItems ρ items = items.map (rename ρ) := by
  induction items with
  | nil => rfl
  | cons v rest ih => rw [renameItems, ih, List.map_cons]

theorem renameEntries_eq_map (entries : Entries Value) :
    renameEntries ρ entries = entries.map (Prod.map id (rename ρ)) := by
  induction entries with
  | nil => rfl
  | cons entry rest ih => rw [renameEntries, ih, List.map_cons, Prod.map, id]

@[simp] theorem rename_null : null.rename ρ = null := rfl

@[simp] theorem rename_object (x : ObjectId) : (object x).rename ρ = object (ρ x) := rfl

@[simp] theorem rename_reference (ref : LazyRef) : (reference ref).rename ρ = reference ref := rfl

@[simp] theorem rename_list (items : List Value) :
    (list items).rename ρ = list (items.map (rename ρ)) := by
  rw [rename, renameItems_eq_map]

@[simp] theorem rename_map (entries : Entries Value) :
    (map entries).rename ρ = map (entries.map (Prod.map id (rename ρ))) := by
  rw [rename, renameEntries_eq_map]

@[simp] theorem rename_group (key : Value) (items : List Value) :
    (group key items).rename ρ = group (key.rename ρ) (items.map (rename ρ)) := by
  rw [rename, renameItems_eq_map]

/-- Only the objects that a value holds matter to its renaming. -/
theorem Over.rename_congr (hv : v.Over S) (h : ∀ x, S x → ρ x = σ x) : v.rename ρ = v.rename σ := by
  induction hv with
  | list _ ih => simpa using ih
  | map _ ih =>
      simp only [rename_map, map.injEq]
      exact List.map_congr_left fun entry hentry => Prod.ext rfl (ih entry hentry)
  | object hx => rw [rename_object, rename_object, h _ hx]
  | group _ _ ihkey ih => simpa [ihkey] using ih
  | _ => rfl

/-- A value whose objects keep their numbers is not changed. -/
theorem Over.rename_eq_self (hv : v.Over S) (h : ∀ x, S x → ρ x = x) : v.rename ρ = v := by
  induction hv with
  | list _ ih =>
      rw [rename_list, List.map_congr_left ih, List.map_id']
  | map _ ih =>
      have hentries : ∀ entry ∈ _, Prod.map id (rename ρ) entry = entry :=
        fun entry hentry => Prod.ext rfl (ih entry hentry)
      rw [rename_map, List.map_congr_left hentries, List.map_id']
  | object hx => rw [rename_object, h _ hx]
  | group _ _ ihkey ih =>
      rw [rename_group, ihkey, List.map_congr_left ih, List.map_id']
  | _ => rfl

/-! ## Equality, given when objects are the same -/

variable {same same' : ObjectId → ObjectId → Bool}

theorem equalItems_rename {xs ys : List Value} (h : ∀ x ∈ xs, ∀ y ∈ ys,
    equalBy same' (x.rename ρ) (y.rename ρ) = equalBy same x y) :
    equalItems same' (xs.map (rename ρ)) (ys.map (rename ρ)) = equalItems same xs ys := by
  induction xs generalizing ys with
  | nil => cases ys <;> rfl
  | cons x xs ih =>
      cases ys with
      | nil => rfl
      | cons y ys =>
          simp only [List.map_cons, equalItems]
          rw [h x List.mem_cons_self y List.mem_cons_self,
            ih fun a ha b hb => h a (List.mem_cons_of_mem _ ha) b (List.mem_cons_of_mem _ hb)]

theorem equalEntries_rename {xs ys : Entries Value} (h : ∀ x ∈ xs, ∀ y ∈ ys,
    equalBy same' (x.2.rename ρ) (y.2.rename ρ) = equalBy same x.2 y.2) :
    equalEntries same' (xs.map (Prod.map id (rename ρ))) (ys.map (Prod.map id (rename ρ))) =
      equalEntries same xs ys := by
  induction xs generalizing ys with
  | nil => cases ys <;> rfl
  | cons x xs ih =>
      cases ys with
      | nil => rfl
      | cons y ys =>
          simp only [List.map_cons, Prod.map, id, equalEntries]
          rw [h x List.mem_cons_self y List.mem_cons_self,
            ← ih fun a ha b hb => h a (List.mem_cons_of_mem _ ha) b (List.mem_cons_of_mem _ hb)]

/-- Renamed values are equal if the values are, where renamed objects are the same if the objects are. -/
theorem equalBy_rename (hsame : ∀ x y, S x → S y → same' (ρ x) (ρ y) = same x y) (hv : v.Over S)
    (hw : w.Over S) : equalBy same' (v.rename ρ) (w.rename ρ) = equalBy same v w := by
  induction hv generalizing w with
  | list _ ih =>
      cases hw with
      | list hys =>
          simp only [rename_list, equalBy]
          exact equalItems_rename fun x hx y hy => ih x hx (hys y hy)
      | _ => simp [equalBy, rename]
  | map _ ih =>
      cases hw with
      | map hys =>
          simp only [rename_map, equalBy]
          exact equalEntries_rename fun x hx y hy => ih x hx (hys y hy)
      | _ => simp [equalBy, rename]
  | object hx =>
      cases hw with
      | object hy => simpa [equalBy] using hsame _ _ hx hy
      | _ => simp [equalBy, rename]
  | group _ _ ihkey ih =>
      cases hw with
      | group hkey hys =>
          simp only [rename_group, equalBy]
          rw [ihkey hkey, equalItems_rename fun x hx y hy => ih x hx (hys y hy)]
      | _ => simp [equalBy, rename]
  | _ => cases hw <;> simp [equalBy, rename]

end Value

/-! ## Renamed records -/

namespace Entries

variable {α β : Type} (f : α → β) (key : String) (value : α) (entries : Entries α)

theorem get?_map : get? key (entries.map (Prod.map id f)) = (get? key entries).map f := by
  induction entries with
  | nil => rfl
  | cons entry rest ih =>
      obtain ⟨k, v⟩ := entry
      simp only [List.map_cons, Prod.map, id, get?]
      split
      · rfl
      · exact ih

theorem insert_map :
    insert key (f value) (entries.map (Prod.map id f)) = (insert key value entries).map (Prod.map id f) := by
  induction entries with
  | nil => rfl
  | cons entry rest ih =>
      obtain ⟨k, v⟩ := entry
      simp only [List.map_cons, Prod.map, id, insert]
      split
      · rfl
      · split
        · rfl
        · exact congrArg _ ih

theorem erase_map :
    erase key (entries.map (Prod.map id f)) = (erase key entries).map (Prod.map id f) := by
  induction entries with
  | nil => rfl
  | cons entry rest ih =>
      obtain ⟨k, v⟩ := entry
      simp only [List.map_cons, Prod.map, id, erase]
      split
      · exact ih
      · exact congrArg _ ih

end Entries

namespace Record

variable {S T : ObjectId → Prop} {ρ σ : ObjectId → ObjectId} {r : Record}

/-- The record with every object in its fields under another number. -/
def rename (ρ : ObjectId → ObjectId) (r : Record) : Record :=
  { r with fields := r.fields.map (Prod.map id (Value.rename ρ)) }

/-- The fields hold objects of `S` only. -/
def Over (S : ObjectId → Prop) (r : Record) : Prop :=
  ∀ entry ∈ r.fields, entry.2.Over S

theorem Over.mono (hr : r.Over S) (hST : ∀ x, S x → T x) : r.Over T :=
  fun entry hentry => (hr entry hentry).mono hST

theorem Over.rename_congr (hr : r.Over S) (h : ∀ x, S x → ρ x = σ x) : r.rename ρ = r.rename σ := by
  have hfields : ∀ entry ∈ r.fields,
      Prod.map id (Value.rename ρ) entry = Prod.map id (Value.rename σ) entry :=
    fun entry hentry => Prod.ext rfl ((hr entry hentry).rename_congr h)
  unfold Record.rename
  rw [List.map_congr_left hfields]

theorem Over.rename_eq_self (hr : r.Over S) (h : ∀ x, S x → ρ x = x) : r.rename ρ = r := by
  have hfields : ∀ entry ∈ r.fields, Prod.map id (Value.rename ρ) entry = entry :=
    fun entry hentry => Prod.ext rfl ((hr entry hentry).rename_eq_self h)
  unfold Record.rename
  rw [List.map_congr_left hfields, List.map_id']

theorem Over.getFrom (hr : r.Over S) (p : Property) : (p.getFrom r).Over S := by
  unfold Property.getFrom
  cases hget : Entries.get? (p.readsField.getD p.name) r.fields with
  | none => exact .null
  | some v => exact hr _ (Entries.mem_of_get? hget)

theorem getFrom_rename (p : Property) : p.getFrom (r.rename ρ) = (p.getFrom r).rename ρ := by
  unfold Property.getFrom rename
  rw [Entries.get?_map]
  cases Entries.get? (p.readsField.getD p.name) r.fields <;> rfl

theorem field_rename (name : String) : (r.rename ρ).field name = (r.field name).rename ρ := by
  unfold field rename
  rw [Entries.get?_map]
  cases Entries.get? name r.fields <;> rfl

theorem Over.field (hr : r.Over S) (name : String) : (r.field name).Over S := by
  unfold Record.field
  cases hget : Entries.get? name r.fields with
  | none => exact .null
  | some v => exact hr _ (Entries.mem_of_get? hget)

/-- Renamed fields are covered if the fields are, where renamed objects are the same if the objects are. -/
theorem covers_rename {same same' : ObjectId → ObjectId → Bool} {a b : Record} (ha : a.Over S)
    (hb : b.Over S) (hsame : ∀ x y, S x → S y → same' (ρ x) (ρ y) = same x y) :
    Value.covers same' (a.rename ρ).fields (b.rename ρ).fields = Value.covers same a.fields b.fields := by
  rw [Bool.eq_iff_iff, Heap.covers_iff, Heap.covers_iff]
  refine List.forall_mem_map.trans (forall₂_congr fun entry hentry => ?_)
  rw [field_rename]
  exact Bool.eq_iff_iff.mp (Value.equalBy_rename hsame (ha entry hentry) (hb.field _))

end Record

/-! ## Heaps with the same objects -/

namespace Heap

variable {h h' : Heap} {ρ : ObjectId → ObjectId} {S : ObjectId → Prop} {v w : Value}

/-- The objects of `S` are in the second heap under other numbers, and no others are reached from them. -/
structure Renames (h h' : Heap) (ρ : ObjectId → ObjectId) (S : ObjectId → Prop) : Prop where
  record : ∀ x, S x → h'.record (ρ x) = (h.record x).rename ρ
  closed : ∀ x, S x → (h.record x).Over S
  injective : ∀ x y, S x → S y → ρ x = ρ y → x = y
  allocated : ∀ x, S x → x.index < h.records.size ∧ (ρ x).index < h'.records.size

/-- There are at most as many different pairs of objects as the square of their number. -/
theorem length_le_of_nodup {seen : List (ObjectId × ObjectId)} (hnodup : seen.Nodup)
    (hseen : ∀ pair ∈ seen, pair.1.index < h.records.size ∧ pair.2.index < h.records.size) :
    seen.length ≤ h.records.size * h.records.size := by
  let numbers : ObjectId × ObjectId → Nat × Nat := fun pair => (pair.1.index, pair.2.index)
  have hinjective : Function.Injective numbers := by
    rintro ⟨⟨a⟩, ⟨b⟩⟩ ⟨⟨c⟩, ⟨d⟩⟩ heq
    cases heq
    rfl
  have hsubset : (seen.map numbers).toFinset ⊆
      Finset.range h.records.size ×ˢ Finset.range h.records.size := by
    intro pair hpair
    obtain ⟨p, hp, rfl⟩ := List.mem_map.mp (List.mem_toFinset.mp hpair)
    exact Finset.mem_product.mpr
      ⟨Finset.mem_range.mpr (hseen p hp).1, Finset.mem_range.mpr (hseen p hp).2⟩
  have hcard := Finset.card_le_card hsubset
  rwa [List.toFinset_card_of_nodup (hnodup.map hinjective), List.length_map, Finset.card_product,
    Finset.card_range] at hcard

namespace Renames

variable (hr : h.Renames h' ρ S)

include hr

/-- The pairs that are being compared are pairs of objects that are there. -/
theorem mem_seen_iff {seen : List (ObjectId × ObjectId)} (hseen : ∀ pair ∈ seen, S pair.1 ∧ S pair.2)
    {x y : ObjectId} (hx : S x) (hy : S y) :
    (ρ x, ρ y) ∈ seen.map (Prod.map ρ ρ) ↔ (x, y) ∈ seen := by
  refine ⟨fun hmem => ?_, fun hmem => List.mem_map_of_mem (f := Prod.map ρ ρ) hmem⟩
  obtain ⟨⟨a, b⟩, hpair, heq⟩ := List.mem_map.mp hmem
  obtain ⟨ha, hb⟩ := hseen _ hpair
  have hax : a = x := hr.injective a x ha hx (congrArg Prod.fst heq)
  have hby : b = y := hr.injective b y hb hy (congrArg Prod.snd heq)
  rwa [hax, hby] at hpair

/-- **Two comparisons side by side.** Each has as many steps left as there are pairs of objects that it has
not met. -/
theorem sameObjects_eq {fuel fuel' : Nat} {seen : List (ObjectId × ObjectId)} (hnodup : seen.Nodup)
    (hseen : ∀ pair ∈ seen, S pair.1 ∧ S pair.2)
    (hfuel : fuel + seen.length = h.records.size * h.records.size + 1)
    (hfuel' : fuel' + seen.length = h'.records.size * h'.records.size + 1) {x y : ObjectId} (hx : S x)
    (hy : S y) :
    h'.sameObjects fuel' (seen.map (Prod.map ρ ρ)) (ρ x) (ρ y) = h.sameObjects fuel seen x y := by
  induction fuel generalizing fuel' seen x y with
  | zero =>
      have hlength := length_le_of_nodup (h := h) hnodup fun pair hpair =>
        ⟨(hr.allocated _ (hseen pair hpair).1).1, (hr.allocated _ (hseen pair hpair).2).1⟩
      omega
  | succ fuel ih =>
      have hlength' : seen.length ≤ h'.records.size * h'.records.size := by
        have hnodup' : (seen.map (Prod.map ρ ρ)).Nodup := by
          refine List.Nodup.map_on (fun a ha b hb heq => ?_) hnodup
          obtain ⟨ha₁, ha₂⟩ := hseen a ha
          obtain ⟨hb₁, hb₂⟩ := hseen b hb
          exact Prod.ext (hr.injective _ _ ha₁ hb₁ (congrArg Prod.fst heq))
            (hr.injective _ _ ha₂ hb₂ (congrArg Prod.snd heq))
        have hbound := length_le_of_nodup (h := h') hnodup' fun pair hpair => by
          obtain ⟨p, hp, rfl⟩ := List.mem_map.mp hpair
          exact ⟨(hr.allocated _ (hseen p hp).1).2, (hr.allocated _ (hseen p hp).2).2⟩
        rwa [List.length_map] at hbound
      obtain ⟨fuel', rfl⟩ := Nat.exists_eq_succ_of_ne_zero (n := fuel') (by omega)
      have hmet : (ρ x = ρ y ∨ (ρ x, ρ y) ∈ seen.map (Prod.map ρ ρ)) ↔ (x = y ∨ (x, y) ∈ seen) :=
        or_congr ⟨hr.injective x y hx hy, congrArg ρ⟩ (hr.mem_seen_iff hseen hx hy)
      by_cases hold : x = y ∨ (x, y) ∈ seen
      · unfold sameObjects
        rw [if_pos hold, if_pos (hmet.mpr hold)]
      · have hnext : ∀ a b, S a → S b →
            h'.sameObjects fuel' ((ρ x, ρ y) :: seen.map (Prod.map ρ ρ)) (ρ a) (ρ b) =
              h.sameObjects fuel ((x, y) :: seen) a b := fun a b ha hb =>
          ih (List.nodup_cons.mpr ⟨fun hmem => hold (Or.inr hmem), hnodup⟩)
            (List.forall_mem_cons.mpr ⟨⟨hx, hy⟩, hseen⟩)
            (by rw [List.length_cons]; omega) (by rw [List.length_cons]; omega) ha hb
        have htype : ((h.record x).rename ρ).type = (h.record x).type ∧
            ((h.record y).rename ρ).type = (h.record y).type := ⟨rfl, rfl⟩
        unfold sameObjects
        rw [if_neg hold, if_neg (hmet.not.mpr hold)]
        dsimp only
        rw [hr.record x hx, hr.record y hy, htype.1, htype.2,
          Record.covers_rename (hr.closed x hx) (hr.closed y hy) hnext,
          Record.covers_rename (hr.closed y hy) (hr.closed x hx) hnext]

/-- **Renamed values are equal if the values are.** -/
theorem equal_eq (hv : v.Over S) (hw : w.Over S) :
    h'.equal (v.rename ρ) (w.rename ρ) = h.equal v w :=
  Value.equalBy_rename
    (fun _ _ hx hy => hr.sameObjects_eq List.nodup_nil (List.forall_mem_nil _) rfl rfl hx hy) hv hw

/-- Renamed values are loosely equal if the values are. -/
theorem looselyEqual_eq (hv : v.Over S) (hw : w.Over S) :
    h'.looselyEqual (v.rename ρ) (w.rename ρ) = h.looselyEqual v w := by
  have hequal := hr.equal_eq hv hw
  cases hv <;> cases hw <;> first | rfl | exact hequal

end Renames

end Heap

end ResourceQuery
