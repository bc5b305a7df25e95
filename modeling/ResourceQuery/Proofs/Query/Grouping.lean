import Mathlib
import ResourceQuery.Proofs.Expr.Nameless
import ResourceQuery.Proofs.Query.Rows
import ResourceQuery.Proofs.Value.Equivalence

set_option autoImplicit false

/-! # Grouping by digests is grouping by equality

A row is only compared with the groups whose keys have the digest of its key. No group with an equal key is
missed that way: equal values have the same traits (`Heap.traits_eq_of_equal`), whatever is made of them. So
the group that is found is the first one with an equal key (`Grouping.find?_bucket`), and grouping by any
digest does what a search through all groups does (`groupByDigest_eq_search`).

What such a search makes of rows is said without it. The rows are numbered, and a class is a first number
and those that follow it. `Gathers` is kept by each row that is put into a group (`Gathers.put`), and as
equality is an equivalence, two rows are in one class exactly if their keys are equal (`Gathers.shared`).
-/

namespace ResourceQuery

/-! ## Traits of equal values -/

namespace Value

variable {h : Heap} {same : ObjectId → ObjectId → Bool}

theorem eq_of_unpack_eq {x y : Float} (h : x.toModel.unpack = y.toModel.unpack) : x = y := by
  rw [← Float.toBits_inj, ← UInt64.toBitVec_inj]
  have hpack : ∀ z : Float, z.toBits.toBitVec =
      Float.Model.UnpackedFloat.pack Float.Model.Format.binary64 z.toModel.unpack :=
    fun z => (Float.Model.UnpackedFloat.pack_unpack_of_valid z.toModel.valid).symm
  rw [hpack x, hpack y, h]

theorem floatBits_of_zero {x : Float} {s : Float.Model.UnpackedFloat.Sign}
    (hx : x.toModel.unpack = .zero s) : floatBits x = (0 : Float).toBits := by
  have hzero : (x == 0) = true := by
    show x.toModel.unpack.beq (0 : Float).toModel.unpack = true
    rw [hx]
    rfl
  exact if_pos hzero

/-- Floats that are equal have the same bits, up to the sign of zero. -/
theorem floatBits_eq {x y : Float} (hxy : (x == y) = true) : floatBits x = floatBits y := by
  have hbeq : x.toModel.unpack.beq y.toModel.unpack = true := hxy
  have hnumber : x.toModel.unpack.isNaN = false := by
    cases hx : x.toModel.unpack with
    | notANumber =>
        rw [hx] at hbeq
        cases hbeq
    | _ => rfl
  have hsame := (Denoted.unsigned_eq_iff hnumber).1 hbeq
  by_cases hzero : ∃ s, x.toModel.unpack = .zero s
  · obtain ⟨s, hx⟩ := hzero
    cases hy : y.toModel.unpack with
    | zero t => rw [floatBits_of_zero hx, floatBits_of_zero hy]
    | _ =>
        rw [hx, hy] at hsame
        cases hsame
  · have hself : ∀ {u : Float.Model.UnpackedFloat}, (¬∃ s, u = .zero s) → Denoted.unsigned u = u := by
      intro u hu
      cases u with
      | zero s => exact absurd ⟨s, rfl⟩ hu
      | _ => rfl
    have hzero' : ¬∃ s, y.toModel.unpack = .zero s := by
      rintro ⟨t, hy⟩
      rw [hself hzero, hy] at hsame
      exact hzero ⟨.positive, hsame⟩
    rw [hself hzero, hself hzero'] at hsame
    rw [eq_of_unpack_eq hsame]

mutual

/-- Values that are equal have the same traits, if objects that are the same have the same type. -/
theorem traits_eq_of_equalBy (hsame : ∀ x y, same x y = true → h.typeOf x = h.typeOf y) :
    (v w : Value) → equalBy same v w = true → v.traits h = w.traits h
  | .null, w, hvw | .bool _, w, hvw | .int _, w, hvw | .string _, w, hvw | .enum _, w, hvw
  | .reference _, w, hvw => by cases w <;> simp_all [equalBy, traits, kindName]
  | .dateTime s, w, hvw => by
      cases w <;> simp_all [equalBy, traits, kindName, Timestamp.sameInstant]
  | .float x, w, hvw => by
      cases w with
      | float y =>
          rw [traits, traits, floatBits_eq (by simpa [equalBy] using hvw)]
          rfl
      | _ => simp [equalBy] at hvw
  | .list xs, w, hvw => by
      cases w with
      | list ys =>
          rw [equalBy] at hvw
          obtain ⟨hlength, hitems⟩ := itemTraits_eq hsame xs ys hvw
          rw [traits, traits, hlength, hitems]
          rfl
      | _ => simp [equalBy] at hvw
  | .map xs, w, hvw => by
      cases w with
      | map ys =>
          rw [equalBy] at hvw
          rw [traits, traits, entryTraits_eq hsame xs ys hvw]
          rfl
      | _ => simp [equalBy] at hvw
  | .object x, w, hvw => by
      cases w with
      | object y => simp [traits, kindName, hsame x y (by simpa [equalBy] using hvw)]
      | _ => simp [equalBy] at hvw
  | .group key items, w, hvw => by
      cases w with
      | group key' items' =>
          rw [equalBy, Bool.and_eq_true] at hvw
          rw [traits, traits, traits_eq_of_equalBy hsame key key' hvw.1]
          rfl
      | _ => simp [equalBy] at hvw

theorem itemTraits_eq (hsame : ∀ x y, same x y = true → h.typeOf x = h.typeOf y) :
    (xs ys : List Value) → equalItems same xs ys = true →
      xs.length = ys.length ∧ itemTraits h xs = itemTraits h ys
  | [], ys, hall => by cases ys <;> simp_all [equalItems]
  | x :: xs, ys, hall => by
      cases ys with
      | nil => simp [equalItems] at hall
      | cons y ys =>
          rw [equalItems, Bool.and_eq_true] at hall
          obtain ⟨hlength, hitems⟩ := itemTraits_eq hsame xs ys hall.2
          rw [itemTraits, itemTraits, traits_eq_of_equalBy hsame x y hall.1, hitems]
          exact ⟨congrArg (· + 1) hlength, rfl⟩

theorem entryTraits_eq (hsame : ∀ x y, same x y = true → h.typeOf x = h.typeOf y) :
    (xs ys : List (String × Value)) → equalEntries same xs ys = true →
      entryTraits h xs = entryTraits h ys
  | [], ys, hall => by cases ys <;> simp_all [equalEntries]
  | (key, x) :: xs, ys, hall => by
      cases ys with
      | nil => simp [equalEntries] at hall
      | cons entry ys =>
          obtain ⟨key', y⟩ := entry
          rw [equalEntries, Bool.and_eq_true, Bool.and_eq_true, beq_iff_eq] at hall
          rw [entryTraits, entryTraits, hall.1.1, traits_eq_of_equalBy hsame x y hall.1.2,
            entryTraits_eq hsame xs ys hall.2]

end

end Value

/-- **Equal values have the same traits.** -/
theorem Heap.traits_eq_of_equal {h : Heap} {v w : Value} (hvw : h.equal v w = true) :
    v.traits h = w.traits h := by
  refine Value.traits_eq_of_equalBy (fun x y hxy => ?_) v w hvw
  rcases sameObjects_succ_iff.mp hxy with (rfl | hmem) | halike
  · rfl
  · exact absurd hmem List.not_mem_nil
  · exact (alikeBy_iff.mp halike).1

namespace Rows

variable {g : TypeGraph} {h : Heap} {digest : List Trait → UInt64} {l : Lambda} {key row : Value}

/-! ## Search -/

/-- Puts a row into the first group with its key, or into a new group at the end. -/
def putInFirst (h : Heap) (key row : Value) : List (Value × List Value) → List (Value × List Value)
  | [] => [(key, [row])]
  | (k, members) :: rest =>
    if h.equal k key then (k, members ++ [row]) :: rest
    else (k, members) :: putInFirst h key row rest

/-- Puts rows into groups by key, each after a search through all groups. -/
def searchInto (g : TypeGraph) (h : Heap) (l : Lambda) : List (Value × List Value) → List Value →
    Except Error (List (Value × List Value))
  | groups, [] => .ok groups
  | groups, row :: rest => do
    let k ← l.eval g h row
    searchInto g h l (putInFirst h k row groups) rest

/-- The groups of rows with equal keys, found without digests. -/
def groupBySearch (g : TypeGraph) (h : Heap) (l : Lambda) (rows : List Value) : Except Error (List Value) :=
  (searchInto g h l [] rows).map fun groups => groups.map fun (k, members) => .group k members

theorem putInFirst_eq (groups : List (Value × List Value)) :
    putInFirst h key row groups =
      match (groups.map Prod.fst).findIdx? (h.equal · key) with
      | some place => groups.modify place fun (k, members) => (k, members ++ [row])
      | none => groups ++ [(key, [row])] := by
  induction groups with
  | nil => rfl
  | cons group rest ih =>
      obtain ⟨k, members⟩ := group
      rw [putInFirst, List.map_cons, List.findIdx?_cons]
      by_cases hequal : h.equal k key = true
      · rw [if_pos hequal, if_pos hequal]
        rfl
      · rw [if_neg hequal, if_neg hequal, ih]
        cases (rest.map Prod.fst).findIdx? (h.equal · key) with
        | none => rfl
        | some place => rfl

namespace Grouping

variable {s : Grouping}

/-- The keys of the groups. -/
def keys (s : Grouping) : List Value :=
  s.groups.map Prod.fst

/-- Each group has its place under the digest of its key. -/
def IsIndexed (digest : List Trait → UInt64) (h : Heap) (s : Grouping) : Prop :=
  s.places = s.keys.zipIdx.map fun (k, place) => (digest (k.traits h), place)

/-- **The group found under the digest of a key is the first one with that key.** -/
theorem find?_bucket (hs : s.IsIndexed digest h) (key : Value) :
    (s.bucket (digest (key.traits h))).find? (s.hasKeyAt h key) = s.keys.findIdx? (h.equal · key) := by
  rw [bucket, hs, List.filterMap_map, List.find?_filterMap, List.findIdx?_eq_fst_find?_zipIdx]
  -- a group with the key has its digest
  have hfound : ∀ entry ∈ s.keys.zipIdx, Option.any (s.hasKeyAt h key)
      (if digest (entry.1.traits h) = digest (key.traits h) then some entry.2 else none) =
        h.equal entry.1 key := by
    intro entry hentry
    have hplace : (s.groups[entry.2]?).map Prod.fst = some entry.1 := by
      rw [← List.getElem?_map]
      exact List.mem_zipIdx_iff_getElem?.1 hentry
    obtain ⟨group, hgroup, hkey⟩ := Option.map_eq_some_iff.1 hplace
    by_cases hdigest : digest (entry.1.traits h) = digest (key.traits h)
    · rw [if_pos hdigest, Option.any_some, hasKeyAt, hgroup, ← hkey]
      rfl
    · rw [if_neg hdigest]
      exact (Bool.eq_false_iff.2 fun hequal =>
        hdigest (congrArg digest (Heap.traits_eq_of_equal hequal))).symm
  refine (congrArg (Option.bind · _) (List.find?_congr hfound)).trans ?_
  cases hfirst : s.keys.zipIdx.find? fun entry => h.equal entry.1 key with
  | none => rfl
  | some entry =>
      have hequal := List.find?_some hfirst
      exact if_pos (congrArg digest (Heap.traits_eq_of_equal hequal))

theorem map_fst_modify (groups : List (Value × List Value)) (place : Nat) (row : Value) :
    (groups.modify place fun (k, members) => (k, members ++ [row])).map Prod.fst = groups.map Prod.fst := by
  refine List.ext_getElem? fun i => ?_
  rw [List.getElem?_map, List.getElem?_map, List.getElem?_modify]
  cases groups[i]? with
  | none => rfl
  | some group =>
      show some (if place = i then _ else group).1 = some group.1
      split
      · rfl
      · rfl

/-- Putting a row into a group does what a search does, and each group keeps its place. -/
theorem put_eq (hs : s.IsIndexed digest h) (key row : Value) :
    (s.put h digest key row).groups = putInFirst h key row s.groups ∧
      (s.put h digest key row).IsIndexed digest h := by
  rw [put, find?_bucket hs, putInFirst_eq, ← keys]
  cases s.keys.findIdx? (h.equal · key) with
  | none =>
      refine ⟨rfl, ?_⟩
      show s.places ++ _ = (((s.groups ++ [(key, [row])]).map Prod.fst).zipIdx).map _
      rw [hs, List.map_append, List.zipIdx_append, List.map_append, Nat.zero_add, List.length_map]
      rfl
  | some place =>
      refine ⟨rfl, ?_⟩
      show s.places = (((s.groups.modify place _).map Prod.fst).zipIdx).map _
      rw [map_fst_modify]
      exact hs

end Grouping

theorem intoGroups_eq {s : Grouping} (hs : s.IsIndexed digest h) (rows : List Value) :
    (intoGroups g h digest l s rows).map Grouping.groups = searchInto g h l s.groups rows := by
  induction rows generalizing s with
  | nil => rfl
  | cons row rest ih =>
      rw [intoGroups, searchInto]
      cases l.eval g h row with
      | error e => rfl
      | ok k =>
          obtain ⟨hgroups, hplaces⟩ := Grouping.put_eq hs k row
          have hrest := ih hplaces
          rw [hgroups] at hrest
          exact hrest

/-- **Grouping by a digest is grouping by search**, whatever the digest. -/
theorem groupByDigest_eq_search (digest : List Trait → UInt64) (rows : List Value) :
    groupByDigest g h digest l rows = groupBySearch g h l rows := by
  have hempty : Grouping.empty.IsIndexed digest h := rfl
  have hinto := intoGroups_eq (g := g) (l := l) hempty rows
  rw [groupByDigest, groupBySearch]
  show _ = (searchInto g h l Grouping.empty.groups rows).map _
  rw [← hinto]
  cases intoGroups g h digest l .empty rows with
  | error e => rfl
  | ok s => rfl

/-! ## Classes -/

variable {ι : Type} {same : ι → ι → Prop} {items : List ι} {classes : List (ι × List ι)} {i : ι}

/-- The members of a class, the first one before the others. -/
def members (c : ι × List ι) : List ι :=
  c.1 :: c.2

/-- **Items are gathered in classes** of what is the same as the first member. -/
structure Gathers (same : ι → ι → Prop) (items : List ι) (classes : List (ι × List ι)) : Prop where
  /-- Each item is in exactly one class, and there once. -/
  once : (classes.flatMap members).Perm items
  /-- The members of a class come in the order of the items. -/
  inOrder : ∀ c ∈ classes, (members c).Sublist items
  /-- The classes come in the order of their first members. -/
  firstSeen : (classes.map Prod.fst).Sublist items
  alike : ∀ c ∈ classes, ∀ i ∈ c.2, same c.1 i
  apart : (classes.map Prod.fst).Pairwise fun i j => ¬same i j

open Classical in
/-- Puts an item into the first class of what is the same, or into a new class at the end. -/
noncomputable def gather (same : ι → ι → Prop) (i : ι) : List (ι × List ι) → List (ι × List ι)
  | [] => [(i, [])]
  | c :: rest => if same c.1 i then (c.1, c.2 ++ [i]) :: rest else c :: gather same i rest

/-- An item comes behind the others of a class, or makes a class of its own. -/
theorem gather_eq (same : ι → ι → Prop) (i : ι) (classes : List (ι × List ι)) :
    (∃ before c after, classes = before ++ c :: after ∧ same c.1 i ∧
      gather same i classes = before ++ (c.1, c.2 ++ [i]) :: after) ∨
    (∀ c ∈ classes, ¬same c.1 i) ∧ gather same i classes = classes ++ [(i, [])] := by
  induction classes with
  | nil => exact Or.inr ⟨List.forall_mem_nil _, rfl⟩
  | cons c rest ih =>
      rw [gather]
      by_cases hsame : same c.1 i
      · rw [if_pos hsame]
        exact Or.inl ⟨[], c, rest, rfl, hsame, rfl⟩
      · rw [if_neg hsame]
        rcases ih with ⟨before, d, after, rfl, hd, heq⟩ | ⟨hnone, heq⟩
        · exact Or.inl ⟨c :: before, d, after, rfl, hd, congrArg (c :: ·) heq⟩
        · exact Or.inr ⟨List.forall_mem_cons.2 ⟨hsame, hnone⟩, congrArg (c :: ·) heq⟩

/-- One more item leaves all items gathered. -/
theorem Gathers.put (hg : Gathers same items classes) (i : ι) :
    Gathers same (items ++ [i]) (gather same i classes) := by
  have hlonger : ∀ {part : List ι}, part.Sublist items → part.Sublist (items ++ [i]) :=
    fun hpart => hpart.trans (List.sublist_append_left items [i])
  rcases gather_eq same i classes with ⟨before, c, after, rfl, hsame, heq⟩ | ⟨hnone, heq⟩
  · rw [heq]
    have hfirsts : (before ++ (c.1, c.2 ++ [i]) :: after).map Prod.fst =
        (before ++ c :: after).map Prod.fst := by
      rw [List.map_append, List.map_append, List.map_cons, List.map_cons]
    have hold : ∀ d ∈ before ++ (c.1, c.2 ++ [i]) :: after,
        d = (c.1, c.2 ++ [i]) ∨ d ∈ before ++ c :: after := by
      intro d hd
      rw [List.mem_append, List.mem_cons] at hd ⊢
      tauto
    have hc : c ∈ before ++ c :: after := List.mem_append_right _ List.mem_cons_self
    exact {
      once := by
        have honce := hg.once
        rw [List.flatMap_append, List.flatMap_cons] at honce ⊢
        refine List.Perm.trans ?_ (honce.append_right [i])
        rw [List.append_assoc, List.append_assoc]
        refine List.Perm.append_left _ ?_
        show (members c ++ [i] ++ _).Perm _
        rw [List.append_assoc]
        exact List.Perm.append_left _ List.perm_append_comm
      inOrder := by
        intro d hd
        rcases hold d hd with rfl | hd
        · exact (hg.inOrder c hc).append (List.Sublist.refl [i])
        · exact hlonger (hg.inOrder d hd)
      firstSeen := by
        rw [hfirsts]
        exact hlonger hg.firstSeen
      alike := by
        intro d hd
        rcases hold d hd with rfl | hd
        · exact List.forall_mem_append.2 ⟨hg.alike c hc, List.forall_mem_singleton.2 hsame⟩
        · exact hg.alike d hd
      apart := by
        rw [hfirsts]
        exact hg.apart }
  · rw [heq]
    have hfirsts : (classes ++ [(i, [])]).map Prod.fst = classes.map Prod.fst ++ [i] :=
      List.map_append
    exact {
      once := by
        rw [List.flatMap_append]
        exact hg.once.append_right [i]
      inOrder := List.forall_mem_append.2 ⟨fun d hd => hlonger (hg.inOrder d hd),
        List.forall_mem_singleton.2 (List.sublist_append_right items [i])⟩
      firstSeen := by
        rw [hfirsts]
        exact hg.firstSeen.append (List.Sublist.refl [i])
      alike := List.forall_mem_append.2 ⟨hg.alike,
        List.forall_mem_singleton.2 (List.forall_mem_nil _)⟩
      apart := by
        rw [hfirsts, List.pairwise_append]
        refine ⟨hg.apart, List.pairwise_singleton _ i, fun first hfirst => ?_⟩
        obtain ⟨c, hc, rfl⟩ := List.mem_map.1 hfirst
        exact List.forall_mem_singleton.2 (hnone c hc) }

/-- **Two items are in one class exactly if they are the same**, for an equivalence. -/
theorem Gathers.shared (hg : Gathers same items classes) (he : Equivalence same) {i j : ι} (hi : i ∈ items)
    (hj : j ∈ items) : (∃ c ∈ classes, i ∈ members c ∧ j ∈ members c) ↔ same i j := by
  have hfirst : ∀ c ∈ classes, ∀ k ∈ members c, same c.1 k := fun c hc =>
    List.forall_mem_cons.2 ⟨he.refl c.1, hg.alike c hc⟩
  have hclass : ∀ k ∈ items, ∃ c ∈ classes, k ∈ members c := fun k hk =>
    List.mem_flatMap.1 (hg.once.mem_iff.2 hk)
  refine ⟨fun ⟨c, hc, hic, hjc⟩ => ?_, fun hij => ?_⟩
  · exact he.trans (he.symm (hfirst c hc i hic)) (hfirst c hc j hjc)
  · obtain ⟨c, hc, hic⟩ := hclass i hi
    obtain ⟨d, hd, hjd⟩ := hclass j hj
    have hcd : same c.1 d.1 :=
      he.trans (hfirst c hc i hic) (he.trans hij (he.symm (hfirst d hd j hjd)))
    -- the first members of different classes differ
    obtain rfl : c = d := by
      by_contra hne
      have hsymm : Std.Symm fun c d : ι × List ι => ¬same c.1 d.1 :=
        ⟨fun _ _ hnot hback => hnot (he.symm hback)⟩
      exact (List.pairwise_map.1 hg.apart).forall hc hd hne hcd
    exact ⟨c, hc, hic, hjd⟩

/-! ## What grouping makes of rows -/

section Numbered

variable {row key : ι → Value}

/-- The group of a class of numbered rows. -/
def groupOf (row key : ι → Value) (c : ι × List ι) : Value × List Value :=
  (key c.1, (members c).map row)

theorem putInFirst_map (i : ι) (classes : List (ι × List ι)) :
    putInFirst h (key i) (row i) (classes.map (groupOf row key)) =
      (gather (fun i j => h.equal (key i) (key j) = true) i classes).map (groupOf row key) := by
  induction classes with
  | nil => rfl
  | cons c rest ih =>
      rw [List.map_cons, gather, groupOf, putInFirst]
      by_cases hequal : h.equal (key c.1) (key i) = true
      · rw [if_pos hequal, if_pos hequal, List.map_cons, groupOf, members, members, ← List.cons_append,
          List.map_append]
        rfl
      · rw [if_neg hequal, if_neg hequal, ih]
        rfl

theorem exists_classes {todo : List ι} (hkey : ∀ i ∈ todo, l.eval g h (row i) = .ok (key i))
    (hg : Gathers (fun i j => h.equal (key i) (key j) = true) items classes) :
    ∃ classes', Gathers (fun i j => h.equal (key i) (key j) = true) (items ++ todo) classes' ∧
      searchInto g h l (classes.map (groupOf row key)) (todo.map row) =
        .ok (classes'.map (groupOf row key)) := by
  induction todo generalizing items classes with
  | nil =>
      rw [List.append_nil]
      exact ⟨classes, hg, rfl⟩
  | cons i rest ih =>
      obtain ⟨hi, hrest⟩ := List.forall_mem_cons.1 hkey
      obtain ⟨classes', hclasses', hsearch⟩ := ih hrest (hg.put i)
      rw [List.append_assoc] at hclasses'
      refine ⟨classes', hclasses', ?_⟩
      rw [List.map_cons, searchInto, hi, ← hsearch, ← putInFirst_map]
      rfl

end Numbered

/-- **Grouping partitions rows by the equality of their keys.** Let the key of each row be computed without
failure, and hold no floats as deep as one looks. There are classes of the numbers of the rows: each number
is in one class, two are in one class exactly if their keys are equal, and classes and their members come in
the order of the rows. Grouping by any digest answers the group of each class, with the key of its first
row, and so does a search through all groups for each row. -/
theorem groups_of_equal_keys {S : ObjectId → Prop} (hS : h.IsClosed S) {rows : List Value}
    {key : Fin rows.length → Value} (hkey : ∀ i, l.eval g h (rows.get i) = .ok (key i))
    (hfree : ∀ i, (key i).FloatFree S) :
    ∃ classes : List (Fin rows.length × List (Fin rows.length)),
      Gathers (fun i j => h.equal (key i) (key j) = true) (List.finRange rows.length) classes ∧
      (∀ i j, (∃ c ∈ classes, i ∈ members c ∧ j ∈ members c) ↔ h.equal (key i) (key j) = true) ∧
      (∀ digest, groupByDigest g h digest l rows =
        .ok (classes.map fun c => .group (key c.1) ((members c).map rows.get))) ∧
      groupBySearch g h l rows =
        .ok (classes.map fun c => .group (key c.1) ((members c).map rows.get)) := by
  have hnone : Gathers (fun i j => h.equal (key i) (key j) = true) [] [] :=
    ⟨List.Perm.refl [], List.forall_mem_nil _, List.Sublist.refl [], List.forall_mem_nil _, List.Pairwise.nil⟩
  have hall : ∀ i ∈ List.finRange rows.length, l.eval g h (rows.get i) = .ok (key i) := fun i _ => hkey i
  obtain ⟨classes, hclasses, hsearch⟩ := exists_classes hall hnone
  rw [List.map_nil, List.map_get_finRange] at hsearch
  have hgroups : groupBySearch g h l rows =
      .ok (classes.map fun c => .group (key c.1) ((members c).map rows.get)) := by
    rw [groupBySearch, hsearch]
    show Except.ok ((classes.map (groupOf rows.get key)).map _) = _
    rw [List.map_map]
    rfl
  have he : Equivalence fun i j => h.equal (key i) (key j) = true :=
    ⟨fun i => Heap.equal_refl hS (hfree i), fun {i j} => Heap.equal_symm hS (hfree i) (hfree j),
      fun {i j k} => Heap.equal_trans hS (hfree i) (hfree j) (hfree k)⟩
  refine ⟨classes, hclasses, fun i j => ?_, fun digest => ?_, hgroups⟩
  · exact hclasses.shared he (List.mem_finRange i) (List.mem_finRange j)
  · rw [groupByDigest_eq_search, hgroups]

/-- Two critters that refer to themselves, and are equal. -/
def narcissists : Heap :=
  ⟨#[⟨⟨0⟩, [("Idol", .object ⟨0⟩)]⟩, ⟨⟨0⟩, [("Idol", .object ⟨1⟩)]⟩], #[]⟩

/-- Four fans, two of whom have equal idols. -/
def fans : List Value :=
  [.object ⟨0⟩, .null, .object ⟨1⟩, .list [.null]].map fun idol => .map [("Idol", idol)]

/-- The idol of each of the fans. -/
def idolOf (i : Fin fans.length) : Value :=
  [.object ⟨0⟩, .null, .object ⟨1⟩, .list [.null]].get i

theorem groups_of_fans :
    ∃ classes : List (Fin fans.length × List (Fin fans.length)),
      (∀ i j, (∃ c ∈ classes, i ∈ members c ∧ j ∈ members c) ↔
        narcissists.equal (idolOf i) (idolOf j) = true) ∧
      ∀ digest, groupByDigest ⟨.empty, .empty⟩ narcissists digest ⟨"fan", .member (.param "fan") "Idol"⟩ fans =
        .ok (classes.map fun c => .group (idolOf c.1) ((members c).map fans.get)) := by
  have hclosed : narcissists.IsClosed (·.index < 2) := by
    rintro ⟨index⟩ hindex entry hentry
    obtain rfl | rfl : index = 0 ∨ index = 1 := by
      have hlt : index < 2 := hindex
      omega
    · obtain rfl := List.mem_singleton.1 hentry
      exact .object Nat.zero_lt_two
    · obtain rfl := List.mem_singleton.1 hentry
      exact .object Nat.one_lt_two
  have hkey : ∀ i : Fin fans.length, Lambda.eval ⟨.empty, .empty⟩ narcissists
      ⟨"fan", .member (.param "fan") "Idol"⟩ (fans.get i) = .ok (idolOf i)
    | ⟨0, _⟩ | ⟨1, _⟩ | ⟨2, _⟩ | ⟨3, _⟩ => rfl
  have hfree : ∀ i : Fin fans.length, (idolOf i).FloatFree (·.index < 2)
    | ⟨0, _⟩ => .object Nat.zero_lt_two
    | ⟨1, _⟩ => .null
    | ⟨2, _⟩ => .object Nat.one_lt_two
    | ⟨3, _⟩ => .list (List.forall_mem_singleton.2 .null)
  obtain ⟨classes, -, hshared, hdigest, -⟩ := groups_of_equal_keys hclosed hkey hfree
  exact ⟨classes, hshared, hdigest⟩

end Rows

end ResourceQuery
