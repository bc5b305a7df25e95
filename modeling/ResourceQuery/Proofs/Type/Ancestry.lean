import ResourceQuery.Proofs.Type.Assignability
import ResourceQuery.Proofs.Type.Declarations

set_option autoImplicit false

/-! # The types above a type

Whether a type may be assigned to another is found out by going up from base to base. That this ends, and that two
types are not above each other, is not due to the search: it would go round for ever in a table with a cycle of
bases. There is none, since a base is what the name of the declared base leads to, however and whenever it was
resolved, and along the names each type is passed once. So the types above a type are, one by one, those that the
names in its inheritance chain lead to (`TypeGraph.IsReached.climb_eq`), and the way up ends with the chain.

From this follow that the search always has an answer (`TypeGraph.Search`), that assignability is an order but for
the untyped slot, which accepts everything, and what the targets and the subtypes of a type are
(`TypeGraph.assignability_orders_types`).
-/

namespace ResourceQuery

namespace TypeGraph

variable {g : TypeGraph} {r : Registry} {target candidate id : TypeId} {d : Descriptor} {m : Members}
  {source : SourceType} {upper chain : List SourceType} {answer : Bool}

/-! ## The search -/

/-- The search for `target` from a type upwards, up to its answer: whether the type is `target`, else whether its
base is found to inherit from `target`, if it has a base. -/
inductive Search (g : TypeGraph) (target : TypeId) : (candidate : TypeId) → (answer : Bool) → Prop
  | found : Search g target target true
  | up {candidate base : TypeId} {answer : Bool} (hne : candidate ≠ target) (hbase : g.above? candidate = some base)
      (rest : Search g target base answer) : Search g target candidate answer
  | top {candidate : TypeId} (hne : candidate ≠ target) (htop : g.above? candidate = none) :
      Search g target candidate false

/-- Where the way up ends, the search does. -/
theorem exists_search {n : Nat} (hend : g.climb n candidate = none) (target : TypeId) :
    ∃ answer, g.Search target candidate answer := by
  induction n generalizing candidate with
  | zero => cases hend
  | succ n ih =>
      by_cases hsame : candidate = target
      · exact ⟨true, hsame ▸ .found⟩
      · cases habove : g.above? candidate with
        | none => exact ⟨false, .top hsame habove⟩
        | some base =>
            rw [climb, habove] at hend
            obtain ⟨answer, hsearch⟩ := ih hend
            exact ⟨answer, .up hsame habove hsearch⟩

/-- The search finds what is above. -/
theorem Search.eq_true_iff (h : g.Search target candidate answer) :
    answer = true ↔ ∃ n, g.climb n candidate = some target := by
  induction h with
  | found => exact iff_of_true rfl ⟨0, rfl⟩
  | up hne hbase _ ih =>
      rw [ih]
      constructor
      · rintro ⟨n, hn⟩
        exact ⟨n + 1, by rw [climb, hbase]; exact hn⟩
      · rintro ⟨n, hn⟩
        cases n with
        | zero => exact absurd (Option.some.inj hn) hne
        | succ n =>
            rw [climb, hbase] at hn
            exact ⟨n, hn⟩
  | top hne htop =>
      refine iff_of_false Bool.false_ne_true ?_
      rintro ⟨n, hn⟩
      cases n with
      | zero => exact hne (Option.some.inj hn)
      | succ n =>
          rw [climb, htop] at hn
          cases hn

/-- No way up from a type comes back to it, if it ends. -/
theorem eq_zero_of_climb_self {n k : Nat} (hself : g.climb k id = some id) (hend : g.climb n id = none) : k = 0 := by
  by_contra hk
  -- going round often enough gets beyond the end
  have hround : ∀ times, g.climb (times * k) id = some id := by
    intro times
    induction times with
    | zero => rw [Nat.zero_mul, climb]
    | succ times ih => rw [Nat.succ_mul, climb_add, ih, Option.bind_some, hself]
  have hle : n ≤ n * k := Nat.le_mul_of_pos_right n (Nat.pos_of_ne_zero hk)
  have hbeyond := hround n
  rw [← Nat.add_sub_cancel' hle, climb_add, hend] at hbeyond
  cases hbeyond

/-! ## Chains -/

/-- The name of the source type leads to the type `id`, which has members. -/
def LeadsTo (g : TypeGraph) (source : SourceType) (id : TypeId) : Prop :=
  g.table.byNative.lookup (.named source.name) = some id ∧
    ∃ d, g.table.get? id = some d ∧ d.name = source.name ∧ d.members?.isSome = true

/-- The type is the source type, or an instance of it. -/
def IsInstanceOf (g : TypeGraph) (r : Registry) (source : SourceType) (id : TypeId) : Prop :=
  ∃ native, native.definition? = some source.name ∧ r.sourceType? source.name = some source ∧
    g.table.byNative.lookup native = some id

theorem above?_eq_base (hd : g.table.get? id = some d) (hm : d.members? = some m) : g.above? id = m.base := by
  rw [above?, hd, Option.bind_some, Descriptor.base?, hm, Option.bind_some]

/-- What the name of a source type leads to is made from it. -/
theorem IsReached.exists_made (hr : r.IsBuilt) (h : g.IsReached r) (hsource : r.sourceType? source.name = some source)
    (hchain : r.inheritanceChain source.name = .ok chain)
    (hlookup : g.table.byNative.lookup (.named source.name) = some id) :
    g.LeadsTo source id ∧ ∃ d m, g.table.get? id = some d ∧ d.members? = some m ∧
      g.table.IsMadeFrom r m source chain := by
  obtain ⟨d, hd⟩ := h.consistent.exists_of_lookup hlookup
  obtain ⟨hname, chain', s, hchain', hrun⟩ := h.explained.exists_chain_of_named hsource
    (hr.enumMembers?_eq_none (by rw [hsource]; rfl)) hlookup hd
  rw [hchain] at hchain'
  cases hchain'
  obtain ⟨m, hm, hmade⟩ := TypeTable.isMadeFrom_of_sourceContents hchain hrun rfl
  exact ⟨⟨hlookup, d, hd, hname, by rw [hm]; rfl⟩, d, m, hd, hm, hmade⟩

theorem IsInstanceOf.sourceType? (h : g.IsInstanceOf r source id) : r.sourceType? source.name = some source := by
  obtain ⟨native, -, hsource, -⟩ := h
  exact hsource

/-- **The types above a type are those that the names in its chain lead to**, the last one first. -/
theorem IsReached.climb_eq (hr : r.IsBuilt) (h : g.IsReached r) (hsource : r.sourceType? source.name = some source)
    (hd : g.table.get? id = some d) (hm : d.members? = some m)
    (hmade : g.table.IsMadeFrom r m source (upper ++ [source])) :
    ∃ ids, List.Forall₂ g.LeadsTo upper ids ∧ ∀ n, g.climb n id = (id :: ids.reverse)[n]? := by
  have habove := above?_eq_base hd hm
  -- the chain gets shorter at its end, as the way up goes on
  induction upper using List.reverseRecOn generalizing id d m source with
  | nil =>
      rcases hmade.base_cases hr.keyedByName hsource with ⟨hnone, -⟩ | ⟨b, root, rest, -, hchain, -⟩
      · refine ⟨[], .nil, fun n => ?_⟩
        cases n with
        | zero => rfl
        | succ n =>
            rw [climb, habove, hnone]
            rfl
      · have hlength := congrArg List.length hchain
        simp at hlength
  | append_singleton upper last ih =>
      rcases hmade.base_cases hr.keyedByName hsource with
        ⟨-, hchain⟩ | ⟨b, root, rest, hb, hchain, hroot, hupper, hlookup⟩
      · have hlength := congrArg List.length hchain
        simp at hlength
      · obtain ⟨rfl, hlast⟩ := List.append_inj' (List.append_cancel_right hchain) rfl
        cases hlast
        obtain ⟨hleads, base, n, hbase, hn, hmadeBase⟩ := h.exists_made hr hroot hupper hlookup
        obtain ⟨ids, hids, hclimb⟩ := ih hroot hbase hn hmadeBase (above?_eq_base hbase hn)
        refine ⟨ids ++ [b], List.rel_append hids (.cons hleads .nil), fun steps => ?_⟩
        cases steps with
        | zero => rfl
        | succ steps =>
            rw [climb, habove, hb, List.reverse_append]
            exact hclimb steps

/-- An instance of a source type has members, and is made from it. -/
theorem IsInstanceOf.exists_made (hr : r.IsBuilt) (h : g.IsReached r) (hinstance : g.IsInstanceOf r source id) :
    ∃ d m upper, g.table.get? id = some d ∧ d.members? = some m ∧
      g.table.IsMadeFrom r m source (upper ++ [source]) := by
  obtain ⟨native, hnative, hsource, hlookup⟩ := hinstance
  obtain ⟨d, hd⟩ := h.consistent.exists_of_lookup hlookup
  obtain ⟨m, chain, hm, hmade⟩ := h.explained.isMadeFrom_of_definition hnative hsource
    (hr.enumMembers?_eq_none (by rw [hsource]; rfl)) hlookup hd
  obtain ⟨upper, rfl, -⟩ := Registry.exists_upper_of_inheritanceChain hsource hmade.inheritance
  exact ⟨d, m, upper, hd, hm, hmade⟩

/-- Every type with members is an instance of a source type. -/
theorem IsReached.exists_isInstanceOf (hr : r.IsBuilt) (h : g.IsReached r) (hd : g.table.get? id = some d)
    (hm : d.members? = some m) : ∃ source, g.IsInstanceOf r source id := by
  obtain ⟨native, key, source, chain, hlookup, hnative, hsource, -⟩ := h.explained.exists_isMadeFrom hd hm
  obtain rfl := hr.keyedByName key source hsource
  exact ⟨source, native, hnative, hsource, hlookup⟩

/-- **Every way up ends.** -/
theorem IsReached.exists_climb_eq_none (hr : r.IsBuilt) (h : g.IsReached r) (id : TypeId) :
    ∃ n, g.climb n id = none := by
  cases hbase : g.above? id with
  | none => exact ⟨1, by rw [climb, hbase]; rfl⟩
  | some base =>
      obtain ⟨d, hd, hbase⟩ := Option.bind_eq_some_iff.mp hbase
      obtain ⟨m, hm, -⟩ := Option.bind_eq_some_iff.mp hbase
      obtain ⟨source, hinstance⟩ := h.exists_isInstanceOf hr hd hm
      obtain ⟨d, m, upper, hd, hm, hmade⟩ := hinstance.exists_made hr h
      obtain ⟨ids, -, hclimb⟩ := h.climb_eq hr hinstance.sourceType? hd hm hmade
      exact ⟨(id :: ids.reverse).length, by rw [hclimb, List.getElem?_eq_none (Nat.le_refl _)]⟩

/-! ## The untyped slot -/

theorem IsReached.isAny_iff (hr : r.IsBuilt) (h : g.IsReached r) :
    (g.table.get? target).any (·.isAny) = true ↔ target = valueType .any := by
  constructor
  · intro hany
    cases hd : g.table.get? target with
    | none =>
        rw [hd] at hany
        cases hany
    | some d =>
        rw [hd, Option.any_some] at hany
        obtain ⟨-, hlookup⟩ := (h.sound hr.keyedByName).untyped target d hd hany
        exact Option.some.inj (hlookup.symm.trans (h.lookup_value .any))
  · rintro rfl
    rw [h.startsWithValues .any]
    rfl

theorem IsReached.isAssignable_iff_of_ne (hr : r.IsBuilt) (h : g.IsReached r) (hne : target ≠ valueType .any) :
    g.isAssignable target candidate = true ↔ ∃ n, g.climb n candidate = some target := by
  rw [isAssignable_iff, h.isAny_iff hr, or_iff_right hne]

/-- **Types are not above each other.** -/
theorem IsReached.isAssignable_antisymm (hr : r.IsBuilt) (h : g.IsReached r) (htarget : target ≠ valueType .any)
    (hcandidate : candidate ≠ valueType .any) (hdown : g.isAssignable target candidate = true)
    (hup : g.isAssignable candidate target = true) : target = candidate := by
  obtain ⟨n, hn⟩ := (h.isAssignable_iff_of_ne hr htarget).mp hdown
  obtain ⟨k, hk⟩ := (h.isAssignable_iff_of_ne hr hcandidate).mp hup
  obtain ⟨steps, hend⟩ := h.exists_climb_eq_none hr candidate
  have hself : g.climb (n + k) candidate = some candidate := by rw [climb_add, hn, Option.bind_some, hk]
  obtain rfl : n = 0 := (Nat.add_eq_zero_iff.mp (eq_zero_of_climb_self hself hend)).1
  exact (Option.some.inj hn).symm

/-! ## Subtypes -/

/-- Descriptors that have the numbers of their slots are ordered by number. -/
theorem pairwise_of_numbered {slots : List (Option Descriptor)} (start : Nat)
    (h : ∀ (i : Nat) (d : Descriptor), slots[i]? = some (some d) → d.id.index = start + i) :
    (slots.filterMap fun slot => slot).Pairwise fun d e => d.id.index < e.id.index := by
  induction slots generalizing start with
  | nil => exact .nil
  | cons slot rest ih =>
      have hrest : ∀ (i : Nat) (d : Descriptor), rest[i]? = some (some d) → d.id.index = start + 1 + i := by
        intro i d hd
        rw [h (i + 1) d hd, Nat.add_assoc, Nat.add_comm i 1]
      cases slot with
      | none => exact ih (start + 1) hrest
      | some d =>
          refine List.pairwise_cons.mpr ⟨fun e he => ?_, ih (start + 1) hrest⟩
          obtain ⟨slot, hslot, rfl⟩ := List.mem_filterMap.mp he
          obtain ⟨i, hi⟩ := List.mem_iff_getElem?.mp hslot
          rw [h 0 d rfl, hrest i e hi]
          omega

theorem id_eq_of_get? (hg : g.table.IsConsistent) (hd : g.table.get? id = some d) : d.id = id := by
  obtain ⟨e, he, hid⟩ := hg.slots id.index (TypeTable.lt_of_get? hd)
  rw [hd] at he
  cases he
  exact hid

theorem pairwise_types (hg : g.table.IsConsistent) : g.types.Pairwise fun d e => d.id.index < e.id.index := by
  refine pairwise_of_numbered 0 fun i d hd => ?_
  have hget : g.table.get? ⟨i⟩ = some d := by
    rw [Array.getElem?_toList] at hd
    rw [TypeTable.get?, hd, Option.join_some]
  rw [id_eq_of_get? hg hget, Nat.zero_add]

theorem mem_subTypes (hg : g.table.IsConsistent) : candidate ∈ g.subTypes id ↔
    candidate ≠ id ∧ (∃ d, g.table.get? candidate = some d ∧ d.members?.isSome = true) ∧
      g.isAssignable id candidate = true := by
  simp only [subTypes, List.mem_map, List.mem_filter, Bool.and_eq_true, decide_eq_true_eq]
  constructor
  · rintro ⟨d, ⟨hd, ⟨hmembers, hne⟩, hassignable⟩, rfl⟩
    obtain ⟨other, hother⟩ := exists_of_mem_types hd
    obtain rfl := id_eq_of_get? hg hother
    exact ⟨hne, ⟨d, hother, hmembers⟩, hassignable⟩
  · rintro ⟨hne, ⟨d, hd, hmembers⟩, hassignable⟩
    obtain rfl := id_eq_of_get? hg hd
    exact ⟨d, ⟨mem_types hd, ⟨hmembers, hne⟩, hassignable⟩, rfl⟩

/-- **Assignability orders the types of a graph**, whatever was asked of it, if nothing was declared twice. The
search for a type always has an answer. But for the untyped slot, which accepts every type, the relation is
reflexive, transitive and antisymmetric. Each type with members is an instance of a declaration; what it may be
assigned to are the types in the inheritance chain of that; and the subtypes of a type are, by number, the other
types with members that may be assigned to it. -/
theorem assignability_orders_types (hr : r.IsBuilt) (h : g.IsReached r) :
    (∀ target candidate, ∃ answer, g.Search target candidate answer ∧
      g.isAssignable target candidate = (decide (target = valueType .any) || answer)) ∧
    (∀ id, g.isAssignable id id = true) ∧
    (∀ target between candidate, g.isAssignable target between = true → g.isAssignable between candidate = true →
      g.isAssignable target candidate = true) ∧
    (∀ target candidate, target ≠ valueType .any → candidate ≠ valueType .any →
      g.isAssignable target candidate = true → g.isAssignable candidate target = true → target = candidate) ∧
    (∀ candidate, g.isAssignable (valueType .any) candidate = true) ∧
    (∀ id d m, g.table.get? id = some d → d.members? = some m → ∃ source, g.IsInstanceOf r source id) ∧
    (∀ source id, g.IsInstanceOf r source id → ∃ upper ids,
      r.inheritanceChain source.name = .ok (upper ++ [source]) ∧ List.Forall₂ g.LeadsTo upper ids ∧
        ∀ target, target ≠ valueType .any → (g.isAssignable target id = true ↔ target ∈ ids ++ [id])) ∧
    ∀ id, (g.subTypes id).Pairwise (fun i j => i.index < j.index) ∧ ∀ candidate, candidate ∈ g.subTypes id ↔
      candidate ≠ id ∧ (∃ d, g.table.get? candidate = some d ∧ d.members?.isSome = true) ∧
        g.isAssignable id candidate = true := by
  refine ⟨fun target candidate => ?_, fun id => isAssignable_iff.mpr (.inr ⟨0, rfl⟩), fun target between candidate =>
    isAssignable_trans, fun target candidate htarget hcandidate => h.isAssignable_antisymm hr htarget hcandidate,
    fun candidate => isAssignable_iff.mpr (.inl ((h.isAny_iff hr).mpr rfl)),
    fun id d m hd hm => h.exists_isInstanceOf hr hd hm, fun source id hinstance => ?_, fun id => ⟨?_, fun candidate =>
      mem_subTypes h.consistent⟩⟩
  · obtain ⟨n, hend⟩ := h.exists_climb_eq_none hr candidate
    obtain ⟨answer, hsearch⟩ := exists_search hend target
    refine ⟨answer, hsearch, ?_⟩
    rw [Bool.eq_iff_iff, isAssignable_iff, h.isAny_iff hr, Bool.or_eq_true, decide_eq_true_eq, hsearch.eq_true_iff]
  · obtain ⟨d, m, upper, hd, hm, hmade⟩ := hinstance.exists_made hr h
    obtain ⟨ids, hids, hclimb⟩ := h.climb_eq hr hinstance.sourceType? hd hm hmade
    refine ⟨upper, ids, hmade.inheritance, hids, fun target hne => ?_⟩
    rw [h.isAssignable_iff_of_ne hr hne, ← List.mem_reverse, List.reverse_append, List.reverse_singleton,
      List.singleton_append, List.mem_iff_getElem?]
    exact exists_congr fun steps => by rw [hclimb]
  · rw [subTypes, List.pairwise_map]
    exact (pairwise_types h.consistent).filter _

/-- A tree holds branches, and a branch is a tree: it is resolved while its base is under way. -/
def trees : Registry :=
  let tree : SourceType :=
    { SourceType.bare "Tree" .valueObject with properties := [.ofType "Branches" (.list (.named "Branch"))] }
  let branch : SourceType :=
    { SourceType.bare "Branch" .valueObject with base := some "Tree" }
  (Registry.empty.withType tree).withType branch

theorem branch_below_tree : ∃ (g : TypeGraph) (tree branch : TypeId), trees.IsBuilt ∧ g.IsReached trees ∧
    g.table.byNative.lookup (.named "Tree") = some tree ∧ g.table.byNative.lookup (.named "Branch") = some branch ∧
      branch ∈ g.subTypes tree ∧ g.isAssignable branch tree = false := by
  have hbuilt : trees.IsBuilt :=
    (Registry.IsBuilt.empty.register _ (Registry.ifFree_of_isFree (by decide))).register _
      (Registry.ifFree_of_isFree (by decide))
  have hevaluated : ((ofRegistry trees).toOption.bind fun g =>
      (g.table.byNative.lookup (.named "Tree")).bind fun tree =>
        (g.table.byNative.lookup (.named "Branch")).map fun branch =>
          decide (tree ≠ branch ∧ tree ≠ valueType .any ∧ branch ≠ valueType .any ∧ branch ∈ g.subTypes tree)) =
      some true := by decide +kernel
  obtain ⟨g, hg, hevaluated⟩ := Option.bind_eq_some_iff.mp hevaluated
  obtain ⟨tree, htree, hevaluated⟩ := Option.bind_eq_some_iff.mp hevaluated
  obtain ⟨branch, hbranch, hevaluated⟩ := Option.map_eq_some_iff.mp hevaluated
  obtain ⟨hne, htreeTyped, hbranchTyped, hsub⟩ := of_decide_eq_true hevaluated
  have hreached : g.IsReached trees := isReached_of_toOption hg
  obtain ⟨-, -, -, hantisymm, -, -, -, hsubTypes⟩ := assignability_orders_types hbuilt hreached
  refine ⟨g, tree, branch, hbuilt, hreached, htree, hbranch, hsub, Bool.eq_false_iff.mpr fun hup => ?_⟩
  exact hne (hantisymm tree branch htreeTyped hbranchTyped (((hsubTypes tree).2 branch).mp hsub).2.2 hup)

end TypeGraph

end ResourceQuery
