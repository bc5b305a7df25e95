import ResourceQuery.Proofs.Query.Chains

set_option autoImplicit false

/-! # Plans as they take up operators

What is known when a plan has taken up an operator: which operators can have come before, and what the
plan is now. Each operator has one lemma for that (`of_addFilter`, `of_addOrder`, …) and one for the other
way round (`addFilter_of`, `addOrder_of`, …), and no other proof looks at the conditions under which a chain
is rejected.

`Adds` takes up operators one after another; of all that a plan may be asked about its operators, the
marks that they leave are in `Remembers`. So the parts of the plan that say how to answer are those of the
chain (`parts_of_plan`).
-/

namespace ResourceQuery

namespace Plan

variable {p p' : Plan}

/-! ## What a plan takes up -/

theorem of_addFilter {l : Lambda} (hadd : p.addFilter l = .ok p') :
    p.isPaged = false ∧ p.groupBy = none ∧
      p' = { p with filter := some (match p.filter with
        | some existing => existing.andAlso (p.rebase l)
        | none => p.rebase l) } := by
  rw [addFilter] at hadd
  by_cases hpaged : p.isPaged = true
  · rw [if_pos hpaged] at hadd
    cases hadd
  by_cases hgrouped : p.groupBy.isSome = true
  · rw [if_neg hpaged, if_pos hgrouped] at hadd
    cases hadd
  rw [if_neg hpaged, if_neg hgrouped] at hadd
  cases hadd
  exact ⟨Bool.not_eq_true _ ▸ hpaged, Option.not_isSome_iff_eq_none.1 hgrouped, rfl⟩

theorem addFilter_of {l : Lambda} (hpaged : p.isPaged = false) (hgrouped : p.groupBy = none) :
    p.addFilter l = .ok { p with filter := some (match p.filter with
      | some existing => existing.andAlso (p.rebase l)
      | none => p.rebase l) } := by
  rw [addFilter, hpaged, hgrouped]
  rfl

theorem of_addOrder {key : SortKey} (hadd : p.addOrder key = .ok p') :
    p.isPaged = false ∧ p' = { p with orderBy := some ⟨p.rebase key.key, key.direction⟩ } := by
  rw [addOrder] at hadd
  by_cases hpaged : p.isPaged = true
  · rw [if_pos hpaged] at hadd
    cases hadd
  rw [if_neg hpaged] at hadd
  cases hadd
  exact ⟨Bool.not_eq_true _ ▸ hpaged, rfl⟩

theorem addOrder_of {key : SortKey} (hpaged : p.isPaged = false) :
    p.addOrder key = .ok { p with orderBy := some ⟨p.rebase key.key, key.direction⟩ } := by
  rw [addOrder, hpaged]
  rfl

theorem of_addGrouping {key : Lambda} (hadd : p.addGrouping key = .ok p') :
    p.isPaged = false ∧ p.groupBy = none ∧ p.select = none ∧ p.orderBy = none ∧
      p' = { p with groupBy := some key.simplified } := by
  rw [addGrouping] at hadd
  by_cases hgrouped : p.groupBy.isSome = true
  · rw [if_pos hgrouped] at hadd
    cases hadd
  by_cases hpaged : p.isPaged = true
  · rw [if_neg hgrouped, if_pos hpaged] at hadd
    cases hadd
  by_cases hselect : p.select.isSome = true
  · rw [if_neg hgrouped, if_neg hpaged, if_pos hselect] at hadd
    cases hadd
  by_cases horder : p.orderBy.isSome = true
  · rw [if_neg hgrouped, if_neg hpaged, if_neg hselect, if_pos horder] at hadd
    cases hadd
  rw [if_neg hgrouped, if_neg hpaged, if_neg hselect, if_neg horder] at hadd
  cases hadd
  exact ⟨Bool.not_eq_true _ ▸ hpaged, Option.not_isSome_iff_eq_none.1 hgrouped,
    Option.not_isSome_iff_eq_none.1 hselect, Option.not_isSome_iff_eq_none.1 horder, rfl⟩

theorem addGrouping_of {key : Lambda} (hpaged : p.isPaged = false) (hgrouped : p.groupBy = none)
    (hselected : p.select = none) (hordered : p.orderBy = none) :
    p.addGrouping key = .ok { p with groupBy := some key.simplified } := by
  rw [addGrouping, hpaged, hgrouped, hselected, hordered]
  rfl

theorem isSome_of_not_isNone {α : Type} {a : Option α} (h : ¬ a.isNone = true) : a.isSome = true := by
  rw [← Option.not_isSome, Bool.not_eq_true', Bool.not_eq_false] at h
  exact h

theorem of_addSkip {count : UInt64} (hadd : p.addSkip count = .ok p') :
    p.orderBy.isSome = true ∧ p.skip = none ∧
      p' = { p with
        skip := some count
        take := p.take.map fun n => if count ≤ n then n - count else 0 } := by
  rw [addSkip] at hadd
  by_cases horder : p.orderBy.isNone = true
  · rw [if_pos horder] at hadd
    cases hadd
  by_cases hskip : p.skip.isSome = true
  · rw [if_neg horder, if_pos hskip] at hadd
    cases hadd
  rw [if_neg horder, if_neg hskip] at hadd
  cases hadd
  exact ⟨isSome_of_not_isNone horder, Option.not_isSome_iff_eq_none.1 hskip, rfl⟩

theorem addSkip_of {count : UInt64} (hordered : p.orderBy.isSome = true) (hskip : p.skip = none) :
    p.addSkip count = .ok { p with
      skip := some count
      take := p.take.map fun n => if count ≤ n then n - count else 0 } := by
  rw [addSkip, ← Option.not_isSome, hordered, hskip]
  rfl

theorem of_addTake {count : UInt64} (hadd : p.addTake count = .ok p') :
    p.orderBy.isSome = true ∧ p.take = none ∧ p' = { p with take := some count } := by
  rw [addTake] at hadd
  by_cases horder : p.orderBy.isNone = true
  · rw [if_pos horder] at hadd
    cases hadd
  by_cases htake : p.take.isSome = true
  · rw [if_neg horder, if_pos htake] at hadd
    cases hadd
  rw [if_neg horder, if_neg htake] at hadd
  cases hadd
  exact ⟨isSome_of_not_isNone horder, Option.not_isSome_iff_eq_none.1 htake, rfl⟩

theorem addTake_of {count : UInt64} (hordered : p.orderBy.isSome = true) (htake : p.take = none) :
    p.addTake count = .ok { p with take := some count } := by
  rw [addTake, ← Option.not_isSome, hordered, htake]
  rfl

theorem of_addType {type : TypeId} (hadd : p.addType type = .ok p') :
    p.isPaged = false ∧ p.groupBy = none ∧ p.select = none ∧
      p' = { p with ofType := some type } := by
  rw [addType] at hadd
  by_cases hlate : (p.isPaged || p.groupBy.isSome || p.select.isSome) = true
  · rw [if_pos hlate] at hadd
    cases hadd
  rw [if_neg hlate] at hadd
  cases hadd
  rw [Bool.or_eq_true, Bool.or_eq_true, not_or, not_or] at hlate
  exact ⟨Bool.not_eq_true _ ▸ hlate.1.1, Option.not_isSome_iff_eq_none.1 hlate.1.2,
    Option.not_isSome_iff_eq_none.1 hlate.2, rfl⟩

theorem addType_of {type : TypeId} (hpaged : p.isPaged = false) (hgrouped : p.groupBy = none)
    (hselected : p.select = none) : p.addType type = .ok { p with ofType := some type } := by
  rw [addType, hpaged, hgrouped, hselected]
  rfl

theorem of_addExpand {path : Lambda} (hadd : p.addExpand path = .ok p') :
    p.groupBy = none ∧ ∃ text, (p.rebase path).memberPath? = some text ∧
      ∃ expand, p' = { p with expand } ∧
        (expand = p.expand ∧ (p.expand.any fun other => Text.sameIgnoringCase other text) = true ∨
          expand = p.expand ++ [text] ∧
            (p.expand.any fun other => Text.sameIgnoringCase other text) = false) := by
  rw [addExpand] at hadd
  by_cases hgrouped : p.groupBy.isSome = true
  · rw [if_pos hgrouped] at hadd
    cases hadd
  rw [if_neg hgrouped] at hadd
  refine ⟨Option.not_isSome_iff_eq_none.1 hgrouped, ?_⟩
  cases hpath : (p.rebase path).memberPath? with
  | none =>
      rw [hpath] at hadd
      cases hadd
  | some text =>
      rw [hpath] at hadd
      refine ⟨text, rfl, ?_⟩
      dsimp only at hadd
      split at hadd
      · rename_i hknown
        cases hadd
        exact ⟨p.expand, rfl, Or.inl ⟨rfl, hknown⟩⟩
      · rename_i hnew
        cases hadd
        exact ⟨p.expand ++ [text], rfl, Or.inr ⟨rfl, Bool.eq_false_iff.mpr hnew⟩⟩

theorem addExpand_of {path : Lambda} {text : String} (hgrouped : p.groupBy = none)
    (hpath : (p.rebase path).memberPath? = some text) :
    p.addExpand path =
      .ok (if p.expand.any fun other => Text.sameIgnoringCase other text then p
        else { p with expand := p.expand ++ [text] }) := by
  rw [addExpand, hgrouped, hpath]
  dsimp only [Option.isSome_none]
  rw [if_neg Bool.false_ne_true]
  split
  · rfl
  · rfl

/-! ## One operator after another -/

/-- The plan takes up operators one after another. -/
def Adds : Plan → List Operator → Plan → Prop
  | p, [], p' => p = p'
  | p, op :: rest, p' => ∃ between, p.add op = .ok between ∧ Adds between rest p'

/-- An operator with others behind it is added by itself: it is no terminal. -/
theorem exists_of_addAll_cons {op next : Operator} {rest : List Operator}
    (hall : p.addAll (op :: next :: rest) = .ok p') :
    ∃ between, p.add op = .ok between ∧ between.addAll (next :: rest) = .ok p' := by
  cases op with
  | terminal projection argument => cases hall
  | _ =>
      rw [addAll] at hall
      · split at hall
        · rename_i between hadd
          exact ⟨between, hadd, hall⟩
        · cases hall
      · simp
      · simp

theorem addAll_cons_of {op : Operator} {between : Plan} {rest : List Operator}
    (hop : op.isTerminal = false) (hadd : p.add op = .ok between) :
    p.addAll (op :: rest) = between.addAll rest := by
  cases rest with
  | nil => exact hadd
  | cons next rest =>
      rw [addAll, hadd]
      · simp
      · rintro projection argument _ _ rfl
        cases hop

theorem adds_of_addAll {ops : List Operator} (hall : p.addAll ops = .ok p') : Adds p ops p' := by
  induction ops generalizing p with
  | nil =>
      cases hall
      rfl
  | cons op rest ih =>
      cases rest with
      | nil => exact ⟨p', hall, rfl⟩
      | cons next rest =>
          obtain ⟨between, hbetween, hrest⟩ := exists_of_addAll_cons hall
          exact ⟨between, hbetween, ih hrest⟩

theorem Adds.split {first second : List Operator} (ha : Adds p (first ++ second) p') :
    ∃ between, Adds p first between ∧ Adds between second p' := by
  induction first generalizing p with
  | nil => exact ⟨p, rfl, ha⟩
  | cons op rest ih =>
      obtain ⟨next, hadd, ha⟩ := ha
      obtain ⟨between, hrest, hsecond⟩ := ih ha
      exact ⟨between, ⟨next, hadd, hrest⟩, hsecond⟩

/-! ## What a plan remembers of its operators -/

/-- A plan remembers of each operator whether there was one of its kind, the rows that are left out and
the projection. It stays one of the same collection. -/
structure Remembers (p : Plan) (op : Operator) (p' : Plan) : Prop where
  paging : p'.isPaged = (p.isPaged || op.isPaging)
  ordering : p'.orderBy.isSome = (p.orderBy.isSome || op.isOrdering)
  typing : p'.ofType.isSome = (p.ofType.isSome || op.isTyping)
  total : p'.includeTotalCount = (p.includeTotalCount || op.asksTotal)
  skips : p'.skip = op.skipped p.skip
  projects : p'.projection = op.projection p.projection
  source : p'.sourceType = p.sourceType
  path : p'.path = p.path

theorem remembers_of_add {op : Operator} (hadd : p.add op = .ok p') : Remembers p op p' := by
  -- an operator of another kind leaves a mark as it is, one of the kind sets it
  have hsame : ∀ b : Bool, b = (b || false) := fun b => (Bool.or_false b).symm
  have hnew : ∀ b : Bool, true = (b || true) := fun b => (Bool.or_true b).symm
  cases op with
  | where_ l =>
      obtain ⟨-, -, rfl⟩ := of_addFilter hadd
      exact ⟨hsame _, hsame _, hsame _, hsame _, rfl, rfl, rfl, rfl⟩
  | select l =>
      cases hadd
      exact ⟨hsame _, hsame _, hsame _, hsame _, rfl, rfl, rfl, rfl⟩
  | orderBy key =>
      obtain ⟨-, rfl⟩ := of_addOrder hadd
      exact ⟨hsame _, hnew _, hsame _, hsame _, rfl, rfl, rfl, rfl⟩
  | groupBy key =>
      obtain ⟨-, -, -, -, rfl⟩ := of_addGrouping hadd
      exact ⟨hsame _, hsame _, hsame _, hsame _, rfl, rfl, rfl, rfl⟩
  | skip count =>
      obtain ⟨-, -, rfl⟩ := of_addSkip hadd
      exact ⟨hnew _, hsame _, hsame _, hsame _, rfl, rfl, rfl, rfl⟩
  | take count =>
      obtain ⟨-, -, rfl⟩ := of_addTake hadd
      refine ⟨?_, hsame _, hsame _, hsame _, rfl, rfl, rfl, rfl⟩
      show (p.skip.isSome || true) = (p.isPaged || true)
      rw [Bool.or_true, Bool.or_true]
  | ofType type =>
      obtain ⟨-, -, -, rfl⟩ := of_addType hadd
      exact ⟨hsame _, hsame _, hnew _, hsame _, rfl, rfl, rfl, rfl⟩
  | expand path =>
      obtain ⟨-, -, -, expand, rfl, -⟩ := of_addExpand hadd
      exact ⟨hsame _, hsame _, hsame _, hsame _, rfl, rfl, rfl, rfl⟩
  | includeTotalCount =>
      cases hadd
      exact ⟨hsame _, hsame _, hsame _, hnew _, rfl, rfl, rfl, rfl⟩
  | terminal projection argument =>
      cases hadd
      exact ⟨hsame _, hsame _, hsame _, hsame _, rfl, rfl, rfl, rfl⟩

/-- A mark that each operator of a kind leaves tells whether there was one. -/
theorem Adds.mark {mark : Plan → Bool} {kind : Operator → Bool} {ops : List Operator}
    (hmark : ∀ {p : Plan} {op : Operator} {p' : Plan}, Remembers p op p' →
      mark p' = (mark p || kind op))
    (ha : Adds p ops p') : mark p' = (mark p || ops.any kind) := by
  induction ops generalizing p with
  | nil =>
      obtain rfl : p = p' := ha
      rw [List.any_nil, Bool.or_false]
  | cons op rest ih =>
      obtain ⟨between, hadd, ha⟩ := ha
      rw [ih ha, hmark (remembers_of_add hadd), List.any_cons, Bool.or_assoc]

/-- A mark is there at most as often as operators of the kind. -/
theorem Adds.toNat_mark_le {mark : Plan → Bool} {kind : Operator → Bool} {ops : List Operator}
    (hmark : ∀ {p : Plan} {op : Operator} {p' : Plan}, Remembers p op p' →
      mark p' = (mark p || kind op))
    (ha : Adds p ops p') : (mark p').toNat ≤ (mark p).toNat + ops.countP kind := by
  rw [ha.mark hmark]
  cases hany : ops.any kind with
  | false =>
      rw [Bool.or_false]
      exact Nat.le_add_right _ _
  | true =>
      rw [List.any_eq_true, ← List.countP_pos_iff] at hany
      rw [Bool.or_true]
      show 1 ≤ _
      omega

/-- Where there is at most one operator of a kind, none was there before the first, and none comes after
it. -/
theorem once_cons {already : Bool} {kind : Operator → Bool} {op : Operator} {rest : List Operator}
    (honce : already.toNat + (op :: rest).countP kind ≤ 1) :
    (kind op = true → already = false) ∧ (already || kind op).toNat + rest.countP kind ≤ 1 := by
  rw [List.countP_cons] at honce
  cases already with
  | true =>
      have htrue : Bool.toNat true = 1 := rfl
      cases hkind : kind op with
      | true =>
          rw [hkind, if_pos rfl] at honce
          omega
      | false => exact ⟨nofun, by rw [Bool.true_or]; omega⟩
  | false =>
      have hfalse : Bool.toNat false = 0 := rfl
      refine ⟨fun _ => rfl, ?_⟩
      rw [Bool.false_or]
      cases hkind : kind op with
      | true =>
          rw [hkind, if_pos rfl] at honce
          show 1 + _ ≤ 1
          omega
      | false =>
          rw [hkind, if_neg Bool.false_ne_true] at honce
          exact honce

/-- What each operator makes of a part of the plan, all of them make in turn. -/
theorem Adds.fold {α : Type} {part : Plan → α} {effect : α → Operator → α} {ops : List Operator}
    (heffect : ∀ {p : Plan} {op : Operator} {p' : Plan}, Remembers p op p' →
      part p' = effect (part p) op)
    (ha : Adds p ops p') : part p' = ops.foldl effect (part p) := by
  induction ops generalizing p with
  | nil =>
      obtain rfl : p = p' := ha
      rfl
  | cons op rest ih =>
      obtain ⟨between, hadd, ha⟩ := ha
      rw [ih ha, heffect (remembers_of_add hadd), List.foldl_cons]

end Plan

namespace Query

theorem adds_of_plan {q : Query} {p : Plan} (hplan : q.plan = .ok p) :
    Plan.Adds (Plan.ofSource q.elementType q.path) (q.operators.flatMap Operator.steps) p := by
  rw [plan] at hplan
  cases hall : (Plan.ofSource q.elementType q.path).addAll (q.operators.flatMap Operator.steps) with
  | error rejection =>
      rw [hall] at hplan
      cases hplan
  | ok p' =>
      rw [hall] at hplan
      cases hplan
      exact Plan.adds_of_addAll hall

/-- What the plan says of the answer is what the chain says. -/
theorem parts_of_plan {q : Query} {p : Plan} (hplan : q.plan = .ok p) :
    p.projection = q.projection ∧ p.skip = q.skipped ∧
      p.includeTotalCount = q.operators.any Operator.asksTotal := by
  have hadds := adds_of_plan hplan
  refine ⟨?_, ?_, ?_⟩
  · rw [hadds.fold fun hr => hr.projects, List.foldl_flatMap]
    simp only [Operator.foldl_projection_steps]
    rfl
  · rw [hadds.fold fun hr => hr.skips, List.foldl_flatMap]
    simp only [Operator.foldl_skipped_steps]
    rfl
  · rw [hadds.mark fun hr => hr.total, Operator.isKind_asksTotal.any_flatMap_steps]
    rfl

/-- The plan asks for the collection that the chain starts from. -/
theorem source_of_plan {q : Query} {p : Plan} (hplan : q.plan = .ok p) :
    p.sourceType = q.elementType ∧ p.path = q.path := by
  have hadds := adds_of_plan hplan
  have hsource : p.sourceType = (q.operators.flatMap Operator.steps).foldl (fun type _ => type) q.elementType :=
    hadds.fold fun hr => hr.source
  have hpath : p.path = (q.operators.flatMap Operator.steps).foldl (fun path _ => path) q.path :=
    hadds.fold fun hr => hr.path
  rw [List.foldl_fixed] at hsource hpath
  exact ⟨hsource, hpath⟩

end Query

end ResourceQuery
