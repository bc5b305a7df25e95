import ResourceQuery.Proofs.Query.Plans

set_option autoImplicit false

/-! # Plans mean what their chains mean

The interpreter takes the steps of a plan in one fixed order, whatever the order of the operators was.
That the answer is the same rests on one invariant. `Computes` says how a plan obtains rows from the
items of a collection: restriction to a type, filter and grouping give the rows before paging, a stable
sort of these is paged, and each row of the page is replaced by what is selected from it.

Every operator that a plan takes up keeps the invariant, with its own effect on the rows (`Represents.add`),
and so does a whole chain (`Represents.addAll`). The operators that come later than they are run are the
cases with content: a filter or a restriction to a type passes the sort (`Sorts.filter`), and a filter,
a key or a selector behind a selection passes it by composition (`eval_rebase`).
-/

namespace ResourceQuery

variable {g : TypeGraph} {h : Heap}

namespace PreparedQuery

/-! ## The optional steps -/

/-- Whether an optional filter keeps a row. -/
def Passes (g : TypeGraph) (h : Heap) (filter : Option Lambda) (row : Value) (keep : Bool) : Prop :=
  match filter with
  | some l => l.test g h row = .ok keep
  | none => keep = true

/-- What an optional selector makes of a row. -/
def Becomes (g : TypeGraph) (h : Heap) (select : Option Lambda) (row value : Value) : Prop :=
  match select with
  | some l => l.eval g h row = .ok value
  | none => row = value

/-- What an optional sort key makes of rows. -/
def Sorts (g : TypeGraph) (h : Heap) (orderBy : Option SortKey) (rows sorted : List Value) : Prop :=
  match orderBy with
  | some key => Rows.IsStableSort g h key rows sorted
  | none => rows = sorted

theorem step_filter {filter : Option Lambda} {keep : Value → Bool} {rows : List Value}
    (hkeep : ∀ row ∈ rows, Passes g h filter row (keep row)) :
    step filter (Rows.filter g h) rows = .ok (rows.filter keep) := by
  cases filter with
  | none =>
      rw [List.filter_eq_self.2 hkeep]
      rfl
  | some l => exact Rows.filter_of_total hkeep

/-- Without a selection each row is as it was. -/
theorem map_of_unselected {value : Value → Value} {rows : List Value}
    (hvalue : ∀ row ∈ rows, Becomes g h none row (value row)) : rows.map value = rows := by
  have hid : rows.map value = rows.map id :=
    List.map_congr_left fun row hrow => (hvalue row hrow).symm
  rw [hid, List.map_id]

theorem step_select {select : Option Lambda} {value : Value → Value} {rows : List Value}
    (hvalue : ∀ row ∈ rows, Becomes g h select row (value row)) :
    step select (Rows.select g h) rows = .ok (rows.map value) := by
  cases select with
  | none =>
      rw [map_of_unselected hvalue]
      rfl
  | some l => exact Rows.select_of_total hvalue

namespace Sorts

variable {orderBy : Option SortKey} {rows sorted : List Value}

theorem step_eq (hs : Sorts g h orderBy rows sorted) :
    step orderBy (Rows.sortBy g h) rows = .ok sorted := by
  cases orderBy with
  | none =>
      obtain rfl : rows = sorted := hs
      rfl
  | some key => exact Rows.IsStableSort.sortBy_eq hs

theorem perm (hs : Sorts g h orderBy rows sorted) : sorted.Perm rows := by
  cases orderBy with
  | none =>
      obtain rfl : rows = sorted := hs
      exact List.Perm.refl rows
  | some key => exact Rows.IsStableSort.perm hs

theorem filter (hs : Sorts g h orderBy rows sorted) (keep : Value → Bool) :
    Sorts g h orderBy (rows.filter keep) (sorted.filter keep) := by
  cases orderBy with
  | none =>
      obtain rfl : rows = sorted := hs
      rfl
  | some key => exact Rows.IsStableSort.filter hs keep

end Sorts

/-- A further filter is only looked at where the filter so far is true. -/
theorem Passes.and {existing : Option Lambda} {m : Lambda} {row : Value} {keep more : Bool} :
    Passes g h existing row keep → m.HasDistinctFields →
    (keep = true → m.test g h row = .ok more) →
    Passes g h (some (match existing with | some l => l.andAlso m | none => m)) row
      (keep && more) := by
  intro hpasses hm hmore
  cases existing with
  | none =>
      obtain rfl : keep = true := hpasses
      exact hmore rfl
  | some l => exact Lambda.test_andAlso hm hpasses hmore

end PreparedQuery

namespace Plan

open PreparedQuery

/-! ## Lambdas behind a selection -/

theorem distinct_rebase {p : Plan} {l : Lambda} (hl : l.HasDistinctFields)
    (hp : ∀ selector ∈ p.select, selector.HasDistinctFields) : (p.rebase l).HasDistinctFields := by
  rw [rebase]
  cases hselect : p.select with
  | none => exact hl.simplified
  | some selector => exact hl.compose (hp selector hselect)

/-- **A lambda in terms of the row before the selection** is what it was for the selected value. -/
theorem eval_rebase {p : Plan} {l : Lambda} {row value : Value} (hl : l.HasDistinctFields)
    (hp : ∀ selector ∈ p.select, selector.HasDistinctFields)
    (hrow : Becomes g h p.select row value) :
    Refines (l.eval g h value) ((p.rebase l).eval g h row) := by
  rw [rebase]
  cases hselect : p.select with
  | none =>
      rw [hselect] at hrow
      obtain rfl : row = value := hrow
      exact Lambda.eval_simplified hl row
  | some selector =>
      rw [hselect] at hrow
      exact Lambda.eval_compose hl (hp selector hselect) hrow

theorem test_rebase {p : Plan} {l : Lambda} {row value : Value} {keep : Bool}
    (hl : l.HasDistinctFields) (hp : ∀ selector ∈ p.select, selector.HasDistinctFields)
    (hrow : Becomes g h p.select row value) (hkeep : l.test g h value = .ok keep) :
    (p.rebase l).test g h row = .ok keep := by
  obtain ⟨v, hv, rfl⟩ := Lambda.exists_of_test hkeep
  exact Lambda.test_of_eval (eval_rebase hl hp hrow hv)

/-! ## The invariant -/

/-- The items that the plan is about. -/
def typed (g : TypeGraph) (h : Heap) (p : Plan) (items : List Value) : List Value :=
  match p.ofType with
  | some type => Rows.ofType g h type items
  | none => items

/-- **How a plan obtains `rows` from `items`**: `base` are the rows before paging, `sorted` the same
sorted, `keep` is what the filter decides and `value` what the selector makes of a row. -/
structure Computes (g : TypeGraph) (h : Heap) (p : Plan) (items base sorted rows : List Value)
    (keep : Value → Bool) (value : Value → Value) : Prop where
  keeps : ∀ row ∈ p.typed g h items, Passes g h p.filter row (keep row)
  groups : step p.groupBy (Rows.groupBy g h) ((p.typed g h items).filter keep) = .ok base
  sorts : Sorts g h p.orderBy base sorted
  selects : ∀ row ∈ page p.skip p.take sorted, Becomes g h p.select row (value row)
  rows : (page p.skip p.take sorted).map value = rows
  distinct : ∀ selector ∈ p.select, selector.HasDistinctFields

/-- The plan obtains `rows` from `items`, of `base` before paging. -/
def Represents (g : TypeGraph) (h : Heap) (p : Plan) (items base rows : List Value) : Prop :=
  ∃ sorted keep value, Computes g h p items base sorted rows keep value

/-- Without operators the rows are the items. -/
theorem represents_ofSource (g : TypeGraph) (h : Heap) (sourceType : TypeId) (path : String)
    (items : List Value) : Represents g h (ofSource sourceType path) items items items := by
  refine ⟨items, fun _ => true, id, ?_⟩
  exact {
    keeps := fun row _ => rfl
    groups := by
      rw [List.filter_eq_self.2 fun _ _ => rfl]
      rfl
    sorts := rfl
    selects := fun row _ => rfl
    rows := List.map_id items
    distinct := fun selector hselector => by cases hselector }

theorem page_of_unpaged {p : Plan} (hp : p.isPaged = false) (rows : List Value) :
    page p.skip p.take rows = rows := by
  rw [isPaged, Bool.or_eq_false_iff, Option.isSome_eq_false_iff, Option.isSome_eq_false_iff,
    Option.isNone_iff_eq_none, Option.isNone_iff_eq_none] at hp
  rw [hp.1, hp.2]
  rfl

variable {p p' : Plan} {items base sorted rows after : List Value} {keep : Value → Bool}
  {value : Value → Value}

/-- Before paging, all rows of the plan come from sorted ones. -/
theorem Computes.unpaged (hc : Computes g h p items base sorted rows keep value)
    (hp : p.isPaged = false) :
    (∀ row ∈ sorted, Becomes g h p.select row (value row)) ∧ sorted.map value = rows := by
  have hselects := hc.selects
  have hrows := hc.rows
  rw [page_of_unpaged hp] at hselects hrows
  exact ⟨hselects, hrows⟩

theorem Computes.of_unpaged (hp : p.isPaged = false)
    (keeps : ∀ row ∈ p.typed g h items, Passes g h p.filter row (keep row))
    (groups : step p.groupBy (Rows.groupBy g h) ((p.typed g h items).filter keep) = .ok base)
    (sorts : Sorts g h p.orderBy base sorted)
    (selects : ∀ row ∈ sorted, Becomes g h p.select row (value row))
    (distinct : ∀ selector ∈ p.select, selector.HasDistinctFields) :
    Computes g h p items base sorted (sorted.map value) keep value := by
  refine { keeps, groups, sorts, selects := ?_, rows := ?_, distinct }
  · rw [page_of_unpaged hp]
    exact selects
  · rw [page_of_unpaged hp]

/-- Without grouping the rows before paging are those that the filter keeps. -/
theorem Computes.filtered (hc : Computes g h p items base sorted rows keep value)
    (hp : p.groupBy = none) : (p.typed g h items).filter keep = base := by
  have hgroups := hc.groups
  rw [hp] at hgroups
  cases hgroups
  rfl

/-! ## Operators -/

/-- A filter comes first in the plan, whatever has been sorted and selected before it in the chain. -/
theorem Represents.addFilter {l : Lambda} (hr : Represents g h p items base rows)
    (hl : l.HasDistinctFields) (hadd : p.addFilter l = .ok p')
    (hafter : Rows.filter g h l rows = .ok after) :
    ∃ base', Represents g h p' items base' after := by
  obtain ⟨sorted, keep, value, hc⟩ := hr
  obtain ⟨hpaged, hgrouped, rfl⟩ := of_addFilter hadd
  obtain ⟨hselects, rfl⟩ := hc.unpaged hpaged
  obtain ⟨more, hmore, rfl⟩ := Rows.filter_iff.1 hafter
  have hbase := hc.filtered hgrouped
  -- what is kept of the selected rows is selected from what is kept of the rows
  rw [List.filter_map]
  refine ⟨base.filter (more ∘ value), sorted.filter (more ∘ value),
    fun row => keep row && more (value row), value,
    Computes.of_unpaged hpaged ?_ ?_ (hc.sorts.filter _) ?_ hc.distinct⟩
  · intro row hrow
    refine (hc.keeps row hrow).and (distinct_rebase hl hc.distinct) fun hkept => ?_
    -- a row that the filter so far keeps is among the sorted ones
    have hsorted : row ∈ sorted := by
      rw [hc.sorts.perm.mem_iff, ← hbase]
      exact List.mem_filter.2 ⟨hrow, hkept⟩
    exact test_rebase hl hc.distinct (hselects row hsorted)
      (hmore (value row) (List.mem_map_of_mem hsorted))
  · have hboth : (p.typed g h items).filter (fun row => keep row && more (value row)) =
        base.filter (more ∘ value) := by
      rw [← hbase, List.filter_filter]
      simp only [Bool.and_comm]
      rfl
    show step p.groupBy (Rows.groupBy g h)
      ((p.typed g h items).filter fun row => keep row && more (value row)) = _
    rw [hgrouped, hboth]
    rfl
  · exact fun row hrow => hselects row (List.mem_filter.1 hrow).1

/-- Selecting from selected rows is selecting at once. -/
theorem Represents.addSelect {l : Lambda} (hr : Represents g h p items base rows)
    (hl : l.HasDistinctFields) (hafter : Rows.select g h l rows = .ok after) :
    Represents g h { p with select := some (p.rebase l) } items base after := by
  obtain ⟨sorted, keep, value, hc⟩ := hr
  obtain ⟨more, hmore, rfl⟩ := Rows.select_iff.1 hafter
  refine ⟨sorted, keep, more ∘ value, ?_⟩
  refine { keeps := hc.keeps, groups := hc.groups, sorts := hc.sorts, selects := ?_, rows := ?_,
           distinct := ?_ }
  · intro row hrow
    have hselected : value row ∈ rows := by
      rw [← hc.rows]
      exact List.mem_map_of_mem hrow
    exact eval_rebase hl hc.distinct (hc.selects row hrow) (hmore (value row) hselected)
  · rw [← hc.rows, List.map_map]
  · intro selector hselector
    cases hselector
    exact distinct_rebase hl hc.distinct

/-- A key of selected rows is a key of the rows. -/
theorem Represents.addOrder {key : SortKey} (hr : Represents g h p items base rows)
    (hkey : key.key.HasDistinctFields) (hfirst : p.orderBy = none) (hadd : p.addOrder key = .ok p')
    (hafter : Rows.IsStableSort g h key rows after) : Represents g h p' items base after := by
  obtain ⟨sorted, keep, value, hc⟩ := hr
  obtain ⟨hpaged, rfl⟩ := of_addOrder hadd
  obtain ⟨hselects, rfl⟩ := hc.unpaged hpaged
  -- nothing has been sorted before
  have hsorts := hc.sorts
  rw [hfirst] at hsorts
  obtain rfl : base = sorted := hsorts
  obtain ⟨sorted', hsorted', rfl⟩ :=
    hafter.of_map ⟨p.rebase key.key, key.direction⟩ rfl
      fun row hrow => eval_rebase hkey hc.distinct (hselects row hrow)
  refine ⟨sorted', keep, value, Computes.of_unpaged hpaged hc.keeps hc.groups hsorted' ?_ hc.distinct⟩
  exact fun row hrow => hselects row (hsorted'.perm.mem_iff.1 hrow)

/-- Groups are made of the rows that the filter keeps. -/
theorem Represents.addGrouping {key : Lambda} (hr : Represents g h p items base rows)
    (hkey : key.HasDistinctFields) (hadd : p.addGrouping key = .ok p')
    (hafter : Rows.groupBy g h key rows = .ok after) : Represents g h p' items after after := by
  obtain ⟨sorted, keep, value, hc⟩ := hr
  obtain ⟨hpaged, hgrouped, hselect, horder, rfl⟩ := of_addGrouping hadd
  obtain ⟨hselects, rfl⟩ := hc.unpaged hpaged
  -- the rows are those that the filter keeps, as they come
  have hsorts := hc.sorts
  rw [horder] at hsorts
  obtain rfl : base = sorted := hsorts
  rw [hselect] at hselects
  rw [map_of_unselected hselects] at hafter
  -- behind a grouping nothing has been sorted or selected yet
  rw [← List.map_id after]
  refine ⟨after, keep, id, Computes.of_unpaged hpaged hc.keeps ?_ ?_ ?_ hc.distinct⟩
  · show Rows.groupBy g h key.simplified ((p.typed g h items).filter keep) = _
    rw [hc.filtered hgrouped, List.map_id]
    exact Rows.groupBy_refines (fun row => Lambda.eval_simplified hkey row) base hafter
  · show Sorts g h p.orderBy (after.map id) after
    rw [horder]
    exact List.map_id after
  · intro row _
    show Becomes g h p.select row (id row)
    rw [hselect]
    rfl

/-- Rows are left out of those that were taken before. -/
theorem Represents.addSkip {count : UInt64} (hr : Represents g h p items base rows)
    (hadd : p.addSkip count = .ok p') : Represents g h p' items base (rows.drop count.toNat) := by
  obtain ⟨sorted, keep, value, hc⟩ := hr
  obtain ⟨-, hskip, rfl⟩ := of_addSkip hadd
  have hpage : page (some count) (p.take.map fun n => if count ≤ n then n - count else 0) sorted =
      (page p.skip p.take sorted).drop count.toNat := by
    rw [hskip]
    cases p.take with
    | none => rfl
    | some n =>
        -- of `n` rows as many fewer are left as are dropped, and none if more are
        have hleft : (if count ≤ n then n - count else 0).toNat = n.toNat - count.toNat := by
          by_cases hle : count ≤ n
          · rw [if_pos hle, UInt64.toNat_sub_of_le _ _ hle]
          · rw [if_neg hle]
            rw [UInt64.le_iff_toNat_le] at hle
            show 0 = _
            omega
        calc (sorted.drop count.toNat).take (if count ≤ n then n - count else 0).toNat
            = (sorted.drop count.toNat).take (n.toNat - count.toNat) := by rw [hleft]
          _ = (sorted.take n.toNat).drop count.toNat := List.drop_take.symm
  refine ⟨sorted, keep, value, ?_⟩
  refine { keeps := hc.keeps, groups := hc.groups, sorts := hc.sorts, selects := ?_, rows := ?_,
           distinct := hc.distinct }
  · rw [hpage]
    exact fun row hrow => hc.selects row (List.mem_of_mem_drop hrow)
  · rw [hpage, List.map_drop, hc.rows]

theorem Represents.addTake {count : UInt64} (hr : Represents g h p items base rows)
    (hadd : p.addTake count = .ok p') : Represents g h p' items base (rows.take count.toNat) := by
  obtain ⟨sorted, keep, value, hc⟩ := hr
  obtain ⟨-, htake, rfl⟩ := of_addTake hadd
  have hpage : page p.skip (some count) sorted = (page p.skip p.take sorted).take count.toNat := by
    rw [htake]
    rfl
  refine ⟨sorted, keep, value, ?_⟩
  refine { keeps := hc.keeps, groups := hc.groups, sorts := hc.sorts, selects := ?_, rows := ?_,
           distinct := hc.distinct }
  · rw [hpage]
    exact fun row hrow => hc.selects row (List.mem_of_mem_take hrow)
  · rw [hpage, List.map_take, hc.rows]

/-- A restriction to a type comes before the filter and the sort. -/
theorem Represents.addType {type : TypeId} (hr : Represents g h p items base rows)
    (hfirst : p.ofType = none) (hadd : p.addType type = .ok p') :
    ∃ base', Represents g h p' items base' (Rows.ofType g h type rows) := by
  obtain ⟨sorted, keep, value, hc⟩ := hr
  obtain ⟨hpaged, hgrouped, hselect, rfl⟩ := of_addType hadd
  obtain ⟨hselects, rfl⟩ := hc.unpaged hpaged
  have htyped : p.typed g h items = items := by
    rw [typed, hfirst]
  have hkeeps := hc.keeps
  have hbase := hc.filtered hgrouped
  rw [htyped] at hkeeps hbase
  have hkept : ∀ row ∈ sorted.filter (Rows.isInstance g h type), Becomes g h p.select row (value row) :=
    fun row hrow => hselects row (List.mem_filter.1 hrow).1
  -- nothing is selected yet, so the values are the rows
  have hrows : sorted.map value = sorted := map_of_unselected (hselect ▸ hselects)
  have hrowsKept := map_of_unselected (hselect ▸ hkept)
  rw [hrows, Rows.ofType, ← hrowsKept]
  refine ⟨base.filter (Rows.isInstance g h type), sorted.filter (Rows.isInstance g h type), keep,
    value, Computes.of_unpaged hpaged ?_ ?_ (hc.sorts.filter _) hkept hc.distinct⟩
  · exact fun row hrow => hkeeps row (List.mem_filter.1 hrow).1
  -- nothing is grouped yet either, and two filters commute
  · show step p.groupBy (Rows.groupBy g h) ((Rows.ofType g h type items).filter keep) = _
    rw [hgrouped, ← hbase, Rows.ofType, List.filter_filter, List.filter_filter]
    simp only [Bool.and_comm]
    rfl

/-- What is written inline, counted and answered in the end does not change the rows. -/
theorem Represents.answered (hr : Represents g h p items base rows) (expand : List String)
    (includeTotalCount : Bool) (projection : Projection) :
    Represents g h { p with expand, includeTotalCount, projection } items base rows := by
  obtain ⟨sorted, keep, value, hc⟩ := hr
  exact ⟨sorted, keep, value, { hc with }⟩

/-- **One operator.** The plan that has taken it up obtains the rows that the operator makes of those
before, and from the first page on the rows before paging stay the same. -/
theorem Represents.add {op : Operator} (hr : Represents g h p items base rows)
    (hstep : op.steps = [op]) (hd : op.HasDistinctFields)
    (hordering : op.isOrdering = true → p.orderBy = none)
    (htyping : op.isTyping = true → p.ofType = none) (hadd : p.add op = .ok p')
    (htakes : op.Takes g h rows after) :
    ∃ base', Represents g h p' items base' after ∧
      (p.isPaged = true ∨ op.isPaging = true → base' = base) := by
  -- an operator that changes the rows before paging comes before it
  have hearly : p.isPaged = false → op.isPaging = false →
      ∀ {base' : List Value}, p.isPaged = true ∨ op.isPaging = true → base' = base := by
    intro hp hop base' hlate
    rw [hp, hop] at hlate
    rcases hlate with hlate | hlate <;> cases hlate
  cases op with
  | where_ l =>
      obtain ⟨base', hr'⟩ := hr.addFilter (hd l rfl) hadd htakes
      exact ⟨base', hr', hearly (of_addFilter hadd).1 rfl⟩
  | select l =>
      cases hadd
      exact ⟨base, hr.addSelect (hd l rfl) htakes, fun _ => rfl⟩
  | orderBy key =>
      exact ⟨base, hr.addOrder (hd key.key rfl) (hordering rfl) hadd htakes, fun _ => rfl⟩
  | groupBy key =>
      exact ⟨after, hr.addGrouping (hd key rfl) hadd htakes, hearly (of_addGrouping hadd).1 rfl⟩
  | skip count =>
      obtain rfl : rows.drop count.toNat = after := htakes
      exact ⟨base, hr.addSkip hadd, fun _ => rfl⟩
  | take count =>
      obtain rfl : rows.take count.toNat = after := htakes
      exact ⟨base, hr.addTake hadd, fun _ => rfl⟩
  | ofType type =>
      obtain rfl : Rows.ofType g h type rows = after := htakes
      obtain ⟨base', hr'⟩ := hr.addType (htyping rfl) hadd
      exact ⟨base', hr', hearly (of_addType hadd).1 rfl⟩
  | expand path =>
      obtain rfl : rows = after := htakes
      obtain ⟨-, -, -, expand, rfl, -⟩ := of_addExpand hadd
      exact ⟨base, hr.answered expand p.includeTotalCount p.projection, fun _ => rfl⟩
  | includeTotalCount =>
      obtain rfl : rows = after := htakes
      cases hadd
      exact ⟨base, hr.answered p.expand true p.projection, fun _ => rfl⟩
  | terminal projection argument =>
      cases argument with
      | some argument =>
          -- a terminal with an argument is two steps
          cases (List.cons.inj hstep).2
      | none =>
          obtain rfl : rows = after := htakes
          cases hadd
          exact ⟨base, hr.answered p.expand p.includeTotalCount projection, fun _ => rfl⟩

/-- **A whole chain**, with no second sort and no second restriction to a type. -/
theorem Represents.adds {ops : List Operator} (hr : Represents g h p items base rows)
    (hsteps : ∀ op ∈ ops, op.steps = [op]) (hd : ∀ op ∈ ops, op.HasDistinctFields)
    (hordering : p.orderBy.isSome.toNat + ops.countP Operator.isOrdering ≤ 1)
    (htyping : p.ofType.isSome.toNat + ops.countP Operator.isTyping ≤ 1)
    (ha : Adds p ops p') (he : Evaluates g h ops rows after) :
    ∃ base', Represents g h p' items base' after ∧
      (p.isPaged = true ∨ (∀ op ∈ ops.head?, op.isPaging = true) → base' = base) := by
  induction ops generalizing p base rows with
  | nil =>
      obtain rfl : p = p' := ha
      obtain rfl : rows = after := he
      exact ⟨base, hr, fun _ => rfl⟩
  | cons op rest ih =>
      obtain ⟨between, hadd, ha⟩ := ha
      obtain ⟨middle, htakes, he⟩ := he
      have hremembers := remembers_of_add hadd
      obtain ⟨hnoOrder, hordering⟩ := once_cons hordering
      obtain ⟨hnoType, htyping⟩ := once_cons htyping
      rw [← hremembers.ordering] at hordering
      rw [← hremembers.typing] at htyping
      obtain ⟨base₁, hr₁, hbase₁⟩ := hr.add (hsteps op List.mem_cons_self)
        (hd op List.mem_cons_self)
        (fun hkind => Option.isNone_iff_eq_none.1 (Option.isSome_eq_false_iff.1 (hnoOrder hkind)))
        (fun hkind => Option.isNone_iff_eq_none.1 (Option.isSome_eq_false_iff.1 (hnoType hkind)))
        hadd htakes
      obtain ⟨base₂, hr₂, hbase₂⟩ := ih hr₁ (fun s hs => hsteps s (List.mem_cons_of_mem op hs))
        (fun s hs => hd s (List.mem_cons_of_mem op hs)) hordering htyping ha he
      refine ⟨base₂, hr₂, fun hlate => ?_⟩
      -- a page at the head makes the plan paged for all that follows
      have hnow : p.isPaged = true ∨ op.isPaging = true :=
        hlate.imp id fun hhead => hhead op rfl
      have hfrom : between.isPaged = true := by
        rw [hremembers.paging, Bool.or_eq_true]
        exact hnow
      calc base₂ = base₁ := hbase₂ (Or.inl hfrom)
        _ = base := hbase₁ hnow

/-! ## Running a plan -/

/-- The query that the interpreter runs for the plan; `narrow` says whether the collection may hold
other objects than those that the plan is about. -/
def prepared (p : Plan) (narrow : Bool) : PreparedQuery :=
  { element := p.elementType, narrow, filter := p.filter, groupBy := p.groupBy, orderBy := p.orderBy,
    select := p.select, expand := p.expand
    itemType :=
      if p.select.isSome || p.groupBy.isSome then TypeGraph.valueType .any else p.elementType }

/-- The parameters that ask for the plan. -/
def request (p : Plan) : Parameters :=
  { ofType := none, filter := p.filter, orderBy := p.orderBy, groupBy := p.groupBy,
    select := p.select, skip := p.skip, top := p.top?, expand := p.expand,
    includeTotalCount := p.includeTotalCount, projection := p.projection }

/-- Whether the interpreter restricts the items to a type does not matter where all are of it. -/
theorem typed_eq {narrow : Bool} (hnarrow : narrow = p.ofType.isSome ∨
      ∀ item ∈ items, Rows.isInstance g h p.elementType item = true) :
    (if narrow then Rows.ofType g h p.elementType items else items) = p.typed g h items := by
  rw [typed, elementType]
  rw [elementType] at hnarrow
  rcases hnarrow with rfl | hall
  · cases p.ofType <;> rfl
  · have hkept : Rows.ofType g h (p.ofType.getD p.sourceType) items = items :=
      List.filter_eq_self.2 hall
    rw [hkept, ite_self]
    cases htype : p.ofType with
    | none => rfl
    | some type =>
        rw [htype] at hkept
        exact hkept.symm

/-- Without page sizes a listing is as long as it is asked to be. -/
theorem limit_request {config : Config} (hdefault : config.defaultPageSize = none)
    (hmost : config.maxPageSize = none) : limit config p.request = p.top? := by
  have htop : config.effectiveTop p.top? = p.top? := by
    rw [Config.effectiveTop, hdefault, hmost, Option.or_none]
    cases p.top? <;> rfl
  rw [limit]
  by_cases hlisting : p.request.projection = .enumerable
  · rw [if_pos hlisting]
    exact htop
  · rw [if_neg hlisting]
    rfl

/-- A first row is that of the first row alone. -/
theorem answer_take_one {projection : Projection} (hfirst : projection.isFirst = true)
    (skip total : Option UInt64) (rows : List Value) :
    projection.answer skip total (rows.take 1) = projection.answer skip total rows := by
  cases projection <;> cases hfirst <;> cases rows <;> rfl

/-- A first row is the only one that the interpreter fetches, unless more are taken. -/
theorem page_top (p : Plan) (rows : List Value) :
    page p.skip p.top? rows = page p.skip p.take rows ∨
      p.projection.isFirst = true ∧ page p.skip p.top? rows = (page p.skip p.take rows).take 1 := by
  rw [top?]
  cases p.take with
  | some n => exact Or.inl rfl
  | none =>
      by_cases hfirst : p.projection.isFirst = true
      · refine Or.inr ⟨hfirst, ?_⟩
        rw [if_pos hfirst]
        rfl
      · rw [if_neg hfirst]
        exact Or.inl rfl

/-- Before paging there are as many rows as are sorted. -/
theorem Represents.length_eq (hr : Represents g h p items base rows) (hp : p.isPaged = false) :
    rows.length = base.length := by
  obtain ⟨sorted, keep, value, hc⟩ := hr
  obtain ⟨-, rfl⟩ := hc.unpaged hp
  rw [List.length_map, hc.sorts.perm.length_eq]

/-- The interpreter takes the steps of the invariant. -/
theorem Represents.run_eq {config : Config} {narrow : Bool}
    (hr : Represents g h p items base rows)
    (hnarrow : narrow = p.ofType.isSome ∨
      ∀ item ∈ items, Rows.isInstance g h p.elementType item = true)
    (hdefault : config.defaultPageSize = none) (hmost : config.maxPageSize = none) :
    (p.prepared narrow).run g h config p.request items =
      p.projection.answer p.skip
        (if p.includeTotalCount then some (UInt64.ofNat base.length) else none) rows := by
  obtain ⟨sorted, keep, value, hc⟩ := hr
  have hselects : ∀ row ∈ page p.skip p.top? sorted, Becomes g h p.select row (value row) := by
    intro row hrow
    rcases p.page_top sorted with hpage | ⟨-, hpage⟩
    · exact hc.selects row (hpage ▸ hrow)
    · exact hc.selects row (List.mem_of_mem_take (hpage ▸ hrow))
  have hrun : (p.prepared narrow).run g h config p.request items =
      p.projection.answer p.skip
        (if p.includeTotalCount then some (UInt64.ofNat base.length) else none)
        ((page p.skip p.top? sorted).map value) := by
    show ((step p.filter (Rows.filter g h)
        (if narrow then Rows.ofType g h p.elementType items else items)) >>= fun kept =>
      step p.groupBy (Rows.groupBy g h) kept >>= fun grouped =>
      step p.orderBy (Rows.sortBy g h) grouped >>= fun sorted =>
      step p.select (Rows.select g h) (page p.skip (limit config p.request) sorted) >>= fun rows =>
      p.projection.answer p.skip
        (if p.includeTotalCount then some (UInt64.ofNat grouped.length) else none) rows) = _
    -- from here on each step is what the invariant says it is
    rw [typed_eq hnarrow, step_filter hc.keeps, limit_request hdefault hmost]
    show (step p.groupBy (Rows.groupBy g h) ((p.typed g h items).filter keep) >>= _) = _
    rw [hc.groups]
    show (step p.orderBy (Rows.sortBy g h) base >>= _) = _
    rw [hc.sorts.step_eq]
    show (step p.select (Rows.select g h) (page p.skip p.top? sorted) >>= _) = _
    rw [step_select hselects]
    rfl
  rw [hrun, ← hc.rows]
  -- for a first row only that row is fetched
  rcases p.page_top sorted with hpage | ⟨hfirst, hpage⟩
  · rw [hpage]
  · rw [hpage, List.map_take, answer_take_one hfirst]

end Plan

namespace Query

open PreparedQuery

/-- The plan of a chain obtains the rows of the chain. -/
theorem represents_of_plan {q : Query} {p : Plan} {items whole rows : List Value}
    (hplan : q.plan = .ok p) (hdistinct : ∀ op ∈ q.operators, op.HasDistinctFields)
    (hordering : q.operators.countP Operator.isOrdering ≤ 1)
    (htyping : q.operators.countP Operator.isTyping ≤ 1)
    (hwhole : Evaluates g h q.unpaged items whole) (hrows : Evaluates g h q.paged whole rows) :
    ∃ base, Plan.Represents g h p items base rows ∧ whole.length = base.length := by
  have hadds := adds_of_plan hplan
  have hsplit : q.operators.flatMap Operator.steps =
      q.unpaged.flatMap Operator.steps ++ q.paged.flatMap Operator.steps := by
    rw [← List.flatMap_append, unpaged, paged, List.takeWhile_append_dropWhile]
  have hsteps : ∀ s ∈ q.operators.flatMap Operator.steps, s.steps = [s] ∧ s.HasDistinctFields := by
    intro s hs
    obtain ⟨op, hop, hs⟩ := List.mem_flatMap.1 hs
    exact ⟨Operator.steps_of_mem_steps hs, (hdistinct op hop).steps hs⟩
  rw [← Operator.isKind_isOrdering.countP_flatMap_steps, hsplit, List.countP_append] at hordering
  rw [← Operator.isKind_isTyping.countP_flatMap_steps, hsplit, List.countP_append] at htyping
  rw [hsplit] at hadds hsteps
  obtain ⟨between, hbefore, hafter⟩ := hadds.split
  -- the operators in front of the first page
  obtain ⟨base, hbase, -⟩ := (Plan.represents_ofSource g h q.elementType q.path items).adds
    (fun s hs => (hsteps s (List.mem_append_left _ hs)).1)
    (fun s hs => (hsteps s (List.mem_append_left _ hs)).2)
    (by show 0 + _ ≤ 1; omega) (by show 0 + _ ≤ 1; omega) hbefore hwhole.steps
  have hunpaged : between.isPaged = false := by
    rw [hbefore.mark fun hr => hr.paging, Operator.isKind_isPaging.any_flatMap_steps]
    exact q.any_isPaging_unpaged
  -- the operators from the first page on, after which there are as many sorts as before
  have hordered : between.orderBy.isSome.toNat ≤ 0 + _ := hbefore.toNat_mark_le fun hr => hr.ordering
  have htyped : between.ofType.isSome.toNat ≤ 0 + _ := hbefore.toNat_mark_le fun hr => hr.typing
  obtain ⟨base', hend, hsame⟩ := hbase.adds
    (fun s hs => (hsteps s (List.mem_append_right _ hs)).1)
    (fun s hs => (hsteps s (List.mem_append_right _ hs)).2)
    (by omega) (by omega) hafter hrows.steps
  obtain rfl := hsame (Or.inr q.isPaging_head_paged)
  exact ⟨base', hend, hbase.length_eq hunpaged⟩

/-- **A plan means what its chain means.** Let a chain be brought into a plan, with distinct names of
fields in every row, at most one sort and at most one restriction to a type, and let its operators in
the order of the chain make `whole` of the items up to the first page, and then `rows`. Then the
interpreter, which takes the steps of the plan in its own order, answers what the chain answers: the same
rows with the same total count, or the same value, or that there is none. -/
theorem run_plan {q : Query} {p : Plan} {config : Config} {narrow : Bool}
    {items whole rows : List Value} (hplan : q.plan = .ok p)
    (hdistinct : ∀ op ∈ q.operators, op.HasDistinctFields)
    (hordering : q.operators.countP Operator.isOrdering ≤ 1)
    (htyping : q.operators.countP Operator.isTyping ≤ 1)
    (hwhole : Evaluates g h q.unpaged items whole) (hrows : Evaluates g h q.paged whole rows)
    (hnarrow : narrow = p.ofType.isSome ∨
      ∀ item ∈ items, Rows.isInstance g h p.elementType item = true)
    (hdefault : config.defaultPageSize = none) (hmost : config.maxPageSize = none) :
    (p.prepared narrow).run g h config p.request items = q.answer whole rows := by
  obtain ⟨base, hr, hlength⟩ :=
    represents_of_plan hplan hdistinct hordering htyping hwhole hrows
  obtain ⟨hprojection, hskip, htotal⟩ := parts_of_plan hplan
  calc (p.prepared narrow).run g h config p.request items
      = p.projection.answer p.skip
          (if p.includeTotalCount then some (UInt64.ofNat base.length) else none) rows :=
        hr.run_eq hnarrow hdefault hmost
    _ = q.answer whole rows := by
        rw [answer, hlength, hprojection, hskip, htotal]

/-- The second of the two youngest critters that are not called Bob, and how many of these there are. -/
def secondYoungest : Query :=
  { elementType := ⟨0⟩, path := "critters"
    operators :=
      [.select ⟨"c", .row [("Name", .member (.param "c") "Name"), ("Age", .member (.param "c") "Age")]⟩,
        .orderBy ⟨⟨"r", .member (.param "r") "Age"⟩, .ascending⟩,
        .where_ ⟨"r", .binary .ne (.member (.param "r") "Name") (.constant (.string "Bob"))⟩,
        .take 2, .skip 1, .includeTotalCount] }

def critter (name : String) (age : Int64) : Value :=
  .map [("Age", .int age), ("Name", .string name), ("Serial", .string "a")]

def person (name : String) (age : Int64) : Value :=
  .map [("Age", .int age), ("Name", .string name)]

def noTypes : TypeGraph := ⟨.empty, .empty⟩

theorem secondYoungest_runs :
    ∃ p, secondYoungest.plan = .ok p ∧
      (p.prepared false).run noTypes Heap.empty .standard p.request
          [critter "Ada" 3, critter "Bob" 1, critter "Cy" 2, critter "Dee" 3] =
        .ok (.listing ⟨[person "Ada" 3], some 1, some 3, none⟩) := by
  obtain ⟨p, hplan, htype⟩ : ∃ p, secondYoungest.plan = .ok p ∧ false = p.ofType.isSome :=
    ⟨_, rfl, rfl⟩
  have hdistinct : ∀ op ∈ secondYoungest.operators, op.HasDistinctFields := by
    have hnames : DistinctNames ["Name", "Age"] := by
      show List.Pairwise _ _
      decide
    intro op hop l hl
    simp only [secondYoungest, List.mem_cons, List.not_mem_nil, or_false] at hop
    rcases hop with rfl | rfl | rfl | rfl | rfl | rfl <;> cases hl
    · exact ⟨hnames, trivial, trivial, trivial⟩
    · trivial
    · exact ⟨trivial, trivial⟩
  have hages : Rows.WeaklyOrdered .ascending ([3, 1, 2, 3].map Value.int) :=
    Rows.weaklyOrdered_of_rank Value.int Int64.toInt (fun _ _ => rfl) _ _
  have hsorted : Rows.IsStableSort noTypes Heap.empty ⟨⟨"r", .member (.param "r") "Age"⟩, .ascending⟩
      [person "Ada" 3, person "Bob" 1, person "Cy" 2, person "Dee" 3]
      [person "Bob" 1, person "Cy" 2, person "Ada" 3, person "Dee" 3] :=
    (Rows.sortBy_iff rfl hages).1 rfl
  have hwhole : Evaluates noTypes Heap.empty secondYoungest.unpaged
      [critter "Ada" 3, critter "Bob" 1, critter "Cy" 2, critter "Dee" 3]
      [person "Cy" 2, person "Ada" 3, person "Dee" 3] :=
    ⟨_, rfl, _, hsorted, _, rfl, rfl⟩
  have hrows : Evaluates noTypes Heap.empty secondYoungest.paged
      [person "Cy" 2, person "Ada" 3, person "Dee" 3] [person "Ada" 3] :=
    ⟨_, rfl, _, rfl, _, rfl, rfl⟩
  refine ⟨p, hplan, ?_⟩
  rw [run_plan hplan hdistinct (by decide) (by decide) hwhole hrows (Or.inl htype) rfl rfl]
  rfl

end Query

end ResourceQuery
