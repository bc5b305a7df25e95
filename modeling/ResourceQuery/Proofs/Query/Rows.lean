import ResourceQuery.Proofs.Expr.Simplification
import ResourceQuery.Query.Execution

set_option autoImplicit false

/-! # Operations on rows as list functions

The steps of a query on rows, where they do not fail. A restriction is `List.filter` and a selection is
`List.map`, of functions that the lambdas compute on the rows at hand (`filter_iff`, `select_iff`).
Grouping is not opened: it only matters that a key which fails less groups in the same way.
-/

namespace ResourceQuery

namespace Rows

variable {g : TypeGraph} {h : Heap}

/-! ## Restriction and selection -/

/-- What a function computes on the rows at hand, where it does not fail on them. -/
theorem exists_values {α : Type} [Inhabited α] {f : Value → Except Error α} {rows : List Value}
    (hf : ∀ row ∈ rows, ∃ a, f row = .ok a) :
    ∃ value : Value → α, ∀ row ∈ rows, f row = .ok (value row) := by
  refine ⟨fun row => (f row).toOption.getD default, fun row hrow => ?_⟩
  obtain ⟨a, ha⟩ := hf row hrow
  simp only [ha]
  rfl

theorem filter_of_total {l : Lambda} {keep : Value → Bool} {rows : List Value}
    (hkeep : ∀ row ∈ rows, l.test g h row = .ok (keep row)) :
    filter g h l rows = .ok (rows.filter keep) := by
  induction rows with
  | nil => rfl
  | cons row rest ih =>
      obtain ⟨hrow, hrest⟩ := List.forall_mem_cons.1 hkeep
      rw [filter, hrow, ih hrest, List.filter_cons]
      rfl

theorem total_of_filter {l : Lambda} {rows kept : List Value}
    (hf : filter g h l rows = .ok kept) : ∀ row ∈ rows, ∃ keep, l.test g h row = .ok keep := by
  induction rows generalizing kept with
  | nil => exact fun row hrow => absurd hrow List.not_mem_nil
  | cons row rest ih =>
      obtain ⟨keep, hkeep, hf⟩ := Expr.exists_of_bind_eq_ok hf
      obtain ⟨others, hothers, -⟩ := Expr.exists_of_bind_eq_ok hf
      exact List.forall_mem_cons.2 ⟨⟨keep, hkeep⟩, ih hothers⟩

/-- A restriction that does not fail is `List.filter`. -/
theorem filter_iff {l : Lambda} {rows kept : List Value} :
    filter g h l rows = .ok kept ↔
      ∃ keep : Value → Bool, (∀ row ∈ rows, l.test g h row = .ok (keep row)) ∧
        kept = rows.filter keep := by
  constructor
  · intro hf
    obtain ⟨keep, hkeep⟩ := exists_values (total_of_filter hf)
    rw [filter_of_total hkeep] at hf
    cases hf
    exact ⟨keep, hkeep, rfl⟩
  · rintro ⟨keep, hkeep, rfl⟩
    exact filter_of_total hkeep

theorem mapAll_map {α : Type} {f : Value → Except Error Value} (row : α → Value) {value : α → Value}
    {items : List α} (hvalue : ∀ i ∈ items, f (row i) = .ok (value i)) :
    Value.mapAll f (items.map row) = .ok (items.map value) := by
  induction items with
  | nil => rfl
  | cons i rest ih =>
      obtain ⟨hi, hrest⟩ := List.forall_mem_cons.1 hvalue
      rw [List.map_cons, Value.mapAll, hi, ih hrest]
      rfl

theorem select_of_total {l : Lambda} {value : Value → Value} {rows : List Value}
    (hvalue : ∀ row ∈ rows, l.eval g h row = .ok (value row)) :
    select g h l rows = .ok (rows.map value) := by
  have hmap := mapAll_map id hvalue
  rw [List.map_id] at hmap
  exact hmap

theorem total_of_mapAll {f : Value → Except Error Value} {rows values : List Value}
    (hf : Value.mapAll f rows = .ok values) : ∀ row ∈ rows, ∃ value, f row = .ok value := by
  induction rows generalizing values with
  | nil => exact fun row hrow => absurd hrow List.not_mem_nil
  | cons row rest ih =>
      obtain ⟨value, hvalue, hf⟩ := Expr.exists_of_bind_eq_ok hf
      obtain ⟨others, hothers, -⟩ := Expr.exists_of_bind_eq_ok hf
      exact List.forall_mem_cons.2 ⟨⟨value, hvalue⟩, ih hothers⟩

/-- A selection that does not fail is `List.map`. -/
theorem select_iff {l : Lambda} {rows values : List Value} :
    select g h l rows = .ok values ↔
      ∃ value : Value → Value, (∀ row ∈ rows, l.eval g h row = .ok (value row)) ∧
        values = rows.map value := by
  constructor
  · intro hf
    have : Inhabited Value := ⟨.null⟩
    obtain ⟨value, hvalue⟩ := exists_values (total_of_mapAll hf)
    rw [select_of_total hvalue] at hf
    cases hf
    exact ⟨value, hvalue, rfl⟩
  · rintro ⟨value, hvalue, rfl⟩
    exact select_of_total hvalue

/-- Grouping by a key that fails less. -/
theorem groupBy_refines {key key' : Lambda}
    (hkey : ∀ row, Refines (key.eval g h row) (key'.eval g h row)) (rows : List Value) :
    Refines (groupBy g h key rows) (groupBy g h key' rows) := by
  have hinto : ∀ s, Refines (intoGroups g h Trait.digest key s rows)
      (intoGroups g h Trait.digest key' s rows) := by
    induction rows with
    | nil => exact fun s => Refines.refl _
    | cons row rest ih => exact fun s => (hkey row).bind fun k => ih _
  exact (hinto .empty).map Grouping.values

end Rows

end ResourceQuery
