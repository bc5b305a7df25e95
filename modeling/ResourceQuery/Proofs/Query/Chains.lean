import ResourceQuery.Proofs.Query.Sorting
import ResourceQuery.Query.Plan

set_option autoImplicit false

/-! # What chains mean

The meaning of a chain without a plan: its operators are applied one after another, in the order in
which they were added (`Evaluates`). The operators are those of `ResourceQuery.Query.Rows`, on any list
of rows; sorting is the relation `IsStableSort`, so that rows with equal keys stay in the order which
all operators before have left.

A chain answers its rows, or what its terminal makes of them (`Query.answer`). Its total count is that
of the rows in front of the first `Skip` or `Take`.
-/

namespace ResourceQuery

variable {g : TypeGraph} {h : Heap}

namespace Operator

/-! ## Kinds of operators -/

/-- Whether the operator takes a part of the rows by their places. -/
def isPaging : Operator → Bool
  | .skip _ => true
  | .take _ => true
  | _ => false

/-- Whether the operator sorts. -/
def isOrdering : Operator → Bool
  | .orderBy _ => true
  | _ => false

/-- Whether the operator filters. -/
def isFilter : Operator → Bool
  | .where_ _ => true
  | _ => false

/-- Whether the operator selects. -/
def isSelection : Operator → Bool
  | .select _ => true
  | _ => false

/-- Whether the operator groups. -/
def isGrouping : Operator → Bool
  | .groupBy _ => true
  | _ => false

/-- Whether the operator leaves rows out. -/
def isSkip : Operator → Bool
  | .skip _ => true
  | _ => false

/-- Whether the operator takes rows. -/
def isTake : Operator → Bool
  | .take _ => true
  | _ => false

/-- Whether the operator asks for resources to be written inline. -/
def isExpansion : Operator → Bool
  | .expand _ => true
  | _ => false

/-- Whether the operator ends the chain. -/
def isTerminal : Operator → Bool
  | .terminal .. => true
  | _ => false

/-- Whether the operator restricts the rows to a type. -/
def isTyping : Operator → Bool
  | .ofType _ => true
  | _ => false

/-- Whether the operator asks for the total count. -/
def asksTotal : Operator → Bool
  | .includeTotalCount => true
  | _ => false

/-- The projection behind the operator, given that before it. -/
def projection (before : Projection) : Operator → Projection
  | .terminal projection _ => projection
  | _ => before

/-- How many rows are left out behind the operator, given that before it. -/
def skipped (before : Option UInt64) : Operator → Option UInt64
  | .skip count => some count
  | _ => before

/-- The lambda of the operator. -/
def lambda? : Operator → Option Lambda
  | .where_ l => some l
  | .select l => some l
  | .orderBy key => some key.key
  | .groupBy l => some l
  | .expand l => some l
  | .terminal _ argument => argument
  | _ => none

/-- The fields of every row in the operator have distinct names. -/
def HasDistinctFields (op : Operator) : Prop :=
  ∀ l ∈ op.lambda?, l.HasDistinctFields

/-! ## One operator -/

/-- What becomes of rows under an operator. -/
def Takes (g : TypeGraph) (h : Heap) : Operator → (rows after : List Value) → Prop
  | .where_ predicate, rows, after => Rows.filter g h predicate rows = .ok after
  | .select selector, rows, after => Rows.select g h selector rows = .ok after
  | .orderBy key, rows, after => Rows.IsStableSort g h key rows after
  | .groupBy key, rows, after => Rows.groupBy g h key rows = .ok after
  | .skip count, rows, after => rows.drop count.toNat = after
  | .take count, rows, after => rows.take count.toNat = after
  | .ofType type, rows, after => Rows.ofType g h type rows = after
  | .expand _, rows, after => rows = after
  | .includeTotalCount, rows, after => rows = after
  | .terminal _ none, rows, after => rows = after
  | .terminal projection (some argument), rows, after =>
    if projection.takesPredicate then Rows.filter g h argument rows = .ok after
    else Rows.select g h argument rows = .ok after

end Operator

/-! ## Chains of operators -/

/-- **Operators applied one after another**: `after` is what becomes of `rows`. -/
def Evaluates (g : TypeGraph) (h : Heap) : List Operator → (rows after : List Value) → Prop
  | [], rows, after => rows = after
  | op :: rest, rows, after => ∃ between, op.Takes g h rows between ∧ Evaluates g h rest between after

/-! ## Steps

The argument of a terminal is a step of its own. All other operators are one step, themselves. -/

namespace Operator

theorem steps_of_mem_steps {op s : Operator} (hs : s ∈ op.steps) : s.steps = [s] := by
  cases op with
  | terminal projection argument =>
      cases argument with
      | none =>
          obtain rfl := List.mem_singleton.1 hs
          rfl
      | some argument =>
          rcases List.mem_cons.1 hs with rfl | hs
          · by_cases hp : projection.takesPredicate = true
            · rw [if_pos hp]
              rfl
            · rw [if_neg hp]
              rfl
          · obtain rfl := List.mem_singleton.1 hs
            rfl
  | _ =>
      obtain rfl := List.mem_singleton.1 hs
      rfl

theorem HasDistinctFields.steps {op s : Operator} (hd : op.HasDistinctFields) (hs : s ∈ op.steps) :
    s.HasDistinctFields := by
  cases op with
  | terminal projection argument =>
      cases argument with
      | none =>
          obtain rfl := List.mem_singleton.1 hs
          exact hd
      | some argument =>
          have hargument : argument.HasDistinctFields := hd argument rfl
          rcases List.mem_cons.1 hs with rfl | hs
          · intro l hl
            by_cases hp : projection.takesPredicate = true
            · rw [if_pos hp] at hl
              cases hl
              exact hargument
            · rw [if_neg hp] at hl
              cases hl
              exact hargument
          · obtain rfl := List.mem_singleton.1 hs
            intro l hl
            cases hl
  | _ =>
      obtain rfl := List.mem_singleton.1 hs
      exact hd

theorem foldl_projection_steps (before : Projection) (op : Operator) :
    op.steps.foldl Operator.projection before = op.projection before := by
  cases op with
  | terminal projection argument => cases argument <;> rfl
  | _ => rfl

theorem foldl_skipped_steps (before : Option UInt64) (op : Operator) :
    op.steps.foldl Operator.skipped before = op.skipped before := by
  cases op with
  | terminal projection argument =>
      cases argument with
      | none => rfl
      | some argument => cases projection <;> rfl
  | _ => rfl

/-- A kind of operators to which no argument of a terminal belongs, and no terminal. -/
structure IsKind (kind : Operator → Bool) : Prop where
  filter : ∀ l, kind (.where_ l) = false
  select : ∀ l, kind (.select l) = false
  terminal : ∀ projection argument, kind (.terminal projection argument) = false

theorem isKind_isPaging : IsKind isPaging := ⟨fun _ => rfl, fun _ => rfl, fun _ _ => rfl⟩

theorem isKind_isOrdering : IsKind isOrdering := ⟨fun _ => rfl, fun _ => rfl, fun _ _ => rfl⟩

theorem isKind_isTyping : IsKind isTyping := ⟨fun _ => rfl, fun _ => rfl, fun _ _ => rfl⟩

theorem isKind_asksTotal : IsKind asksTotal := ⟨fun _ => rfl, fun _ => rfl, fun _ _ => rfl⟩

namespace IsKind

variable {kind : Operator → Bool}

theorem countP_steps (hk : IsKind kind) (op : Operator) :
    op.steps.countP kind = [op].countP kind := by
  cases op with
  | terminal projection argument =>
      cases argument with
      | none => rfl
      | some argument =>
          rw [steps]
          by_cases hp : projection.takesPredicate = true
          · rw [if_pos hp]
            simp [hk.filter, hk.terminal]
          · rw [if_neg hp]
            simp [hk.select, hk.terminal]
  | _ => rfl

theorem countP_flatMap_steps (hk : IsKind kind) (ops : List Operator) :
    (ops.flatMap steps).countP kind = ops.countP kind := by
  induction ops with
  | nil => rfl
  | cons op rest ih =>
      rw [List.flatMap_cons, List.countP_append, hk.countP_steps, ih, ← List.countP_append,
        List.singleton_append]

theorem any_flatMap_steps (hk : IsKind kind) (ops : List Operator) :
    (ops.flatMap steps).any kind = ops.any kind := by
  rw [Bool.eq_iff_iff, List.any_eq_true, List.any_eq_true, ← List.countP_pos_iff,
    ← List.countP_pos_iff, hk.countP_flatMap_steps]

end IsKind

end Operator

/-- A chain means what its steps mean. -/
theorem Evaluates.steps {ops : List Operator} {rows after : List Value}
    (he : Evaluates g h ops rows after) : Evaluates g h (ops.flatMap Operator.steps) rows after := by
  induction ops generalizing rows with
  | nil => exact he
  | cons op rest ih =>
      obtain ⟨between, htakes, hrest⟩ := he
      have hrest := ih hrest
      rw [List.flatMap_cons]
      cases op with
      | terminal projection argument =>
          cases argument with
          | none => exact ⟨between, htakes, hrest⟩
          | some argument =>
              -- the projection leaves the rows as they are
              refine ⟨between, ?_, between, rfl, hrest⟩
              by_cases hp : projection.takesPredicate
              · rw [Operator.Takes, if_pos hp] at htakes
                rw [if_pos hp]
                exact htakes
              · rw [Operator.Takes, if_neg hp] at htakes
                rw [if_neg hp]
                exact htakes
      | _ => exact ⟨between, htakes, hrest⟩

/-- The answer that a projection makes of rows, which are a listing without one. -/
def Projection.answer (projection : Projection) (skip total : Option UInt64) (rows : List Value) :
    Except Error Answer := do
  match ← projection.answer? rows with
  | some v => .ok (.value v)
  | none => .ok (.listing ⟨rows, skip, total, none⟩)

namespace Query

/-- The operators before the first one that takes rows by their places. -/
def unpaged (q : Query) : List Operator :=
  q.operators.takeWhile fun op => !op.isPaging

/-- The operators from the first one on that takes rows by their places. -/
def paged (q : Query) : List Operator :=
  q.operators.dropWhile fun op => !op.isPaging

/-- The first step behind the operators without paging is one of paging. -/
theorem isPaging_head_paged (q : Query) :
    ∀ op ∈ (q.paged.flatMap Operator.steps).head?, op.isPaging = true := by
  intro s hs
  have hhead := List.head?_dropWhile_not (fun op : Operator => !op.isPaging) q.operators
  cases hpaged : q.paged with
  | nil =>
      rw [hpaged] at hs
      cases hs
  | cons op rest =>
      rw [hpaged, List.flatMap_cons] at hs
      rw [paged] at hpaged
      rw [hpaged] at hhead
      have hop : op.isPaging = true := by simpa using hhead
      cases op with
      | skip count =>
          cases hs
          rfl
      | take count =>
          cases hs
          rfl
      | _ => cases hop

theorem any_isPaging_unpaged (q : Query) : q.unpaged.any Operator.isPaging = false := by
  rw [List.any_eq_false]
  intro op hop hpaging
  have hnot := List.all_eq_true.1 (List.all_takeWhile (p := fun op : Operator => !op.isPaging)) op hop
  rw [hpaging] at hnot
  cases hnot

/-- What the chain makes of its rows in the end. -/
def projection (q : Query) : Projection :=
  q.operators.foldl Operator.projection .enumerable

/-- How many rows the chain leaves out. -/
def skipped (q : Query) : Option UInt64 :=
  q.operators.foldl Operator.skipped none

/-- **The answer of a chain** whose rows are `rows`, of `whole` rows before paging. -/
def answer (q : Query) (whole rows : List Value) : Except Error Answer :=
  let total := UInt64.ofNat whole.length
  q.projection.answer q.skipped (if q.operators.any Operator.asksTotal then some total else none) rows

end Query

end ResourceQuery
