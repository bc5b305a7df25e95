import ResourceQuery.Proofs.Expr.Binding
import ResourceQuery.Proofs.Query.Canonical

set_option autoImplicit false

/-! # Consecutive filters

Two filters one after the other, and one filter by the conjunction of the two, leave the same conjuncts
in the plan, in the same order. Whether the plans are equal is another question: each filter is put
behind the conjunction that is already there, so the conjunctions are nested to the left as the filters
came, while the single filter keeps its two conjuncts together. So the plans are equal exactly if the
filters are the first ones of the chain, and nothing in it is unequal to itself
(`Query.plans_of_merged_filters`).

The comparison is one of nameless forms: what a filter becomes behind a selection depends on its form
alone (`Plan.conjoins_rebase`), and no form is a part of itself.
-/

namespace ResourceQuery

/-! ## Conjunctions -/

namespace Nameless

/-- The conjuncts of a form; of a form that is no conjunction, the form itself. -/
def conjuncts : Nameless → List Nameless
  | .binary .and left right => conjuncts left ++ conjuncts right
  | n => [n]

/-- No form is a conjunction that starts with the conjunction of itself and more. -/
theorem ne_and_self (n m : Nameless) : n ≠ .binary .and n m := by
  intro h
  have hsize := congrArg sizeOf h
  rw [binary.sizeOf_spec] at hsize
  omega

end Nameless

namespace Lambda

variable {both first second l m : Lambda}

/-- The lambda is the conjunction of two: its body is the conjunction of their bodies, each under the
variable of the whole. -/
def Conjoins (both first second : Lambda) : Prop :=
  both.nameless = .binary .and first.nameless second.nameless

/-- The lambda over `x` that applies both to `x` and is true where both are. -/
def bothOf (x : String) (first second : Lambda) : Lambda :=
  ⟨x, .binary .and (first.body.substitute first.parameter (.param x))
    (second.body.substitute second.parameter (.param x))⟩

/-- **The conjunction of two closed lambdas may be written with any variable.** -/
theorem conjoins_bothOf (x : String) (hfirst : first.IsClosed) (hsecond : second.IsClosed) :
    (bothOf x first second).Conjoins first second :=
  congrArg₂ (Nameless.binary .and) (Expr.nameless_substitute_param (hfirst.not_mem_freeNames x))
    (Expr.nameless_substitute_param (hsecond.not_mem_freeNames x))

theorem Conjoins.simplified (h : both.Conjoins first second) :
    both.simplified.Conjoins first.simplified second.simplified := by
  unfold Conjoins at h ⊢
  rw [nameless_simplified, h, nameless_simplified, nameless_simplified]
  rfl

theorem Conjoins.compose (h : both.Conjoins first second) (selector : Lambda) :
    (both.compose selector).Conjoins (first.compose selector) (second.compose selector) := by
  unfold Conjoins at h ⊢
  rw [nameless_compose, h, nameless_compose, nameless_compose]
  rfl

/-- A conjunction is simplified before or after its sides are put together. -/
theorem conjoins_andAlso (hparameter : l.parameter ∉ m.nameless.freeNames) (hm : m.IsSimplified) :
    (l.andAlso m).Conjoins l m := by
  unfold Conjoins
  rw [nameless_andAlso_of_not_free hparameter, hm.nameless_simplify]

/-- Behind a conjunction that is already there, the conjuncts are the same either way. -/
theorem conjuncts_andAlso (existing : Lambda) (h : both.Conjoins first second) :
    ((existing.andAlso first).andAlso second).nameless.conjuncts =
      (existing.andAlso both).nameless.conjuncts := by
  unfold Conjoins at h
  rw [nameless_andAlso, nameless_andAlso, nameless_andAlso, h]
  exact List.append_assoc _ _ _

/-- But they are grouped in another way. -/
theorem not_equal_andAlso (existing first second both : Lambda) :
    ((existing.andAlso first).andAlso second).equal (existing.andAlso both) = false := by
  rw [← Bool.not_eq_true]
  intro hequal
  have hforms := (equal_iff (HasNumbers.of_equal hequal)).mp hequal
  rw [nameless_andAlso, nameless_andAlso, nameless_andAlso] at hforms
  injection hforms with _ hleft
  exact Nameless.ne_and_self _ _ hleft.symm

end Lambda

/-! ## Plans -/

namespace Plan

variable {p p' : Plan} {both first second l : Lambda}

/-- **A conjunction stays one behind a selection.** -/
theorem conjoins_rebase (p : Plan) (h : both.Conjoins first second) :
    (p.rebase both).Conjoins (p.rebase first) (p.rebase second) := by
  unfold rebase
  cases p.select with
  | none => exact h.simplified
  | some selector => exact h.compose selector

theorem isSimplified_rebase (p : Plan) (l : Lambda) : (p.rebase l).IsSimplified := by
  unfold rebase
  cases p.select with
  | none => exact Lambda.isSimplified_simplified l
  | some selector => exact Lambda.isSimplified_compose l selector

/-- A filter does not mention the variable of another from outside, if it did not before both were put
behind the same selection. -/
theorem not_mem_freeNames_rebase (p : Plan) (first : Lambda) (hclosed : second.IsClosed) :
    (p.rebase first).parameter ∉ (p.rebase second).nameless.freeNames := by
  unfold rebase
  cases p.select with
  | none => exact hclosed.simplified.not_mem_freeNames _
  | some selector => exact (second.compose selector).parameter_not_mem_freeNames

/-- The first filter by two closed lambdas in turn is their conjunction. -/
theorem conjoins_rebased (p : Plan) (first : Lambda) (hclosed : second.IsClosed) :
    ((p.rebase first).andAlso (p.rebase second)).Conjoins (p.rebase first) (p.rebase second) :=
  Lambda.conjoins_andAlso (p.not_mem_freeNames_rebase first hclosed) (p.isSimplified_rebase second)

theorem HasNumbers.rebase (hselect : ∀ l ∈ p.select, l.HasNumbers) (hl : l.HasNumbers) :
    (p.rebase l).HasNumbers := by
  unfold Plan.rebase
  cases hselector : p.select with
  | none => exact hl.simplified
  | some selector => exact hl.compose (hselect selector hselector)

theorem hasNumbers_of_equal_self (h : p.equal p = true) : ∀ l ∈ p.select, l.HasNumbers := by
  intro l hl
  simp only [equal, Bool.and_eq_true] at h
  have hselect : Lambda.sameOption p.select p.select = true := h.1.1.1.2
  rw [hl] at hselect
  exact Lambda.equal_self_iff.mp hselect

/-- Plans with filters are compared by the filters and by the rest. -/
theorem equal_withFilter_iff {f₁ f₂ : Lambda} :
    ({ p with filter := some f₁ } : Plan).equal { p with filter := some f₂ } = true ↔
      f₁.equal f₂ = true ∧ ({ p with filter := none } : Plan).equal { p with filter := none } = true := by
  simp only [equal, Lambda.sameOption, Bool.and_eq_true]
  tauto

/-- The filter of the plan after one more. -/
def filterWith (p : Plan) (l : Lambda) : Lambda :=
  match p.filter with
  | some existing => existing.andAlso (p.rebase l)
  | none => p.rebase l

/-- The filter of the plan after two more, one after the other. -/
def filterAfter (p : Plan) (first second : Lambda) : Lambda :=
  (p.filterWith first).andAlso (p.rebase second)

theorem addFilter_addFilter (hpaged : p.isPaged = false) (hgrouped : p.groupBy = none) :
    ∃ between, p.addFilter first = .ok between ∧
      between.addFilter second = .ok { p with filter := some (p.filterAfter first second) } :=
  have hagain : Plan.addFilter { p with filter := some (p.filterWith first) } second =
      .ok { p with filter := some (p.filterAfter first second) } :=
    addFilter_of hpaged hgrouped
  ⟨{ p with filter := some (p.filterWith first) }, addFilter_of hpaged hgrouped, hagain⟩

theorem conjuncts_filterAfter (h : both.Conjoins first second) (hclosed : second.IsClosed) :
    (p.filterAfter first second).nameless.conjuncts = (p.filterWith both).nameless.conjuncts := by
  have hboth := p.conjoins_rebase h
  unfold filterAfter filterWith
  cases p.filter with
  | none => exact congrArg Nameless.conjuncts ((p.conjoins_rebased first hclosed).trans hboth.symm)
  | some existing => exact Lambda.conjuncts_andAlso existing hboth

/-- **Two filters in turn and one by the conjunction leave equal plans exactly if there was no filter
before**, in a plan that equals itself. -/
theorem equal_filterAfter_iff (h : both.Conjoins first second) (hclosed : second.IsClosed)
    (hfirst : first.HasNumbers) (hsecond : second.HasNumbers) :
    ({ p with filter := some (p.filterAfter first second) } : Plan).equal
        { p with filter := some (p.filterWith both) } = true ↔
      p.filter = none ∧ p.equal p = true := by
  rw [equal_withFilter_iff]
  have hboth := p.conjoins_rebase h
  unfold filterAfter filterWith
  cases hfilter : p.filter with
  | none =>
      have hsame : ({ p with filter := none } : Plan) = p := by rw [← hfilter]
      rw [hsame]
      refine ⟨fun hequal => ⟨rfl, hequal.2⟩, fun hself => ⟨?_, hself.2⟩⟩
      -- the selection has only numbers, and so has what is put behind it
      have hselect := hasNumbers_of_equal_self hself.2
      have hnumbers : ((p.rebase first).andAlso (p.rebase second)).HasNumbers :=
        (HasNumbers.rebase hselect hfirst).andAlso (HasNumbers.rebase hselect hsecond)
      rw [Lambda.equal_iff hnumbers]
      exact (p.conjoins_rebased first hclosed).trans hboth.symm
  | some existing =>
      refine ⟨fun hequal => ?_, fun hnone => by cases hnone.1⟩
      have hdiffer := Lambda.not_equal_andAlso existing (p.rebase first) (p.rebase second) (p.rebase both)
      rw [hdiffer] at hequal
      cases hequal.1

/-- A plan has a filter if one of the operators was one. -/
theorem isSome_filter_of_add {op : Operator} (hadd : p.add op = .ok p') :
    p'.filter.isSome = (p.filter.isSome || op.isFilter) := by
  have hsame : p.filter.isSome = (p.filter.isSome || false) := (Bool.or_false _).symm
  cases op with
  | where_ l =>
      obtain ⟨-, -, rfl⟩ := of_addFilter hadd
      exact (Bool.or_true _).symm
  | select l =>
      cases hadd
      exact hsame
  | orderBy key =>
      obtain ⟨-, rfl⟩ := of_addOrder hadd
      exact hsame
  | groupBy key =>
      obtain ⟨-, -, -, -, rfl⟩ := of_addGrouping hadd
      exact hsame
  | skip count =>
      obtain ⟨-, -, rfl⟩ := of_addSkip hadd
      exact hsame
  | take count =>
      obtain ⟨-, -, rfl⟩ := of_addTake hadd
      exact hsame
  | ofType type =>
      obtain ⟨-, -, -, rfl⟩ := of_addType hadd
      exact hsame
  | expand path =>
      obtain ⟨-, -, -, expand, rfl, -⟩ := of_addExpand hadd
      exact hsame
  | includeTotalCount =>
      cases hadd
      exact hsame
  | terminal projection argument =>
      cases hadd
      exact hsame

theorem isSome_filter_of_adds {ops : List Operator} (ha : Adds p ops p') :
    p'.filter.isSome = (p.filter.isSome || ops.any Operator.isFilter) := by
  induction ops generalizing p with
  | nil =>
      obtain rfl : p = p' := ha
      rw [List.any_nil, Bool.or_false]
  | cons op rest ih =>
      obtain ⟨between, hadd, hrest⟩ := ha
      rw [ih hrest, isSome_filter_of_add hadd, List.any_cons, Bool.or_assoc]

end Plan

/-! ## Chains -/

theorem Operator.steps_of_not_terminal {op : Operator} (hop : op.isTerminal = false) : op.steps = [op] := by
  cases op with
  | terminal projection argument => cases hop
  | _ => rfl

theorem Operator.exists_terminal_of_steps {op : Operator} (hop : op.isTerminal = true) :
    ∃ s ∈ op.steps, s.isTerminal = true := by
  cases op with
  | terminal projection argument =>
      cases argument with
      | none => exact ⟨_, List.mem_singleton_self _, rfl⟩
      | some argument => exact ⟨_, List.mem_cons_of_mem _ (List.mem_singleton_self _), rfl⟩
  | _ => cases hop

namespace Query

variable {q : Query} {both first second : Lambda}

/-- Nothing but the last operator of a chain with a plan is a terminal. -/
theorem not_terminal_of_plan {op : Operator} {p : Plan} (hplan : (q.then_ op).plan = .ok p) :
    ∀ other ∈ q.operators, other.isTerminal = false := by
  intro other hother
  have haccept : Acceptable ((q.operators ++ [op]).flatMap Operator.steps) :=
    (exists_plan_iff (q.then_ op)).1.mp ⟨p, hplan⟩
  rw [← Bool.not_eq_true]
  intro hterminal
  obtain ⟨s, hs, hterminal⟩ := Operator.exists_terminal_of_steps hterminal
  -- the last step of the chain stands behind the terminal among the steps
  rw [List.flatMap_append, List.flatMap_singleton] at haccept
  obtain ⟨front, last, hsteps⟩ : ∃ front last, op.steps = front ++ [last] := by
    cases op with
    | terminal projection argument =>
        cases argument with
        | none => exact ⟨[], _, rfl⟩
        | some argument => exact ⟨[_], _, rfl⟩
    | _ => exact ⟨[], _, rfl⟩
  rw [hsteps, ← List.append_assoc] at haccept
  have hnone := haccept.terminal _ last [] rfl rfl
  have hmem : s ∈ q.operators.flatMap Operator.steps ++ front :=
    List.mem_append_left front (List.mem_flatMap.mpr ⟨other, hother, hs⟩)
  exact List.any_eq_false.mp hnone s hmem hterminal

/-- The plan of a longer chain is that of the chain with the further operators, if a filter may follow
the chain. -/
theorem exists_plan_of_filter {l : Lambda} {p' : Plan} (hplan : (q.then_ (.where_ l)).plan = .ok p') :
    ∃ p, q.plan = .ok p ∧ p.isPaged = false ∧ p.groupBy = none ∧
      p.filter.isSome = q.operators.any Operator.isFilter ∧
      ∀ rest p', p.addAll rest = .ok p' → rest.flatMap Operator.steps = rest →
        (⟨q.elementType, q.path, q.operators ++ rest⟩ : Query).plan = .ok p' := by
  have hterminal := not_terminal_of_plan hplan
  have hsteps : q.operators.flatMap Operator.steps = q.operators := by
    rw [List.flatMap_congr fun op hop => Operator.steps_of_not_terminal (hterminal op hop),
      List.flatMap_singleton']
  have hadds := adds_of_plan hplan
  unfold then_ at hadds
  rw [List.flatMap_append, hsteps] at hadds
  obtain ⟨p, hfirst, next, hadd, -⟩ := hadds.split
  obtain ⟨hpaged, hgrouped, -⟩ := Plan.of_addFilter hadd
  have hlonger : ∀ rest p', p.addAll rest = .ok p' → rest.flatMap Operator.steps = rest →
      (⟨q.elementType, q.path, q.operators ++ rest⟩ : Query).plan = .ok p' := by
    intro rest p' hrest hsame
    unfold plan
    rw [List.flatMap_append, hsteps, hsame, Plan.addAll_append hfirst hterminal, hrest]
  refine ⟨p, ?_, hpaged, hgrouped, Plan.isSome_filter_of_adds hfirst, hlonger⟩
  have hself := hlonger [] p rfl rfl
  rw [List.append_nil] at hself
  exact hself

/-- **Filters are merged into one conjunction, nested as they came.** Where a filter may follow a chain,
two filters and one by their conjunction leave plans which differ at most in the filter, and there not
in the conjuncts. They are equal exactly if the chain had no filter before and its own plan equals
itself, that is, has no constant that is not a number. -/
theorem plans_of_merged_filters (hboth : both.Conjoins first second) (hclosed : second.IsClosed)
    (hfirst : first.HasNumbers) (hsecond : second.HasNumbers)
    (haccepts : ∃ l p, (q.then_ (.where_ l)).plan = .ok p) :
    ∃ p f₁ f₂, q.plan = .ok p ∧
      ((q.then_ (.where_ first)).then_ (.where_ second)).plan = .ok { p with filter := some f₁ } ∧
      (q.then_ (.where_ both)).plan = .ok { p with filter := some f₂ } ∧
      f₁.nameless.conjuncts = f₂.nameless.conjuncts ∧
      (({ p with filter := some f₁ } : Plan).equal { p with filter := some f₂ } = true ↔
        q.operators.any Operator.isFilter = false ∧ p.equal p = true) := by
  obtain ⟨l, p', hplan⟩ := haccepts
  obtain ⟨p, hq, hpaged, hgrouped, hfilter, hlonger⟩ := exists_plan_of_filter hplan
  obtain ⟨between, hadd, hagain⟩ : ∃ between, p.addFilter first = .ok between ∧
      between.addFilter second = .ok { p with filter := some (p.filterAfter first second) } :=
    Plan.addFilter_addFilter hpaged hgrouped
  have htwo : p.addAll [.where_ first, .where_ second] =
      .ok { p with filter := some (p.filterAfter first second) } := by
    have hwhere : p.add (.where_ first) = .ok between := hadd
    rw [Plan.addAll_cons_of rfl hwhere]
    exact hagain
  have hone : p.addAll [.where_ both] = .ok { p with filter := some (p.filterWith both) } :=
    Plan.addFilter_of hpaged hgrouped
  refine ⟨p, p.filterAfter first second, p.filterWith both, hq, ?_, hlonger _ _ hone rfl,
    Plan.conjuncts_filterAfter hboth hclosed, ?_⟩
  · rw [then_, then_, List.append_assoc]
    exact hlonger _ _ htwo rfl
  · rw [Plan.equal_filterAfter_iff hboth hclosed hfirst hsecond, ← hfilter, Plan.isSome_eq_false_iff]

/-- Names of owners: the filters stand behind the selection. -/
def owned : Query :=
  ⟨⟨9⟩, "critters", [.select ⟨"c", .row [("Owner", .member (.member (.param "c") "Home") "Name")]⟩]⟩

/-- Without a filter before, the second filter joins the first, behind a selection too. -/
theorem owned_filters_merge :
    let first : Lambda := ⟨"x", .binary .ne (.member (.param "x") "owner") (.constant .null)⟩
    let second : Lambda := ⟨"y", .binary .lt (.member (.param "y") "OWNER") (.constant (.string "M"))⟩
    ∃ p₁ p₂, ((owned.then_ (.where_ first)).then_ (.where_ second)).plan = .ok p₁ ∧
      (owned.then_ (.where_ (.bothOf "c" first second))).plan = .ok p₂ ∧ p₁.equal p₂ = true := by
  intro first second
  have hfirst : first.IsClosed := fun x hx => List.mem_singleton.mp hx
  have hsecond : second.IsClosed := fun x hx => List.mem_singleton.mp hx
  have hnull : first.HasNumbers := ⟨trivial, nofun⟩
  have htext : second.HasNumbers := ⟨trivial, nofun⟩
  obtain ⟨p, f₁, f₂, hplan, htwo, hone, -, hequal⟩ :=
    plans_of_merged_filters (q := owned) (Lambda.conjoins_bothOf "c" hfirst hsecond) hsecond hnull htext
      ⟨first, _, rfl⟩
  cases hplan
  exact ⟨_, _, htwo, hone, hequal.mpr ⟨rfl, rfl⟩⟩

/-- Behind another filter the two ways leave different plans, although nothing is selected and all
constants are whole numbers. -/
theorem filters_grouped_as_they_came :
    let q : Query := ⟨⟨9⟩, "critters",
      [.where_ ⟨"x", .binary .gt (.member (.param "x") "Id") (.constant (.int 1))⟩]⟩
    let first : Lambda := ⟨"x", .binary .eq (.member (.param "x") "Legs") (.constant (.int 4))⟩
    let second : Lambda := ⟨"x", .binary .ne (.member (.param "x") "Age") (.constant (.int 7))⟩
    first.IsClosed ∧ second.IsClosed ∧ first.HasNumbers ∧ second.HasNumbers ∧ q.HasNumbers ∧
      (Lambda.bothOf "x" first second).Conjoins first second ∧
      ∃ p₁ p₂, ((q.then_ (.where_ first)).then_ (.where_ second)).plan = .ok p₁ ∧
        (q.then_ (.where_ (.bothOf "x" first second))).plan = .ok p₂ ∧ p₁.equal p₂ = false := by
  intro q first second
  have hfirst : first.IsClosed := fun x hx => List.mem_singleton.mp hx
  have hsecond : second.IsClosed := fun x hx => List.mem_singleton.mp hx
  have hwhole : q.HasNumbers := by
    intro op hop l hl
    obtain rfl := List.mem_singleton.mp hop
    cases hl
    exact ⟨trivial, nofun⟩
  exact ⟨hfirst, hsecond, ⟨trivial, nofun⟩, ⟨trivial, nofun⟩, hwhole,
    Lambda.conjoins_bothOf "x" hfirst hsecond, _, _, rfl, rfl, rfl⟩

end Query

end ResourceQuery
