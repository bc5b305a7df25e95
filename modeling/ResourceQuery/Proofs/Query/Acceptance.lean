import ResourceQuery.Proofs.Query.Plans
import Mathlib.Data.List.Induction

set_option autoImplicit false

/-! # Which chains have a plan

A chain has a plan if its operators stand in an order that can be brought into that of plans
(`Acceptable`): the rules say which operators must not come after which, and where paths lead that are
to be expanded. A plan is not asked about the operators that it has taken up, but about the marks which
they left, and the selection. So the proof follows both at once: `Plan.Follows` says that a plan is
marked as the operators before would have it, each operator that is added keeps this
(`Plan.Follows.add`), and under it a plan takes up an operator exactly if the rules allow it after those
(`Plan.Follows.exists_add_iff`).
-/

namespace ResourceQuery

/-! ## Chains of members -/

namespace Expr

/-- The members called `names`, one of the other, of the variable `x`. -/
abbrev chainOf (x : String) (names : List String) : Expr :=
  names.foldl .member (.param x)

theorem pathFrom_chainOf (x : String) (names below : List String) (hpath : names ++ below ≠ []) :
    (chainOf x names).pathFrom x below = some (names ++ below) := by
  induction names using List.reverseRecOn generalizing below with
  | nil =>
      unfold pathFrom
      exact if_pos ⟨rfl, hpath⟩
  | append_singleton names name ih =>
      unfold chainOf
      rw [List.foldl_concat, pathFrom, ih (name :: below) (by simp), List.append_assoc,
        List.singleton_append]

theorem exists_of_pathFrom {x : String} {e : Expr} {below path : List String}
    (hpath : e.pathFrom x below = some path) :
    ∃ names, e = chainOf x names ∧ path = names ++ below ∧ path ≠ [] := by
  fun_induction pathFrom x below e with
  | case1 below target name ih =>
      obtain ⟨names, rfl, rfl, hsome⟩ := ih hpath
      refine ⟨names ++ [name], ?_, ?_, hsome⟩
      · unfold chainOf
        rw [List.foldl_concat]
      · rw [List.append_assoc, List.singleton_append]
  | case2 below y h =>
      cases hpath
      exact ⟨[], congrArg Expr.param h.1, rfl, h.2⟩
  | case3 => cases hpath
  | case4 => cases hpath

end Expr

namespace Lambda

/-- The lambda follows members of its argument, at least one. -/
def IsMemberChain (l : Lambda) : Prop :=
  ∃ names, names ≠ [] ∧ l.body = Expr.chainOf l.parameter names

theorem isSome_memberPath?_iff (l : Lambda) : l.memberPath?.isSome = true ↔ l.IsMemberChain := by
  unfold memberPath?
  rw [Option.isSome_map, Option.isSome_iff_exists]
  constructor
  · rintro ⟨path, hpath⟩
    obtain ⟨names, hbody, rfl, hsome⟩ := Expr.exists_of_pathFrom hpath
    exact ⟨names, by simpa using hsome, hbody⟩
  · rintro ⟨names, hsome, hbody⟩
    rw [hbody]
    exact ⟨_, Expr.pathFrom_chainOf _ names [] (by simpa using hsome)⟩

/-- The lambda in terms of the row before a selection. -/
def rebased (l : Lambda) : Option Lambda → Lambda
  | some selector => l.compose selector
  | none => l.simplified

end Lambda

/-! ## The rules -/

namespace Operator

/-- What is selected behind the operator, given what was before it. -/
def selected (before : Option Lambda) : Operator → Option Lambda
  | .select l => some (l.rebased before)
  | _ => before

end Operator

/-- What is selected by the operators, all selections composed. -/
def selection (ops : List Operator) : Option Lambda :=
  ops.foldl Operator.selected none

/-- No operator that is `late` comes after one that is `early`. -/
def NoneAfter (ops : List Operator) (early late : Operator → Bool) : Prop :=
  ∀ before op after, ops = before ++ op :: after → late op = true → before.any early = false

/-- **The rules for the order of operators**, for a chain in which the argument of a terminal stands as an
operator of its own before it. -/
structure Acceptable (ops : List Operator) : Prop where
  terminal : NoneAfter ops Operator.isTerminal fun _ => true
  sorted : ∀ before op after, ops = before ++ op :: after → op.isPaging = true →
    before.any Operator.isOrdering = true
  skipsOnce : ops.countP Operator.isSkip ≤ 1
  takesOnce : ops.countP Operator.isTake ≤ 1
  paged : NoneAfter ops Operator.isPaging fun op =>
    op.isFilter || op.isOrdering || op.isGrouping || op.isTyping
  grouped : NoneAfter ops Operator.isGrouping fun op =>
    op.isFilter || op.isTyping || op.isExpansion || op.isGrouping
  selected : NoneAfter ops Operator.isSelection fun op => op.isGrouping || op.isTyping
  ordered : NoneAfter ops Operator.isOrdering Operator.isGrouping
  expanded : ∀ before path after, ops = before ++ .expand path :: after →
    (path.rebased (selection before)).IsMemberChain

/-- At most one operator is of a kind if none of the kind comes after one. -/
theorem countP_le_one_iff {kind : Operator → Bool} {ops : List Operator} :
    ops.countP kind ≤ 1 ↔ NoneAfter ops kind kind := by
  constructor
  · rintro hcount before op after rfl hop
    rw [List.countP_append, List.countP_cons_of_pos hop] at hcount
    rw [List.any_eq_false]
    have hzero : before.countP kind = 0 := by omega
    exact fun other hother => List.countP_eq_zero.mp hzero other hother
  · intro hnone
    induction ops using List.reverseRecOn with
    | nil => exact Nat.zero_le 1
    | append_singleton ops op ih =>
        rw [List.countP_append]
        by_cases hop : kind op = true
        · have hbefore := hnone ops op [] rfl hop
          have hzero : ops.countP kind = 0 :=
            List.countP_eq_zero.mpr fun other hother => List.any_eq_false.mp hbefore other hother
          rw [hzero, List.countP_cons_of_pos hop, List.countP_nil]
        · rw [List.countP_cons_of_neg hop, List.countP_nil]
          refine ih fun before other after hops => hnone before other (after ++ [op]) ?_
          rw [hops, List.append_assoc, List.cons_append]

/-! ### The rules, by operator -/

/-- What the rules ask of the operators before an operator. -/
def Operator.FitsAfter (before : List Operator) : Operator → Prop
  | .where_ _ => before.any isPaging = false ∧ before.any isGrouping = false
  | .orderBy _ => before.any isPaging = false
  | .groupBy _ => before.any isGrouping = false ∧ before.any isPaging = false ∧
      before.any isSelection = false ∧ before.any isOrdering = false
  | .skip _ => before.any isOrdering = true ∧ before.any isSkip = false
  | .take _ => before.any isOrdering = true ∧ before.any isTake = false
  | .ofType _ => before.any isPaging = false ∧ before.any isGrouping = false ∧
      before.any isSelection = false
  | .expand path => before.any isGrouping = false ∧ (path.rebased (selection before)).IsMemberChain
  | _ => True

/-- A chain is acceptable if each of its operators fits after those before, and is the last one if it is a
terminal. -/
theorem acceptable_iff {ops : List Operator} :
    Acceptable ops ↔ ∀ before op after, ops = before ++ op :: after →
      op.FitsAfter before ∧ (op.isTerminal = true → after = []) := by
  constructor
  · intro h before op after hops
    have hskip := countP_le_one_iff.mp h.skipsOnce before op after hops
    have htake := countP_le_one_iff.mp h.takesOnce before op after hops
    refine ⟨?_, fun hterminal => ?_⟩
    · cases op with
      | where_ l => exact ⟨h.paged before _ after hops rfl, h.grouped before _ after hops rfl⟩
      | orderBy key => exact h.paged before _ after hops rfl
      | groupBy l =>
          exact ⟨h.grouped before _ after hops rfl, h.paged before _ after hops rfl,
            h.selected before _ after hops rfl, h.ordered before _ after hops rfl⟩
      | skip count => exact ⟨h.sorted before _ after hops rfl, hskip rfl⟩
      | take count => exact ⟨h.sorted before _ after hops rfl, htake rfl⟩
      | ofType type =>
          exact ⟨h.paged before _ after hops rfl, h.grouped before _ after hops rfl,
            h.selected before _ after hops rfl⟩
      | expand path => exact ⟨h.grouped before _ after hops rfl, h.expanded before path after hops⟩
      | _ => trivial
    · -- an operator behind the terminal would come after it
      cases after with
      | nil => rfl
      | cons next after =>
          have hnone := h.terminal (before ++ [op]) next after (by simp [hops]) rfl
          simp [hterminal] at hnone
  · intro h
    have hfits : ∀ {before op after}, ops = before ++ op :: after → op.FitsAfter before :=
      fun {before op after} hops => (h before op after hops).1
    refine ⟨?_, ?_, countP_le_one_iff.mpr ?_, countP_le_one_iff.mpr ?_, ?_, ?_, ?_, ?_, ?_⟩
    · intro before op after hops _
      rw [List.any_eq_false]
      intro other hother hterminal
      -- a terminal among those before would be the last one
      obtain ⟨first, second, rfl⟩ := List.append_of_mem hother
      have hlast := (h first other (second ++ op :: after) (by simp [hops])).2 hterminal
      simp at hlast
    · intro before op after hops hop
      cases op with
      | skip count => exact (hfits hops).1
      | take count => exact (hfits hops).1
      | _ => cases hop
    · intro before op after hops hop
      cases op with
      | skip count => exact (hfits hops).2
      | _ => cases hop
    · intro before op after hops hop
      cases op with
      | take count => exact (hfits hops).2
      | _ => cases hop
    · intro before op after hops hop
      cases op with
      | where_ l => exact (hfits hops).1
      | orderBy key => exact hfits hops
      | groupBy l => exact (hfits hops).2.1
      | ofType type => exact (hfits hops).1
      | _ => cases hop
    · intro before op after hops hop
      cases op with
      | where_ l => exact (hfits hops).2
      | groupBy l => exact (hfits hops).1
      | ofType type => exact (hfits hops).2.1
      | expand path => exact (hfits hops).1
      | _ => cases hop
    · intro before op after hops hop
      cases op with
      | groupBy l => exact (hfits hops).2.2.1
      | ofType type => exact (hfits hops).2.2
      | _ => cases hop
    · intro before op after hops hop
      cases op with
      | groupBy l => exact (hfits hops).2.2.2
      | _ => cases hop
    · exact fun before path after hops => (hfits hops).2

/-! ## Plans -/

namespace Plan

variable {p p' : Plan} {before : List Operator} {op : Operator}

/-- The marks of the plan are those of the operators, and it selects what they do. -/
structure Follows (p : Plan) (before : List Operator) : Prop where
  ordering : p.orderBy.isSome = before.any Operator.isOrdering
  skipping : p.skip.isSome = before.any Operator.isSkip
  taking : p.take.isSome = before.any Operator.isTake
  grouping : p.groupBy.isSome = before.any Operator.isGrouping
  selects : p.select = selection before

theorem follows_ofSource (type : TypeId) (path : String) : (ofSource type path).Follows [] :=
  ⟨rfl, rfl, rfl, rfl, rfl⟩

theorem any_isPaging (ops : List Operator) :
    ops.any Operator.isPaging = (ops.any Operator.isSkip || ops.any Operator.isTake) := by
  induction ops with
  | nil => rfl
  | cons op rest ih =>
      rw [List.any_cons, List.any_cons, List.any_cons, ih]
      cases op with
      | skip count => rfl
      | take count => exact (Bool.or_true _).symm
      | _ => rfl

theorem Follows.isPaged (h : p.Follows before) : p.isPaged = before.any Operator.isPaging := by
  unfold Plan.isPaged
  rw [any_isPaging, h.skipping, h.taking]

theorem Follows.rebase (h : p.Follows before) (l : Lambda) : p.rebase l = l.rebased (selection before) := by
  unfold Plan.rebase
  rw [h.selects]
  cases selection before with
  | none => rfl
  | some selector => rfl

/-- What is selected after operators, and whether something was ever selected. -/
theorem isSome_selection (ops : List Operator) :
    (selection ops).isSome = ops.any Operator.isSelection := by
  induction ops using List.reverseRecOn with
  | nil => rfl
  | append_singleton ops op ih =>
      unfold selection at ih ⊢
      rw [List.foldl_concat, List.any_append, ← ih]
      cases op with
      | select l => exact (Bool.or_true _).symm
      | _ => exact (Bool.or_false _).symm

theorem Follows.isSome_select (h : p.Follows before) :
    p.select.isSome = before.any Operator.isSelection := by
  rw [h.selects, isSome_selection]

/-- **A plan that takes up an operator follows it too.** -/
theorem Follows.add (h : p.Follows before) (hadd : p.add op = .ok p') : p'.Follows (before ++ [op]) := by
  obtain ⟨hordering, hskipping, htaking, hgrouping, hselects⟩ := h
  have hkept : ∀ {mark : Bool} {kind : Operator → Bool}, mark = before.any kind → kind op = false →
      mark = (before ++ [op]).any kind := fun hmark hkind => by
    rw [List.any_append, List.any_cons, List.any_nil, hkind, hmark, Bool.or_false, Bool.or_false]
  have hset : ∀ {kind : Operator → Bool}, kind op = true → true = (before ++ [op]).any kind :=
    fun hkind => by
      rw [List.any_append, List.any_cons, hkind, Bool.true_or, Bool.or_true]
  have hselection : selection (before ++ [op]) = op.selected (selection before) := by
    unfold selection
    rw [List.foldl_concat]
  cases op with
  | where_ l =>
      obtain ⟨-, -, rfl⟩ := of_addFilter hadd
      exact ⟨hkept hordering rfl, hkept hskipping rfl, hkept htaking rfl, hkept hgrouping rfl,
        hselects.trans hselection.symm⟩
  | select l =>
      cases hadd
      refine ⟨hkept hordering rfl, hkept hskipping rfl, hkept htaking rfl, hkept hgrouping rfl, ?_⟩
      rw [hselection]
      exact congrArg some (Follows.rebase ⟨hordering, hskipping, htaking, hgrouping, hselects⟩ l)
  | orderBy key =>
      obtain ⟨-, rfl⟩ := of_addOrder hadd
      exact ⟨hset rfl, hkept hskipping rfl, hkept htaking rfl, hkept hgrouping rfl,
        hselects.trans hselection.symm⟩
  | groupBy l =>
      obtain ⟨-, -, -, -, rfl⟩ := of_addGrouping hadd
      exact ⟨hkept hordering rfl, hkept hskipping rfl, hkept htaking rfl, hset rfl,
        hselects.trans hselection.symm⟩
  | skip count =>
      obtain ⟨-, -, rfl⟩ := of_addSkip hadd
      refine ⟨hkept hordering rfl, hset rfl, ?_, hkept hgrouping rfl, hselects.trans hselection.symm⟩
      rw [Option.isSome_map]
      exact hkept htaking rfl
  | take count =>
      obtain ⟨-, -, rfl⟩ := of_addTake hadd
      exact ⟨hkept hordering rfl, hkept hskipping rfl, hset rfl, hkept hgrouping rfl,
        hselects.trans hselection.symm⟩
  | ofType type =>
      obtain ⟨-, -, -, rfl⟩ := of_addType hadd
      exact ⟨hkept hordering rfl, hkept hskipping rfl, hkept htaking rfl, hkept hgrouping rfl,
        hselects.trans hselection.symm⟩
  | expand path =>
      obtain ⟨-, -, -, expand, rfl, -⟩ := of_addExpand hadd
      exact ⟨hkept hordering rfl, hkept hskipping rfl, hkept htaking rfl, hkept hgrouping rfl,
        hselects.trans hselection.symm⟩
  | includeTotalCount =>
      cases hadd
      exact ⟨hkept hordering rfl, hkept hskipping rfl, hkept htaking rfl, hkept hgrouping rfl,
        hselects.trans hselection.symm⟩
  | terminal projection argument =>
      cases hadd
      exact ⟨hkept hordering rfl, hkept hskipping rfl, hkept htaking rfl, hkept hgrouping rfl,
        hselects.trans hselection.symm⟩

/-! ### When a plan takes up an operator -/

theorem isSome_eq_false_iff {α : Type} {a : Option α} : a.isSome = false ↔ a = none :=
  Bool.eq_false_iff.trans Option.not_isSome_iff_eq_none

/-- **A plan takes up an operator exactly if the rules allow it** after those which the plan follows. -/
theorem Follows.exists_add_iff (h : p.Follows before) :
    (∃ p', p.add op = .ok p') ↔ op.FitsAfter before := by
  have hselect := h.isSome_select
  cases op with
  | where_ l =>
      dsimp only [Operator.FitsAfter]
      rw [← h.isPaged, ← h.grouping]
      constructor
      · rintro ⟨p', hadd⟩
        obtain ⟨hpaged, hgrouped, -⟩ := of_addFilter hadd
        exact ⟨hpaged, isSome_eq_false_iff.mpr hgrouped⟩
      · rintro ⟨hpaged, hgrouped⟩
        exact ⟨_, addFilter_of hpaged (isSome_eq_false_iff.mp hgrouped)⟩
  | select l => exact ⟨fun _ => trivial, fun _ => ⟨_, rfl⟩⟩
  | orderBy key =>
      dsimp only [Operator.FitsAfter]
      rw [← h.isPaged]
      constructor
      · rintro ⟨p', hadd⟩
        exact (of_addOrder hadd).1
      · exact fun hpaged => ⟨_, addOrder_of hpaged⟩
  | groupBy l =>
      dsimp only [Operator.FitsAfter]
      rw [← h.isPaged, ← h.grouping, ← hselect, ← h.ordering]
      constructor
      · rintro ⟨p', hadd⟩
        obtain ⟨hpaged, hgrouped, hselected, hordered, -⟩ := of_addGrouping hadd
        exact ⟨isSome_eq_false_iff.mpr hgrouped, hpaged, isSome_eq_false_iff.mpr hselected,
          isSome_eq_false_iff.mpr hordered⟩
      · rintro ⟨hgrouped, hpaged, hselected, hordered⟩
        exact ⟨_, addGrouping_of hpaged (isSome_eq_false_iff.mp hgrouped)
          (isSome_eq_false_iff.mp hselected) (isSome_eq_false_iff.mp hordered)⟩
  | skip count =>
      dsimp only [Operator.FitsAfter]
      rw [← h.ordering, ← h.skipping]
      constructor
      · rintro ⟨p', hadd⟩
        obtain ⟨hordered, hskip, -⟩ := of_addSkip hadd
        exact ⟨hordered, isSome_eq_false_iff.mpr hskip⟩
      · rintro ⟨hordered, hskip⟩
        exact ⟨_, addSkip_of hordered (isSome_eq_false_iff.mp hskip)⟩
  | take count =>
      dsimp only [Operator.FitsAfter]
      rw [← h.ordering, ← h.taking]
      constructor
      · rintro ⟨p', hadd⟩
        obtain ⟨hordered, htake, -⟩ := of_addTake hadd
        exact ⟨hordered, isSome_eq_false_iff.mpr htake⟩
      · rintro ⟨hordered, htake⟩
        exact ⟨_, addTake_of hordered (isSome_eq_false_iff.mp htake)⟩
  | ofType type =>
      dsimp only [Operator.FitsAfter]
      rw [← h.isPaged, ← h.grouping, ← hselect]
      constructor
      · rintro ⟨p', hadd⟩
        obtain ⟨hpaged, hgrouped, hselected, -⟩ := of_addType hadd
        exact ⟨hpaged, isSome_eq_false_iff.mpr hgrouped, isSome_eq_false_iff.mpr hselected⟩
      · rintro ⟨hpaged, hgrouped, hselected⟩
        exact ⟨_, addType_of hpaged (isSome_eq_false_iff.mp hgrouped)
          (isSome_eq_false_iff.mp hselected)⟩
  | expand path =>
      dsimp only [Operator.FitsAfter]
      rw [← h.grouping, ← h.rebase, ← Lambda.isSome_memberPath?_iff, Option.isSome_iff_exists]
      constructor
      · rintro ⟨p', hadd⟩
        obtain ⟨hgrouped, text, htext, -⟩ := of_addExpand hadd
        exact ⟨isSome_eq_false_iff.mpr hgrouped, text, htext⟩
      · rintro ⟨hgrouped, text, htext⟩
        exact ⟨_, addExpand_of (isSome_eq_false_iff.mp hgrouped) htext⟩
  | includeTotalCount => exact ⟨fun _ => trivial, fun _ => ⟨_, rfl⟩⟩
  | terminal projection argument => exact ⟨fun _ => trivial, fun _ => ⟨_, rfl⟩⟩

/-- A chain is taken up by taking up its first operator, which is no terminal unless it is the last, and
then the others. -/
theorem exists_addAll_cons_iff {rest : List Operator} :
    (∃ p', p.addAll (op :: rest) = .ok p') ↔
      (op.isTerminal = true → rest = []) ∧
        ∃ between, p.add op = .ok between ∧ ∃ p', between.addAll rest = .ok p' := by
  cases rest with
  | nil =>
      constructor
      · rintro ⟨p', hadd⟩
        exact ⟨fun _ => rfl, p', hadd, p', rfl⟩
      · rintro ⟨-, between, hadd, -⟩
        exact ⟨between, hadd⟩
  | cons next rest =>
      constructor
      · rintro ⟨p', hall⟩
        obtain ⟨between, hadd, hrest⟩ := exists_of_addAll_cons hall
        refine ⟨fun hterminal => ?_, between, hadd, p', hrest⟩
        cases op with
        | terminal projection argument => cases hall
        | _ => cases hterminal
      · rintro ⟨hterminal, between, hadd, p', hrest⟩
        have hop : op.isTerminal = false := Bool.eq_false_iff.mpr fun h => by cases hterminal h
        exact ⟨p', (addAll_cons_of hop hadd).trans hrest⟩

/-- A plan takes up operators exactly if each of them fits after those before it. -/
theorem Follows.exists_addAll_iff {ops : List Operator} (h : p.Follows before) :
    (∃ p', p.addAll ops = .ok p') ↔ ∀ first op rest, ops = first ++ op :: rest →
      op.FitsAfter (before ++ first) ∧ (op.isTerminal = true → rest = []) := by
  induction ops generalizing p before with
  | nil => exact ⟨fun _ first op rest hops => by simp at hops, fun _ => ⟨p, rfl⟩⟩
  | cons head tail ih =>
      rw [exists_addAll_cons_iff]
      constructor
      · rintro ⟨hterminal, between, hadd, hall⟩ first op rest hops
        cases first with
        | nil =>
            obtain ⟨rfl, rfl⟩ := List.cons.inj hops
            rw [List.append_nil]
            exact ⟨h.exists_add_iff.mp ⟨between, hadd⟩, hterminal⟩
        | cons other first =>
            obtain ⟨rfl, rfl⟩ := List.cons.inj hops
            rw [List.append_cons]
            exact (ih (h.add hadd)).mp hall first op rest rfl
      · intro hfits
        obtain ⟨hfit, hterminal⟩ := hfits [] head tail rfl
        rw [List.append_nil] at hfit
        obtain ⟨between, hadd⟩ := h.exists_add_iff.mpr hfit
        refine ⟨hterminal, between, hadd, (ih (h.add hadd)).mpr fun first op rest hops => ?_⟩
        rw [List.append_assoc, List.singleton_append]
        exact hfits (head :: first) op rest (by rw [hops]; rfl)

end Plan

namespace Query

/-- **A query has a plan exactly if its operators stand in an acceptable order**, with the argument of a
terminal as an operator before it; in any other order it is rejected as a chain that is not supported. -/
theorem exists_plan_iff (q : Query) :
    ((∃ p, q.plan = .ok p) ↔ Acceptable (q.operators.flatMap Operator.steps)) ∧
      (¬ Acceptable (q.operators.flatMap Operator.steps) →
        ∃ rejection, q.plan = .error (.notSupported (.chain rejection))) := by
  have hall : (∃ p, (Plan.ofSource q.elementType q.path).addAll (q.operators.flatMap Operator.steps) =
      .ok p) ↔ Acceptable (q.operators.flatMap Operator.steps) :=
    (Plan.follows_ofSource q.elementType q.path).exists_addAll_iff.trans acceptable_iff.symm
  unfold plan
  cases hplan : (Plan.ofSource q.elementType q.path).addAll (q.operators.flatMap Operator.steps) with
  | ok p =>
      rw [hplan] at hall
      have haccept := hall.mp ⟨p, rfl⟩
      exact ⟨⟨fun _ => haccept, fun _ => ⟨p, rfl⟩⟩, fun hnot => absurd haccept hnot⟩
  | error rejection =>
      rw [hplan] at hall
      refine ⟨⟨fun h => ?_, fun haccept => ?_⟩, fun _ => ⟨rejection, rfl⟩⟩
      · obtain ⟨p, hp⟩ := h
        cases hp
      · obtain ⟨p, hp⟩ := hall.mpr haccept
        cases hp

end Query

end ResourceQuery
