import ResourceQuery.Proofs.Expr.NormalForms
import ResourceQuery.Proofs.Query.Acceptance
import ResourceQuery.Proofs.Text.Splitting

set_option autoImplicit false

/-! # Plans are fixed points

The chain that stands for a plan has the plan itself (`Query.plan_toQuery`), although its operators stand
in another order than in the chain from which the plan was made. Three things are kept by every operator
that a plan takes up (`Plan.IsSettled`): its lambdas are simplified, so that taking them up once more
leaves them as they are; it is paged only if it is sorted, so that paging is not rejected; and no path is
expanded twice, so that none is dropped. A path is written as a text in the plan and as a lambda in the
chain; the lambda for a text has the text as its path (`Lambda.memberPath?_ofMemberPath`).

The rest is a walk along the canonical chain, one part of the plan after the other (`Plan.adds_toQuery`).
-/

namespace ResourceQuery

/-! ## Paths as texts -/

theorem Expr.simplify_chainOf (x : String) (names : List String) :
    (chainOf x names).simplify = chainOf x names := by
  induction names using List.reverseRecOn with
  | nil => rfl
  | append_singleton names name ih =>
      -- a chain is no row that is written out
      have hmember : memberOf (chainOf x names) name = .member (chainOf x names) name := by
        cases names using List.reverseRecOn with
        | nil => rfl
        | append_singleton names last =>
            unfold chainOf
            rw [List.foldl_concat]
            rfl
      unfold chainOf at ih hmember ⊢
      rw [List.foldl_concat, simplify, ih, hmember]

namespace Lambda

theorem isSimplified_ofMemberPath (path : String) : (ofMemberPath path).IsSimplified :=
  isSimplified_iff.mpr (Expr.simplify_chainOf _ _)

/-- **The lambda for a path has that path.** -/
theorem memberPath?_ofMemberPath (path : String) : (ofMemberPath path).memberPath? = some path := by
  have hsome : Text.splitOn '.' path ++ [] ≠ [] := by
    rw [List.append_nil]
    unfold Text.splitOn
    simpa using Text.splitChars_ne_nil '.' path.toList
  unfold memberPath? ofMemberPath
  dsimp only
  rw [Expr.pathFrom_chainOf _ _ [] hsome, List.append_nil, Option.map_some, Text.join_splitOn]

end Lambda

/-! ## What a plan makes of lambdas -/

/-- What is known of the lambdas of a chain, `Given`, makes `Kept` hold of all that a plan puts together
from them. -/
structure Lambda.Builds (Given Kept : Lambda → Prop) : Prop where
  simplified : ∀ l, Given l → Kept l.simplified
  compose : ∀ l selector, Given l → Kept selector → Kept (l.compose selector)
  andAlso : ∀ l m, Kept l → Kept m → Kept (l.andAlso m)

theorem Lambda.builds_isSimplified : Builds (fun _ => True) IsSimplified where
  simplified := fun l _ => isSimplified_simplified l
  compose := fun l selector _ _ => isSimplified_compose l selector
  andAlso := fun _ m hl _ => hl.andAlso m

theorem Lambda.builds_hasNumbers : Builds HasNumbers HasNumbers where
  simplified := fun _ hl => hl.simplified
  compose := fun _ _ hl hselector => hl.compose hselector
  andAlso := fun _ _ hl hm => hl.andAlso hm

theorem Operator.lambda?_of_mem_steps {op s : Operator} (hs : s ∈ op.steps) {l : Lambda}
    (hl : l ∈ s.lambda?) : l ∈ op.lambda? := by
  cases op with
  | terminal projection argument =>
      cases argument with
      | none =>
          obtain rfl := List.mem_singleton.mp hs
          exact hl
      | some argument =>
          rcases List.mem_cons.mp hs with rfl | hs
          · split at hl
            · exact hl
            · exact hl
          · obtain rfl := List.mem_singleton.mp hs
            cases hl
  | _ =>
      obtain rfl := List.mem_singleton.mp hs
      exact hl

namespace Plan

variable {p p' q : Plan} {op : Operator} {ops : List Operator} {Given Kept : Lambda → Prop}

/-- `Kept` holds of every lambda of the plan. -/
structure Every (Kept : Lambda → Prop) (p : Plan) : Prop where
  filter : ∀ l ∈ p.filter, Kept l
  groupBy : ∀ l ∈ p.groupBy, Kept l
  orderBy : ∀ key ∈ p.orderBy, Kept key.key
  select : ∀ l ∈ p.select, Kept l

theorem every_ofSource (type : TypeId) (path : String) : (ofSource type path).Every Kept :=
  ⟨by rintro _ ⟨⟩, by rintro _ ⟨⟩, by rintro _ ⟨⟩, by rintro _ ⟨⟩⟩

theorem Every.rebase (hbuilds : Lambda.Builds Given Kept) (h : p.Every Kept) {l : Lambda}
    (hl : Given l) : Kept (p.rebase l) := by
  unfold Plan.rebase
  split
  · rename_i selector hselect
    exact hbuilds.compose l selector hl (h.select selector hselect)
  · exact hbuilds.simplified l hl

theorem Every.add (hbuilds : Lambda.Builds Given Kept) (h : p.Every Kept)
    (hop : ∀ l ∈ op.lambda?, Given l) (hadd : p.add op = .ok p') : p'.Every Kept := by
  cases op with
  | where_ l =>
      have hnew := h.rebase hbuilds (hop l rfl)
      obtain ⟨-, -, rfl⟩ := of_addFilter hadd
      refine { h with filter := ?_ }
      rintro _ ⟨⟩
      split
      · rename_i existing hexisting
        exact hbuilds.andAlso existing _ (h.filter existing hexisting) hnew
      · exact hnew
  | select l =>
      have hnew := h.rebase hbuilds (hop l rfl)
      cases hadd
      exact { h with select := by rintro _ ⟨⟩; exact hnew }
  | orderBy key =>
      have hnew := h.rebase hbuilds (hop key.key rfl)
      obtain ⟨-, rfl⟩ := of_addOrder hadd
      exact { h with orderBy := by rintro _ ⟨⟩; exact hnew }
  | groupBy l =>
      obtain ⟨-, -, -, -, rfl⟩ := of_addGrouping hadd
      exact { h with groupBy := by rintro _ ⟨⟩; exact hbuilds.simplified l (hop l rfl) }
  | skip count =>
      obtain ⟨-, -, rfl⟩ := of_addSkip hadd
      exact { h with }
  | take count =>
      obtain ⟨-, -, rfl⟩ := of_addTake hadd
      exact { h with }
  | ofType type =>
      obtain ⟨-, -, -, rfl⟩ := of_addType hadd
      exact { h with }
  | expand path =>
      obtain ⟨-, -, -, expand, rfl, -⟩ := of_addExpand hadd
      exact { h with }
  | includeTotalCount =>
      cases hadd
      exact { h with }
  | terminal projection argument =>
      cases hadd
      exact { h with }

theorem Every.adds (hbuilds : Lambda.Builds Given Kept) (h : p.Every Kept)
    (hops : ∀ op ∈ ops, ∀ l ∈ op.lambda?, Given l) (ha : Adds p ops p') : p'.Every Kept := by
  induction ops generalizing p with
  | nil =>
      obtain rfl : p = p' := ha
      exact h
  | cons op rest ih =>
      obtain ⟨between, hadd, hrest⟩ := ha
      exact ih (h.add hbuilds (hops op List.mem_cons_self) hadd)
        (fun other hother => hops other (List.mem_cons_of_mem _ hother)) hrest

/-! ## What every plan is like -/

/-- What a plan needs to be taken up again as it is. -/
structure IsSettled (p : Plan) : Prop where
  simplified : p.Every Lambda.IsSimplified
  sorted : p.isPaged = true → p.orderBy.isSome = true
  paths : DistinctNames p.expand

theorem isSettled_ofSource (type : TypeId) (path : String) : (ofSource type path).IsSettled :=
  ⟨every_ofSource type path, by rintro ⟨⟩, List.Pairwise.nil⟩

/-- A path is put behind paths that are all different from it. -/
theorem distinctNames_concat {paths : List String} (h : DistinctNames paths) {path : String}
    (hnew : (paths.any fun other => Text.sameIgnoringCase other path) = false) :
    DistinctNames (paths ++ [path]) := by
  refine List.pairwise_append.mpr ⟨h, List.pairwise_singleton _ _, fun other hother last hlast => ?_⟩
  obtain rfl := List.mem_singleton.mp hlast
  exact Bool.eq_false_iff.mpr (List.any_eq_false.mp hnew other hother)

theorem IsSettled.add (h : p.IsSettled) (hadd : p.add op = .ok p') : p'.IsSettled := by
  refine ⟨h.simplified.add Lambda.builds_isSimplified (fun _ _ => trivial) hadd, ?_, ?_⟩
  · -- who pages has sorted, and what was sorted stays so
    have hmarks := remembers_of_add hadd
    intro hpaged
    rw [hmarks.paging] at hpaged
    rw [hmarks.ordering]
    rcases (Bool.or_eq_true _ _).mp hpaged with hbefore | hnow
    · rw [h.sorted hbefore, Bool.true_or]
    · cases op with
      | skip count => rw [(of_addSkip hadd).1, Bool.true_or]
      | take count => rw [(of_addTake hadd).1, Bool.true_or]
      | _ => cases hnow
  · cases op with
    | where_ l =>
        obtain ⟨-, -, rfl⟩ := of_addFilter hadd
        exact h.paths
    | orderBy key =>
        obtain ⟨-, rfl⟩ := of_addOrder hadd
        exact h.paths
    | groupBy l =>
        obtain ⟨-, -, -, -, rfl⟩ := of_addGrouping hadd
        exact h.paths
    | skip count =>
        obtain ⟨-, -, rfl⟩ := of_addSkip hadd
        exact h.paths
    | take count =>
        obtain ⟨-, -, rfl⟩ := of_addTake hadd
        exact h.paths
    | ofType type =>
        obtain ⟨-, -, -, rfl⟩ := of_addType hadd
        exact h.paths
    | expand path =>
        obtain ⟨-, text, -, expand, rfl, hexpand⟩ := of_addExpand hadd
        rcases hexpand with ⟨rfl, -⟩ | ⟨rfl, hnew⟩
        · exact h.paths
        · exact distinctNames_concat h.paths hnew
    | select l =>
        cases hadd
        exact h.paths
    | includeTotalCount =>
        cases hadd
        exact h.paths
    | terminal projection argument =>
        cases hadd
        exact h.paths

theorem IsSettled.adds (h : p.IsSettled) (ha : Adds p ops p') : p'.IsSettled := by
  induction ops generalizing p with
  | nil =>
      obtain rfl : p = p' := ha
      exact h
  | cons op rest ih =>
      obtain ⟨between, hadd, hrest⟩ := ha
      exact ih (h.add hadd) hrest

/-! ## Along the canonical chain -/

theorem Adds.append {first second : List Operator} (hfirst : Adds p first q) (hsecond : Adds q second p') :
    Adds p (first ++ second) p' := by
  induction first generalizing p with
  | nil =>
      obtain rfl : p = q := hfirst
      exact hsecond
  | cons op rest ih =>
      obtain ⟨between, hadd, hrest⟩ := hfirst
      exact ⟨between, hadd, ih hrest⟩

/-! ### One part after another

Each part of a plan is taken up by the operator for it, if it is there. -/

theorem adds_toList {α : Type} {part : Option α} {operator : α → Operator}
    (hnone : part = none → p = q) (hsome : ∀ a, part = some a → p.add (operator a) = .ok q) :
    Adds p (part.map operator).toList q := by
  cases part with
  | none => exact hnone rfl
  | some a => exact ⟨q, hsome a rfl, rfl⟩

theorem rebase_of_isSimplified (hselected : p.select = none) {l : Lambda} (hl : l.IsSimplified) :
    p.rebase l = l := by
  unfold rebase
  rw [hselected]
  exact hl

theorem adds_ofType (type : Option TypeId) (hpaged : p.isPaged = false) (hgrouped : p.groupBy = none)
    (hselected : p.select = none) (hnew : p.ofType = none) :
    Adds p (type.map Operator.ofType).toList { p with ofType := type } :=
  adds_toList (fun hnone => by rw [hnone, ← hnew]) fun t ht => by
    rw [ht]
    exact addType_of hpaged hgrouped hselected

theorem adds_filter {filter : Option Lambda} (hfilter : ∀ l ∈ filter, l.IsSimplified)
    (hpaged : p.isPaged = false) (hgrouped : p.groupBy = none) (hselected : p.select = none)
    (hnew : p.filter = none) :
    Adds p (filter.map Operator.where_).toList { p with filter := filter } :=
  adds_toList (fun hnone => by rw [hnone, ← hnew]) fun l hl => by
    have hadd := addFilter_of (l := l) hpaged hgrouped
    rw [hnew, rebase_of_isSimplified hselected (hfilter l hl)] at hadd
    rw [hl]
    exact hadd

theorem adds_groupBy {key : Option Lambda} (hkey : ∀ l ∈ key, l.IsSimplified)
    (hpaged : p.isPaged = false) (hgrouped : p.groupBy = none) (hselected : p.select = none)
    (hordered : p.orderBy = none) :
    Adds p (key.map Operator.groupBy).toList { p with groupBy := key } :=
  adds_toList (fun hnone => by rw [hnone, ← hgrouped]) fun l hl => by
    have hadd : p.addGrouping l = .ok { p with groupBy := some l.simplified } :=
      addGrouping_of hpaged hgrouped hselected hordered
    have hsimplified : l.simplified = l := hkey l hl
    rw [hsimplified] at hadd
    rw [hl]
    exact hadd

theorem adds_orderBy {key : Option SortKey} (hkey : ∀ k ∈ key, k.key.IsSimplified)
    (hpaged : p.isPaged = false) (hselected : p.select = none) (hnew : p.orderBy = none) :
    Adds p (key.map Operator.orderBy).toList { p with orderBy := key } :=
  adds_toList (fun hnone => by rw [hnone, ← hnew]) fun k hk => by
    have hadd : p.addOrder k = .ok { p with orderBy := some ⟨p.rebase k.key, k.direction⟩ } :=
      addOrder_of hpaged
    rw [rebase_of_isSimplified hselected (hkey k hk)] at hadd
    rw [hk]
    exact hadd

theorem adds_skip {count : Option UInt64} (hordered : count.isSome = true → p.orderBy.isSome = true)
    (htake : p.take = none) (hnew : p.skip = none) :
    Adds p (count.map Operator.skip).toList { p with skip := count } :=
  adds_toList (fun hnone => by rw [hnone, ← hnew]) fun n hn => by
    have hadd : p.addSkip n = .ok { p with
        skip := some n
        take := p.take.map fun m => if n ≤ m then m - n else 0 } :=
      addSkip_of (hordered (by rw [hn]; rfl)) hnew
    rw [htake] at hadd
    rw [hn, htake]
    exact hadd

theorem adds_take {count : Option UInt64} (hordered : count.isSome = true → p.orderBy.isSome = true)
    (hnew : p.take = none) : Adds p (count.map Operator.take).toList { p with take := count } :=
  adds_toList (fun hnone => by rw [hnone, ← hnew]) fun n hn => by
    rw [hn]
    exact addTake_of (hordered (by rw [hn]; rfl)) hnew

theorem adds_select {selector : Option Lambda} (hselector : ∀ l ∈ selector, l.IsSimplified)
    (hnew : p.select = none) :
    Adds p (selector.map Operator.select).toList { p with select := selector } :=
  adds_toList (fun hnone => by rw [hnone, ← hnew]) fun l hl => by
    rw [hl, Plan.add, rebase_of_isSimplified hnew (hselector l hl)]

theorem adds_total (asked : Bool) (hnew : p.includeTotalCount = false) :
    Adds p (if asked then [Operator.includeTotalCount] else []) { p with includeTotalCount := asked } := by
  cases asked with
  | true => exact ⟨_, rfl, rfl⟩
  | false =>
      show p = _
      rw [← hnew]

/-- Paths that are all different are taken up one after another. -/
theorem adds_expand (hgrouped : p.groupBy = none) (hselected : p.select = none) {paths : List String}
    (hpaths : DistinctNames (p.expand ++ paths)) :
    Adds p (paths.map fun path => Operator.expand (Lambda.ofMemberPath path))
      { p with expand := p.expand ++ paths } := by
  induction paths generalizing p with
  | nil =>
      rw [List.append_nil]
      rfl
  | cons path rest ih =>
      have hrebased : (p.rebase (Lambda.ofMemberPath path)).memberPath? = some path := by
        unfold rebase
        rw [hselected]
        have hsimplified : (Lambda.ofMemberPath path).simplified = Lambda.ofMemberPath path :=
          Lambda.isSimplified_ofMemberPath path
        exact (congrArg Lambda.memberPath? hsimplified).trans (Lambda.memberPath?_ofMemberPath path)
      have hnew : (p.expand.any fun other => Text.sameIgnoringCase other path) = false := by
        rw [List.any_eq_false]
        intro other hother
        have hdiffer := (List.pairwise_append.mp hpaths).2.2 other hother path List.mem_cons_self
        rw [hdiffer]
        exact Bool.false_ne_true
      have hadd : p.addExpand (Lambda.ofMemberPath path) = .ok { p with expand := p.expand ++ [path] } := by
        rw [addExpand_of hgrouped hrebased, hnew]
        rfl
      have hmoved : p.expand ++ path :: rest = (p.expand ++ [path]) ++ rest := List.append_cons _ _ _
      rw [hmoved] at hpaths ⊢
      exact ⟨_, hadd, @ih { p with expand := p.expand ++ [path] } hgrouped hselected hpaths⟩

theorem adds_paths {paths : List String} (hpaths : DistinctNames paths) (hgrouped : p.groupBy = none)
    (hselected : p.select = none) (hnew : p.expand = []) :
    Adds p (paths.map fun path => Operator.expand (Lambda.ofMemberPath path)) { p with expand := paths } := by
  have hall : DistinctNames (p.expand ++ paths) := by rw [hnew]; exact hpaths
  have hadds := adds_expand hgrouped hselected hall
  rw [hnew] at hadds
  exact hadds

/-! ### The whole chain -/

/-- The operators of the canonical chain before the terminal. -/
def leading (p : Plan) : List Operator :=
  (p.ofType.map Operator.ofType).toList ++
    p.expand.map (fun path => Operator.expand (Lambda.ofMemberPath path)) ++
    (p.filter.map Operator.where_).toList ++ (p.groupBy.map Operator.groupBy).toList ++
    (p.orderBy.map Operator.orderBy).toList ++ (p.skip.map Operator.skip).toList ++
    (p.take.map Operator.take).toList ++ (p.select.map Operator.select).toList ++
    (if p.includeTotalCount then [Operator.includeTotalCount] else [])

/-- The terminal of the canonical chain, which a listing does not have. -/
def closing (p : Plan) : List Operator :=
  if p.projection = .enumerable then [] else [Operator.terminal p.projection none]

theorem operators_toQuery (p : Plan) : p.toQuery.operators = p.leading ++ p.closing :=
  rfl

/-- **A plan is taken up again by the operators of its canonical chain**, up to the projection. -/
theorem IsSettled.adds_leading (h : p.IsSettled) :
    Adds (ofSource p.sourceType p.path) p.leading { p with projection := .enumerable } := by
  obtain ⟨⟨hfilter, hgroup, horder, hselect⟩, hsorted, hpaths⟩ := h
  -- what is skipped or taken was sorted
  have hskip : p.skip.isSome = true → p.orderBy.isSome = true := fun hsome =>
    hsorted (by rw [isPaged, hsome, Bool.true_or])
  have htake : p.take.isSome = true → p.orderBy.isSome = true := fun hsome =>
    hsorted (by rw [isPaged, hsome, Bool.or_true])
  have hwalk := (adds_ofType (p := ofSource p.sourceType p.path) p.ofType rfl rfl rfl rfl)
    |>.append (adds_paths hpaths rfl rfl rfl)
    |>.append (adds_filter hfilter rfl rfl rfl rfl)
    |>.append (adds_groupBy hgroup rfl rfl rfl rfl)
    |>.append (adds_orderBy horder rfl rfl rfl)
    |>.append (adds_skip hskip rfl rfl)
    |>.append (adds_take htake rfl)
    |>.append (adds_select hselect rfl)
    |>.append (adds_total p.includeTotalCount rfl)
  exact hwalk

theorem forall_mem_toList {α : Type} {P : Operator → Prop} {operator : α → Operator} {part : Option α}
    (h : ∀ a ∈ part, P (operator a)) : ∀ op ∈ (part.map operator).toList, P op := by
  cases part with
  | none => exact fun op hop => absurd hop List.not_mem_nil
  | some a =>
      intro op hop
      obtain rfl := List.mem_singleton.mp hop
      exact h a rfl

/-- What holds of the operators for the parts of the plan holds of all before the terminal. -/
theorem forall_mem_leading {P : Operator → Prop} (htype : ∀ t ∈ p.ofType, P (.ofType t))
    (hexpand : ∀ path ∈ p.expand, P (.expand (Lambda.ofMemberPath path)))
    (hfilter : ∀ l ∈ p.filter, P (.where_ l)) (hgroup : ∀ l ∈ p.groupBy, P (.groupBy l))
    (horder : ∀ key ∈ p.orderBy, P (.orderBy key)) (hskip : ∀ n ∈ p.skip, P (.skip n))
    (htake : ∀ n ∈ p.take, P (.take n)) (hselect : ∀ l ∈ p.select, P (.select l))
    (htotal : P .includeTotalCount) : ∀ op ∈ p.leading, P op := by
  have happend : ∀ {first second : List Operator}, (∀ op ∈ first, P op) → (∀ op ∈ second, P op) →
      ∀ op ∈ first ++ second, P op := fun hfirst hsecond =>
    List.forall_mem_append.mpr ⟨hfirst, hsecond⟩
  have hpaths : ∀ op ∈ p.expand.map fun path => Operator.expand (Lambda.ofMemberPath path), P op :=
    List.forall_mem_map.mpr hexpand
  have hasked : ∀ op ∈ (if p.includeTotalCount then [Operator.includeTotalCount] else []), P op := by
    split
    · exact List.forall_mem_singleton.mpr htotal
    · exact fun op hop => absurd hop List.not_mem_nil
  exact happend (happend (happend (happend (happend (happend (happend (happend
    (forall_mem_toList htype) hpaths) (forall_mem_toList hfilter)) (forall_mem_toList hgroup))
    (forall_mem_toList horder)) (forall_mem_toList hskip)) (forall_mem_toList htake))
    (forall_mem_toList hselect)) hasked

theorem isTerminal_leading (p : Plan) : ∀ op ∈ p.leading, op.isTerminal = false :=
  forall_mem_leading (fun _ _ => rfl) (fun _ _ => rfl) (fun _ _ => rfl) (fun _ _ => rfl) (fun _ _ => rfl)
    (fun _ _ => rfl) (fun _ _ => rfl) (fun _ _ => rfl) rfl

/-- The canonical chain has no arguments of terminals that would be steps of their own. -/
theorem steps_toQuery (p : Plan) : p.toQuery.operators.flatMap Operator.steps = p.toQuery.operators := by
  have hsteps : ∀ op ∈ p.toQuery.operators, op.steps = [op] := by
    rw [operators_toQuery]
    refine List.forall_mem_append.mpr ⟨fun op hop => ?_, fun op hop => ?_⟩
    · have hterminal := p.isTerminal_leading op hop
      cases op with
      | terminal projection argument => cases hterminal
      | _ => rfl
    · unfold closing at hop
      split at hop
      · exact absurd hop List.not_mem_nil
      · obtain rfl := List.mem_singleton.mp hop
        rfl
  rw [List.flatMap_congr hsteps, List.flatMap_singleton']

/-- Operators without terminals are taken up, and then the others. -/
theorem addAll_append (ha : Adds p ops q) (hops : ∀ op ∈ ops, op.isTerminal = false)
    (last : List Operator) : p.addAll (ops ++ last) = q.addAll last := by
  induction ops generalizing p with
  | nil => exact congrArg (Plan.addAll · last) ha
  | cons op rest ih =>
      obtain ⟨between, hadd, hrest⟩ := ha
      rw [List.cons_append, addAll_cons_of (hops op List.mem_cons_self) hadd]
      exact ih hrest fun other hother => hops other (List.mem_cons_of_mem _ hother)

theorem IsSettled.plan_again (h : p.IsSettled) : p.toQuery.plan = .ok p := by
  have hclosing : ({ p with projection := .enumerable } : Plan).addAll p.closing = .ok p := by
    unfold closing
    split
    · rename_i hlisting
      rw [← hlisting]
      rfl
    · rfl
  have hall : (ofSource p.sourceType p.path).addAll p.toQuery.operators = .ok p := by
    rw [operators_toQuery, addAll_append h.adds_leading p.isTerminal_leading]
    exact hclosing
  unfold Query.plan
  rw [steps_toQuery]
  dsimp only [toQuery] at hall ⊢
  rw [hall]

/-! ## Equality with itself -/

end Plan

namespace Lambda

theorem sameOption_self {l : Option Lambda} (h : ∀ m ∈ l, m.HasNumbers) : sameOption l l = true := by
  cases l with
  | none => rfl
  | some m => exact (h m rfl).equal_self

end Lambda

namespace SortKey

theorem equal_self {key : SortKey} (h : key.key.HasNumbers) : key.equal key = true := by
  unfold equal
  rw [h.equal_self, beq_self_eq_true]
  rfl

theorem sameOption_self {key : Option SortKey} (h : ∀ k ∈ key, k.key.HasNumbers) :
    sameOption key key = true := by
  cases key with
  | none => rfl
  | some k => exact equal_self (h k rfl)

end SortKey

theorem Operator.equal_self {op : Operator} (h : ∀ l ∈ op.lambda?, l.HasNumbers) :
    op.equal op = true := by
  cases op with
  | where_ l => exact (h l rfl).equal_self
  | select l => exact (h l rfl).equal_self
  | groupBy l => exact (h l rfl).equal_self
  | expand l => exact (h l rfl).equal_self
  | orderBy key => exact SortKey.equal_self (h key.key rfl)
  | terminal projection argument =>
      have hargument : Lambda.sameOption argument argument = true := Lambda.sameOption_self h
      show (projection == projection && Lambda.sameOption argument argument) = true
      rw [hargument, beq_self_eq_true]
      rfl
  | skip count => exact beq_self_eq_true _
  | take count => exact beq_self_eq_true _
  | ofType type => exact beq_self_eq_true _
  | includeTotalCount => rfl

theorem Query.sameOperators_self {ops : List Operator} (h : ∀ op ∈ ops, op.equal op = true) :
    sameOperators ops ops = true := by
  induction ops with
  | nil => rfl
  | cons op rest ih =>
      unfold sameOperators
      rw [h op List.mem_cons_self, ih fun other hother => h other (List.mem_cons_of_mem _ hother)]
      rfl

theorem Lambda.hasNumbers_ofMemberPath (path : String) : (ofMemberPath path).HasNumbers := by
  unfold HasNumbers ofMemberPath
  dsimp only
  generalize Text.splitOn '.' path = names
  induction names using List.reverseRecOn with
  | nil => trivial
  | append_singleton names name ih =>
      rw [List.foldl_concat]
      exact ih

namespace Plan

variable {p : Plan}

theorem equal_self (h : p.Every Lambda.HasNumbers) : p.equal p = true := by
  unfold equal
  rw [Lambda.sameOption_self h.filter, Lambda.sameOption_self h.groupBy,
    SortKey.sameOption_self h.orderBy, Lambda.sameOption_self h.select]
  simp

theorem equal_toQuery_self (h : p.Every Lambda.HasNumbers) : p.toQuery.equal p.toQuery = true := by
  have hnumbers : ∀ op ∈ p.toQuery.operators, op.equal op = true := by
    rw [operators_toQuery]
    refine List.forall_mem_append.mpr ⟨?_, fun op hop => ?_⟩
    · refine forall_mem_leading (fun _ _ => beq_self_eq_true _) (fun path _ => ?_)
        (fun l hl => (h.filter l hl).equal_self) (fun l hl => (h.groupBy l hl).equal_self)
        (fun key hkey => SortKey.equal_self (h.orderBy key hkey)) (fun _ _ => beq_self_eq_true _)
        (fun _ _ => beq_self_eq_true _) (fun l hl => (h.select l hl).equal_self) rfl
      exact (Lambda.hasNumbers_ofMemberPath path).equal_self
    · unfold closing at hop
      split at hop
      · exact absurd hop List.not_mem_nil
      · obtain rfl := List.mem_singleton.mp hop
        exact Operator.equal_self (by rintro _ ⟨⟩)
  unfold Query.equal
  rw [Query.sameOperators_self hnumbers]
  simp

end Plan

namespace Query

/-- All floats in the lambdas of the chain are numbers. -/
def HasNumbers (q : Query) : Prop :=
  ∀ op ∈ q.operators, ∀ l ∈ op.lambda?, l.HasNumbers

/-- **The canonical chain of a plan has that plan**, and a plan whose floats are numbers equals itself. So
bringing a chain into canonical order twice is the same as doing it once. -/
theorem plan_toQuery {q : Query} {p : Plan} (hplan : q.plan = .ok p) (hnumbers : q.HasNumbers) :
    (p.toQuery.plan = .ok p ∧ p.equal p = true) ∧
      q.canonical = .ok p.toQuery ∧ p.toQuery.canonical = .ok p.toQuery ∧
        p.toQuery.equal p.toQuery = true := by
  have hadds := adds_of_plan hplan
  have hsettled := (Plan.isSettled_ofSource q.elementType q.path).adds hadds
  have hlambdas : ∀ s ∈ q.operators.flatMap Operator.steps, ∀ l ∈ s.lambda?, l.HasNumbers := by
    intro s hs l hl
    obtain ⟨op, hop, hs⟩ := List.mem_flatMap.mp hs
    exact hnumbers op hop l (Operator.lambda?_of_mem_steps hs hl)
  have hevery := (Plan.every_ofSource q.elementType q.path).adds Lambda.builds_hasNumbers hlambdas hadds
  have hagain := hsettled.plan_again
  refine ⟨⟨hagain, Plan.equal_self hevery⟩, ?_, ?_, Plan.equal_toQuery_self hevery⟩
  · unfold canonical
    rw [hplan]
    rfl
  · unfold canonical
    rw [hagain]
    rfl

/-- Labels of animals: filters and the path stand behind the selection, and are put before it. -/
def labelled : Query :=
  ⟨⟨9⟩, "critters",
    [.where_ ⟨"x", .binary .gt (.member (.param "x") "Weight") (.constant (.float 2.5))⟩,
      .select ⟨"x", .row [("Label", .member (.member (.param "x") "Owner") "Name")]⟩,
      .where_ ⟨"y", .binary .ne (.member (.param "y") "label") (.constant (.string ""))⟩,
      .expand ⟨"y", .member (.param "y") "LABEL"⟩,
      .orderBy ⟨⟨"y", .member (.param "y") "Label"⟩, .descending⟩,
      .take 5, .skip 2, .includeTotalCount, .terminal .first none]⟩

theorem labelled_plan_toQuery : ∃ p, labelled.plan = .ok p ∧ labelled.HasNumbers ∧
    (p.toQuery.plan = .ok p ∧ p.equal p = true) ∧
      labelled.canonical = .ok p.toQuery ∧ p.toQuery.canonical = .ok p.toQuery ∧
        p.toQuery.equal p.toQuery = true := by
  have hnumbers : labelled.HasNumbers := by
    have hweight : (Literal.float 2.5).IsNumber := by
      intro x hx
      cases hx
      decide +kernel
    have hlabel : (Literal.string "").IsNumber := by
      intro x hx
      cases hx
    unfold HasNumbers labelled
    simp [Operator.lambda?, Lambda.HasNumbers, Expr.HasNumbers, Expr.FieldsHaveNumbers, hweight, hlabel]
  obtain ⟨p, hplan⟩ : ∃ p, labelled.plan = .ok p := ⟨_, rfl⟩
  exact ⟨p, hplan, hnumbers, plan_toQuery hplan hnumbers⟩

end Query

end ResourceQuery
