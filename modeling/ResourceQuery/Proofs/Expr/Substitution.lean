import Mathlib.Data.List.Perm.Subperm
import ResourceQuery.Expr.Eval
import ResourceQuery.Proofs.Expr.Variables

set_option autoImplicit false

/-! # Substitution and values

What substitution does to values. A value of an expression in an environment is still its value after
`x` has been replaced by an expression that has the value of `x` (`eval_substitute`).

All of it is stated with `Refines`: what had a value keeps it, and what failed may do anything. Equality
would be false, since a replacement need not fail where an unbound variable does. The environments
before and after are tied together by `Carries`, of which there is one rule for a step under an
aggregate (`Carries.bind`); renaming and substitution are inductions over the expression along it.
-/

namespace ResourceQuery

/-! ## Refinement -/

/-- Where `x` is a value, `y` is the same value. -/
def Refines {α : Type} (x y : Except Error α) : Prop :=
  ∀ ⦃v⦄, x = .ok v → y = .ok v

namespace Refines

variable {α β : Type}

theorem refl (x : Except Error α) : Refines x x :=
  fun _ h => h

theorem trans {x y z : Except Error α} (hxy : Refines x y) (hyz : Refines y z) : Refines x z :=
  fun _ h => hyz (hxy h)

theorem bind {x y : Except Error α} {f f' : α → Except Error β} (hxy : Refines x y)
    (hf : ∀ a, Refines (f a) (f' a)) : Refines (x >>= f) (y >>= f') := by
  intro b hb
  obtain ⟨a, ha, hb⟩ := Expr.exists_of_bind_eq_ok hb
  rw [hxy ha]
  exact hf a hb

theorem map {x y : Except Error α} (f : α → β) (hxy : Refines x y) : Refines (x.map f) (y.map f) := by
  intro b hb
  cases x with
  | error e => cases hb
  | ok a =>
      rw [hxy rfl]
      exact hb

end Refines

namespace Value

variable {f f' : Value → Except Error Value}

theorem anyTrue_refines (hf : ∀ v, Refines (f v) (f' v)) (items : List Value) :
    Refines (anyTrue f items) (anyTrue f' items) := by
  induction items with
  | nil => exact Refines.refl _
  | cons v rest ih =>
      refine Refines.bind (hf v) fun here => ?_
      by_cases htrue : here.isTrue
      · simp only [htrue, if_true]
        exact Refines.refl _
      · simp only [htrue]
        exact ih

theorem allTrue_refines (hf : ∀ v, Refines (f v) (f' v)) (items : List Value) :
    Refines (allTrue f items) (allTrue f' items) := by
  induction items with
  | nil => exact Refines.refl _
  | cons v rest ih =>
      refine Refines.bind (hf v) fun here => ?_
      by_cases htrue : here.isTrue
      · simp only [htrue, if_true]
        exact ih
      · simp only [htrue]
        exact Refines.refl _

theorem countTrue_refines (hf : ∀ v, Refines (f v) (f' v)) (items : List Value) :
    Refines (countTrue f items) (countTrue f' items) := by
  induction items with
  | nil => exact Refines.refl _
  | cons v rest ih =>
      refine Refines.bind (hf v) fun here => ?_
      exact Refines.bind ih fun more => Refines.refl _

theorem mapAll_refines (hf : ∀ v, Refines (f v) (f' v)) (items : List Value) :
    Refines (mapAll f items) (mapAll f' items) := by
  induction items with
  | nil => exact Refines.refl _
  | cons v rest ih =>
      refine Refines.bind (hf v) fun first => ?_
      exact Refines.bind ih fun others => Refines.refl _

theorem aggregateOf_refines (hf : ∀ v, Refines (f v) (f' v)) (items : List Value) (a : Aggregate) :
    Refines (aggregateOf f items a) (aggregateOf f' items a) := by
  cases a with
  | any => exact (anyTrue_refines hf items).map _
  | all => exact (allTrue_refines hf items).map _
  | count => exact (countTrue_refines hf items).map _
  | sum => exact (mapAll_refines hf items).bind fun _ => Refines.refl _
  | min => exact (mapAll_refines hf items).bind fun _ => Refines.refl _
  | max => exact (mapAll_refines hf items).bind fun _ => Refines.refl _

end Value

namespace Expr

-- the equations of the evaluator are derived here, once for all lemmas below
attribute [local simp] eval evalList evalFields

variable {g : TypeGraph} {h : Heap} {env env' : Env}

/-! ## Parts and the whole

The value of an expression depends on its parts through their values only. -/

theorem member_refines {target target' : Expr} (name : String)
    (ht : Refines (eval g h env target) (eval g h env' target')) :
    Refines (eval g h env (.member target name)) (eval g h env' (.member target' name)) := by
  simp only [eval]
  exact ht.bind fun _ => Refines.refl _

theorem unary_refines {operand operand' : Expr} (op : UnaryOp)
    (ho : Refines (eval g h env operand) (eval g h env' operand')) :
    Refines (eval g h env (.unary op operand)) (eval g h env' (.unary op operand')) := by
  simp only [eval]
  exact ho.bind fun _ => Refines.refl _

theorem binary_refines {left left' right right' : Expr} (op : BinaryOp)
    (hl : Refines (eval g h env left) (eval g h env' left'))
    (hr : Refines (eval g h env right) (eval g h env' right')) :
    Refines (eval g h env (.binary op left right)) (eval g h env' (.binary op left' right')) := by
  -- all operators but two evaluate both operands
  have hboth : ∀ f : Value → Value → Except Error Value,
      Refines (do let l ← eval g h env left; let r ← eval g h env right; f l r)
        (do let l ← eval g h env' left'; let r ← eval g h env' right'; f l r) :=
    fun f => hl.bind fun _ => hr.bind fun _ => Refines.refl _
  cases op with
  | and =>
      simp only [eval]
      -- the right operand counts only where the left one does not decide
      refine hl.bind fun l => ?_
      by_cases htrue : l.isTrue
      · simp only [htrue, if_true]
        exact hr.bind fun _ => Refines.refl _
      · simp only [htrue]
        exact Refines.refl _
  | or =>
      simp only [eval]
      refine hl.bind fun l => ?_
      by_cases htrue : l.isTrue
      · simp only [htrue, if_true]
        exact Refines.refl _
      · simp only [htrue]
        exact hr.bind fun _ => Refines.refl _
  | _ =>
      simp only [eval]
      exact hboth _

theorem call_refines {arguments arguments' : List Expr} (f : TextFunction)
    (ha : Refines (evalList g h env arguments) (evalList g h env' arguments')) :
    Refines (eval g h env (.call f arguments)) (eval g h env' (.call f arguments')) := by
  simp only [eval]
  exact ha.bind fun _ => Refines.refl _

theorem aggregate_refines {target target' : Expr} (a : Aggregate)
    (ht : Refines (eval g h env target) (eval g h env' target')) :
    Refines (eval g h env (.aggregate target a)) (eval g h env' (.aggregate target' a)) := by
  simp only [eval]
  exact ht.bind fun _ => Refines.refl _

theorem aggregateOf_refines {target target' body body' : Expr} {x y : String} (a : Aggregate)
    (ht : Refines (eval g h env target) (eval g h env' target'))
    (hb : ∀ v, Refines (eval g h ((x, v) :: env) body) (eval g h ((y, v) :: env') body')) :
    Refines (eval g h env (.aggregateOf target a x body))
      (eval g h env' (.aggregateOf target' a y body')) := by
  simp only [eval]
  refine ht.bind fun v => ?_
  refine (Refines.refl _).bind fun items => ?_
  exact Value.aggregateOf_refines hb items a

theorem row_refines {fields fields' : List (String × Expr)}
    (hf : Refines (evalFields g h env [] fields) (evalFields g h env' [] fields')) :
    Refines (eval g h env (.row fields)) (eval g h env' (.row fields')) := by
  simp only [eval]
  exact hf.bind fun _ => Refines.refl _

theorem evalList_cons_refines {e e' : Expr} {rest rest' : List Expr}
    (he : Refines (eval g h env e) (eval g h env' e'))
    (hrest : Refines (evalList g h env rest) (evalList g h env' rest')) :
    Refines (evalList g h env (e :: rest)) (evalList g h env' (e' :: rest')) := by
  simp only [evalList]
  exact he.bind fun _ => hrest.bind fun _ => Refines.refl _

theorem evalFields_cons_refines {e e' : Expr} {rest rest' : List (String × Expr)} (name : String)
    (he : Refines (eval g h env e) (eval g h env' e'))
    (hrest : ∀ done, Refines (evalFields g h env done rest) (evalFields g h env' done rest'))
    (done : Entries Value) :
    Refines (evalFields g h env done ((name, e) :: rest))
      (evalFields g h env' done ((name, e') :: rest')) := by
  simp only [evalFields]
  exact he.bind fun _ => hrest _

/-! ## Names -/

mutual

/-- The variables that aggregates in an expression bind. -/
def boundNames : Expr → List String
  | .param _ => []
  | .constant _ => []
  | .member target _ => boundNames target
  | .unary _ operand => boundNames operand
  | .binary _ left right => boundNames left ++ boundNames right
  | .call _ arguments => boundNamesOfList arguments
  | .aggregate target _ => boundNames target
  | .aggregateOf target _ x body => boundNames target ++ x :: boundNames body
  | .row fields => boundNamesOfFields fields

/-- The variables that are bound in a list of expressions. -/
def boundNamesOfList : List Expr → List String
  | [] => []
  | e :: rest => boundNames e ++ boundNamesOfList rest

/-- The variables that are bound in the fields of a row. -/
def boundNamesOfFields : List (String × Expr) → List String
  | [] => []
  | (_, e) :: rest => boundNames e ++ boundNamesOfFields rest

end

namespace Renaming

variable {ρ : Renaming} {x y : String}

theorem lookup_without_self (ρ : Renaming) (x : String) : (ρ.without x).lookup x = none := by
  rw [List.lookup_eq_none_iff]
  intro pair hpair
  have hne : pair.1 ≠ x := by simpa using (List.mem_filter.1 hpair).2
  simpa using fun heq => hne heq.symm

theorem lookup_without (ρ : Renaming) (hne : y ≠ x) : (ρ.without x).lookup y = ρ.lookup y := by
  induction ρ with
  | nil => rfl
  | cons pair rest ih =>
      obtain ⟨old, new⟩ := pair
      by_cases hold : old = x
      · have hother : (y == old) = false := by simpa [hold] using hne
        have hdrop : without ((old, new) :: rest) x = without rest x := by
          simp [without, hold]
        rw [hdrop, ih, List.lookup_cons, hother]
      · have hkeep : without ((old, new) :: rest) x = (old, new) :: without rest x := by
          simp [without, hold]
        rw [hkeep, List.lookup_cons, List.lookup_cons, ih]

theorem apply_without_self (ρ : Renaming) (x : String) : (ρ.without x).apply x = x := by
  rw [apply, lookup_without_self]
  rfl

theorem apply_without (ρ : Renaming) (hne : y ≠ x) : (ρ.without x).apply y = ρ.apply y := by
  rw [apply, apply, lookup_without ρ hne]

theorem apply_of_lookup_none (h : ρ.lookup x = none) : ρ.apply x = x := by
  rw [apply, h]
  rfl

theorem apply_of_lookup_some (h : ρ.lookup x = some y) : ρ.apply x = y := by
  rw [apply, h]
  rfl

/-- A renaming without `x` among its new names takes no other name to `x`. -/
theorem apply_ne (hnew : ∀ pair ∈ ρ, pair.2 ≠ x) (hne : y ≠ x) : ρ.apply y ≠ x := by
  cases hlookup : ρ.lookup y with
  | none =>
      rw [apply_of_lookup_none hlookup]
      exact hne
  | some new =>
      rw [apply_of_lookup_some hlookup]
      obtain ⟨before, after, hsplit, -⟩ := List.lookup_eq_some_iff.1 hlookup
      exact hnew (y, new) (by simp [hsplit])

end Renaming

mutual

/-- A free variable occurs under its new name after renaming. -/
theorem apply_mem_names_rename {y : String} : (e : Expr) → (ρ : Renaming) → y ∈ e.freeNames →
    ρ.apply y ∈ (rename ρ e).names
  | .param x, ρ, hy => by
      rw [freeNames, List.mem_singleton] at hy
      simp [rename, names, hy]
  | .constant l, ρ, hy => by simp [freeNames] at hy
  | .member target name, ρ, hy => apply_mem_names_rename target ρ hy
  | .unary op operand, ρ, hy => apply_mem_names_rename operand ρ hy
  | .binary op left right, ρ, hy => by
      rw [freeNames, List.mem_append] at hy
      rw [rename, names, List.mem_append]
      exact hy.imp (apply_mem_names_rename left ρ) (apply_mem_names_rename right ρ)
  | .call f arguments, ρ, hy => apply_mem_names_renameList arguments ρ hy
  | .aggregate target a, ρ, hy => apply_mem_names_rename target ρ hy
  | .aggregateOf target a x body, ρ, hy => by
      rw [freeNames, List.mem_append, List.mem_filter] at hy
      rw [rename, names, List.mem_append]
      refine hy.imp (apply_mem_names_rename target ρ) ?_
      rintro ⟨hbody, hne⟩
      rw [← ρ.apply_without (by simpa using hne)]
      exact List.mem_cons_of_mem x (apply_mem_names_rename body (ρ.without x) hbody)
  | .row fields, ρ, hy => apply_mem_names_renameFields fields ρ hy

/-- The same for a list of expressions. -/
theorem apply_mem_names_renameList {y : String} : (es : List Expr) → (ρ : Renaming) →
    y ∈ freeNamesOfList es → ρ.apply y ∈ namesOfList (renameList ρ es)
  | [], ρ, hy => by simp [freeNamesOfList] at hy
  | e :: rest, ρ, hy => by
      rw [freeNamesOfList, List.mem_append] at hy
      rw [renameList, namesOfList, List.mem_append]
      exact hy.imp (apply_mem_names_rename e ρ) (apply_mem_names_renameList rest ρ)

/-- The same for the fields of a row. -/
theorem apply_mem_names_renameFields {y : String} : (fs : List (String × Expr)) →
    (ρ : Renaming) → y ∈ freeNamesOfFields fs → ρ.apply y ∈ namesOfFields (renameFields ρ fs)
  | [], ρ, hy => by simp [freeNamesOfFields] at hy
  | (_, e) :: rest, ρ, hy => by
      rw [freeNamesOfFields, List.mem_append] at hy
      rw [renameFields, namesOfFields, List.mem_append]
      exact hy.imp (apply_mem_names_rename e ρ) (apply_mem_names_renameFields rest ρ)

end

mutual

/-- Renaming leaves the variables of aggregates as they are. -/
theorem bound_mem_names_rename {y : String} : (e : Expr) → (ρ : Renaming) → y ∈ e.boundNames →
    y ∈ (rename ρ e).names
  | .param x, ρ, hy => by simp [boundNames] at hy
  | .constant l, ρ, hy => by simp [boundNames] at hy
  | .member target name, ρ, hy => bound_mem_names_rename target ρ hy
  | .unary op operand, ρ, hy => bound_mem_names_rename operand ρ hy
  | .binary op left right, ρ, hy => by
      rw [boundNames, List.mem_append] at hy
      rw [rename, names, List.mem_append]
      exact hy.imp (bound_mem_names_rename left ρ) (bound_mem_names_rename right ρ)
  | .call f arguments, ρ, hy => bound_mem_names_renameList arguments ρ hy
  | .aggregate target a, ρ, hy => bound_mem_names_rename target ρ hy
  | .aggregateOf target a x body, ρ, hy => by
      rw [boundNames, List.mem_append, List.mem_cons] at hy
      rw [rename, names, List.mem_append, List.mem_cons]
      exact hy.imp (bound_mem_names_rename target ρ)
        (Or.imp id (bound_mem_names_rename body (ρ.without x)))
  | .row fields, ρ, hy => bound_mem_names_renameFields fields ρ hy

/-- The same for a list of expressions. -/
theorem bound_mem_names_renameList {y : String} : (es : List Expr) → (ρ : Renaming) →
    y ∈ boundNamesOfList es → y ∈ namesOfList (renameList ρ es)
  | [], ρ, hy => by simp [boundNamesOfList] at hy
  | e :: rest, ρ, hy => by
      rw [boundNamesOfList, List.mem_append] at hy
      rw [renameList, namesOfList, List.mem_append]
      exact hy.imp (bound_mem_names_rename e ρ) (bound_mem_names_renameList rest ρ)

/-- The same for the fields of a row. -/
theorem bound_mem_names_renameFields {y : String} : (fs : List (String × Expr)) →
    (ρ : Renaming) → y ∈ boundNamesOfFields fs → y ∈ namesOfFields (renameFields ρ fs)
  | [], ρ, hy => by simp [boundNamesOfFields] at hy
  | (_, e) :: rest, ρ, hy => by
      rw [boundNamesOfFields, List.mem_append] at hy
      rw [renameFields, namesOfFields, List.mem_append]
      exact hy.imp (bound_mem_names_rename e ρ) (bound_mem_names_renameFields rest ρ)

end

mutual

theorem rename_nil : (e : Expr) → rename [] e = e
  | .param x => rfl
  | .constant l => rfl
  | .member target name => by rw [rename, rename_nil target]
  | .unary op operand => by rw [rename, rename_nil operand]
  | .binary op left right => by rw [rename, rename_nil left, rename_nil right]
  | .call f arguments => by rw [rename, renameList_nil arguments]
  | .aggregate target a => by rw [rename, rename_nil target]
  | .aggregateOf target a x body => by
      have hnone : Renaming.without [] x = [] := rfl
      rw [rename, hnone, rename_nil target, rename_nil body]
  | .row fields => by rw [rename, renameFields_nil fields]

theorem renameList_nil : (es : List Expr) → renameList [] es = es
  | [] => rfl
  | e :: rest => by rw [renameList, rename_nil e, renameList_nil rest]

theorem renameFields_nil : (fs : List (String × Expr)) → renameFields [] fs = fs
  | [] => rfl
  | (name, e) :: rest => by rw [renameFields, rename_nil e, renameFields_nil rest]

end

theorem freeNames_subset_names (e : Expr) : e.freeNames ⊆ e.names := by
  intro y hy
  have hmem := apply_mem_names_rename e [] hy
  rw [rename_nil] at hmem
  exact hmem

end Expr

/-! ## Fresh names -/

theorem numbered_mem_of_freshFrom_mem {taken : List String} (count n : Nat)
    (hmem : freshFrom taken count n ∈ taken) :
    ∀ i, n ≤ i → i ≤ n + count → numberedName i ∈ taken := by
  induction count generalizing n with
  | zero =>
      intro i hlow hhigh
      obtain rfl : i = n := by omega
      exact hmem
  | succ count ih =>
      rw [freshFrom] at hmem
      by_cases hn : numberedName n ∈ taken
      · rw [if_pos hn] at hmem
        intro i hlow hhigh
        by_cases hi : i = n
        · rw [hi]
          exact hn
        · exact ih (n + 1) hmem i (by omega) (by omega)
      · rw [if_neg hn] at hmem
        exact absurd hmem hn

/-- A fresh name is not taken: there is one more candidate than there are names. -/
theorem freshName_not_mem (taken : List String) : freshName taken ∉ taken := by
  intro hmem
  have hall := numbered_mem_of_freshFrom_mem taken.length 0 hmem
  have hsubset : (List.range (taken.length + 1)).map numberedName ⊆ taken := by
    intro name hname
    obtain ⟨i, hi, rfl⟩ := List.mem_map.1 hname
    have hlt := List.mem_range.1 hi
    exact hall i (Nat.zero_le i) (by omega)
  have hnodup : ((List.range (taken.length + 1)).map numberedName).Nodup :=
    List.Pairwise.map numberedName
      (fun _ _ hne heq => hne (numberedName_injective heq)) List.nodup_range
  have hlength := (hnodup.subperm hsubset).length_le
  rw [List.length_map, List.length_range] at hlength
  omega

namespace Expr

variable {g : TypeGraph} {h : Heap} {env env' : Env}

/-! ## Environments -/

/-- **What a renaming needs of the environments before and after it**: each of the variables `free` has
under its new name in `env'` the value that it has in `env`, and no new name is among `bound`. -/
structure Carries (ρ : Renaming) (env env' : Env) (free bound : List String) : Prop where
  value : ∀ y ∈ free, ∀ w, env.lookup y = some w → env'.lookup (ρ.apply y) = some w
  fresh : ∀ pair ∈ ρ, pair.2 ∉ bound

namespace Carries

variable {ρ : Renaming} {free bound free' bound' : List String} {x : String}

theorem mono (hc : Carries ρ env env' free bound) (hfree : free' ⊆ free) (hbound : bound' ⊆ bound) :
    Carries ρ env env' free' bound' :=
  ⟨fun y hy => hc.value y (hfree hy), fun pair hpair hmem => hc.fresh pair hpair (hbound hmem)⟩

/-- Under an aggregate that keeps its variable. -/
theorem bind (hc : Carries ρ env env' (free.filter (· ≠ x)) (x :: bound)) (v : Value) :
    Carries (ρ.without x) ((x, v) :: env) ((x, v) :: env') free bound where
  value := by
    intro y hy w hw
    by_cases hx : y = x
    · subst hx
      rw [Renaming.apply_without_self]
      rw [List.lookup_cons_self] at hw ⊢
      exact hw
    · have hkept : y ∈ free.filter (· ≠ x) := List.mem_filter.2 ⟨hy, by simpa using hx⟩
      have hnew : ρ.apply y ≠ x :=
        ρ.apply_ne (fun pair hpair heq => hc.fresh pair hpair (by simp [heq])) hx
      have hbefore : (y == x) = false := by simpa using hx
      have hafter : (ρ.apply y == x) = false := by simpa using hnew
      rw [List.lookup_cons, hbefore] at hw
      rw [ρ.apply_without hx, List.lookup_cons, hafter]
      exact hc.value y hkept w hw
  fresh := fun pair hpair hmem =>
    hc.fresh pair (List.mem_filter.1 hpair).1 (List.mem_cons_of_mem x hmem)

/-- Under an aggregate whose variable `x` gets a name that is new to the body. -/
theorem rebind {fresh : String} (hc : Carries ρ env env' (free.filter (· ≠ x)) bound)
    (hunbound : fresh ∉ bound) (hunused : ∀ y ∈ free, (ρ.without x).apply y ≠ fresh) (v : Value) :
    Carries ((x, fresh) :: ρ.without x) ((x, v) :: env) ((fresh, v) :: env') free bound where
  value := by
    intro y hy w hw
    by_cases hx : y = x
    · subst hx
      rw [List.lookup_cons_self] at hw
      rw [Renaming.apply_of_lookup_some List.lookup_cons_self, List.lookup_cons_self]
      exact hw
    · -- another variable keeps its name, which is not the new one
      have hkept : y ∈ free.filter (· ≠ x) := List.mem_filter.2 ⟨hy, by simpa using hx⟩
      have hbefore : (y == x) = false := by simpa using hx
      have happly : Renaming.apply ((x, fresh) :: ρ.without x) y = (ρ.without x).apply y := by
        rw [Renaming.apply, List.lookup_cons, hbefore]
        rfl
      have hafter : ((ρ.without x).apply y == fresh) = false := by simpa using hunused y hy
      rw [List.lookup_cons, hbefore] at hw
      rw [happly, List.lookup_cons, hafter, ρ.apply_without hx]
      exact hc.value y hkept w hw
  fresh := by
    intro pair hpair hmem
    rcases List.mem_cons.1 hpair with rfl | hold
    · exact hunbound hmem
    · exact hc.fresh pair (List.mem_filter.1 hold).1 hmem

end Carries

/-! ## Renaming -/

mutual

/-- Renaming keeps values. -/
theorem eval_rename {ρ : Renaming} {env env' : Env} : (e : Expr) →
    Carries ρ env env' e.freeNames e.boundNames →
    Refines (eval g h env e) (eval g h env' (rename ρ e))
  | .param x, hc => by
      intro v hv
      rw [eval] at hv
      -- a variable without a value has none to keep
      cases hx : env.lookup x with
      | none =>
          rw [hx] at hv
          cases hv
      | some w =>
          have hrenamed := hc.value x (by simp [freeNames]) w hx
          rw [hx] at hv
          rw [rename, eval, hrenamed]
          exact hv
  | .constant l, _ => Refines.refl _
  | .member target name, hc => member_refines name (eval_rename target hc)
  | .unary op operand, hc => unary_refines op (eval_rename operand hc)
  | .binary op left right, hc =>
      binary_refines op
        (eval_rename left
          (hc.mono (List.subset_append_left _ _) (List.subset_append_left _ _)))
        (eval_rename right
          (hc.mono (List.subset_append_right _ _) (List.subset_append_right _ _)))
  | .call f arguments, hc => call_refines f (evalList_rename arguments hc)
  | .aggregate target a, hc => aggregate_refines a (eval_rename target hc)
  | .aggregateOf target a x body, hc =>
      aggregateOf_refines a
        (eval_rename target
          (hc.mono (List.subset_append_left _ _) (List.subset_append_left _ _)))
        fun v => eval_rename body
          ((hc.mono (List.subset_append_right _ _) (List.subset_append_right _ _)).bind v)
  | .row fields, hc => row_refines (evalFields_rename fields hc [])

/-- The same for a list of expressions. -/
theorem evalList_rename {ρ : Renaming} {env env' : Env} : (es : List Expr) →
    Carries ρ env env' (freeNamesOfList es) (boundNamesOfList es) →
    Refines (evalList g h env es) (evalList g h env' (renameList ρ es))
  | [], _ => Refines.refl _
  | e :: rest, hc =>
      evalList_cons_refines
        (eval_rename e (hc.mono (List.subset_append_left _ _) (List.subset_append_left _ _)))
        (evalList_rename rest
          (hc.mono (List.subset_append_right _ _) (List.subset_append_right _ _)))

/-- The same for the fields of a row. -/
theorem evalFields_rename {ρ : Renaming} {env env' : Env} : (fs : List (String × Expr)) →
    Carries ρ env env' (freeNamesOfFields fs) (boundNamesOfFields fs) → ∀ done,
    Refines (evalFields g h env done fs) (evalFields g h env' done (renameFields ρ fs))
  | [], _, _ => Refines.refl _
  | (name, e) :: rest, hc, done =>
      evalFields_cons_refines name
        (eval_rename e (hc.mono (List.subset_append_left _ _) (List.subset_append_left _ _)))
        (evalFields_rename rest
          (hc.mono (List.subset_append_right _ _) (List.subset_append_right _ _)))
        done

end

/-- Another variable does not change what an expression is that does not mention it. -/
theorem eval_weaken {e : Expr} {x : String} (hx : x ∉ e.freeNames) (v : Value) :
    Refines (eval g h env e) (eval g h ((x, v) :: env) e) := by
  have hc : Carries [] env ((x, v) :: env) e.freeNames e.boundNames := by
    refine ⟨fun y hy w hw => ?_, fun pair hpair => absurd hpair List.not_mem_nil⟩
    have hne : (Renaming.apply [] y == x) = false := by
      rw [beq_eq_false_iff_ne]
      intro heq
      exact hx (heq ▸ hy)
    rw [List.lookup_cons, hne]
    exact hw
  have hrename := eval_rename (g := g) (h := h) e hc
  rw [rename_nil] at hrename
  exact hrename

/-! ## Substitution -/

/-- Where `x` is a value, `replacement` is that value in `env'`. -/
def Replaces (g : TypeGraph) (h : Heap) (x : String) (replacement : Expr) (env env' : Env) : Prop :=
  ∀ w, env.lookup x = some w → eval g h env' replacement = .ok w

/-- Under an aggregate the replacement keeps its value, if it does not mention the variable there. -/
theorem Replaces.bind {x y z : String} {replacement : Expr}
    (hr : Replaces g h x replacement env env') (hxy : x ≠ y) (hz : z ∉ replacement.freeNames)
    (v : Value) : Replaces g h x replacement ((y, v) :: env) ((z, v) :: env') := by
  intro w hw
  have hne : (x == y) = false := by simpa using hxy
  rw [List.lookup_cons, hne] at hw
  exact eval_weaken hz v (hr w hw)

/-- Substitution in an aggregate, given what it does to the target and to the body. -/
theorem eval_substitute_aggregateOf {x y : String} {replacement target body : Expr} {ρ : Renaming}
    (a : Aggregate)
    (hc : Carries ρ env env' ((freeNames (.aggregateOf target a y body)).filter (· ≠ x))
      (boundNames (.aggregateOf target a y body)))
    (hx : ρ.lookup x = none) (hr : Replaces g h x replacement env env')
    (htarget : Refines (eval g h env target)
      (eval g h env' (substituteUnder ρ x replacement target)))
    (hbody : ∀ {ρ' : Renaming} {inner inner' : Env},
      Carries ρ' inner inner' (body.freeNames.filter (· ≠ x)) body.boundNames →
      ρ'.lookup x = none → Replaces g h x replacement inner inner' →
      Refines (eval g h inner body) (eval g h inner' (substituteUnder ρ' x replacement body))) :
    Refines (eval g h env (.aggregateOf target a y body))
      (eval g h env' (substituteUnder ρ x replacement (.aggregateOf target a y body))) := by
  rw [freeNames, List.filter_append, boundNames] at hc
  have hunder := hc.mono (List.subset_append_right _ _) (List.subset_append_right _ _)
  rw [substituteUnder]
  by_cases hyx : y = x
  · -- the variable of the aggregate hides `x`: the body is only renamed
    subst hyx
    rw [if_pos rfl]
    rw [List.filter_filter] at hunder
    simp only [Bool.and_self] at hunder
    exact aggregateOf_refines a htarget fun v => eval_rename body (hunder.bind v)
  rw [if_neg hyx]
  have hswap : (body.freeNames.filter (· ≠ x)).filter (· ≠ y) =
      (body.freeNames.filter (· ≠ y)).filter (· ≠ x) := by
    rw [List.filter_filter, List.filter_filter]
    simp only [Bool.and_comm]
  rw [← hswap] at hunder
  have hnone : (ρ.without y).lookup x = none := by
    rw [ρ.lookup_without (Ne.symm hyx)]
    exact hx
  by_cases hfree : replacement.hasFree y
  · -- the replacement mentions the variable, which gets a fresh name
    rw [if_pos hfree]
    have hnew := freshName_not_mem (x :: replacement.names ++ (rename (ρ.without y) body).names)
    generalize freshName (x :: replacement.names ++ (rename (ρ.without y) body).names) = fresh at hnew ⊢
    rw [List.cons_append, List.mem_cons, List.mem_append] at hnew
    have hlookup : List.lookup x ((y, fresh) :: ρ.without y) = none := by
      have hxy : (x == y) = false := by simpa using Ne.symm hyx
      rw [List.lookup_cons, hxy]
      exact hnone
    have hbound := hunder.mono (List.Subset.refl _) (List.subset_cons_self _ _)
    -- the fresh name is not bound in the body, names nothing else there, and is not in the replacement
    refine aggregateOf_refines a htarget fun v =>
      hbody (hbound.rebind ?_ ?_ v) hlookup (hr.bind (Ne.symm hyx) ?_ v)
    · intro hmem
      exact hnew (Or.inr (Or.inr (bound_mem_names_rename body _ hmem)))
    · rintro z hz rfl
      exact hnew (Or.inr (Or.inr (apply_mem_names_rename body _ (List.mem_filter.1 hz).1)))
    · intro hmem
      exact hnew (Or.inr (Or.inl (freeNames_subset_names _ hmem)))
  · -- the variable keeps its name, and the replacement its value
    rw [if_neg hfree]
    have hunused : y ∉ replacement.freeNames := by
      simpa [hasFree] using hfree
    exact aggregateOf_refines a htarget fun v =>
      hbody (hunder.bind v) hnone (hr.bind (Ne.symm hyx) hunused v)

mutual

/-- **Substitution keeps values**, if the replacement has the value of the variable. -/
theorem eval_substituteUnder {x : String} {replacement : Expr} {ρ : Renaming} {env env' : Env} :
    (e : Expr) → Carries ρ env env' (e.freeNames.filter (· ≠ x)) e.boundNames →
    ρ.lookup x = none → Replaces g h x replacement env env' →
    Refines (eval g h env e) (eval g h env' (substituteUnder ρ x replacement e))
  | .param y, hc, hx, hr => by
      intro v hv
      rw [eval] at hv
      cases hy : env.lookup y with
      | none =>
          rw [hy] at hv
          cases hv
      | some w =>
          rw [hy] at hv
          rw [← hv, substituteUnder]
          by_cases hyx : y = x
          · -- no renaming reaches the variable that is replaced
            subst hyx
            rw [hx]
            simp only [if_pos]
            exact hr w hy
          · have hrenamed := hc.value y (by simp [freeNames, hyx]) w hy
            -- another variable is renamed or stays
            cases hnew : ρ.lookup y with
            | none =>
                rw [Renaming.apply_of_lookup_none hnew] at hrenamed
                simp only [if_neg hyx]
                rw [eval, hrenamed]
            | some new =>
                rw [Renaming.apply_of_lookup_some hnew] at hrenamed
                simp only
                rw [eval, hrenamed]
  | .constant l, _, _, _ => Refines.refl _
  | .member target name, hc, hx, hr => member_refines name (eval_substituteUnder target hc hx hr)
  | .unary op operand, hc, hx, hr => unary_refines op (eval_substituteUnder operand hc hx hr)
  | .binary op left right, hc, hx, hr => by
      rw [freeNames, List.filter_append, boundNames] at hc
      exact binary_refines op
        (eval_substituteUnder left
          (hc.mono (List.subset_append_left _ _) (List.subset_append_left _ _)) hx hr)
        (eval_substituteUnder right
          (hc.mono (List.subset_append_right _ _) (List.subset_append_right _ _)) hx hr)
  | .call f arguments, hc, hx, hr => call_refines f (evalList_substitute arguments hc hx hr)
  | .aggregate target a, hc, hx, hr => aggregate_refines a (eval_substituteUnder target hc hx hr)
  | .aggregateOf target a y body, hc, hx, hr => by
      have htarget : Refines (eval g h env target)
          (eval g h env' (substituteUnder ρ x replacement target)) := by
        rw [freeNames, List.filter_append, boundNames] at hc
        exact eval_substituteUnder target
          (hc.mono (List.subset_append_left _ _) (List.subset_append_left _ _)) hx hr
      exact eval_substitute_aggregateOf a hc hx hr htarget fun hc' hx' hr' =>
        eval_substituteUnder body hc' hx' hr'
  | .row fields, hc, hx, hr => row_refines (evalFields_substitute fields hc hx hr [])

/-- The same for a list of expressions. -/
theorem evalList_substitute {x : String} {replacement : Expr} {ρ : Renaming} {env env' : Env} :
    (es : List Expr) →
    Carries ρ env env' ((freeNamesOfList es).filter (· ≠ x)) (boundNamesOfList es) →
    ρ.lookup x = none → Replaces g h x replacement env env' →
    Refines (evalList g h env es) (evalList g h env' (substituteList ρ x replacement es))
  | [], _, _, _ => Refines.refl _
  | e :: rest, hc, hx, hr => by
      rw [freeNamesOfList, List.filter_append, boundNamesOfList] at hc
      exact evalList_cons_refines
        (eval_substituteUnder e
          (hc.mono (List.subset_append_left _ _) (List.subset_append_left _ _)) hx hr)
        (evalList_substitute rest
          (hc.mono (List.subset_append_right _ _) (List.subset_append_right _ _)) hx hr)

/-- The same for the fields of a row. -/
theorem evalFields_substitute {x : String} {replacement : Expr} {ρ : Renaming} {env env' : Env} :
    (fs : List (String × Expr)) →
    Carries ρ env env' ((freeNamesOfFields fs).filter (· ≠ x)) (boundNamesOfFields fs) →
    ρ.lookup x = none → Replaces g h x replacement env env' → ∀ done,
    Refines (evalFields g h env done fs)
      (evalFields g h env' done (substituteFields ρ x replacement fs))
  | [], _, _, _, _ => Refines.refl _
  | (name, e) :: rest, hc, hx, hr, done => by
      rw [freeNamesOfFields, List.filter_append, boundNamesOfFields] at hc
      exact evalFields_cons_refines name
        (eval_substituteUnder e
          (hc.mono (List.subset_append_left _ _) (List.subset_append_left _ _)) hx hr)
        (evalFields_substitute rest
          (hc.mono (List.subset_append_right _ _) (List.subset_append_right _ _)) hx hr)
        done

end

/-- **A variable replaced by an expression that has its value**, with nothing else around. -/
theorem eval_substitute {x y : String} {e replacement : Expr} {v w : Value}
    (hr : eval g h [(y, w)] replacement = .ok v) :
    Refines (eval g h [(x, v)] e) (eval g h [(y, w)] (e.substitute x replacement)) := by
  refine eval_substituteUnder e ⟨?_, fun pair hpair => absurd hpair List.not_mem_nil⟩ rfl ?_
  · intro z hz u hu
    have hne : (z == x) = false := by simpa using (List.mem_filter.1 hz).2
    rw [List.lookup_cons, hne] at hu
    cases hu
  · intro u hu
    rw [List.lookup_cons_self] at hu
    cases hu
    exact hr

end Expr

end ResourceQuery
