import Mathlib.Logic.Function.Basic
import ResourceQuery.Proofs.Expr.Substitution

set_option autoImplicit false

/-! # Substitution and capture

What substitution does where a lambda binds a variable: the variable hides the one that is replaced, or
it gets a name that the replacement does not mention (`Expr.substituteUnder_aggregateOf`). What the
variables mean before and after is tied together by `Tracks`, for any kind of meaning: their values
here, the places where they are bound in nameless forms.

With it, substitution is evaluation in a larger environment, the same in values and in errors
(`Expr.eval_substituteUnder_eq`). `Refines` could not say that of errors, since it gives up what an
unbound variable fails with.

The definition of substitution renames and substitutes in one pass. `Substitutes` has one rule for each
case of the substitution that renames first, by a substitution of its own, and then goes on; its
derivations are the finite runs of that recursion.
-/

namespace ResourceQuery

namespace Expr

/-! ## One more renamed variable -/

namespace Renaming

variable (ρ : Renaming) {x y : String} (fresh : String)

theorem apply_cons_self (x : String) : apply ((x, fresh) :: ρ) x = fresh :=
  apply_of_lookup_some List.lookup_cons_self

theorem apply_cons_ne (hne : y ≠ x) : apply ((x, fresh) :: ρ) y = ρ.apply y := by
  have hother : (y == x) = false := by simpa using hne
  rw [apply, List.lookup_cons, hother]
  rfl

theorem without_cons_self (x : String) : without ((x, fresh) :: ρ) x = ρ.without x := by
  simp [without]

theorem without_cons_ne (hne : x ≠ y) : without ((x, fresh) :: ρ) y = (x, fresh) :: ρ.without y := by
  simp [without, hne]

end Renaming

/-! ## Variables before and after -/

/-- **What a renaming needs of the meanings of variables before and after it**: each of the variables
`free` means under its new name in `after` what it means in `before`, and no new name is among
`bound`. -/
structure Tracks {α : Type} (ρ : Renaming) (before after : String → α) (free bound : List String) :
    Prop where
  same : ∀ y ∈ free, after (ρ.apply y) = before y
  fresh : ∀ pair ∈ ρ, pair.2 ∉ bound

namespace Tracks

variable {α β : Type} {ρ : Renaming} {before after : String → α} {free bound free' bound' : List String}
  {x : String}

theorem mono (ht : Tracks ρ before after free bound) (hfree : free' ⊆ free) (hbound : bound' ⊆ bound) :
    Tracks ρ before after free' bound' :=
  ⟨fun y hy => ht.same y (hfree hy), fun pair hpair hmem => ht.fresh pair hpair (hbound hmem)⟩

/-- Whatever is made of the meanings. -/
theorem map (ht : Tracks ρ before after free bound) (f : α → β) :
    Tracks ρ (f ∘ before) (f ∘ after) free bound :=
  ⟨fun y hy => congrArg f (ht.same y hy), ht.fresh⟩

/-- Under a lambda that keeps its variable. -/
theorem bind (ht : Tracks ρ before after (free.filter (· ≠ x)) (x :: bound)) (a : α) :
    Tracks (ρ.without x) (Function.update before x a) (Function.update after x a) free bound where
  same := by
    intro y hy
    by_cases hx : y = x
    · rw [hx, Renaming.apply_without_self, Function.update_self, Function.update_self]
    · have hkept : y ∈ free.filter (· ≠ x) := List.mem_filter.2 ⟨hy, by simpa using hx⟩
      have hnew : ρ.apply y ≠ x :=
        ρ.apply_ne (fun pair hpair heq => ht.fresh pair hpair (by simp [heq])) hx
      rw [ρ.apply_without hx, Function.update_of_ne hnew, Function.update_of_ne hx]
      exact ht.same y hkept
  fresh := fun pair hpair hmem =>
    ht.fresh pair (List.mem_filter.1 hpair).1 (List.mem_cons_of_mem x hmem)

/-- Under a lambda whose variable `x` gets a name that is new to the body. -/
theorem rebind {fresh : String} (ht : Tracks ρ before after (free.filter (· ≠ x)) bound)
    (hunbound : fresh ∉ bound) (hunused : ∀ y ∈ free, (ρ.without x).apply y ≠ fresh) (a : α) :
    Tracks ((x, fresh) :: ρ.without x) (Function.update before x a) (Function.update after fresh a)
      free bound where
  same := by
    intro y hy
    by_cases hx : y = x
    · rw [hx, Renaming.apply_cons_self, Function.update_self, Function.update_self]
    · -- another variable keeps its name, which is not the new one
      have hkept : y ∈ free.filter (· ≠ x) := List.mem_filter.2 ⟨hy, by simpa using hx⟩
      rw [Renaming.apply_cons_ne _ _ hx, Function.update_of_ne (hunused y hy),
        Function.update_of_ne hx, ρ.apply_without hx]
      exact ht.same y hkept
  fresh := by
    intro pair hpair hmem
    rcases List.mem_cons.1 hpair with rfl | hold
    · exact hunbound hmem
    · exact ht.fresh pair (List.mem_filter.1 hold).1 hmem

/-- Nothing is renamed, and the variables that matter mean the same. -/
theorem of_eq (h : ∀ y ∈ free, after y = before y) : Tracks [] before after free bound :=
  ⟨h, fun _ hpair => absurd hpair List.not_mem_nil⟩

end Tracks

/-! ## Under a lambda -/

/-- **What substitution does to a lambda.** Its variable hides the one that is replaced, and the body is
only renamed; or the body is substituted under a variable that the replacement does not mention, and all
that was known of the other variables is still known under it. -/
theorem substituteUnder_aggregateOf {x : String} (replacement : Expr) (ρ : Renaming) (target : Expr)
    (a : Aggregate) (y : String) (body : Expr) (hx : ρ.lookup x = none) :
    (y = x ∧ substituteUnder ρ x replacement (.aggregateOf target a y body) =
      .aggregateOf (substituteUnder ρ x replacement target) a y (rename (ρ.without y) body)) ∨
    ∃ z ρ', y ≠ x ∧ z ∉ replacement.freeNames ∧ ρ'.lookup x = none ∧
      substituteUnder ρ x replacement (.aggregateOf target a y body) =
        .aggregateOf (substituteUnder ρ x replacement target) a z
          (substituteUnder ρ' x replacement body) ∧
      ∀ {α : Type} {before after : String → α} (v : α),
        Tracks ρ before after ((body.freeNames.filter (· ≠ x)).filter (· ≠ y))
          (y :: body.boundNames) →
        Tracks ρ' (Function.update before y v) (Function.update after z v)
          (body.freeNames.filter (· ≠ x)) body.boundNames := by
  rw [substituteUnder]
  by_cases hyx : y = x
  · exact Or.inl ⟨hyx, if_pos hyx⟩
  refine Or.inr ?_
  rw [if_neg hyx]
  have hnone : (ρ.without y).lookup x = none := by
    rw [ρ.lookup_without (Ne.symm hyx)]
    exact hx
  by_cases hfree : replacement.hasFree y
  · -- the replacement mentions the variable, which gets a fresh name
    rw [if_pos hfree]
    have hnew := freshName_not_mem (x :: replacement.names ++ (rename (ρ.without y) body).names)
    generalize freshName (x :: replacement.names ++ (rename (ρ.without y) body).names) = fresh at hnew ⊢
    rw [List.cons_append, List.mem_cons, List.mem_append, not_or, not_or] at hnew
    obtain ⟨-, hreplacement, hbody⟩ := hnew
    have hlookup : List.lookup x ((y, fresh) :: ρ.without y) = none := by
      have hxy : (x == y) = false := by simpa using Ne.symm hyx
      rw [List.lookup_cons, hxy]
      exact hnone
    refine ⟨fresh, (y, fresh) :: ρ.without y, hyx,
      fun hmem => hreplacement (freeNames_subset_names _ hmem), hlookup, rfl, fun v ht => ?_⟩
    -- the fresh name is not bound in the body, and names nothing else there
    refine (ht.mono (List.Subset.refl _) (List.subset_cons_self _ _)).rebind ?_ ?_ v
    · exact fun hmem => hbody (bound_mem_names_rename body _ hmem)
    · rintro z hz rfl
      exact hbody (apply_mem_names_rename body _ (List.mem_filter.1 hz).1)
  · rw [if_neg hfree]
    exact ⟨y, ρ.without y, hyx, by simpa [hasFree] using hfree, hnone, rfl, fun v ht => ht.bind v⟩

/-! ## Values -/

variable {g : TypeGraph} {h : Heap} {env env' : Env}

/-- The value of a variable. -/
abbrev valueIn (g : TypeGraph) (h : Heap) (env : Env) (x : String) : Except Error Value :=
  eval g h env (.param x)

theorem valueIn_cons (x : String) (v : Value) (env : Env) :
    valueIn g h ((x, v) :: env) = Function.update (valueIn g h env) x (.ok v) := by
  funext y
  by_cases hy : y = x
  · rw [hy, Function.update_self, valueIn, eval, List.lookup_cons_self]
  · have hne : (y == x) = false := by simpa using hy
    rw [Function.update_of_ne hy, valueIn, valueIn, eval, eval, List.lookup_cons, hne]

/-- The value of an infix operator depends on its operands through their values only. -/
theorem eval_binary_of_operands {left right left' right' : Expr} (op : BinaryOp)
    (hl : eval g h env' left' = eval g h env left)
    (hr : eval g h env' right' = eval g h env right) :
    eval g h env' (.binary op left' right') = eval g h env (.binary op left right) := by
  cases op <;> simp only [eval, hl, hr]

theorem eval_aggregateOf_of_parts {target target' body body' : Expr} {x y : String} (a : Aggregate)
    (ht : eval g h env' target' = eval g h env target)
    (hb : ∀ v, eval g h ((y, v) :: env') body' = eval g h ((x, v) :: env) body) :
    eval g h env' (.aggregateOf target' a y body') = eval g h env (.aggregateOf target a x body) := by
  simp only [eval, ht, hb]

mutual

/-- Renaming keeps values and errors. -/
theorem eval_rename_eq {ρ : Renaming} {env env' : Env} : (e : Expr) →
    Tracks ρ (valueIn g h env) (valueIn g h env') e.freeNames e.boundNames →
    eval g h env' (rename ρ e) = eval g h env e
  | .param x, ht => ht.same x (by simp [freeNames])
  | .constant l, _ => rfl
  | .member target name, ht => by simp only [rename, eval, eval_rename_eq target ht]
  | .unary op operand, ht => by simp only [rename, eval, eval_rename_eq operand ht]
  | .binary op left right, ht =>
      eval_binary_of_operands op
        (eval_rename_eq left
          (ht.mono (List.subset_append_left _ _) (List.subset_append_left _ _)))
        (eval_rename_eq right
          (ht.mono (List.subset_append_right _ _) (List.subset_append_right _ _)))
  | .call f arguments, ht => by simp only [rename, eval, evalList_rename_eq arguments ht]
  | .aggregate target a, ht => by simp only [rename, eval, eval_rename_eq target ht]
  | .aggregateOf target a x body, ht => by
      refine eval_aggregateOf_of_parts a
        (eval_rename_eq target
          (ht.mono (List.subset_append_left _ _) (List.subset_append_left _ _))) fun v => ?_
      refine eval_rename_eq body ?_
      rw [valueIn_cons, valueIn_cons]
      exact (ht.mono (List.subset_append_right _ _) (List.subset_append_right _ _)).bind _
  | .row fields, ht => by simp only [rename, eval, evalFields_rename_eq fields ht]

/-- The same for a list of expressions. -/
theorem evalList_rename_eq {ρ : Renaming} {env env' : Env} : (es : List Expr) →
    Tracks ρ (valueIn g h env) (valueIn g h env') (freeNamesOfList es) (boundNamesOfList es) →
    evalList g h env' (renameList ρ es) = evalList g h env es
  | [], _ => rfl
  | e :: rest, ht => by
      have he := eval_rename_eq e
        (ht.mono (List.subset_append_left _ _) (List.subset_append_left _ _))
      have hrest := evalList_rename_eq rest
        (ht.mono (List.subset_append_right _ _) (List.subset_append_right _ _))
      simp only [renameList, evalList, he, hrest]

/-- The same for the fields of a row. -/
theorem evalFields_rename_eq {ρ : Renaming} {env env' : Env} : (fs : List (String × Expr)) →
    Tracks ρ (valueIn g h env) (valueIn g h env') (freeNamesOfFields fs) (boundNamesOfFields fs) →
    ∀ done, evalFields g h env' done (renameFields ρ fs) = evalFields g h env done fs
  | [], _, _ => rfl
  | (name, e) :: rest, ht, done => by
      have he := eval_rename_eq e
        (ht.mono (List.subset_append_left _ _) (List.subset_append_left _ _))
      have hrest := evalFields_rename_eq rest
        (ht.mono (List.subset_append_right _ _) (List.subset_append_right _ _))
      simp only [renameFields, evalFields, he, hrest]

end

/-- The value of an expression is that of its free variables. -/
theorem eval_congr {e : Expr} (hsame : ∀ y ∈ e.freeNames, valueIn g h env' y = valueIn g h env y) :
    eval g h env' e = eval g h env e := by
  have htracks : Tracks [] (valueIn g h env) (valueIn g h env') e.freeNames e.boundNames :=
    Tracks.of_eq hsame
  have hrename := eval_rename_eq e htracks
  rwa [rename_nil] at hrename

/-- A variable that an expression does not mention does not count. -/
theorem eval_cons_of_not_free {e : Expr} {z : String} (hz : z ∉ e.freeNames) (v : Value) :
    eval g h ((z, v) :: env) e = eval g h env e := by
  refine eval_congr fun y hy => ?_
  have hne : y ≠ z := fun heq => hz (heq ▸ hy)
  rw [valueIn_cons, Function.update_of_ne hne]

mutual

/-- **Substitution is evaluation with the value of the replacement**, in values and in errors. -/
theorem eval_substituteUnder_eq {x : String} {replacement : Expr} {ρ : Renaming} {env env' : Env} :
    (e : Expr) →
    Tracks ρ (valueIn g h env) (valueIn g h env') (e.freeNames.filter (· ≠ x)) e.boundNames →
    ρ.lookup x = none → eval g h env' replacement = valueIn g h env x →
    eval g h env' (substituteUnder ρ x replacement e) = eval g h env e
  | .param y, ht, hx, hr => by
      rw [substituteUnder]
      by_cases hyx : y = x
      · -- no renaming reaches the variable that is replaced
        subst hyx
        rw [hx]
        simp only [if_pos]
        exact hr
      · have hsame := ht.same y (by simp [freeNames, hyx])
        -- another variable is renamed or stays
        cases hnew : ρ.lookup y with
        | none =>
            rw [Renaming.apply_of_lookup_none hnew] at hsame
            simp only [if_neg hyx]
            exact hsame
        | some new =>
            rw [Renaming.apply_of_lookup_some hnew] at hsame
            exact hsame
  | .constant l, _, _, _ => rfl
  | .member target name, ht, hx, hr => by
      simp only [substituteUnder, eval, eval_substituteUnder_eq target ht hx hr]
  | .unary op operand, ht, hx, hr => by
      simp only [substituteUnder, eval, eval_substituteUnder_eq operand ht hx hr]
  | .binary op left right, ht, hx, hr => by
      rw [freeNames, List.filter_append, boundNames] at ht
      exact eval_binary_of_operands op
        (eval_substituteUnder_eq left
          (ht.mono (List.subset_append_left _ _) (List.subset_append_left _ _)) hx hr)
        (eval_substituteUnder_eq right
          (ht.mono (List.subset_append_right _ _) (List.subset_append_right _ _)) hx hr)
  | .call f arguments, ht, hx, hr => by
      simp only [substituteUnder, eval, evalList_substitute_eq arguments ht hx hr]
  | .aggregate target a, ht, hx, hr => by
      simp only [substituteUnder, eval, eval_substituteUnder_eq target ht hx hr]
  | .aggregateOf target a y body, ht, hx, hr => by
      rw [freeNames, List.filter_append, boundNames] at ht
      have htarget := eval_substituteUnder_eq target
        (ht.mono (List.subset_append_left _ _) (List.subset_append_left _ _)) hx hr
      have hunder := ht.mono (List.subset_append_right _ _) (List.subset_append_right _ _)
      obtain ⟨rfl, heq⟩ | ⟨z, ρ', hyx, hz, hx', heq, hinner⟩ :=
        substituteUnder_aggregateOf replacement ρ target a y body hx
      · -- the body is only renamed
        rw [heq]
        refine eval_aggregateOf_of_parts a htarget fun v => eval_rename_eq body ?_
        rw [valueIn_cons, valueIn_cons]
        rw [List.filter_filter] at hunder
        simp only [Bool.and_self] at hunder
        exact hunder.bind _
      · rw [heq]
        refine eval_aggregateOf_of_parts a htarget fun v =>
          eval_substituteUnder_eq body ?_ hx' ?_
        · rw [valueIn_cons, valueIn_cons]
          rw [List.filter_comm] at hunder
          exact hinner _ hunder
        · -- the replacement does not mention the variable, nor is it the one that is replaced
          rw [eval_cons_of_not_free hz, valueIn_cons, Function.update_of_ne (Ne.symm hyx)]
          exact hr
  | .row fields, ht, hx, hr => by
      simp only [substituteUnder, eval, evalFields_substitute_eq fields ht hx hr]

/-- The same for a list of expressions. -/
theorem evalList_substitute_eq {x : String} {replacement : Expr} {ρ : Renaming} {env env' : Env} :
    (es : List Expr) →
    Tracks ρ (valueIn g h env) (valueIn g h env') ((freeNamesOfList es).filter (· ≠ x))
      (boundNamesOfList es) →
    ρ.lookup x = none → eval g h env' replacement = valueIn g h env x →
    evalList g h env' (substituteList ρ x replacement es) = evalList g h env es
  | [], _, _, _ => rfl
  | e :: rest, ht, hx, hr => by
      rw [freeNamesOfList, List.filter_append, boundNamesOfList] at ht
      have he := eval_substituteUnder_eq e
        (ht.mono (List.subset_append_left _ _) (List.subset_append_left _ _)) hx hr
      have hrest := evalList_substitute_eq rest
        (ht.mono (List.subset_append_right _ _) (List.subset_append_right _ _)) hx hr
      simp only [substituteList, evalList, he, hrest]

/-- The same for the fields of a row. -/
theorem evalFields_substitute_eq {x : String} {replacement : Expr} {ρ : Renaming} {env env' : Env} :
    (fs : List (String × Expr)) →
    Tracks ρ (valueIn g h env) (valueIn g h env') ((freeNamesOfFields fs).filter (· ≠ x))
      (boundNamesOfFields fs) →
    ρ.lookup x = none → eval g h env' replacement = valueIn g h env x → ∀ done,
    evalFields g h env' done (substituteFields ρ x replacement fs) = evalFields g h env done fs
  | [], _, _, _, _ => rfl
  | (name, e) :: rest, ht, hx, hr, done => by
      rw [freeNamesOfFields, List.filter_append, boundNamesOfFields] at ht
      have he := eval_substituteUnder_eq e
        (ht.mono (List.subset_append_left _ _) (List.subset_append_left _ _)) hx hr
      have hrest := evalFields_substitute_eq rest
        (ht.mono (List.subset_append_right _ _) (List.subset_append_right _ _)) hx hr
      simp only [substituteFields, evalFields, he, hrest]

end

theorem eval_substitute_eq {e replacement : Expr} {x : String} {v : Value}
    (hr : eval g h env replacement = .ok v) :
    eval g h env (e.substitute x replacement) = eval g h ((x, v) :: env) e := by
  refine eval_substituteUnder_eq e (Tracks.of_eq fun y hy => ?_) rfl ?_
  · have hne : y ≠ x := by simpa using (List.mem_filter.1 hy).2
    rw [valueIn_cons, Function.update_of_ne hne]
  · rw [hr, valueIn_cons, Function.update_self]

/-! ## The recursion that renames first -/

mutual

/-- The runs of the substitution that renames the variable of a lambda, where the replacement mentions
it, by a substitution in the body, and then substitutes in what that gave. -/
inductive Substitutes : (x : String) → (r e e' : Expr) → Prop where
  | here (x : String) (r : Expr) : Substitutes x r (.param x) r
  | other {x y : String} (r : Expr) (hne : y ≠ x) : Substitutes x r (.param y) (.param y)
  | constant (x : String) (r : Expr) (l : Literal) : Substitutes x r (.constant l) (.constant l)
  | member {x : String} {r target target' : Expr} (name : String)
      (ht : Substitutes x r target target') :
      Substitutes x r (.member target name) (.member target' name)
  | unary {x : String} {r operand operand' : Expr} (op : UnaryOp)
      (ho : Substitutes x r operand operand') :
      Substitutes x r (.unary op operand) (.unary op operand')
  | binary {x : String} {r left left' right right' : Expr} (op : BinaryOp)
      (hl : Substitutes x r left left') (hr : Substitutes x r right right') :
      Substitutes x r (.binary op left right) (.binary op left' right')
  | call {x : String} {r : Expr} {arguments arguments' : List Expr} (f : TextFunction)
      (ha : SubstitutesList x r arguments arguments') :
      Substitutes x r (.call f arguments) (.call f arguments')
  | aggregate {x : String} {r target target' : Expr} (a : Aggregate)
      (ht : Substitutes x r target target') :
      Substitutes x r (.aggregate target a) (.aggregate target' a)
  /-- The variable of the lambda hides the one that is replaced. -/
  | hidden {x : String} {r target target' : Expr} (a : Aggregate) (body : Expr)
      (ht : Substitutes x r target target') :
      Substitutes x r (.aggregateOf target a x body) (.aggregateOf target' a x body)
  /-- The replacement mentions the variable of the lambda. -/
  | renamed {x y : String} {r target target' body renamed body' : Expr} (a : Aggregate) (hne : y ≠ x)
      (hfree : r.hasFree y = true) (ht : Substitutes x r target target')
      (hrename : Substitutes y (.param (freshName (x :: r.names ++ body.names))) body renamed)
      (hb : Substitutes x r renamed body') :
      Substitutes x r (.aggregateOf target a y body)
        (.aggregateOf target' a (freshName (x :: r.names ++ body.names)) body')
  /-- The variable of the lambda stays. -/
  | kept {x y : String} {r target target' body body' : Expr} (a : Aggregate) (hne : y ≠ x)
      (hfree : r.hasFree y = false) (ht : Substitutes x r target target')
      (hb : Substitutes x r body body') :
      Substitutes x r (.aggregateOf target a y body) (.aggregateOf target' a y body')
  | row {x : String} {r : Expr} {fields fields' : List (String × Expr)}
      (hf : SubstitutesFields x r fields fields') : Substitutes x r (.row fields) (.row fields')

/-- The same for a list of expressions. -/
inductive SubstitutesList : (x : String) → (r : Expr) → (es es' : List Expr) → Prop where
  | nil (x : String) (r : Expr) : SubstitutesList x r [] []
  | cons {x : String} {r e e' : Expr} {rest rest' : List Expr} (he : Substitutes x r e e')
      (hrest : SubstitutesList x r rest rest') : SubstitutesList x r (e :: rest) (e' :: rest')

/-- The same for the fields of a row. -/
inductive SubstitutesFields : (x : String) → (r : Expr) → (fs fs' : List (String × Expr)) → Prop where
  | nil (x : String) (r : Expr) : SubstitutesFields x r [] []
  | cons {x : String} {r e e' : Expr} {rest rest' : List (String × Expr)} (name : String)
      (he : Substitutes x r e e') (hrest : SubstitutesFields x r rest rest') :
      SubstitutesFields x r ((name, e) :: rest) ((name, e') :: rest')

end


mutual

/-- A run has one result. -/
theorem Substitutes.unique {x : String} {r e a b : Expr} : Substitutes x r e a → Substitutes x r e b → a = b
  | .here _ _, hb => by
      cases hb with
      | here => rfl
      | other _ hne => exact absurd rfl hne
  | .other _ hne, hb => by
      cases hb with
      | here => exact absurd rfl hne
      | other => rfl
  | .constant _ _ _, hb => by cases hb; rfl
  | .member name ht, .member _ ht' => congrArg (Expr.member · name) (ht.unique ht')
  | .unary op ho, .unary _ ho' => congrArg (Expr.unary op) (ho.unique ho')
  | .binary op hl hr, .binary _ hl' hr' => congrArg₂ (Expr.binary op) (hl.unique hl') (hr.unique hr')
  | .call f ha, .call _ ha' => congrArg (Expr.call f) (ha.unique ha')
  | .aggregate a ht, .aggregate _ ht' => congrArg (Expr.aggregate · a) (ht.unique ht')
  | .hidden a body ht, .hidden _ _ ht' => congrArg (Expr.aggregateOf · a _ body) (ht.unique ht')
  | .hidden a body ht, .renamed _ hne _ _ _ _ => absurd rfl hne
  | .hidden a body ht, .kept _ hne _ _ _ => absurd rfl hne
  | .renamed a hne hfree ht hrename hbody, hb => by
      cases hb with
      | hidden => exact absurd rfl hne
      | renamed _ _ _ ht' hrename' hbody' =>
          -- both go on from the same renamed body
          have hh := hrename.unique hrename'
          rw [← hh] at hbody'
          rw [ht.unique ht', hbody.unique hbody']
      | kept _ _ hfree' => rw [hfree] at hfree'; cases hfree'
  | .kept a hne hfree ht hbody, hb => by
      cases hb with
      | hidden => exact absurd rfl hne
      | renamed _ _ hfree' => rw [hfree] at hfree'; cases hfree'
      | kept _ _ _ ht' hbody' => rw [ht.unique ht', hbody.unique hbody']
  | .row hf, .row hf' => congrArg Expr.row (hf.unique hf')

theorem SubstitutesList.unique {x : String} {r : Expr} {es as bs : List Expr} :
   SubstitutesList x r es as → SubstitutesList x r es bs → as = bs
  | .nil _ _, hb => by cases hb; rfl
  | .cons he hrest, .cons he' hrest' => congrArg₂ List.cons (he.unique he') (hrest.unique hrest')

theorem SubstitutesFields.unique {x : String} {r : Expr} {fs as bs : List (String × Expr)} :
    SubstitutesFields x r fs as → SubstitutesFields x r fs bs → as = bs
  | .nil _ _, hb => by cases hb; rfl
  | .cons name he hrest, .cons _ he' hrest' => by rw [he.unique he', hrest.unique hrest']

end

mutual

/-- To rename one more variable afterwards is to rename it along with the others. -/
theorem rename_rename {y fresh : String} : (e : Expr) → (ρ : Renaming) → ρ.lookup y = none →
    (∀ pair ∈ ρ, pair.2 ≠ y) → rename [(y, fresh)] (rename ρ e) = rename ((y, fresh) :: ρ) e
  | .param z, ρ, hy, hnew => by
      rw [rename, rename, rename]
      congr 1
      by_cases hz : z = y
      · rw [hz, Renaming.apply_of_lookup_none hy, Renaming.apply_cons_self, Renaming.apply_cons_self]
      · rw [Renaming.apply_cons_ne _ _ (ρ.apply_ne hnew hz), Renaming.apply_cons_ne _ _ hz]
        rfl
  | .constant l, _, _, _ => rfl
  | .member target name, ρ, hy, hnew => by simp only [rename, rename_rename target ρ hy hnew]
  | .unary op operand, ρ, hy, hnew => by simp only [rename, rename_rename operand ρ hy hnew]
  | .binary op left right, ρ, hy, hnew => by
      simp only [rename, rename_rename left ρ hy hnew, rename_rename right ρ hy hnew]
  | .call f arguments, ρ, hy, hnew => by simp only [rename, renameList_rename arguments ρ hy hnew]
  | .aggregate target a, ρ, hy, hnew => by simp only [rename, rename_rename target ρ hy hnew]
  | .aggregateOf target a z body, ρ, hy, hnew => by
      rw [rename, rename, rename, rename_rename target ρ hy hnew]
      congr 1
      by_cases hz : z = y
      · -- the lambda hides the variable
        subst hz
        rw [Renaming.without_cons_self, Renaming.without_cons_self]
        exact rename_nil _
      · rw [Renaming.without_cons_ne _ _ (Ne.symm hz), Renaming.without_cons_ne _ _ (Ne.symm hz)]
        refine rename_rename body (ρ.without z) ?_ fun pair hpair => hnew pair (List.mem_filter.1 hpair).1
        rw [ρ.lookup_without (Ne.symm hz)]
        exact hy
  | .row fields, ρ, hy, hnew => by simp only [rename, renameFields_rename fields ρ hy hnew]

theorem renameList_rename {y fresh : String} : (es : List Expr) → (ρ : Renaming) →
    ρ.lookup y = none → (∀ pair ∈ ρ, pair.2 ≠ y) →
    renameList [(y, fresh)] (renameList ρ es) = renameList ((y, fresh) :: ρ) es
  | [], _, _, _ => rfl
  | e :: rest, ρ, hy, hnew => by
      simp only [renameList, rename_rename e ρ hy hnew, renameList_rename rest ρ hy hnew]

theorem renameFields_rename {y fresh : String} : (fs : List (String × Expr)) → (ρ : Renaming) →
    ρ.lookup y = none → (∀ pair ∈ ρ, pair.2 ≠ y) →
    renameFields [(y, fresh)] (renameFields ρ fs) = renameFields ((y, fresh) :: ρ) fs
  | [], _, _, _ => rfl
  | (name, e) :: rest, ρ, hy, hnew => by
      simp only [renameFields, rename_rename e ρ hy hnew, renameFields_rename rest ρ hy hnew]

end

mutual

/-- The substitution of a name that is nowhere used is a renaming. -/
theorem substitutes_fresh {y fresh : String} : (e : Expr) → fresh ∉ e.names →
    Substitutes y (.param fresh) e (rename [(y, fresh)] e)
  | .param z, _ => by
      rw [rename]
      by_cases hz : z = y
      · rw [hz, Renaming.apply_cons_self]
        exact .here y _
      · rw [Renaming.apply_cons_ne _ _ hz]
        exact .other _ hz
  | .constant l, _ => .constant y _ l
  | .member target name, h => .member name (substitutes_fresh target h)
  | .unary op operand, h => .unary op (substitutes_fresh operand h)
  | .binary op left right, h => by
      rw [names, List.mem_append, not_or] at h
      exact .binary op (substitutes_fresh left h.1) (substitutes_fresh right h.2)
  | .call f arguments, h => .call f (substitutesList_fresh arguments h)
  | .aggregate target a, h => .aggregate a (substitutes_fresh target h)
  | .aggregateOf target a z body, h => by
      rw [names, List.mem_append, List.mem_cons, not_or, not_or] at h
      obtain ⟨htarget, hvariable, hbody⟩ := h
      rw [rename]
      by_cases hz : z = y
      · subst hz
        rw [Renaming.without_cons_self]
        have hsame := rename_nil body
        exact hsame.symm ▸ .hidden a body (substitutes_fresh target htarget)
      · -- the variable of the lambda is not the fresh one
        have hfree : (param fresh).hasFree z = false := by
          simpa [hasFree, freeNames] using Ne.symm hvariable
        rw [Renaming.without_cons_ne _ _ (Ne.symm hz)]
        exact .kept a hz hfree (substitutes_fresh target htarget) (substitutes_fresh body hbody)
  | .row fields, h => .row (substitutesFields_fresh fields h)

theorem substitutesList_fresh {y fresh : String} : (es : List Expr) → fresh ∉ namesOfList es →
    SubstitutesList y (.param fresh) es (renameList [(y, fresh)] es)
  | [], _ => .nil y _
  | e :: rest, h => by
      rw [namesOfList, List.mem_append, not_or] at h
      exact .cons (substitutes_fresh e h.1) (substitutesList_fresh rest h.2)

theorem substitutesFields_fresh {y fresh : String} : (fs : List (String × Expr)) →
    fresh ∉ namesOfFields fs →
    SubstitutesFields y (.param fresh) fs (renameFields [(y, fresh)] fs)
  | [], _ => .nil y _
  | (name, e) :: rest, h => by
      rw [namesOfFields, List.mem_append, not_or] at h
      exact .cons name (substitutes_fresh e h.1) (substitutesFields_fresh rest h.2)

end

mutual

/-- One pass that renames and substitutes is a run on what was renamed before. -/
theorem substitutes_rename {x : String} {r : Expr} : (e : Expr) → (ρ : Renaming) →
    (∀ pair ∈ ρ, pair.2 ∉ e.boundNames) → (∀ pair ∈ ρ, pair.2 ≠ x) →
    Substitutes x r (rename ρ e) (substituteUnder ρ x r e)
  | .param y, ρ, _, hx => by
      rw [rename, substituteUnder]
      cases hnew : ρ.lookup y with
      | some new =>
          rw [Renaming.apply_of_lookup_some hnew]
          obtain ⟨before, after, hsplit, -⟩ := List.lookup_eq_some_iff.1 hnew
          exact .other r (hx (y, new) (by simp [hsplit]))
      | none =>
          rw [Renaming.apply_of_lookup_none hnew]
          by_cases hyx : y = x
          · simp only [hyx, if_pos]
            exact .here x r
          · simp only [if_neg hyx]
            exact .other r hyx
  | .constant l, _, _, _ => .constant x r l
  | .member target name, ρ, hb, hx => .member name (substitutes_rename target ρ hb hx)
  | .unary op operand, ρ, hb, hx => .unary op (substitutes_rename operand ρ hb hx)
  | .binary op left right, ρ, hb, hx => by
      simp only [boundNames, List.mem_append, not_or] at hb
      exact .binary op (substitutes_rename left ρ (fun p hp => (hb p hp).1) hx)
        (substitutes_rename right ρ (fun p hp => (hb p hp).2) hx)
  | .call f arguments, ρ, hb, hx => .call f (substitutesList_rename arguments ρ hb hx)
  | .aggregate target a, ρ, hb, hx => .aggregate a (substitutes_rename target ρ hb hx)
  | .aggregateOf target a y body, ρ, hb, hx => by
      simp only [boundNames, List.mem_append, List.mem_cons, not_or] at hb
      have htarget := substitutes_rename (r := r) target ρ (fun p hp => (hb p hp).1) hx
      have hinner : ∀ pair ∈ ρ.without y, pair.2 ∉ body.boundNames :=
        fun p hp => (hb p (List.mem_filter.1 hp).1).2.2
      have hinnerx : ∀ pair ∈ ρ.without y, pair.2 ≠ x := fun p hp => hx p (List.mem_filter.1 hp).1
      rw [rename, substituteUnder]
      by_cases hyx : y = x
      · rw [if_pos hyx, hyx]
        exact .hidden a _ htarget
      rw [if_neg hyx]
      by_cases hfree : r.hasFree y
      · rw [if_pos hfree]
        refine .renamed a hyx hfree htarget (substitutes_fresh (rename (ρ.without y) body) ?_) ?_
        · have hnew := freshName_not_mem (x :: r.names ++ (rename (ρ.without y) body).names)
          exact fun hmem => hnew (List.mem_append_right _ hmem)
        have hnew := freshName_not_mem (x :: r.names ++ (rename (ρ.without y) body).names)
        generalize freshName (x :: r.names ++ (rename (ρ.without y) body).names) = fresh at hnew ⊢
        rw [List.cons_append, List.mem_cons, List.mem_append, not_or, not_or] at hnew
        -- the body was renamed before, and the fresh name comes on top
        rw [rename_rename body _ (ρ.lookup_without_self y)
          fun p hp => (hb p (List.mem_filter.1 hp).1).2.1]
        refine substitutes_rename body _ ?_ ?_
        · rintro pair hpair hmem
          rcases List.mem_cons.1 hpair with rfl | hold
          · exact hnew.2.2 (bound_mem_names_rename body _ hmem)
          · exact hinner pair hold hmem
        · rintro pair hpair
          rcases List.mem_cons.1 hpair with rfl | hold
          · exact hnew.1
          · exact hinnerx pair hold
      · rw [if_neg hfree]
        exact .kept a hyx (Bool.eq_false_iff.2 hfree) htarget (substitutes_rename body _ hinner hinnerx)
  | .row fields, ρ, hb, hx => .row (substitutesFields_rename fields ρ hb hx)

theorem substitutesList_rename {x : String} {r : Expr} : (es : List Expr) → (ρ : Renaming) →
    (∀ pair ∈ ρ, pair.2 ∉ boundNamesOfList es) → (∀ pair ∈ ρ, pair.2 ≠ x) →
    SubstitutesList x r (renameList ρ es) (substituteList ρ x r es)
  | [], _, _, _ => .nil x r
  | e :: rest, ρ, hb, hx => by
      simp only [boundNamesOfList, List.mem_append, not_or] at hb
      exact .cons (substitutes_rename e ρ (fun p hp => (hb p hp).1) hx)
        (substitutesList_rename rest ρ (fun p hp => (hb p hp).2) hx)

theorem substitutesFields_rename {x : String} {r : Expr} : (fs : List (String × Expr)) →
    (ρ : Renaming) → (∀ pair ∈ ρ, pair.2 ∉ boundNamesOfFields fs) → (∀ pair ∈ ρ, pair.2 ≠ x) →
    SubstitutesFields x r (renameFields ρ fs) (substituteFields ρ x r fs)
  | [], _, _, _ => .nil x r
  | (name, e) :: rest, ρ, hb, hx => by
      simp only [boundNamesOfFields, List.mem_append, not_or] at hb
      exact .cons name (substitutes_rename e ρ (fun p hp => (hb p hp).1) hx)
        (substitutesFields_rename rest ρ (fun p hp => (hb p hp).2) hx)

end

/-- The recursion comes to its end, and what it gives is the substitution. -/
theorem substitutes_iff {x : String} {r e e' : Expr} :
    Substitutes x r e e' ↔ e' = e.substitute x r := by
  have hrun := substitutes_rename (x := x) (r := r) e []
    (fun _ hpair => absurd hpair List.not_mem_nil) (fun _ hpair => absurd hpair List.not_mem_nil)
  rw [rename_nil] at hrun
  constructor
  · intro h
    exact h.unique hrun
  · rintro rfl
    exact hrun

/-! ## Substitution and values -/

/-- **Substitution is correct.** Its recursion ends, and where the replacement has a value, the result
has the value that the expression has with that value for the variable, or fails with the same error;
whichever variables of lambdas the replacement mentions. -/
theorem substitute_correct (g : TypeGraph) (h : Heap) (env : Env) (e : Expr) (x : String) (r : Expr) :
    (∀ e', Substitutes x r e e' ↔ e' = e.substitute x r) ∧
    ∀ v, eval g h env r = .ok v →
      eval g h env (e.substitute x r) = eval g h ((x, v) :: env) e :=
  ⟨fun _ => substitutes_iff, fun _ hr => eval_substitute_eq hr⟩

/-- All `q` of a list against a replacement that is called `q` itself: the variable of the lambda gives
way, and the outer `q` is meant. -/
theorem capture_avoided :
    let e : Expr := .aggregateOf (.param "p") .all "q" (.binary .eq (.param "q") (.param "x"))
    let env : Env := [("q", .int 2), ("p", .list [.int 1, .int 2])]
    let graph : TypeGraph := ⟨.empty, .empty⟩
    Substitutes "x" (.param "q") e
        (.aggregateOf (.param "p") .all "_p0" (.binary .eq (.param "_p0") (.param "q"))) ∧
      eval graph .empty env (.param "q") = .ok (.int 2) ∧
      eval graph .empty env (e.substitute "x" (.param "q")) = .ok (.bool false) := by
  intro e env graph
  obtain ⟨hruns, heval⟩ := substitute_correct graph .empty env e "x" (.param "q")
  refine ⟨(hruns _).2 rfl, rfl, ?_⟩
  rw [heval (.int 2) rfl]
  rfl

end Expr

end ResourceQuery
