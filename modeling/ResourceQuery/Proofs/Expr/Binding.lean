import ResourceQuery.Proofs.Expr.Congruence
import ResourceQuery.Proofs.Expr.Folding

set_option autoImplicit false

/-! # Lambdas in nameless form

What simplification, composition and conjunction do to the nameless forms of lambdas. A lambda is put
around a form by binding a free variable (`Nameless.bind`), and is taken away by filling its variable
(`Nameless.fill`); both are walks over the variables that count the lambdas on the way
(`Nameless.mapVars`). A substitution is read twice: it replaces a free variable in the form of an
expression, and it fills the variable in the form of a lambda (`Expr.nameless_substitute_fill`). Filling
with a variable that was not free and binding it again gives back the form (`Nameless.bind_fill`).

So the forms of the combined lambdas depend on the forms of the given ones alone
(`Lambda.nameless_compose`, `Lambda.nameless_andAlso`).
-/

namespace ResourceQuery

namespace Occurrence

/-- A bound variable is bound by one of the lambdas around. -/
theorem lt_of_resolve {scope : List String} {x : String} {depth : Nat}
    (h : resolve scope x = .bound depth) : depth < scope.length := by
  induction scope generalizing depth with
  | nil => cases h
  | cons y scope ih =>
      by_cases hx : x = y
      · rw [hx, resolve_self] at h
        cases h
        exact Nat.zero_lt_succ _
      · rw [resolve_ne scope hx] at h
        cases ho : resolve scope x with
        | bound d =>
            rw [ho] at h
            cases h
            exact Nat.succ_lt_succ (ih ho)
        | free z =>
            rw [ho] at h
            cases h

/-- One more lambda around all others binds the variables of its name that were free. -/
theorem resolve_concat (locals : List String) (x y : String) :
    resolve (locals ++ [x]) y =
      if resolve locals y = .free x then .bound locals.length else resolve locals y := by
  induction locals with
  | nil =>
      by_cases hy : x = y
      · simp [hy]
      · simp [resolve_ne [] (Ne.symm hy), under, Ne.symm hy]
  | cons z locals ih =>
      rw [List.cons_append]
      by_cases hy : y = z
      · simp [hy]
      · rw [resolve_ne _ hy, resolve_ne _ hy, ih]
        cases resolve locals y with
        | bound depth => simp [under]
        | free w =>
            by_cases hw : w = x
            · simp [under, hw]
            · simp [under, hw]

end Occurrence

namespace Nameless

/-! ## Binding and filling -/

mutual

/-- The form with `f depth o` for each variable `o` below `depth` lambdas. -/
def mapVars (f : Nat → Occurrence → Nameless) (depth : Nat) : Nameless → Nameless
  | .var o => f depth o
  | .constant value => .constant value
  | .member target name => .member (mapVars f depth target) name
  | .unary op operand => .unary op (mapVars f depth operand)
  | .binary op left right => .binary op (mapVars f depth left) (mapVars f depth right)
  | .call function arguments => .call function (mapVarsList f depth arguments)
  | .aggregate target a => .aggregate (mapVars f depth target) a
  | .aggregateOf target a body => .aggregateOf (mapVars f depth target) a (mapVars f (depth + 1) body)
  | .row fields => .row (mapVarsFields f depth fields)

/-- The same in a list of forms. -/
def mapVarsList (f : Nat → Occurrence → Nameless) (depth : Nat) : List Nameless → List Nameless
  | [] => []
  | n :: rest => mapVars f depth n :: mapVarsList f depth rest

/-- The same in the fields of a row. -/
def mapVarsFields (f : Nat → Occurrence → Nameless) (depth : Nat) :
    List (String × Nameless) → List (String × Nameless)
  | [] => []
  | (name, n) :: rest => (name, mapVars f depth n) :: mapVarsFields f depth rest

end

/-- A free `x` is bound outside of all lambdas. -/
def bindAt (x : String) (depth : Nat) (o : Occurrence) : Nameless :=
  if o = .free x then .var (.bound depth) else .var o

/-- A variable bound outside of all lambdas is `r`. -/
def fillAt (r : Nameless) (depth : Nat) (o : Occurrence) : Nameless :=
  if o = .bound depth then r else .var o

/-- A free `x` is `r`. -/
def replaceAt (x : String) (r : Nameless) (_depth : Nat) (o : Occurrence) : Nameless :=
  if o = .free x then r else .var o

/-- The form of a body under a lambda that binds `x`. -/
def bind (n : Nameless) (x : String) : Nameless :=
  n.mapVars (bindAt x) 0

/-- The form of a body with `r` for the variable of the lambda around it. -/
def fill (n r : Nameless) : Nameless :=
  n.mapVars (fillAt r) 0

mutual

theorem mapVars_var : (n : Nameless) → (depth : Nat) → n.mapVars (fun _ o => .var o) depth = n
  | .var _, _ => rfl
  | .constant _, _ => rfl
  | .member target name, depth => congrArg (member · name) (mapVars_var target depth)
  | .unary op operand, depth => congrArg (unary op) (mapVars_var operand depth)
  | .binary op left right, depth =>
      congrArg₂ (binary op) (mapVars_var left depth) (mapVars_var right depth)
  | .call f arguments, depth => congrArg (call f) (mapVarsList_var arguments depth)
  | .aggregate target a, depth => congrArg (aggregate · a) (mapVars_var target depth)
  | .aggregateOf target a body, depth =>
      congrArg₂ (aggregateOf · a ·) (mapVars_var target depth) (mapVars_var body (depth + 1))
  | .row fields, depth => congrArg row (mapVarsFields_var fields depth)

theorem mapVarsList_var : (ns : List Nameless) → (depth : Nat) →
    mapVarsList (fun _ o => .var o) depth ns = ns
  | [], _ => rfl
  | n :: rest, depth => congrArg₂ List.cons (mapVars_var n depth) (mapVarsList_var rest depth)

theorem mapVarsFields_var : (fs : List (String × Nameless)) → (depth : Nat) →
    mapVarsFields (fun _ o => .var o) depth fs = fs
  | [], _ => rfl
  | (name, n) :: rest, depth =>
      congrArg₂ List.cons (congrArg (Prod.mk name) (mapVars_var n depth)) (mapVarsFields_var rest depth)

end

mutual

theorem mapVars_replaceAt (x : String) (r : Nameless) : (n : Nameless) → (depth : Nat) →
    n.mapVars (replaceAt x r) depth = replace x r n
  | .var (.bound _), _ => rfl
  | .var (.free y), _ => by
      simp only [mapVars, replaceAt, replace, Occurrence.free.injEq]
  | .constant _, _ => rfl
  | .member target name, depth => congrArg (member · name) (mapVars_replaceAt x r target depth)
  | .unary op operand, depth => congrArg (unary op) (mapVars_replaceAt x r operand depth)
  | .binary op left right, depth =>
      congrArg₂ (binary op) (mapVars_replaceAt x r left depth) (mapVars_replaceAt x r right depth)
  | .call f arguments, depth => congrArg (call f) (mapVarsList_replaceAt x r arguments depth)
  | .aggregate target a, depth => congrArg (aggregate · a) (mapVars_replaceAt x r target depth)
  | .aggregateOf target a body, depth =>
      congrArg₂ (aggregateOf · a ·) (mapVars_replaceAt x r target depth)
        (mapVars_replaceAt x r body (depth + 1))
  | .row fields, depth => congrArg row (mapVarsFields_replaceAt x r fields depth)

theorem mapVarsList_replaceAt (x : String) (r : Nameless) : (ns : List Nameless) → (depth : Nat) →
    mapVarsList (replaceAt x r) depth ns = replaceList x r ns
  | [], _ => rfl
  | n :: rest, depth =>
      congrArg₂ List.cons (mapVars_replaceAt x r n depth) (mapVarsList_replaceAt x r rest depth)

theorem mapVarsFields_replaceAt (x : String) (r : Nameless) :
    (fs : List (String × Nameless)) → (depth : Nat) →
    mapVarsFields (replaceAt x r) depth fs = replaceFields x r fs
  | [], _ => rfl
  | (name, n) :: rest, depth =>
      congrArg₂ List.cons (congrArg (Prod.mk name) (mapVars_replaceAt x r n depth))
        (mapVarsFields_replaceAt x r rest depth)

end

mutual

theorem bindAt_fillAt {x : String} : (n : Nameless) → (depth : Nat) → x ∉ n.freeNames →
    (n.mapVars (fillAt (.var (.free x))) depth).mapVars (bindAt x) depth = n
  | .var (.bound d), depth, _ => by
      by_cases hd : d = depth
      · simp [mapVars, fillAt, bindAt, hd]
      · simp [mapVars, fillAt, bindAt, hd]
  | .var (.free y), depth, h => by
      rw [freeNames, List.mem_singleton] at h
      simp [mapVars, fillAt, bindAt, Ne.symm h]
  | .constant _, _, _ => rfl
  | .member target name, depth, h => congrArg (member · name) (bindAt_fillAt target depth h)
  | .unary op operand, depth, h => congrArg (unary op) (bindAt_fillAt operand depth h)
  | .binary op left right, depth, h => by
      rw [freeNames, List.mem_append, not_or] at h
      exact congrArg₂ (binary op) (bindAt_fillAt left depth h.1) (bindAt_fillAt right depth h.2)
  | .call f arguments, depth, h => congrArg (call f) (bindAt_fillAt_list arguments depth h)
  | .aggregate target a, depth, h => congrArg (aggregate · a) (bindAt_fillAt target depth h)
  | .aggregateOf target a body, depth, h => by
      rw [freeNames, List.mem_append, not_or] at h
      exact congrArg₂ (aggregateOf · a ·) (bindAt_fillAt target depth h.1)
        (bindAt_fillAt body (depth + 1) h.2)
  | .row fields, depth, h => congrArg row (bindAt_fillAt_fields fields depth h)

theorem bindAt_fillAt_list {x : String} : (ns : List Nameless) → (depth : Nat) →
    x ∉ freeNamesOfList ns →
    mapVarsList (bindAt x) depth (mapVarsList (fillAt (.var (.free x))) depth ns) = ns
  | [], _, _ => rfl
  | n :: rest, depth, h => by
      rw [freeNamesOfList, List.mem_append, not_or] at h
      exact congrArg₂ List.cons (bindAt_fillAt n depth h.1) (bindAt_fillAt_list rest depth h.2)

theorem bindAt_fillAt_fields {x : String} : (fs : List (String × Nameless)) → (depth : Nat) →
    x ∉ freeNamesOfFields fs →
    mapVarsFields (bindAt x) depth (mapVarsFields (fillAt (.var (.free x))) depth fs) = fs
  | [], _, _ => rfl
  | (name, n) :: rest, depth, h => by
      rw [freeNamesOfFields, List.mem_append, not_or] at h
      exact congrArg₂ List.cons (congrArg (Prod.mk name) (bindAt_fillAt n depth h.1))
        (bindAt_fillAt_fields rest depth h.2)

end

/-- **What is filled with a new variable and bound again is as it was.** -/
theorem bind_fill {x : String} {n : Nameless} (hx : x ∉ n.freeNames) :
    (n.fill (.var (.free x))).bind x = n :=
  bindAt_fillAt n 0 hx

/-! ## Simplification -/

/-- The member `name` of a form; of a row that is written out, the field of that name if there is
one. -/
def memberOf (target : Nameless) (name : String) : Nameless :=
  match target with
  | .row fields =>
    match fields.find? fun (n, _) => Text.sameIgnoringCase n name with
    | some (_, n) => n
    | none => .member (.row fields) name
  | target => .member target name

mutual

/-- The form with the members of written out rows replaced by the fields. -/
def simplify : Nameless → Nameless
  | .var o => .var o
  | .constant value => .constant value
  | .member target name => memberOf (simplify target) name
  | .unary op operand => .unary op (simplify operand)
  | .binary op left right => .binary op (simplify left) (simplify right)
  | .call f arguments => .call f (simplifyList arguments)
  | .aggregate target a => .aggregate (simplify target) a
  | .aggregateOf target a body => .aggregateOf (simplify target) a (simplify body)
  | .row fields => .row (simplifyFields fields)

/-- Simplification in a list of forms. -/
def simplifyList : List Nameless → List Nameless
  | [] => []
  | n :: rest => simplify n :: simplifyList rest

/-- Simplification in the fields of a row. -/
def simplifyFields : List (String × Nameless) → List (String × Nameless)
  | [] => []
  | (name, n) :: rest => (name, simplify n) :: simplifyFields rest

end

end Nameless

namespace Expr

open Occurrence

/-! ## The forms of expressions -/

mutual

/-- Two walks over the forms of one expression do the same if they do so at each variable. -/
theorem mapVars_nameless {f f' : Nat → Occurrence → Nameless} {outer outer' : List String}
    (h : ∀ locals x, f locals.length (resolve (locals ++ outer) x) =
      f' locals.length (resolve (locals ++ outer') x)) :
    (e : Expr) → (locals : List String) →
    (e.nameless (locals ++ outer)).mapVars f locals.length =
      (e.nameless (locals ++ outer')).mapVars f' locals.length
  | .param x, locals => h locals x
  | .constant _, _ => rfl
  | .member target name, locals => congrArg (Nameless.member · name) (mapVars_nameless h target locals)
  | .unary op operand, locals => congrArg (Nameless.unary op) (mapVars_nameless h operand locals)
  | .binary op left right, locals =>
      congrArg₂ (Nameless.binary op) (mapVars_nameless h left locals) (mapVars_nameless h right locals)
  | .call f arguments, locals => congrArg (Nameless.call f) (mapVars_namelessList h arguments locals)
  | .aggregate target a, locals =>
      congrArg (Nameless.aggregate · a) (mapVars_nameless h target locals)
  | .aggregateOf target a x body, locals =>
      congrArg₂ (Nameless.aggregateOf · a ·) (mapVars_nameless h target locals)
        (mapVars_nameless h body (x :: locals))
  | .row fields, locals => congrArg Nameless.row (mapVars_namelessFields h fields locals)

theorem mapVars_namelessList {f f' : Nat → Occurrence → Nameless} {outer outer' : List String}
    (h : ∀ locals x, f locals.length (resolve (locals ++ outer) x) =
      f' locals.length (resolve (locals ++ outer') x)) :
    (es : List Expr) → (locals : List String) →
    Nameless.mapVarsList f locals.length (namelessList (locals ++ outer) es) =
      Nameless.mapVarsList f' locals.length (namelessList (locals ++ outer') es)
  | [], _ => rfl
  | e :: rest, locals =>
      congrArg₂ List.cons (mapVars_nameless h e locals) (mapVars_namelessList h rest locals)

theorem mapVars_namelessFields {f f' : Nat → Occurrence → Nameless} {outer outer' : List String}
    (h : ∀ locals x, f locals.length (resolve (locals ++ outer) x) =
      f' locals.length (resolve (locals ++ outer') x)) :
    (fs : List (String × Expr)) → (locals : List String) →
    Nameless.mapVarsFields f locals.length (namelessFields (locals ++ outer) fs) =
      Nameless.mapVarsFields f' locals.length (namelessFields (locals ++ outer') fs)
  | [], _ => rfl
  | (name, e) :: rest, locals =>
      congrArg₂ List.cons (congrArg (Prod.mk name) (mapVars_nameless h e locals))
        (mapVars_namelessFields h rest locals)

end

/-- A lambda around an expression binds in its form. -/
theorem nameless_bind (e : Expr) (x : String) : e.nameless [x] = (e.nameless []).bind x := by
  have hwalk : (e.nameless ([] ++ [x])).mapVars (fun _ o => .var o) 0 =
      (e.nameless ([] ++ [])).mapVars (Nameless.bindAt x) 0 := by
    refine mapVars_nameless (fun locals y => ?_) e []
    rw [resolve_concat, List.append_nil, Nameless.bindAt]
    split
    · rfl
    · rfl
  rw [Nameless.mapVars_var] at hwalk
  exact hwalk

/-- **Substitution fills the variable of the lambda.** -/
theorem nameless_substitute_fill (e : Expr) (x : String) (r : Expr) :
    (e.substitute x r).nameless [] = (e.nameless [x]).fill (r.nameless []) := by
  have hwalk : (e.nameless ([] ++ [x])).mapVars (Nameless.fillAt (r.nameless [])) 0 =
      (e.nameless ([] ++ [])).mapVars (Nameless.replaceAt x (r.nameless [])) 0 := by
    refine mapVars_nameless (fun locals y => ?_) e []
    rw [resolve_concat, List.append_nil, Nameless.replaceAt]
    by_cases hy : resolve locals y = .free x
    · rw [if_pos hy, if_pos hy, Nameless.fillAt, if_pos rfl]
    · -- what is bound is bound by one of the lambdas in between
      have hinner : resolve locals y ≠ .bound locals.length := fun h =>
        (lt_of_resolve h).ne rfl
      rw [if_neg hy, if_neg hy, Nameless.fillAt, if_neg hinner]
  rw [Nameless.mapVars_replaceAt] at hwalk
  rw [nameless_substitute]
  exact hwalk.symm

/-- A lambda keeps its form when its variable gets another name that is not free in it. -/
theorem nameless_substitute_param {e : Expr} {x y : String} (hy : y ∉ (e.nameless [x]).freeNames) :
    (e.substitute x (.param y)).nameless [y] = e.nameless [x] := by
  rw [nameless_bind, nameless_substitute_fill]
  exact Nameless.bind_fill hy

theorem find?_namelessFields (scope : List String) (name : String) (fields : List (String × Expr)) :
    ((namelessFields scope fields).find? fun (n, _) => Text.sameIgnoringCase n name) =
      (fields.find? fun (n, _) => Text.sameIgnoringCase n name).map fun (n, e) => (n, e.nameless scope) := by
  induction fields with
  | nil => rfl
  | cons field rest ih =>
      obtain ⟨first, e⟩ := field
      rw [namelessFields, List.find?_cons, List.find?_cons, ih]
      dsimp only
      cases Text.sameIgnoringCase first name with
      | true => rfl
      | false => rfl

theorem nameless_memberOf (scope : List String) (target : Expr) (name : String) :
    (memberOf target name).nameless scope = (target.nameless scope).memberOf name := by
  cases target with
  | row fields =>
      rw [memberOf, nameless, Nameless.memberOf, find?_namelessFields]
      cases fields.find? fun (n, _) => Text.sameIgnoringCase n name with
      | none => rfl
      | some field => rfl
  | _ => rfl

mutual

/-- Simplification is the same in nameless form. -/
theorem nameless_simplify : (e : Expr) → (scope : List String) →
    e.simplify.nameless scope = (e.nameless scope).simplify
  | .param _, _ => rfl
  | .constant _, _ => rfl
  | .member target name, scope => by
      rw [simplify, nameless_memberOf, nameless_simplify target scope]
      rfl
  | .unary op operand, scope => congrArg (Nameless.unary op) (nameless_simplify operand scope)
  | .binary op left right, scope =>
      congrArg₂ (Nameless.binary op) (nameless_simplify left scope) (nameless_simplify right scope)
  | .call f arguments, scope => congrArg (Nameless.call f) (namelessList_simplify arguments scope)
  | .aggregate target a, scope => congrArg (Nameless.aggregate · a) (nameless_simplify target scope)
  | .aggregateOf target a x body, scope =>
      congrArg₂ (Nameless.aggregateOf · a ·) (nameless_simplify target scope)
        (nameless_simplify body (x :: scope))
  | .row fields, scope => congrArg Nameless.row (namelessFields_simplify fields scope)

theorem namelessList_simplify : (es : List Expr) → (scope : List String) →
    namelessList scope (simplifyList es) = Nameless.simplifyList (namelessList scope es)
  | [], _ => rfl
  | e :: rest, scope =>
      congrArg₂ List.cons (nameless_simplify e scope) (namelessList_simplify rest scope)

theorem namelessFields_simplify : (fs : List (String × Expr)) → (scope : List String) →
    namelessFields scope (simplifyFields fs) = Nameless.simplifyFields (namelessFields scope fs)
  | [], _ => rfl
  | (name, e) :: rest, scope =>
      congrArg₂ List.cons (congrArg (Prod.mk name) (nameless_simplify e scope))
        (namelessFields_simplify rest scope)

end

end Expr

/-! ## The forms of lambdas -/

namespace Lambda

variable {l m : Lambda}

/-- No variable is free in the lambda. -/
def IsClosed (l : Lambda) : Prop :=
  ∀ x ∈ l.body.freeNames, x = l.parameter

theorem mem_freeNames_nameless {x : String} :
    x ∈ l.nameless.freeNames ↔ x ∈ l.body.freeNames ∧ x ≠ l.parameter := by
  rw [nameless, Expr.freeNames_nameless, List.mem_filter]
  simp

theorem IsClosed.not_mem_freeNames (h : l.IsClosed) (x : String) : x ∉ l.nameless.freeNames := by
  rw [mem_freeNames_nameless]
  rintro ⟨hfree, hother⟩
  exact hother (h x hfree)

theorem IsClosed.simplified (h : l.IsClosed) : l.simplified.IsClosed := fun x hx =>
  h x ((Expr.freeNames_simplify l.body).subset hx)

/-- A lambda does not mention its own variable from outside. -/
theorem parameter_not_mem_freeNames (l : Lambda) : l.parameter ∉ l.nameless.freeNames := by
  rw [mem_freeNames_nameless]
  exact fun h => h.2 rfl

theorem nameless_simplified (l : Lambda) : l.simplified.nameless = l.nameless.simplify :=
  Expr.nameless_simplify l.body [l.parameter]

theorem IsSimplified.nameless_simplify (h : l.IsSimplified) : l.nameless.simplify = l.nameless := by
  rw [← nameless_simplified]
  exact congrArg nameless h

/-- The form of a composition: of the inner body, in the place of the variable of the outer lambda. -/
theorem nameless_compose (l m : Lambda) :
    (l.compose m).nameless = ((l.nameless.fill (m.body.nameless [])).simplify).bind m.parameter := by
  have hbody : (l.apply m.body).nameless [] = (l.nameless.fill (m.body.nameless [])).simplify := by
    rw [apply, Expr.nameless_simplify, Expr.nameless_substitute_fill]
    rfl
  rw [← hbody]
  exact Expr.nameless_bind (l.apply m.body) m.parameter

/-- **The form of a conjunction**: the second lambda is applied to the variable of the first. -/
theorem nameless_andAlso (l m : Lambda) :
    (l.andAlso m).nameless =
      .binary .and l.nameless
        ((m.nameless.fill (.var (.free l.parameter))).simplify.bind l.parameter) := by
  have hright : (m.apply (.param l.parameter)).nameless [] =
      (m.nameless.fill (.var (.free l.parameter))).simplify := by
    rw [apply, Expr.nameless_simplify, Expr.nameless_substitute_fill]
    rfl
  rw [← hright, ← Expr.nameless_bind]
  rfl

/-- The form of a conjunction is both bodies under one variable, if the second lambda does not mention
the variable of the first from outside. -/
theorem nameless_andAlso_of_not_free {l m : Lambda} (h : l.parameter ∉ m.nameless.freeNames) :
    (l.andAlso m).nameless = .binary .and l.nameless m.nameless.simplify := by
  have hright : (m.apply (.param l.parameter)).nameless [l.parameter] = m.nameless.simplify := by
    rw [apply, Expr.nameless_simplify, Expr.nameless_substitute_param h]
    rfl
  exact congrArg (Nameless.binary .and l.nameless) hright

end Lambda

/-! ## Lambdas that equal themselves -/

/-- The constant which is no number equals nothing. -/
theorem Literal.isNumber_of_equal {a b : Literal} (h : a.equal b = true) : a.IsNumber := by
  rintro x rfl
  cases b with
  | float y =>
      change x.toModel.unpack.beq y.toModel.unpack = true at h
      change x.toModel.unpack.isNaN = false
      cases hx : x.toModel.unpack with
      | notANumber =>
          rw [hx] at h
          cases h
      | _ => rfl
  | _ => cases h

namespace Expr

mutual

/-- What equals anything has only numbers. -/
theorem HasNumbers.of_equalUnder : (a b : Expr) → (bound : Pairing) → equalUnder bound a b = true →
    a.HasNumbers
  | .param _, _, _, _ => trivial
  | .constant l, b, bound, h => by
      cases b with
      | constant m => exact Literal.isNumber_of_equal h
      | _ => cases h
  | .member target name, b, bound, h => by
      cases b with
      | member target' name' =>
          rw [equalUnder, Bool.and_eq_true] at h
          exact HasNumbers.of_equalUnder target target' bound h.2
      | _ => cases h
  | .unary op operand, b, bound, h => by
      cases b with
      | unary op' operand' =>
          rw [equalUnder, Bool.and_eq_true] at h
          exact HasNumbers.of_equalUnder operand operand' bound h.2
      | _ => cases h
  | .binary op left right, b, bound, h => by
      cases b with
      | binary op' left' right' =>
          rw [equalUnder, Bool.and_eq_true, Bool.and_eq_true] at h
          exact ⟨HasNumbers.of_equalUnder left left' bound h.1.2,
            HasNumbers.of_equalUnder right right' bound h.2⟩
      | _ => cases h
  | .call f arguments, b, bound, h => by
      cases b with
      | call f' arguments' =>
          rw [equalUnder, Bool.and_eq_true] at h
          exact HaveNumbers.of_equalLists arguments arguments' bound h.2
      | _ => cases h
  | .aggregate target a, b, bound, h => by
      cases b with
      | aggregate target' a' =>
          rw [equalUnder, Bool.and_eq_true] at h
          exact HasNumbers.of_equalUnder target target' bound h.2
      | _ => cases h
  | .aggregateOf target a x body, b, bound, h => by
      cases b with
      | aggregateOf target' a' y body' =>
          rw [equalUnder, Bool.and_eq_true, Bool.and_eq_true] at h
          exact ⟨HasNumbers.of_equalUnder target target' bound h.1.2,
            HasNumbers.of_equalUnder body body' _ h.2⟩
      | _ => cases h
  | .row fields, b, bound, h => by
      cases b with
      | row fields' => exact FieldsHaveNumbers.of_equalFields fields fields' bound h
      | _ => cases h

theorem HaveNumbers.of_equalLists : (as bs : List Expr) → (bound : Pairing) →
    equalLists bound as bs = true → HaveNumbers as
  | [], _, _, _ => trivial
  | a :: as, bs, bound, h => by
      cases bs with
      | nil => cases h
      | cons b bs =>
          rw [equalLists, Bool.and_eq_true] at h
          exact ⟨HasNumbers.of_equalUnder a b bound h.1, HaveNumbers.of_equalLists as bs bound h.2⟩

theorem FieldsHaveNumbers.of_equalFields : (as bs : List (String × Expr)) → (bound : Pairing) →
    equalFields bound as bs = true → FieldsHaveNumbers as
  | [], _, _, _ => trivial
  | (_, a) :: as, bs, bound, h => by
      cases bs with
      | nil => cases h
      | cons field bs =>
          rw [equalFields, Bool.and_eq_true, Bool.and_eq_true] at h
          exact ⟨HasNumbers.of_equalUnder a field.2 bound h.1.2,
            FieldsHaveNumbers.of_equalFields as bs bound h.2⟩

end

end Expr

namespace Lambda

/-- **A lambda equals itself exactly if all its floats are numbers.** -/
theorem equal_self_iff {l : Lambda} : l.equal l = true ↔ l.HasNumbers :=
  ⟨Expr.HasNumbers.of_equalUnder l.body l.body _, HasNumbers.equal_self⟩

theorem HasNumbers.of_equal {l m : Lambda} (h : l.equal m = true) : l.HasNumbers :=
  Expr.HasNumbers.of_equalUnder l.body m.body _ h

end Lambda

end ResourceQuery
