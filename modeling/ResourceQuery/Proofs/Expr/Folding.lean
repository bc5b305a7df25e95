import ResourceQuery.Proofs.Expr.NormalForms

set_option autoImplicit false

/-! # What simplification leaves

The fixed points of simplification are told by their shape: the expressions in which no member is taken
of a row that writes out a field of that name (`Expr.IsFolded`, `Expr.isFolded_iff`). One pass reaches
such an expression, from below: where a member gives way to a field, that field has been folded before,
so that no new member of a row comes up.

No variable is new in what is left (`Expr.freeNames_simplify`): the fields that are dropped take
variables away, and nothing brings any in.

Values survive as long as no two fields of a row share a name (`Expr.eval_simplify`);
`Expr.simplify_settles` puts all of this together.
-/

namespace ResourceQuery

open scoped List

namespace Expr

/-- The expression is a row with a field of that name. -/
def writesOut : (target : Expr) → (name : String) → Bool
  | .row fields, name => fields.any fun (n, _) => Text.sameIgnoringCase n name
  | _, _ => false

mutual

/-- No member is taken of a row that writes out a field of that name, anywhere in the expression. -/
def IsFolded : Expr → Prop
  | .param _ => True
  | .constant _ => True
  | .member target name => target.writesOut name = false ∧ IsFolded target
  | .unary _ operand => IsFolded operand
  | .binary _ left right => IsFolded left ∧ IsFolded right
  | .call _ arguments => AreFolded arguments
  | .aggregate target _ => IsFolded target
  | .aggregateOf target _ _ body => IsFolded target ∧ IsFolded body
  | .row fields => FieldsAreFolded fields

/-- The same for a list of expressions. -/
def AreFolded : List Expr → Prop
  | [] => True
  | e :: rest => IsFolded e ∧ AreFolded rest

/-- The same for the fields of a row. -/
def FieldsAreFolded : List (String × Expr) → Prop
  | [] => True
  | (_, e) :: rest => IsFolded e ∧ FieldsAreFolded rest

end

theorem FieldsAreFolded.of_mem {fields : List (String × Expr)} (h : FieldsAreFolded fields)
    {field : String × Expr} (hmem : field ∈ fields) : field.2.IsFolded := by
  induction fields with
  | nil => cases hmem
  | cons first rest ih =>
      rcases List.mem_cons.mp hmem with rfl | hrest
      · exact h.1
      · exact ih h.2 hrest

/-! ## One member -/

/-- Where the field is not written out, the member stays. -/
theorem memberOf_of_not_written {target : Expr} {name : String} (h : target.writesOut name = false) :
    memberOf target name = .member target name := by
  cases target with
  | row fields =>
      have hnone : (fields.find? fun (n, _) => Text.sameIgnoringCase n name) = none := by
        rw [List.find?_eq_none]
        exact List.any_eq_false.mp h
      rw [memberOf, hnone]
  | _ => rfl

/-- A member is the member itself where the field is not written out, or else one of the fields. -/
theorem memberOf_cases (target : Expr) (name : String) :
    (target.writesOut name = false ∧ memberOf target name = .member target name) ∨
    ∃ fields field, target = .row fields ∧ field ∈ fields ∧ memberOf target name = field.2 := by
  by_cases hwritten : target.writesOut name = true
  · right
    cases target with
    | row fields =>
        have hsome := List.find?_isSome.mpr (List.any_eq_true.mp hwritten)
        obtain ⟨field, hfield⟩ := Option.isSome_iff_exists.mp hsome
        refine ⟨fields, field, rfl, List.mem_of_find?_eq_some hfield, ?_⟩
        rw [memberOf, hfield]
    | _ => cases hwritten
  · rw [Bool.not_eq_true] at hwritten
    exact .inl ⟨hwritten, memberOf_of_not_written hwritten⟩

theorem IsFolded.memberOf {target : Expr} (h : target.IsFolded) (name : String) :
    (memberOf target name).IsFolded := by
  rcases memberOf_cases target name with ⟨hwritten, hstays⟩ | ⟨fields, field, rfl, hmem, hgone⟩
  · rw [hstays]
    exact ⟨hwritten, h⟩
  · rw [hgone]
    exact FieldsAreFolded.of_mem h hmem

theorem freeNames_of_mem {fields : List (String × Expr)} {field : String × Expr}
    (hmem : field ∈ fields) : field.2.freeNames <+ freeNamesOfFields fields := by
  induction fields with
  | nil => cases hmem
  | cons first rest ih =>
      rcases List.mem_cons.mp hmem with rfl | hrest
      · exact List.sublist_append_left _ _
      · exact (ih hrest).trans (List.sublist_append_right _ _)

theorem freeNames_memberOf (target : Expr) (name : String) :
    (memberOf target name).freeNames <+ target.freeNames := by
  rcases memberOf_cases target name with ⟨-, hstays⟩ | ⟨fields, field, rfl, hmem, hgone⟩
  · rw [hstays]
    exact List.Sublist.refl _
  · rw [hgone]
    exact freeNames_of_mem hmem

/-! ## The whole expression -/

mutual

/-- **One pass folds every member.** -/
theorem isFolded_simplify : (e : Expr) → e.simplify.IsFolded
  | .param _ => trivial
  | .constant _ => trivial
  | .member target name => (isFolded_simplify target).memberOf name
  | .unary _ operand => isFolded_simplify operand
  | .binary _ left right => ⟨isFolded_simplify left, isFolded_simplify right⟩
  | .call _ arguments => areFolded_simplifyList arguments
  | .aggregate target _ => isFolded_simplify target
  | .aggregateOf target _ _ body => ⟨isFolded_simplify target, isFolded_simplify body⟩
  | .row fields => fieldsAreFolded_simplifyFields fields

theorem areFolded_simplifyList : (es : List Expr) → AreFolded (simplifyList es)
  | [] => trivial
  | e :: rest => ⟨isFolded_simplify e, areFolded_simplifyList rest⟩

theorem fieldsAreFolded_simplifyFields : (fs : List (String × Expr)) →
    FieldsAreFolded (simplifyFields fs)
  | [] => trivial
  | (_, e) :: rest => ⟨isFolded_simplify e, fieldsAreFolded_simplifyFields rest⟩

end

mutual

/-- A folded expression has nothing to simplify. -/
theorem IsFolded.simplify_eq : (e : Expr) → e.IsFolded → e.simplify = e
  | .param _, _ => rfl
  | .constant _, _ => rfl
  | .member target name, h => by
      rw [simplify, IsFolded.simplify_eq target h.2]
      exact memberOf_of_not_written h.1
  | .unary op operand, h => congrArg (unary op) (IsFolded.simplify_eq operand h)
  | .binary op left right, h =>
      congrArg₂ (binary op) (IsFolded.simplify_eq left h.1) (IsFolded.simplify_eq right h.2)
  | .call f arguments, h => congrArg (call f) (AreFolded.simplifyList_eq arguments h)
  | .aggregate target a, h => congrArg (aggregate · a) (IsFolded.simplify_eq target h)
  | .aggregateOf target a x body, h =>
      congrArg₂ (aggregateOf · a x ·) (IsFolded.simplify_eq target h.1)
        (IsFolded.simplify_eq body h.2)
  | .row fields, h => congrArg row (FieldsAreFolded.simplifyFields_eq fields h)

theorem AreFolded.simplifyList_eq : (es : List Expr) → AreFolded es → simplifyList es = es
  | [], _ => rfl
  | e :: rest, h =>
      congrArg₂ List.cons (IsFolded.simplify_eq e h.1) (AreFolded.simplifyList_eq rest h.2)

theorem FieldsAreFolded.simplifyFields_eq : (fs : List (String × Expr)) → FieldsAreFolded fs →
    simplifyFields fs = fs
  | [], _ => rfl
  | (name, e) :: rest, h =>
      congrArg₂ List.cons (congrArg (Prod.mk name) (IsFolded.simplify_eq e h.1))
        (FieldsAreFolded.simplifyFields_eq rest h.2)

end

/-- **The folded expressions are the ones that simplification leaves as they are.** -/
theorem isFolded_iff {e : Expr} : e.IsFolded ↔ e.simplify = e := by
  refine ⟨IsFolded.simplify_eq e, fun h => ?_⟩
  rw [← h]
  exact isFolded_simplify e

mutual

/-- **Simplification brings in no variable**, and no use of one. -/
theorem freeNames_simplify : (e : Expr) → e.simplify.freeNames <+ e.freeNames
  | .param _ => List.Sublist.refl _
  | .constant _ => List.Sublist.refl _
  | .member target name => (freeNames_memberOf target.simplify name).trans (freeNames_simplify target)
  | .unary _ operand => freeNames_simplify operand
  | .binary _ left right => (freeNames_simplify left).append (freeNames_simplify right)
  | .call _ arguments => freeNamesOfList_simplifyList arguments
  | .aggregate target _ => freeNames_simplify target
  | .aggregateOf target _ _ body => (freeNames_simplify target).append ((freeNames_simplify body).filter _)
  | .row fields => freeNamesOfFields_simplifyFields fields

theorem freeNamesOfList_simplifyList : (es : List Expr) →
    freeNamesOfList (simplifyList es) <+ freeNamesOfList es
  | [] => List.Sublist.refl _
  | e :: rest => (freeNames_simplify e).append (freeNamesOfList_simplifyList rest)

theorem freeNamesOfFields_simplifyFields : (fs : List (String × Expr)) →
    freeNamesOfFields (simplifyFields fs) <+ freeNamesOfFields fs
  | [] => List.Sublist.refl _
  | (_, e) :: rest => (freeNames_simplify e).append (freeNamesOfFields_simplifyFields rest)

end

/-- **Simplification keeps the value and settles the shape.** Where no two fields of a row have the same
name, each value of the expression is its value afterwards, whatever the variables stand for. And
whatever the fields: no member of a row with a field of that name is left, a second pass changes
nothing, and every variable that is free afterwards was free before. -/
theorem simplify_settles (e : Expr) :
    (e.HasDistinctFields → ∀ (g : TypeGraph) (h : Heap) (env : Env) (v : Value),
      e.eval g h env = .ok v → e.simplify.eval g h env = .ok v) ∧
    e.simplify.IsFolded ∧
    e.simplify.simplify = e.simplify ∧
    ∀ x, e.simplify.hasFree x = true → e.hasFree x = true := by
  have hfree : ∀ x, e.simplify.hasFree x = true → e.hasFree x = true := by
    intro x hx
    rw [hasFree, List.contains_iff_mem] at hx ⊢
    exact (freeNames_simplify e).subset hx
  exact ⟨fun hd g h env => eval_simplify e hd, isFolded_simplify e, simplify_simplify e, hfree⟩

/-- The outer member gives way to a field that is a row, and the inner one then to a field of that row,
inside the lambda of an aggregate too. -/
theorem simplify_settles_nested :
    let inner : Expr := .row [("Low", .member (.param "c") "Age"), ("Top", .param "limit")]
    let body : Expr := .binary .lt (.member (.member (.row [("Of", inner)]) "of") "low") (.param "limit")
    let e : Expr := .aggregateOf (.param "items") .any "c" body
    let graph : TypeGraph := ⟨.empty, .empty⟩
    let env : Env := [("items", .list [.map [("Age", .int 3)]]), ("limit", .int 5)]
    e.simplify = .aggregateOf (.param "items") .any "c"
        (.binary .lt (.member (.param "c") "Age") (.param "limit")) ∧
      e.HasDistinctFields ∧
      e.simplify.eval graph .empty env = .ok (.bool true) := by
  intro inner body e graph env
  have hdistinct : e.HasDistinctFields := by
    refine ⟨trivial, ⟨⟨?_, ⟨?_, trivial, trivial, trivial⟩, trivial⟩, trivial⟩⟩
    · exact List.pairwise_singleton _ _
    · exact List.pairwise_pair.mpr rfl
  exact ⟨rfl, hdistinct, (simplify_settles e).1 hdistinct graph .empty env _ rfl⟩

end Expr

end ResourceQuery
