import ResourceQuery.Expr.Scope

/-! # Lambdas

Application, composition and conjunction of expressions over one variable, and the two forms in which
lambdas come from elsewhere: as a member path, and as a body over a placeholder.

Application simplifies: a member of a row that is written out is the field of that name. This is what
lets a filter or key over a selected row be put in terms of the row before the selection.
-/

namespace ResourceQuery

namespace Expr

/-! ## Simplification -/

/-- The member `name` of `target`; of a row that is written out, the field of that name if there is
one. -/
def memberOf (target : Expr) (name : String) : Expr :=
  match target with
  | .row fields =>
    match fields.find? fun (n, _) => Text.sameIgnoringCase n name with
    | some (_, e) => e
    | none => .member (.row fields) name
  | target => .member target name

mutual

/-- The expression with the members of written out rows replaced by the fields. -/
def simplify : Expr → Expr
  | .param x => .param x
  | .constant l => .constant l
  | .member target name => memberOf (simplify target) name
  | .unary op operand => .unary op (simplify operand)
  | .binary op left right => .binary op (simplify left) (simplify right)
  | .call f arguments => .call f (simplifyList arguments)
  | .aggregate target a => .aggregate (simplify target) a
  | .aggregateOf target a x body => .aggregateOf (simplify target) a x (simplify body)
  | .row fields => .row (simplifyFields fields)

/-- Simplification in a list of expressions. -/
def simplifyList : List Expr → List Expr
  | [] => []
  | e :: rest => simplify e :: simplifyList rest

/-- Simplification in the fields of a row. -/
def simplifyFields : List (String × Expr) → List (String × Expr)
  | [] => []
  | (name, e) :: rest => (name, simplify e) :: simplifyFields rest

end

/-- The dotted path of a chain of members that starts at `x`, put before `below`. -/
def pathFrom (x : String) : (below : List String) → Expr → Option (List String)
  | below, .member target name => pathFrom x (name :: below) target
  | below, .param y => if y = x ∧ below ≠ [] then some below else none
  | _, _ => none

end Expr

namespace Lambda

/-! ## Combination -/

/-- What the lambda is for `argument`. -/
def apply (l : Lambda) (argument : Expr) : Expr :=
  (l.body.substitute l.parameter argument).simplify

/-- The lambda that applies `inner` first and then `outer`. -/
def compose (outer inner : Lambda) : Lambda :=
  ⟨inner.parameter, outer.apply inner.body⟩

/-- The lambda that is true where both are. -/
def andAlso (l m : Lambda) : Lambda :=
  ⟨l.parameter, .binary .and l.body (m.apply (.param l.parameter))⟩

/-- The lambda with a simplified body. -/
def simplified (l : Lambda) : Lambda :=
  ⟨l.parameter, l.body.simplify⟩

/-! ## Construction -/

/-- The lambda over `body`, where `placeholder` stands for the argument. Its variable is the first one
that the body does not use. -/
def close (placeholder : String) (body : Expr) : Lambda :=
  let parameter := freshName body.names
  ⟨parameter, body.substitute placeholder (.param parameter)⟩

/-- The lambda that answers its argument. -/
def identity : Lambda :=
  ⟨numberedName 0, .param (numberedName 0)⟩

/-- The lambda that follows a dotted path of members. -/
def ofMemberPath (path : String) : Lambda :=
  ⟨numberedName 0, (Text.splitOn '.' path).foldl Expr.member (.param (numberedName 0))⟩

/-- The dotted path that the lambda follows, if it is a chain of members of its argument. -/
def memberPath? (l : Lambda) : Option String :=
  (l.body.pathFrom l.parameter []).map (Text.join ".")

end Lambda

end ResourceQuery
