import ResourceQuery.Expr.Basic

/-! # Variables

The names that an expression uses, the ones that are free in it, and substitution for a free one.

Substitution avoids capture: where the replacement mentions the variable of an aggregate, that variable
gets the first fresh name `_p0`, `_p1`, … Renaming goes along with the substitution as a list of pairs,
so that one pass over the expression does both.
-/

namespace ResourceQuery

/-! ## Fresh names -/

/-- The name `_pN`. -/
def numberedName (n : Nat) : String :=
  "_p" ++ Decimal.naturalText n

/-- The first name from `_pN` on that is not taken, among the next `count`. -/
def freshFrom (taken : List String) : (count : Nat) → (n : Nat) → String
  | 0, n => numberedName n
  | count + 1, n =>
    if numberedName n ∈ taken then freshFrom taken count (n + 1) else numberedName n

/-- The first of `_p0`, `_p1`, … that is not taken. Of one more name than are taken, one is free. -/
def freshName (taken : List String) : String :=
  freshFrom taken taken.length 0

namespace Expr

/-! ## Names -/

mutual

/-- Every name of a variable, where it is bound and where it is used. -/
def names : Expr → List String
  | .param x => [x]
  | .constant _ => []
  | .member target _ => names target
  | .unary _ operand => names operand
  | .binary _ left right => names left ++ names right
  | .call _ arguments => namesOfList arguments
  | .aggregate target _ => names target
  | .aggregateOf target _ x body => names target ++ x :: names body
  | .row fields => namesOfFields fields

/-- The names in a list of expressions. -/
def namesOfList : List Expr → List String
  | [] => []
  | e :: rest => names e ++ namesOfList rest

/-- The names in the fields of a row. -/
def namesOfFields : List (String × Expr) → List String
  | [] => []
  | (_, e) :: rest => names e ++ namesOfFields rest

end

mutual

/-- The names that are free, once for each use. -/
def freeNames : Expr → List String
  | .param x => [x]
  | .constant _ => []
  | .member target _ => freeNames target
  | .unary _ operand => freeNames operand
  | .binary _ left right => freeNames left ++ freeNames right
  | .call _ arguments => freeNamesOfList arguments
  | .aggregate target _ => freeNames target
  | .aggregateOf target _ x body => freeNames target ++ (freeNames body).filter (· ≠ x)
  | .row fields => freeNamesOfFields fields

/-- The names that are free in a list of expressions. -/
def freeNamesOfList : List Expr → List String
  | [] => []
  | e :: rest => freeNames e ++ freeNamesOfList rest

/-- The names that are free in the fields of a row. -/
def freeNamesOfFields : List (String × Expr) → List String
  | [] => []
  | (_, e) :: rest => freeNames e ++ freeNamesOfFields rest

end

/-- Whether `name` occurs, free or as the variable of an aggregate. -/
def usesName (e : Expr) (name : String) : Bool :=
  e.names.contains name

/-- Whether `name` occurs free. -/
def hasFree (e : Expr) (name : String) : Bool :=
  e.freeNames.contains name

/-! ## Renaming -/

/-- New names for free variables. -/
abbrev Renaming := List (String × String)

namespace Renaming

/-- The renaming that leaves `x` alone. -/
def without (ρ : Renaming) (x : String) : Renaming :=
  ρ.filter (·.1 ≠ x)

/-- The new name of `x`. -/
def apply (ρ : Renaming) (x : String) : String :=
  (ρ.lookup x).getD x

end Renaming

mutual

/-- The expression with its free variables renamed. No new name may be bound in the expression. -/
def rename (ρ : Renaming) : Expr → Expr
  | .param x => .param (ρ.apply x)
  | .constant l => .constant l
  | .member target name => .member (rename ρ target) name
  | .unary op operand => .unary op (rename ρ operand)
  | .binary op left right => .binary op (rename ρ left) (rename ρ right)
  | .call f arguments => .call f (renameList ρ arguments)
  | .aggregate target a => .aggregate (rename ρ target) a
  | .aggregateOf target a x body =>
    .aggregateOf (rename ρ target) a x (rename (ρ.without x) body)
  | .row fields => .row (renameFields ρ fields)

/-- Renaming in a list of expressions. -/
def renameList (ρ : Renaming) : List Expr → List Expr
  | [] => []
  | e :: rest => rename ρ e :: renameList ρ rest

/-- Renaming in the fields of a row. -/
def renameFields (ρ : Renaming) : List (String × Expr) → List (String × Expr)
  | [] => []
  | (name, e) :: rest => (name, rename ρ e) :: renameFields ρ rest

end

/-! ## Substitution -/

mutual

/-- The expression renamed by `ρ` and then with `replacement` for the free `x`. The names that `ρ`
gives are other than `x`. -/
def substituteUnder (ρ : Renaming) (x : String) (replacement : Expr) : Expr → Expr
  | .param y =>
    match ρ.lookup y with
    | some new => .param new
    | none => if y = x then replacement else .param y
  | .constant l => .constant l
  | .member target name => .member (substituteUnder ρ x replacement target) name
  | .unary op operand => .unary op (substituteUnder ρ x replacement operand)
  | .binary op left right =>
    .binary op (substituteUnder ρ x replacement left) (substituteUnder ρ x replacement right)
  | .call f arguments => .call f (substituteList ρ x replacement arguments)
  | .aggregate target a => .aggregate (substituteUnder ρ x replacement target) a
  | .aggregateOf target a y body =>
    let target := substituteUnder ρ x replacement target
    let inner := ρ.without y
    if y = x then .aggregateOf target a y (rename inner body)
    else if replacement.hasFree y then
      let fresh := freshName (x :: replacement.names ++ (rename inner body).names)
      .aggregateOf target a fresh (substituteUnder ((y, fresh) :: inner) x replacement body)
    else .aggregateOf target a y (substituteUnder inner x replacement body)
  | .row fields => .row (substituteFields ρ x replacement fields)

/-- Substitution in a list of expressions. -/
def substituteList (ρ : Renaming) (x : String) (replacement : Expr) : List Expr → List Expr
  | [] => []
  | e :: rest => substituteUnder ρ x replacement e :: substituteList ρ x replacement rest

/-- Substitution in the fields of a row. -/
def substituteFields (ρ : Renaming) (x : String) (replacement : Expr) :
    List (String × Expr) → List (String × Expr)
  | [] => []
  | (name, e) :: rest =>
    (name, substituteUnder ρ x replacement e) :: substituteFields ρ x replacement rest

end

/-- The expression with `replacement` for the free `x`; no variable of the replacement is captured. -/
def substitute (e : Expr) (x : String) (replacement : Expr) : Expr :=
  substituteUnder [] x replacement e

end Expr

end ResourceQuery
