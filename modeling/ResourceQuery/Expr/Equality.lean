import ResourceQuery.Expr.Basic

/-! # Equality of expressions

Expressions are equal up to the names of the variables that they bind. The comparison goes down both
at once and keeps the pairs of variables that are bound at the place, innermost first.
-/

namespace ResourceQuery

namespace Expr

/-- Variables bound at the same place of two expressions, innermost first. -/
abbrev Pairing := List (String × String)

/-- Whether `x` on the left and `y` on the right are the same variable: bound at the same place, or
free with the same name. -/
def Pairing.relates : Pairing → String → String → Bool
  | [], x, y => x == y
  | (a, b) :: rest, x, y =>
    if a = x ∨ b = y then decide (a = x ∧ b = y) else Pairing.relates rest x y

mutual

/-- Equality of expressions under bound variables. -/
def equalUnder (bound : Pairing) : Expr → Expr → Bool
  | .param x, .param y => bound.relates x y
  | .constant a, .constant b => a.equal b
  | .member s m, .member t n => m == n && equalUnder bound s t
  | .unary o a, .unary p b => o == p && equalUnder bound a b
  | .binary o a b, .binary p c d => o == p && equalUnder bound a c && equalUnder bound b d
  | .call f as, .call g bs => f == g && equalLists bound as bs
  | .aggregate s m, .aggregate t n => m == n && equalUnder bound s t
  | .aggregateOf s m x a, .aggregateOf t n y b =>
    m == n && equalUnder bound s t && equalUnder ((x, y) :: bound) a b
  | .row as, .row bs => equalFields bound as bs
  | _, _ => false

/-- Equality of lists of expressions. -/
def equalLists (bound : Pairing) : List Expr → List Expr → Bool
  | [], [] => true
  | a :: as, b :: bs => equalUnder bound a b && equalLists bound as bs
  | _, _ => false

/-- Equality of the fields of rows, in order. -/
def equalFields (bound : Pairing) : List (String × Expr) → List (String × Expr) → Bool
  | [], [] => true
  | (m, a) :: as, (n, b) :: bs => m == n && equalUnder bound a b && equalFields bound as bs
  | _, _ => false

end

/-- Equality of expressions up to bound variables. -/
def equal (a b : Expr) : Bool :=
  equalUnder [] a b

end Expr

/-- Equality of lambdas up to bound variables, their own included. -/
def Lambda.equal (l m : Lambda) : Bool :=
  Expr.equalUnder [(l.parameter, m.parameter)] l.body m.body

/-! ## Parts of queries -/

/-- Equality of optional lambdas up to bound variables. -/
def Lambda.sameOption : Option Lambda → Option Lambda → Bool
  | none, none => true
  | some l, some m => l.equal m
  | _, _ => false

/-- Equality of sort keys up to bound variables. -/
def SortKey.equal (a b : SortKey) : Bool :=
  a.key.equal b.key && a.direction == b.direction

/-- Equality of optional sort keys up to bound variables. -/
def SortKey.sameOption : Option SortKey → Option SortKey → Bool
  | none, none => true
  | some a, some b => a.equal b
  | _, _ => false

end ResourceQuery
