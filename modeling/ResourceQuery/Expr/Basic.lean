import ResourceQuery.Number.Decimal
import ResourceQuery.Text.Basic
import ResourceQuery.Time.Rfc3339

/-! # Expressions

What a query computes from a row: members, comparisons, arithmetic, functions on texts, and aggregates
over collections. An aggregate may bind a variable to each element in turn; a `Lambda` is an expression
over a variable of its own.

The words of the text form (`eq`, `startswith`, `any`, …) are here with the operators they stand for;
they are read in any case of ASCII letters.
-/

namespace ResourceQuery

/-! ## Constants -/

/-- A constant. -/
inductive Literal where
  | null
  | bool (b : Bool)
  | int (n : Int64)
  | float (x : Float)
  | string (s : String)
  | dateTime (t : Timestamp)

/-- Equality of constants: floats as numbers, timestamps as instants. -/
def Literal.equal : Literal → Literal → Bool
  | .null, .null => true
  | .bool a, .bool b => a == b
  | .int a, .int b => a == b
  | .float x, .float y => x == y
  | .string a, .string b => a == b
  | .dateTime s, .dateTime t => s.sameInstant t
  | _, _ => false

/-! ## Operators -/

/-- A prefix operator. -/
inductive UnaryOp where
  | not
  | negate
  deriving DecidableEq

/-- An infix operator. -/
inductive BinaryOp where
  | eq
  | ne
  | lt
  | le
  | gt
  | ge
  | and
  | or
  | add
  | sub
  | mul
  | div
  | mod
  deriving DecidableEq

namespace BinaryOp

/-- The word of the operator. -/
def keyword : BinaryOp → String
  | .eq => "eq"
  | .ne => "ne"
  | .lt => "lt"
  | .le => "le"
  | .gt => "gt"
  | .ge => "ge"
  | .and => "and"
  | .or => "or"
  | .add => "add"
  | .sub => "sub"
  | .mul => "mul"
  | .div => "div"
  | .mod => "mod"

/-- All infix operators. -/
def all : List BinaryOp :=
  [.eq, .ne, .lt, .le, .gt, .ge, .and, .or, .add, .sub, .mul, .div, .mod]

/-- The operator that a word stands for. -/
def ofKeyword? (word : String) : Option BinaryOp :=
  all.find? fun op => Text.sameIgnoringCase op.keyword word

/-- How tightly the operator binds. -/
def precedence : BinaryOp → Nat
  | .or => 1
  | .and => 2
  | .eq | .ne | .lt | .le | .gt | .ge => 3
  | .add | .sub => 4
  | .mul | .div | .mod => 5

end BinaryOp

/-- A function on texts; the text it is about comes first. -/
inductive TextFunction where
  | startsWith
  | endsWith
  | contains
  | toUpper
  | toLower
  | length
  | substring
  | trim
  | indexOf
  deriving DecidableEq

namespace TextFunction

/-- The word of the function. -/
def name : TextFunction → String
  | .startsWith => "startswith"
  | .endsWith => "endswith"
  | .contains => "contains"
  | .toUpper => "toupper"
  | .toLower => "tolower"
  | .length => "length"
  | .substring => "substring"
  | .trim => "trim"
  | .indexOf => "indexof"

/-- All functions. -/
def all : List TextFunction :=
  [.startsWith, .endsWith, .contains, .toUpper, .toLower, .length, .substring, .trim, .indexOf]

/-- The function that a word stands for. -/
def ofName? (word : String) : Option TextFunction :=
  all.find? fun f => Text.sameIgnoringCase f.name word

/-- The least and the greatest number of arguments. -/
def arity : TextFunction → Nat × Nat
  | .toUpper | .toLower | .length | .trim => (1, 1)
  | .substring => (2, 3)
  | .startsWith | .endsWith | .contains | .indexOf => (2, 2)

/-- Whether the function takes `count` arguments. -/
def takes (f : TextFunction) (count : Nat) : Bool :=
  f.arity.1 ≤ count && count ≤ f.arity.2

end TextFunction

/-- What is computed from the elements of a collection or a group. -/
inductive Aggregate where
  | any
  | all
  | count
  | sum
  | min
  | max
  deriving DecidableEq

namespace Aggregate

/-- The word of the aggregate. -/
def name : Aggregate → String
  | .any => "any"
  | .all => "all"
  | .count => "count"
  | .sum => "sum"
  | .min => "min"
  | .max => "max"

/-- Every aggregate. -/
def every : List Aggregate := [.any, .all, .count, .sum, .min, .max]

/-- The aggregate that a word stands for. -/
def ofName? (word : String) : Option Aggregate :=
  every.find? fun a => Text.sameIgnoringCase a.name word

end Aggregate

/-- Words with a meaning of their own; a member of the row that is spelled like one is written after
`this`. -/
def reservedWords : List String :=
  ["this", "null", "true", "false", "datetime", "not", "as"] ++ BinaryOp.all.map BinaryOp.keyword

/-- Whether `word` is reserved. -/
def isReserved (word : String) : Bool :=
  reservedWords.any fun r => Text.sameIgnoringCase r word

/-! ## Expressions -/

/-- An expression. -/
inductive Expr where
  | param (name : String)
  | constant (literal : Literal)
  | member (target : Expr) (name : String)
  | unary (op : UnaryOp) (operand : Expr)
  | binary (op : BinaryOp) (left right : Expr)
  | call (function : TextFunction) (arguments : List Expr)
  /-- An aggregate of the elements themselves: `target.count()`. -/
  | aggregate (target : Expr) (aggregate : Aggregate)
  /-- An aggregate of what `body` is for each element: `target.count(parameter: body)`. -/
  | aggregateOf (target : Expr) (aggregate : Aggregate) (parameter : String) (body : Expr)
  /-- A row with named fields. -/
  | row (fields : List (String × Expr))

/-- An expression over one variable. -/
structure Lambda where
  parameter : String
  body : Expr

/-- Which way rows are sorted. -/
inductive SortDirection where
  | ascending
  | descending
  deriving DecidableEq

/-- What rows are sorted by. -/
structure SortKey where
  key : Lambda
  direction : SortDirection

end ResourceQuery
