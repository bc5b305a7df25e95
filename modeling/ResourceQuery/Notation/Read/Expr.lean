import ResourceQuery.Expr.Parser
import ResourceQuery.Notation.Read.Value

/-! # Reading expressions and queries

A lambda is written as text, as a parameter and a body, or with a binder: a label that stands for the
argument in the body, whatever the parameter will be called. A query is a list of operators.
-/

namespace ResourceQuery

namespace Notation

namespace Read

/-- How deep an expression in a text may be nested. -/
def nestingLimit : Nat := 512

/-- The name that stands for the argument of a binder below `n` others. It starts with a character that
no text has. -/
def placeholder (n : Nat) : String :=
  "\x00" ++ toString n

/-- The binders around a place: their labels with what stands for their arguments, innermost first. -/
abbrev Binders := List (String × String)

/-- A reader for what may refer to the binders around it. -/
abbrev Under (α : Type) := Binders → Json → Read α

/-- A word among those of a type. -/
def word {α : Type} (name : α → String) (words : List α) (json : Json) : Read α := do
  let wanted ← text json
  need (words.find? fun a => name a == wanted)

/-- A lambda whose body is read with `below`. -/
def lambdaWith (below : Under Expr) (around : Binders) (json : Json) : Read Lambda := do
  match json with
  | .string s => accepted (Lambda.parse s nestingLimit)
  | _ =>
    match member? "bind" json with
    | some label =>
      let argument := placeholder around.length
      let body ← below ((← text label, argument) :: around) (← member "body" json)
      return .close argument body
    | none =>
      let parameter ← text (← member "param" json)
      return ⟨parameter, ← below around (← member "body" json)⟩

/-- A constant. -/
def literal (tag : String) (parts : List Json) : Read Literal := do
  match tag, parts with
  | "null", [] => return .null
  | "bool", [a] => return .bool (← bool a)
  | "int", [.string digits] => return .int (← need (Decimal.int64? digits))
  | "int", [a] => return .int (Int64.ofInt (← int a))
  | "float", [a] => return .float (← float a)
  | "str", [a] => return .string (← text a)
  | "dt", [a] => return .dateTime (← time a)
  | _, _ => malformed

/-- A field of a row. -/
def rowField (below : Json → Read Expr) (json : Json) : Read (String × Expr) := do
  match ← items json with
  | [name, e] => return (← text name, ← below e)
  | _ => malformed

/-- An expression whose parts are read with `below`. -/
def exprWith (below : Under Expr) (around : Binders) (json : Json) : Read Expr := do
  match ← tagged json with
  | ("param", [a]) => return .param (← text a)
  | ("var", [a]) => return .param (← need (around.lookup (← text a)))
  | ("not", [a]) => return .unary .not (← below around a)
  | ("neg", [a]) => return .unary .negate (← below around a)
  | ("member", [a, b]) => return .member (← below around a) (← text b)
  | ("bin", [a, b, c]) =>
    let op ← need (BinaryOp.ofKeyword? (← text a))
    return .binary op (← below around b) (← below around c)
  | ("call", [a, b]) =>
    let f ← word TextFunction.name TextFunction.all a
    return .call f (← list (below around) b)
  | ("method", [a, b, .null]) =>
    return .aggregate (← below around a) (← word Aggregate.name Aggregate.every b)
  | ("method", [a, b, c]) =>
    let target ← below around a
    let aggregate ← word Aggregate.name Aggregate.every b
    let l ← lambdaWith below around c
    return .aggregateOf target aggregate l.parameter l.body
  | ("new", [a]) => return .row (← list (rowField (below around)) a)
  | (tag, parts) => return .constant (← literal tag parts)

/-- An expression at most `depth` deep. -/
def exprWithin : (depth : Nat) → Under Expr
  | 0 => fun _ _ => malformed
  | depth + 1 => exprWith (exprWithin depth)

/-- An expression. -/
def expr (json : Json) : Read Expr :=
  exprWithin (json.depth + 1) [] json

/-- A lambda. -/
def lambda (json : Json) : Read Lambda :=
  lambdaWith (exprWithin (json.depth + 1)) [] json

end Read

end Notation

end ResourceQuery
