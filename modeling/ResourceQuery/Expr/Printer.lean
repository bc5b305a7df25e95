import ResourceQuery.Error
import ResourceQuery.Expr.Basic

/-! # Writing expressions

The text of an expression about a row. Members of the row are written bare and the row itself as
`this`; a member that is spelled like a reserved word or like a variable at its place is written after
`this`. The variables of aggregates are called `x`, `y`, `z`, `w`, `v`, `u`, `p6`, `p7`, … by depth.

Parentheses stand around an operand of an operator that binds more loosely than the operator, or as
loosely on its right; around the operand of `not` that is an infix expression; around that of a minus
sign that is one or a constant; and around the target of a member or an aggregate that has an operator
outermost. An expression that the grammar has no text for is an error.
-/

namespace ResourceQuery

/-- The variables around a place, as the tree and as the text calls them, innermost first. -/
abbrev ShownNames := List (String × String)

namespace ShownNames

/-- The name of a variable with `depth` variables around it. -/
def atDepth (depth : Nat) : String :=
  (["x", "y", "z", "w", "v", "u"][depth]?).getD ("p" ++ Decimal.naturalText depth)

/-- Whether a member of the row called `name` would be read as something else. -/
def hide (shown : ShownNames) (name : String) : Bool :=
  isReserved name || shown.any fun (_, s) => Text.sameIgnoringCase s name

end ShownNames

/-- A text in quotes; a quote in it is written twice. -/
def Literal.quoted (s : String) : String :=
  String.ofList ('\'' :: s.toList.flatMap (fun c => if c = '\'' then ['\'', '\''] else [c]) ++ ['\''])

/-- The text of a constant. A float has a decimal point; one that is not finite has no text of its
own. -/
def Literal.text : Literal → String
  | .null => "null"
  | .bool b => if b then "true" else "false"
  | .int n => Decimal.intText n.toInt
  | .float x =>
    if x.isFinite then
      let text := Decimal.floatText x
      if text.toList.contains '.' then text else text ++ ".0"
    else "null"
  | .string s => quoted s
  | .dateTime t => "datetime" ++ quoted t.format

/-- The text of a prefix operator. -/
def UnaryOp.text : UnaryOp → String
  | .not => "not "
  | .negate => "-"

namespace Expr

/-- `text`, in parentheses if `wrap`. -/
def wrapped (wrap : Bool) (text : String) : String :=
  if wrap then "(" ++ text ++ ")" else text

/-- The precedence of the outermost operator, if it is an infix one. -/
def precedence? : Expr → Option Nat
  | .binary op _ _ => some op.precedence
  | _ => none

/-- Whether the operand of a prefix operator is written in parentheses. -/
def wrapsOperand : UnaryOp → Expr → Bool
  | _, .binary .. => true
  | .negate, .constant _ => true
  | _, _ => false

/-- Whether the target of a member or an aggregate is written in parentheses. -/
def wrapsTarget : Expr → Bool
  | .binary .. => true
  | .unary .. => true
  | _ => false

/-- Whether an expression is the row, given the variables around it. -/
def isRow (root : String) (shown : ShownNames) : Expr → Bool
  | .param x => x == root && (shown.lookup x).isNone
  | _ => false

/-- The text of a variable. -/
def variableText (root : String) (shown : ShownNames) (x : String) : Except Error String :=
  match shown.lookup x with
  | some name => .ok name
  | none =>
    if x = root then .ok "this" else .error (.notSupported (.unboundInText x))

mutual

/-- The text of an expression about the row `root`. -/
def text (root : String) (shown : ShownNames) : Expr → Except Error String
  | .param x => variableText root shown x
  | .constant l => .ok l.text
  | .member target name =>
    if Text.isIdentifier name then
      if isRow root shown target then
        .ok ((if shown.hide name then "this." else "") ++ name)
      else do
        let lead ← text root shown target
        .ok (wrapped (wrapsTarget target) lead ++ "." ++ name)
    else .error (.notSupported (.memberName name))
  | .unary op operand => do
    let inner ← text root shown operand
    .ok (op.text ++ wrapped (wrapsOperand op operand) inner)
  | .binary op left right => do
    let l ← text root shown left
    let r ← text root shown right
    .ok (wrapped (left.precedence?.any (· < op.precedence)) l ++ " " ++ op.keyword ++ " " ++
      wrapped (right.precedence?.any (· ≤ op.precedence)) r)
  | .call f arguments =>
    if f.takes arguments.length then do
      let texts ← textList root shown arguments
      .ok (f.name ++ "(" ++ Text.join "," texts ++ ")")
    else .error (.notSupported (.callArity f.name f.arity.1 f.arity.2 arguments.length))
  | .aggregate target a => do
    let lead ← text root shown target
    .ok (wrapped (wrapsTarget target) lead ++ "." ++ a.name ++ "()")
  | .aggregateOf target a x body => do
    let lead ← text root shown target
    let name := ShownNames.atDepth shown.length
    let inner ← text root ((x, name) :: shown) body
    .ok (wrapped (wrapsTarget target) lead ++ "." ++ a.name ++ "(" ++ name ++ ":" ++ inner ++ ")")
  | .row _ => .error (.notSupported .nestedProjection)

/-- The texts of a list of expressions. -/
def textList (root : String) (shown : ShownNames) : List Expr → Except Error (List String)
  | [] => .ok []
  | e :: rest => do
    let first ← text root shown e
    let others ← textList root shown rest
    .ok (first :: others)

end

/-- The text of a field of a selected row. -/
def fieldText (root : String) (field : String) (value : Expr) : Except Error String :=
  if Text.isIdentifier field then do
    let text ← value.text root []
    .ok (text ++ " as " ++ field)
  else .error (.notSupported (.aliasName field))

end Expr

namespace Lambda

/-- The text of the body. -/
def text (l : Lambda) : Except Error String :=
  l.body.text l.parameter []

/-- The text of the body as a selection: a row is written field by field. -/
def selectionText (l : Lambda) : Except Error String :=
  match l.body with
  | .row [] => .error (.notSupported .emptyProjection)
  | .row fields => do
    let texts ← fields.mapM fun (field, value) => Expr.fieldText l.parameter field value
    .ok (Text.join ", " texts)
  | _ => l.text

end Lambda

end ResourceQuery
