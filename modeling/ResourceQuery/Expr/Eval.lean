import ResourceQuery.Expr.Lambda
import ResourceQuery.Type.Graph
import ResourceQuery.Value.Aggregate
import ResourceQuery.Value.Equality

/-! # Evaluation

What an expression is for given values of its variables, over a type graph and a heap.

Null is carried along: a member of null is null, arithmetic with null is null, and a comparison with
null is false, except that null equals null. `and` and `or` look at their right side only if it
matters, and count everything but `true` as false. Whole numbers have 64 bits, and leaving them is an
error. Positions in texts count characters.
-/

namespace ResourceQuery

/-- The value of a constant. -/
def Literal.value : Literal → Value
  | .null => .null
  | .bool b => .bool b
  | .int n => .int n
  | .float x => .float x
  | .string s => .string s
  | .dateTime t => .dateTime t

namespace Value

/-- A failure of evaluation. -/
def invalid {α : Type} (fault : QueryFault) : Except Error α :=
  .error (.invalidQuery fault)

/-! ## Operators -/

/-- The word of a prefix operator in messages. -/
def operatorTitle : UnaryOp → String
  | .not => "Not"
  | .negate => "Negate"

/-- A prefix operator. -/
def applyUnary (op : UnaryOp) (v : Value) : Except Error Value :=
  match op, v with
  | _, .null => .ok .null
  | .not, .bool b => .ok (.bool !b)
  | .negate, .int n =>
    match Word.int64? (-n.toInt) with
    | some m => .ok (.int m)
    | none => invalid (.overflow "negation")
  | .negate, .float x => .ok (.float (-x))
  | op, other => invalid (.unaryOperand (operatorTitle op) other.kindName)

/-- A comparison by order; `accept` says which orders make it true. -/
def ordered (accept : Ordering → Bool) (l r : Value) : Except Error Value :=
  if l.isNull || r.isNull then .ok (.bool false)
  else
    match l.compare r with
    | some order => .ok (.bool (accept order))
    | none => invalid (.incomparable l.kindName r.kindName)

/-- A whole number that an operator yields, if it fits. -/
def fitted (op : BinaryOp) (n : Int) : Except Error Value :=
  match Word.int64? n with
  | some m => .ok (.int m)
  | none => invalid (.overflow op.keyword)

/-- Arithmetic on whole numbers; quotients are rounded toward zero. A remainder fails where the
quotient does not fit. -/
def wholeArithmetic (op : BinaryOp) (a b : Int) : Except Error Value :=
  match op with
  | .add => fitted op (a + b)
  | .sub => fitted op (a - b)
  | .mul => fitted op (a * b)
  | .div => if b = 0 then invalid .divisionByZero else fitted op (a.tdiv b)
  | _ =>
    if b = 0 then invalid .divisionByZero
    else
      match Word.int64? (a.tdiv b) with
      | some _ => fitted op (a.tmod b)
      | none => invalid (.overflow op.keyword)

/-- Arithmetic on floats. -/
def floatArithmetic (op : BinaryOp) (x y : Float) : Float :=
  match op with
  | .add => x + y
  | .sub => x - y
  | .mul => x * y
  | .div => x / y
  | _ => Binary64.remainder x y

/-- Arithmetic: on whole numbers if both are, else on floats. -/
def arithmetic (op : BinaryOp) (l r : Value) : Except Error Value :=
  match l, r with
  | .null, _ => .ok .null
  | _, .null => .ok .null
  | .int a, .int b => wholeArithmetic op a.toInt b.toInt
  | l, r =>
    match l.asFloat?, r.asFloat? with
    | some x, some y => .ok (.float (floatArithmetic op x y))
    | _, _ => invalid (.binaryOperands op.keyword l.kindName r.kindName)

/-- An infix operator whose operands are both there. -/
def applyBinary (h : Heap) (op : BinaryOp) (l r : Value) : Except Error Value :=
  match op with
  | .eq => .ok (.bool (h.looselyEqual l r))
  | .ne => .ok (.bool !(h.looselyEqual l r))
  | .lt => ordered (· == .lt) l r
  | .le => ordered (· != .gt) l r
  | .gt => ordered (· == .gt) l r
  | .ge => ordered (· != .lt) l r
  | .and => .ok (.bool (l.isTrue && r.isTrue))
  | .or => .ok (.bool (l.isTrue || r.isTrue))
  | .add | .sub | .mul | .div | .mod => arithmetic op l r

/-! ## Functions on texts -/

/-- A text among the arguments of a function; `none` if it is null or missing. -/
def textArgument (f : TextFunction) (v : Option Value) : Except Error (Option (List Char)) :=
  match v with
  | none => .ok none
  | some .null => .ok none
  | some (.string s) => .ok (some s.toList)
  | some (.enum s) => .ok (some s.toList)
  | some other => invalid (.stringArgument f.name other.kindName)

/-- A position among the arguments of a function; `none` if it is null or missing. -/
def positionArgument (f : TextFunction) (v : Option Value) : Except Error (Option Nat) :=
  match v with
  | none => .ok none
  | some .null => .ok none
  | some (.int n) =>
    if n.toInt < 0 then invalid (.negativeIndex f.name n.toInt) else .ok (some n.toInt.toNat)
  | some other => invalid (.integerArgument f.name other.kindName)

/-- A count of characters as a value. -/
def ofCount (n : Nat) : Value :=
  .int (Int64.ofNat n)

/-- The position of `needle` in `subject`; -1 if it does not occur. -/
def positionOf (needle subject : List Char) : Value :=
  match Text.indexOf? needle subject with
  | some i => ofCount i
  | none => .int (-1)

/-- A function that looks for a text in a text. -/
def search (f : TextFunction) (subject needle : List Char) : Value :=
  match f with
  | .startsWith => .bool (needle.isPrefixOf subject)
  | .endsWith => .bool (needle.isSuffixOf subject)
  | .contains => .bool (Text.indexOf? needle subject).isSome
  | _ => positionOf needle subject

/-- The part of a text from a position on, up to a number of characters. -/
def slice (start : Nat) (length : Option Nat) (subject : List Char) : List Char :=
  let rest := subject.drop start
  match length with
  | some n => rest.take n
  | none => rest

/-- A function of a text and further arguments. -/
def applyToText (f : TextFunction) (subject : List Char) (arguments : List Value) :
    Except Error Value :=
  match f with
  | .toUpper => .ok (.string (CaseMap.upper (String.ofList subject)))
  | .toLower => .ok (.string (CaseMap.lower (String.ofList subject)))
  | .trim => .ok (.string (Text.trim (String.ofList subject)))
  | .length => .ok (ofCount subject.length)
  | .substring => do
    let start ← positionArgument f arguments[0]?
    let length ← positionArgument f arguments[1]?
    .ok (.string (String.ofList (slice (start.getD 0) length subject)))
  | .startsWith | .endsWith | .contains | .indexOf => do
    match ← textArgument f arguments[0]? with
    | some needle => .ok (search f subject needle)
    | none => .ok .null

/-- A function on texts; of null it is null. -/
def call (f : TextFunction) (arguments : List Value) : Except Error Value := do
  match ← textArgument f arguments.head? with
  | some subject => applyToText f subject arguments.tail
  | none => .ok .null

/-! ## Members -/

/-- The member `name` of a value; at most `links` resolved references are followed. -/
def memberVia (g : TypeGraph) (h : Heap) (name : String) : (links : Nat) → Value →
    Except Error Value
  | _, .null => .ok .null
  | _, .object id => do
    let d ← g.get (h.typeOf id)
    match d.property? name with
    | some p => .ok (p.read h id)
    | none => .ok (h.field id name)
  | _, .map entries =>
    match entries.find? fun (key, _) => Text.sameIgnoringCase key name with
    | some (_, v) => .ok v
    | none => .ok .null
  | _, .group key items =>
    if Text.sameIgnoringCase name "key" then .ok key
    else invalid (.memberOfScalar name (Value.group key items).kindName)
  | 0, .reference r => invalid (.unresolvedMember name r.uri)
  | links + 1, .reference r =>
    match h.state r with
    | .resolved v => memberVia g h name links v
    | _ => invalid (.unresolvedMember name r.uri)
  | _, other => invalid (.memberOfScalar name other.kindName)

/-- The member `name` of a value. -/
def member (g : TypeGraph) (h : Heap) (v : Value) (name : String) : Except Error Value :=
  memberVia g h name (h.cells.size + 1) v

/-! ## Aggregates -/

/-- The elements of a value that an aggregate is about; null has none. -/
def elements (a : Aggregate) : Value → Except Error (List Value)
  | .list items => .ok items
  | .group _ items => .ok items
  | .null => .ok []
  | other => invalid (.notEnumerable a.name other.kindName)

/-- Whether `f` is true of one of the elements; those behind the first such one are not looked at. -/
def anyTrue (f : Value → Except Error Value) : List Value → Except Error Bool
  | [] => .ok false
  | v :: rest => do
    if (← f v).isTrue then .ok true else anyTrue f rest

/-- Whether `f` is true of all elements; those behind the first other one are not looked at. -/
def allTrue (f : Value → Except Error Value) : List Value → Except Error Bool
  | [] => .ok true
  | v :: rest => do
    if (← f v).isTrue then allTrue f rest else .ok false

/-- Of how many elements `f` is true. -/
def countTrue (f : Value → Except Error Value) : List Value → Except Error Nat
  | [] => .ok 0
  | v :: rest => do
    let here := if (← f v).isTrue then 1 else 0
    let more ← countTrue f rest
    .ok (here + more)

/-- `f` of all elements, in order. -/
def mapAll (f : Value → Except Error Value) : List Value → Except Error (List Value)
  | [] => .ok []
  | v :: rest => do
    let first ← f v
    let others ← mapAll f rest
    .ok (first :: others)

/-- An aggregate of what `f` is for the elements. -/
def aggregateOf (f : Value → Except Error Value) (items : List Value) :
    Aggregate → Except Error Value
  | .any => (anyTrue f items).map .bool
  | .all => (allTrue f items).map .bool
  | .count => (countTrue f items).map ofCount
  | .sum => do sum (← mapAll f items)
  | .min => do extreme .lt (← mapAll f items)
  | .max => do extreme .gt (← mapAll f items)

/-- An aggregate of the elements themselves: whether there are any, and how many, does not depend on
what they are. -/
def aggregate (items : List Value) : Aggregate → Except Error Value
  | .any => .ok (.bool !items.isEmpty)
  | .count => .ok (ofCount items.length)
  | a => aggregateOf .ok items a

end Value

/-! ## Expressions -/

/-- The values of variables, innermost first. -/
abbrev Env := List (String × Value)

namespace Expr

mutual

/-- The value of an expression. -/
def eval (g : TypeGraph) (h : Heap) (env : Env) : Expr → Except Error Value
  | .param x =>
    match env.lookup x with
    | some v => .ok v
    | none => Value.invalid (.unboundParameter x)
  | .constant l => .ok l.value
  | .member target name => do (← eval g h env target).member g h name
  | .unary op operand => do Value.applyUnary op (← eval g h env operand)
  | .binary .and left right => do
    if (← eval g h env left).isTrue then return .bool (← eval g h env right).isTrue
    else return .bool false
  | .binary .or left right => do
    if (← eval g h env left).isTrue then return .bool true
    else return .bool (← eval g h env right).isTrue
  | .binary op left right => do
    let l ← eval g h env left
    let r ← eval g h env right
    Value.applyBinary h op l r
  | .call f arguments => do Value.call f (← evalList g h env arguments)
  | .aggregate target a => do
    let items ← (← eval g h env target).elements a
    Value.aggregate items a
  | .aggregateOf target a x body => do
    let items ← (← eval g h env target).elements a
    Value.aggregateOf (fun v => eval g h ((x, v) :: env) body) items a
  | .row fields => do return .map (← evalFields g h env [] fields)

/-- The values of a list of expressions. -/
def evalList (g : TypeGraph) (h : Heap) (env : Env) : List Expr → Except Error (List Value)
  | [] => .ok []
  | e :: rest => do
    let v ← eval g h env e
    let others ← evalList g h env rest
    .ok (v :: others)

/-- The fields of a row, put into those in `done`. -/
def evalFields (g : TypeGraph) (h : Heap) (env : Env) (done : Entries Value) :
    List (String × Expr) → Except Error (Entries Value)
  | [] => .ok done
  | (name, e) :: rest => do
    let v ← eval g h env e
    evalFields g h env (Entries.insert name v done) rest

end

end Expr

namespace Lambda

/-- The value of the lambda for an argument. -/
def eval (g : TypeGraph) (h : Heap) (l : Lambda) (argument : Value) : Except Error Value :=
  l.body.eval g h [(l.parameter, argument)]

/-- Whether the lambda is true of an argument. -/
def test (g : TypeGraph) (h : Heap) (l : Lambda) (argument : Value) : Except Error Bool := do
  return (← l.eval g h argument).isTrue

end Lambda

end ResourceQuery
