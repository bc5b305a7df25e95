import ResourceQuery.Expr.Lambda
import ResourceQuery.Type.Graph

/-! # Typing expressions

A lambda is checked once against the type of its argument before it runs over many rows. The check
follows types through members and aggregates as far as they are known; where they are, a member must
exist and be readable, and is put into the spelling of its declaration. What is untyped by nature (a
computed value, a dictionary, a slot for anything) is looked at only when the lambda runs.
-/

namespace ResourceQuery

/-- What is known of a value before it is there. -/
inductive StaticType where
  | mapped (type : TypeId)
  /-- Rows of one type that share a key. -/
  | group (key : StaticType) (element : TypeId)
  | unknown
  deriving DecidableEq

namespace StaticType

/-- An expression that does not fit the types. -/
def mismatch {α : Type} (cause : Miscompiled) : Except Error α :=
  .error (.filterCompilation cause)

/-- The member `name` of a value of type `t`: its spelling and its type. -/
def member (g : TypeGraph) (t : StaticType) (name : String) : Except Error (String × StaticType) :=
  match t with
  | .unknown => .ok (name, .unknown)
  | .group key _ =>
    if Text.sameIgnoringCase name "key" then .ok ("Key", key) else mismatch (.groupMember name)
  | .mapped id => do
    let d ← g.get id
    match d.shape with
    | .value .any => .ok (name, .unknown)
    | .dictionary .. => .ok (name, .unknown)
    | _ =>
      match d.property? name with
      | none => mismatch (.noMember d.name name)
      | some p =>
        if p.isReadable then .ok (p.name, .mapped p.type) else mismatch (.unreadable d.name p.name)

/-- The type of the elements that an aggregate of a value of type `t` is about. -/
def element (g : TypeGraph) (t : StaticType) (a : Aggregate) : Except Error StaticType :=
  match t with
  | .unknown => .ok .unknown
  | .group _ element => .ok (.mapped element)
  | .mapped id => do
    let d ← g.get id
    match d.shape with
    | .value .any => .ok .unknown
    | .collection element => .ok (.mapped element)
    | _ => mismatch (.notCollection a.name d.name)

/-- The type of an aggregate of the elements themselves: an extreme is one of them. -/
def ofAggregate (element : StaticType) : Aggregate → StaticType
  | .min => element
  | .max => element
  | _ => .unknown

end StaticType

/-- The types of the variables around a place, innermost first. -/
abbrev TypeScope := List (String × StaticType)

namespace Expr

mutual

/-- The expression with its members in the spelling of their declarations, and its type. -/
def compile (g : TypeGraph) (scope : TypeScope) : Expr → Except Error (Expr × StaticType)
  | .param x =>
    match scope.lookup x with
    | some t => .ok (.param x, t)
    | none => StaticType.mismatch (.unboundParameter x)
  | .constant l => .ok (.constant l, .unknown)
  | .member target name => do
    let (target, t) ← compile g scope target
    let (name, t) ← t.member g name
    .ok (.member target name, t)
  | .unary op operand => do
    let (operand, _) ← compile g scope operand
    .ok (.unary op operand, .unknown)
  | .binary op left right => do
    let (left, _) ← compile g scope left
    let (right, _) ← compile g scope right
    .ok (.binary op left right, .unknown)
  | .call f arguments => do
    let arguments ← compileList g scope arguments
    .ok (.call f arguments, .unknown)
  | .aggregate target a => do
    let (target, t) ← compile g scope target
    let element ← t.element g a
    .ok (.aggregate target a, .ofAggregate element a)
  | .aggregateOf target a x body => do
    let (target, t) ← compile g scope target
    let element ← t.element g a
    let (body, _) ← compile g ((x, element) :: scope) body
    .ok (.aggregateOf target a x body, .unknown)
  | .row fields => do
    let fields ← compileFields g scope fields
    .ok (.row fields, .unknown)

/-- Compiles a list of expressions. -/
def compileList (g : TypeGraph) (scope : TypeScope) : List Expr → Except Error (List Expr)
  | [] => .ok []
  | e :: rest => do
    let (e, _) ← compile g scope e
    let rest ← compileList g scope rest
    .ok (e :: rest)

/-- Compiles the fields of a row. -/
def compileFields (g : TypeGraph) (scope : TypeScope) :
    List (String × Expr) → Except Error (List (String × Expr))
  | [] => .ok []
  | (name, e) :: rest => do
    let (e, _) ← compile g scope e
    let rest ← compileFields g scope rest
    .ok ((name, e) :: rest)

end

end Expr

/-- The lambda for arguments of type `input`, and the type of what it answers. -/
def Lambda.compile (g : TypeGraph) (l : Lambda) (input : StaticType) :
    Except Error (Lambda × StaticType) := do
  let (body, t) ← l.body.compile g [(l.parameter, input)]
  .ok (⟨l.parameter, body⟩, t)

end ResourceQuery
