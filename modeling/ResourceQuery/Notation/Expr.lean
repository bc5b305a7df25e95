import ResourceQuery.Notation.Basic
import ResourceQuery.Query.Parameters
import ResourceQuery.Query.Uri

/-! # Expressions and queries in JSON

An expression is an array of a tag and its parts, a lambda an object of a parameter and a body; the
parts of a plan or of a query string are members of an object.
-/

namespace ResourceQuery

/-- The form of a constant. -/
def Literal.toJson : Literal → Json
  | .null => Notation.strings ["null"]
  | .bool b => .array [.string "bool", .bool b]
  | .int n => .array [.string "int", Notation.int n.toInt]
  | .float x => Notation.strings ["float", Decimal.floatText x]
  | .string s => Notation.strings ["str", s]
  | .dateTime t => Notation.strings ["dt", t.format]

/-- The form of a lambda, given that of its body. -/
def Notation.lambda (parameter : String) (body : Json) : Json :=
  Notation.members [("param", .string parameter), ("body", body)]

namespace Expr

mutual

/-- The form of an expression. -/
def toJson : Expr → Json
  | .param x => Notation.strings ["param", x]
  | .constant l => l.toJson
  | .member target name => .array [.string "member", toJson target, .string name]
  | .unary .not e => .array [.string "not", toJson e]
  | .unary .negate e => .array [.string "neg", toJson e]
  | .binary op l r => .array [.string "bin", .string op.keyword, toJson l, toJson r]
  | .call f arguments => .array [.string "call", .string f.name, .array (listToJson arguments)]
  | .aggregate target a => .array [.string "method", toJson target, .string a.name, .null]
  | .aggregateOf target a x body =>
    .array [.string "method", toJson target, .string a.name, Notation.lambda x (toJson body)]
  | .row fields => .array [.string "new", .array (fieldsToJson fields)]

/-- The forms of a list of expressions. -/
def listToJson : List Expr → List Json
  | [] => []
  | e :: rest => toJson e :: listToJson rest

/-- The forms of the fields of a row. -/
def fieldsToJson : List (String × Expr) → List Json
  | [] => []
  | (name, e) :: rest => .array [.string name, toJson e] :: fieldsToJson rest

end

end Expr

/-- The form of a lambda. -/
def Lambda.toJson (l : Lambda) : Json :=
  Notation.lambda l.parameter l.body.toJson

/-- The form of a sort key. -/
def SortKey.toJson (k : SortKey) : Json :=
  Notation.members [("key", k.key.toJson), ("desc", .bool (k.direction == .descending))]

/-- The form of what a query string asks for. -/
def Parameters.toJson (q : Parameters) : Json :=
  Notation.members [("oftype", Notation.orNull Json.string q.ofType),
    ("filter", Notation.orNull Lambda.toJson q.filter),
    ("orderby", Notation.orNull SortKey.toJson q.orderBy),
    ("groupby", Notation.orNull Lambda.toJson q.groupBy),
    ("select", Notation.orNull Lambda.toJson q.select),
    ("skip", Notation.orNull Notation.count q.skip), ("top", Notation.orNull Notation.count q.top),
    ("expand", Notation.strings q.expand), ("totalcount", .bool q.includeTotalCount),
    ("projection", .string q.projection.name)]

/-- The form of a plan; types are shown by name. -/
def Plan.toJson (typeName : TypeId → String) (p : Plan) : Json :=
  let type := fun t => Json.string (typeName t)
  Notation.members [("uri", .string p.path), ("type", type p.sourceType),
    ("oftype", Notation.orNull type p.ofType), ("element", type p.elementType),
    ("paged", .bool p.isPaged), ("filter", Notation.orNull Lambda.toJson p.filter),
    ("groupby", Notation.orNull Lambda.toJson p.groupBy),
    ("orderby", Notation.orNull SortKey.toJson p.orderBy),
    ("skip", Notation.orNull Notation.count p.skip),
    ("take", Notation.orNull Notation.count p.take),
    ("select", Notation.orNull Lambda.toJson p.select), ("expand", Notation.strings p.expand),
    ("totalcount", .bool p.includeTotalCount), ("projection", .string p.projection.name)]

/-- The form of a query URI. -/
def QueryUri.toJson (u : QueryUri) : Json :=
  Notation.members [("path", .string u.path),
    ("parameters", .array (u.parameters.map fun (key, value) => Notation.strings [key, value])),
    ("query", .string u.queryString), ("text", .string u.text),
    ("filter", Notation.orNull Json.string (u.parameter? "$filter"))]

end ResourceQuery
