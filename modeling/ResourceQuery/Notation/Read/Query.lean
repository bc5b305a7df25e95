import ResourceQuery.Config
import ResourceQuery.Notation.Read.Expr
import ResourceQuery.Query.Chain

/-! # Reading queries and settings

A query is a list of operators on a source. An operator that fails, because it names an unknown type,
leaves the query as it was, and is reported once all operators are read; a lambda that cannot be read is
reported at once.
-/

namespace ResourceQuery

namespace Notation

namespace Read

/-! ## Operators -/

/-- The projections that end a chain, by the word for them. -/
def projections : List (String × Projection) :=
  [("first", .first), ("first_lazy", .firstLazy), ("first_or_default", .firstOrDefault),
    ("any", .any), ("count", .count), ("sum", .sum), ("min", .min), ("max", .max),
    ("to_uri", .toUri)]

/-- The end of a chain, perhaps with a lambda. -/
def terminal (p : Projection) : List Json → Read Operator
  | [] => return .terminal p none
  | [.null] => return .terminal p none
  | [l] => return .terminal p (some (← lambda l))
  | _ => malformed

/-- An operator that does not depend on the types. -/
def operator (tag : String) (parts : List Json) : Read Operator := do
  match tag, parts with
  | "where", [l] => return .where_ (← lambda l)
  | "select", [l] => return .select (← lambda l)
  | "orderby", [l] => return .orderBy ⟨← lambda l, .ascending⟩
  | "orderby_desc", [l] => return .orderBy ⟨← lambda l, .descending⟩
  | "groupby", [l] => return .groupBy (← lambda l)
  | "skip", [n] => return .skip (← count n)
  | "take", [n] => return .take (← count n)
  | "expand", [l] => return .expand (← lambda l)
  | "totalcount", [] => return .includeTotalCount
  | "terminal", p :: l =>
    let p ← word Projection.name
      (.enumerable :: projections.map (·.2)) p
    terminal p l
  | _, _ => terminal (← need (projections.lookup tag)) parts

/-! ## Chains -/

/-- All elements of a collection. -/
def source (type uri : Json) : Read Query := do
  let d ← Read.type type
  return .ofSource d.id (← text uri)

/-- A query that is read so far: the first failure of an operator sticks. -/
abbrev Chain := Except Error Query

/-- A query with one more operator. -/
def extend (q : Chain) (json : Json) : Read Chain := do
  match ← tagged json with
  | ("source", [type, uri]) => return .ok (← source type uri)
  | ("to_list", []) => return q
  | ("oftype", [name]) =>
    let name ← text name
    match q with
    | .error e => return .error e
    | .ok q =>
      let w ← get
      let (outcome, graph) := q.ofType w.graph name
      set { w with graph }
      return outcome
  | (tag, parts) =>
    let op ← operator tag parts
    return q.map (·.then_ op)

/-- A query with further operators. -/
def chain (start : Query) (json : Json) : Read Query := do
  let q ← (← items json).foldlM extend (.ok start)
  accepted q

/-- Where a query starts: a resource type, or a type and a path. -/
def start (json : Json) : Read Query := do
  match json with
  | .string name => typing (Query.onType · name)
  | _ =>
    match ← items json with
    | [type, uri] => source type uri
    | _ => malformed

/-! ## Settings -/

/-- The settings with a name. -/
def preset? : Json → Option Config
  | .null => some .standard
  | .string "strict" => some .strict
  | .string "permissive" => some .permissive
  | _ => none

/-- The settings with one of them changed. -/
def setting (c : Config) (part : String × Json) : Read Config := do
  let size (json : Json) : Read (Option UInt64) := do
    if json.isNull then return none else return some (← count json)
  match part with
  | ("default_page_size", v) => return { c with defaultPageSize := ← size v }
  | ("max_page_size", v) => return { c with maxPageSize := ← size v }
  | ("max_expression_depth", v) => return { c with maxExpressionDepth := ← nat v }
  | ("max_query_length", v) => return { c with maxQueryLength := ← nat v }
  | ("query_cache_capacity", v) => return { c with queryCacheCapacity := ← nat v }
  | ("base_uri", v) => return { c with baseUri := ← text v }
  | ("preset", _) => return c
  | _ => malformed

/-- Settings: a name, a file's text, or changes to those with a name. -/
def config (json : Json) : Read Config := do
  match preset? json, json with
  | some c, _ => return c
  | none, .string content => accepted (Config.parse content)
  | none, _ =>
    let base ← need (preset? ((member? "preset" json).getD .null))
    (← need json.asObject?).foldlM setting base

end Read

end Notation

end ResourceQuery
