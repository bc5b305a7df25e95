import ResourceQuery.Config
import ResourceQuery.Expr.Equality
import ResourceQuery.Expr.Parser
import ResourceQuery.Expr.Printer
import ResourceQuery.Query.Projection
import ResourceQuery.Text.Percent

/-! # Query strings

The parameters of a request as a server reads them. Keys that start with `$` are known or an error,
may be written in any case, and occur once; other keys are ignored. The values are texts of
expressions, counts, names and paths.
-/

namespace ResourceQuery

/-- What a query string asks for. -/
structure Parameters where
  /-- The name of a type; what it names is not known before the query runs. -/
  ofType : Option String
  filter : Option Lambda
  orderBy : Option SortKey
  groupBy : Option Lambda
  select : Option Lambda
  skip : Option UInt64
  top : Option UInt64
  expand : List String
  includeTotalCount : Bool
  projection : Projection

namespace Parameters

/-- No parameters: a plain listing. -/
def none : Parameters :=
  { ofType := Option.none, filter := Option.none, orderBy := Option.none, groupBy := Option.none,
    select := Option.none, skip := Option.none, top := Option.none, expand := [],
    includeTotalCount := false, projection := .enumerable }

/-- Equality up to bound variables. -/
def equal (p q : Parameters) : Bool :=
  p.ofType == q.ofType && Lambda.sameOption p.filter q.filter &&
    SortKey.sameOption p.orderBy q.orderBy && Lambda.sameOption p.groupBy q.groupBy &&
    Lambda.sameOption p.select q.select && p.skip == q.skip && p.top == q.top &&
    p.expand == q.expand && p.includeTotalCount == q.includeTotalCount &&
    p.projection == q.projection

/-! ## Values -/

/-- An invalid query. -/
def invalid {α : Type} (fault : QueryFault) : Except Error α :=
  .error (.invalidQuery fault)

/-- The text behind the encoding of keys and values: plus signs are blanks. -/
def decode (text : String) : Except Error String :=
  match Percent.decode? (String.ofList (text.toList.map fun c => if c = '+' then ' ' else c)) with
  | some decoded => .ok decoded
  | Option.none => invalid .malformedEncoding

/-- A count. -/
def count (key value : String) : Except Error UInt64 :=
  match Decimal.uint64? (Text.trim value) with
  | some n => .ok n
  | Option.none => invalid (.count key value)

/-- Paths between commas, put behind those in `done` unless they are there already. -/
def addPaths (done : List String) : List String → Except Error (List String)
  | [] => .ok done
  | path :: rest =>
    if path.isEmpty then addPaths done rest
    else if !(Text.splitOn '.' path).all Text.isIdentifier then invalid (.expandPath path)
    else if done.any fun other => Text.sameIgnoringCase other path then addPaths done rest
    else addPaths (done ++ [path]) rest

/-- The paths of `$expand`. -/
def paths (value : String) : Except Error (List String) :=
  addPaths [] ((Text.splitOn ',' value).map Text.trim)

/-- The truth value of `$totalcount`. -/
def flag (value : String) : Except Error Bool :=
  match Text.asciiLower (Text.trim value) with
  | "true" => .ok true
  | "false" => .ok false
  | other => invalid (.totalCount other)

/-- The projection of `$projection`. -/
def projectionOf (value : String) : Except Error Projection :=
  match Projection.ofWireName? (Text.trim value) with
  | some p => .ok p
  | Option.none => invalid (.projection value)

/-! ## Query strings -/

/-- The parameters with the value of one more key; expressions may be nested up to `depth`. -/
def set (depth : Nat) (q : Parameters) (key value : String) : Except Error Parameters :=
  match key with
  | "$oftype" => .ok { q with ofType := some (Text.trim value) }
  | "$filter" => (Lambda.parse value depth).map fun l => { q with filter := some l }
  | "$orderby" => (SortKey.parse value depth).map fun k => { q with orderBy := some k }
  | "$groupby" => (Lambda.parse value depth).map fun l => { q with groupBy := some l }
  | "$select" => (Lambda.parseSelection value depth).map fun l => { q with select := some l }
  | "$skip" => (count key value).map fun n => { q with skip := some n }
  | "$top" => (count key value).map fun n => { q with top := some n }
  | "$expand" => (paths value).map fun ps => { q with expand := ps }
  | "$totalcount" => (flag value).map fun b => { q with includeTotalCount := b }
  | "$projection" => (projectionOf value).map fun p => { q with projection := p }
  | _ => invalid (.unknownParameter key)

/-- The key and the value of a segment, the value still encoded. -/
def keyAndValue (segment : String) : Except Error (String × String) :=
  let (key, value) := (Text.splitOnce '=' segment).getD (segment, "")
  (decode key).map fun key => (Text.asciiLower key, value)

/-- Reads segments one after another; `seen` are the keys that were read. -/
def readSegments (depth : Nat) : (q : Parameters) → (seen : List String) → List String →
    Except Error Parameters
  | q, _, [] => .ok q
  | q, seen, segment :: rest =>
    if segment.isEmpty then readSegments depth q seen rest
    else do
      let (key, encoded) ← keyAndValue segment
      if !Text.startsWith "$" key then readSegments depth q seen rest
      else if seen.contains key then invalid (.duplicateParameter key)
      else
        let value ← decode encoded
        let q ← q.set depth key value
        readSegments depth q (key :: seen) rest

/-- The parameters of a query string, with or without the question mark before it. -/
def parse (config : Config) (raw : String) : Except Error Parameters :=
  if raw.utf8ByteSize > config.maxQueryLength then
    invalid (.queryLength raw.utf8ByteSize config.maxQueryLength)
  else
    readSegments config.maxExpressionDepth none []
      (Text.splitOn '&' ((Text.after? "?" raw).getD raw))

/-! ## Description -/

/-- The text of an expression, or the reason why it has none. -/
def shown (text : Except Error String) : String :=
  match text with
  | .ok text => text
  | .error e => "<" ++ e.message ++ ">"

/-- A sort key in words. -/
def shownKey (k : SortKey) : String :=
  let direction :=
    match k.direction with
    | .ascending => " asc"
    | .descending => " desc"
  shown k.key.text ++ direction

/-- The steps that the parameters ask for, in the order in which they are taken. -/
def steps (q : Parameters) : List (String × String) :=
  let step {α : Type} (name : String) (text : α → String) (part : Option α) :=
    (part.map fun a => (name, text a)).toList
  let countText (n : UInt64) := Decimal.naturalText n.toNat
  step "oftype" id q.ofType ++
  step "filter" (shown ·.text) q.filter ++
  step "groupby" (shown ·.text) q.groupBy ++
  (if q.includeTotalCount then [("totalcount", "")] else []) ++
  step "orderby" shownKey q.orderBy ++
  step "skip" countText q.skip ++
  step "top" countText q.top ++
  step "select" (shown ·.selectionText) q.select ++
  (if q.expand.isEmpty then [] else [("expand", Text.join "," q.expand)]) ++
  [("projection", q.projection.name)]

/-- A numbered line for each step. -/
def describe (q : Parameters) : String :=
  let line := fun ((name, detail), i) =>
    Text.padLeft ' ' 2 (Decimal.naturalText (i + 1)) ++ ". " ++ Text.padRight 11 name ++ " " ++
      detail ++ "\n"
  String.join (q.steps.zipIdx.map line)

end Parameters

end ResourceQuery
