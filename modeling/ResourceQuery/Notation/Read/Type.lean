import ResourceQuery.Notation.Read.Value

/-! # Reading types

Type expressions, declarations, and registries of declarations. A type expression may also be written
as text.
-/

namespace ResourceQuery

namespace Notation

namespace Read

/-- A method; capitals do not count. -/
def method (json : Json) : Read HttpMethod := do
  let word ← text json
  need (HttpMethod.all.find? fun m => m.verb == word.map Char.toUpper)

/-- A set of methods. -/
def methods (json : Json) : Read HttpMethods := do
  return .ofList (← list method json)

/-- A kind of values. -/
def kind (json : Json) : Read ValueKind := do
  need (ValueKind.ofName? (← text json))

/-- A type expression whose parts are read with `below`. -/
def nativeTypeWith (below : Json → Read NativeType) (json : Json) : Read NativeType := do
  match ← tagged json with
  | ("value", [a]) => return .value (← kind a)
  | ("named", [a]) => return .named (← text a)
  | ("list", [a]) => return .list (← below a)
  | ("nullable", [a]) => return .nullable (← below a)
  | ("param", [a]) => return .parameter (← nat a)
  | ("map", [a, b]) => return .map (← below a) (← below b)
  | ("generic", [a, b]) => return .generic (← text a) (← list below b)
  | _ => malformed

/-- A type expression. -/
def nativeType (json : Json) : Read NativeType :=
  match json with
  | .string s => accepted (NativeType.parse s)
  | _ => knot nativeTypeWith json

/-! ## Declarations -/

/-- A default value; null is one, too. -/
def default (json : Json) : Read (Option Value) :=
  match member? "default" json with
  | some part => do return some (← value part)
  | none => pure none

/-- A property with what it is declared with. -/
def propertyWith (name : String) (type : NativeType) (json : Json) : Read PropertyDef := do
  let isId ← flag "id" json
  let readOnly ← flag "ro" json
  let p := if isId then PropertyDef.primaryId name type else .ofType name type
  let p := if readOnly then { p with access := .only .get } else p
  return { p with
    access := ← orElse "access" json p.access methods
    itemAccess := ← orElse "item" json p.itemAccess methods
    default := ← default json
    required := ← flag "required" json
    alwaysExpanded := ← flag "expanded" json
    readsField := ← optional "get" json text
    writesField := ← optional "set" json text }

/-- A property: its name, its type, and perhaps what it is declared with. -/
def property (json : Json) : Read PropertyDef := do
  match ← items json with
  | [name, type] => propertyWith (← text name) (← nativeType type) (.object [])
  | [name, type, options] => propertyWith (← text name) (← nativeType type) options
  | _ => malformed

/-- The kind of a source type. -/
def sourceKind (json : Json) : Read SourceKind := do
  match ← text json with
  | "resource" => return .resource
  | "value" => return .valueObject
  | _ => malformed

/-- The nesting of a source type. -/
def parent (json : Json) : Read ParentDef := do
  match ← texts json with
  | [type, up, down] => return ⟨type, up, down⟩
  | _ => malformed

/-- A source type. -/
def sourceType (json : Json) : Read SourceType := do
  let kind ← sourceKind (← member "kind" json)
  let name ← text (← member "name" json)
  return { SourceType.bare name kind with
    path := (← optional "path" json text).map Text.trimSlashes
    base := ← optional "base" json text
    isAbstract := ← flag "abstract" json
    allowed := ← orElse "allow" json .all methods
    parent := ← optional "parent" json parent
    uriBase := ← optional "uri_base" json text
    typeParameters := ← orElse "tparams" json [] texts
    genericArguments := ← orElse "gargs" json [] (list nativeType)
    constructor := ← optional "ctor" json texts
    properties := ← orElse "props" json [] (list property) }

/-! ## Registries -/

/-- A name and what it is declared as. -/
def named {α : Type} (reader : Json → Read α) (json : Json) : Read (String × α) := do
  match ← items json with
  | [name, part] => return (← text name, ← reader part)
  | _ => malformed

/-- A registry: enums, then types, then proxies; a strict one refuses a name that is taken. -/
def registry (json : Json) : Read Registry := do
  let strict ← flag "strict" json
  let enum (r : Registry) (part : Json) : Read Registry := do
    let (name, ms) ← named texts part
    if strict then accepted (r.registerEnum name ms) else pure (r.withEnum name ms)
  let type (r : Registry) (part : Json) : Read Registry := do
    let source ← sourceType part
    if strict then accepted (r.register source) else pure (r.withType source)
  let proxy (r : Registry) (part : Json) : Read Registry := do
    let (name, target) ← named text part
    if strict then accepted (r.registerProxy name target) else pure (r.withProxy name target)
  let r ← (← orElse "enums" json [] items).foldlM enum Registry.empty
  let r ← (← orElse "types" json [] items).foldlM type r
  (← orElse "proxies" json [] items).foldlM proxy r

/-- A registry, resolved. -/
def graph (json : Json) : Read TypeGraph := do
  let r ← registry json
  accepted (TypeGraph.ofRegistry r)

end Read

end Notation

end ResourceQuery
