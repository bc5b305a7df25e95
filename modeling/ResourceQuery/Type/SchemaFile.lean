import ResourceQuery.Data.Entries
import ResourceQuery.Toml.DateTable
import ResourceQuery.Toml.Reader
import ResourceQuery.Type.Registry

/-! # Schema files

A registry written as a configuration file: enums and proxies as tables, types as a list of records
with their properties. A record is a table, or an array that has the values without their keys. A file
with an unknown key, a missing name or a value of the wrong kind is refused as a whole; then enums,
types and proxies are declared in this order, each name once.
-/

namespace ResourceQuery

namespace SchemaFile

variable {α : Type}

/-! ## Records -/

/-- A reading of a value; failures are not told apart. -/
abbrev Reading (α : Type) := Option α

/-- The fields of a record in a file. -/
structure Record where
  /-- The values, each under the name of its field. -/
  values : KeyedList Toml
  /-- Whether the values stand in an array, one after the other. -/
  inOrder : Bool

/-- The record that a value writes: a table whose keys are all among `fields`, or an array with the values
of `fields` in their order, whatever follows them. -/
def record? (fields : List String) (value : Toml) : Reading Record :=
  match value.asList? with
  | some items => some ⟨fields.zip items, true⟩
  | none => value.asTable?.bind fun table =>
    if (KeyedList.keys table).all fields.contains then some ⟨table, false⟩ else none

/-- A value that must be there. -/
def required (read : Toml → Option α) (field : String) (record : Record) : Reading α :=
  (KeyedList.get? field record.values).bind read

/-- A value that a table may leave out. -/
def optional (read : Toml → Option α) (field : String) (record : Record) : Reading (Option α) :=
  match KeyedList.get? field record.values with
  | none => if record.inOrder then none else some none
  | some value => (read value).map some

/-- A value that may be missing, with the value it then has. -/
def withDefault (read : Toml → Option α) (field : String) (default : α) (record : Record) :
    Reading α :=
  match KeyedList.get? field record.values with
  | none => some default
  | some value => read value

/-- A list of values. -/
def list? (read : Toml → Option α) (value : Toml) : Reading (List α) :=
  value.asList?.bind (·.mapM read)

/-- A method in small letters. -/
def method? (value : Toml) : Reading HttpMethod :=
  value.asChoice?.bind fun word =>
    HttpMethod.all.find? fun m => Text.asciiLower m.verb == word

/-- A list of methods. -/
def methods? (value : Toml) : Reading HttpMethods :=
  (list? method? value).map .ofList

/-- The kind of a type. -/
def kind? (value : Toml) : Reading SourceKind :=
  match value.asChoice? with
  | some "resource" => some .resource
  | some "value" => some .valueObject
  | _ => none

/-- The values of a table, in increasing order of their keys. -/
def values? (read : Toml → Option α) (value : Toml) : Reading (Entries α) := do
  let table ← value.asTable?
  let pairs ← table.mapM fun (key, v) => (read v).map (key, ·)
  some (Entries.ofList pairs)

/-! ## What a file declares -/

/-- A property as it stands in the file. -/
structure RawProperty where
  name : String
  type : String
  id : Bool
  required : Bool
  expanded : Bool
  access : Option HttpMethods
  itemAccess : Option HttpMethods
  default : Option Toml

/-- A type as it stands in the file. -/
structure RawType where
  name : String
  kind : SourceKind
  path : Option String
  base : Option String
  isAbstract : Bool
  allow : Option HttpMethods
  parent : Option ParentDef
  uriBase : Option String
  typeParameters : List String
  genericArguments : List String
  constructor : Option (List String)
  properties : List RawProperty

/-- All that stands in the file. -/
structure Raw where
  types : List RawType
  enums : Entries (List String)
  proxies : Entries String

/-- Reads a property. -/
def property? (value : Toml) : Reading RawProperty := do
  let record ← record?
    ["name", "type", "id", "required", "expanded", "access", "item_access", "default"] value
  let name ← required Toml.asString? "name" record
  let type ← required Toml.asString? "type" record
  let id ← withDefault Toml.asBool? "id" false record
  let isRequired ← withDefault Toml.asBool? "required" false record
  let expanded ← withDefault Toml.asBool? "expanded" false record
  let access ← optional methods? "access" record
  let itemAccess ← optional methods? "item_access" record
  let default ← optional Toml.resolveDates? "default" record
  some ⟨name, type, id, isRequired, expanded, access, itemAccess, default⟩

/-- Reads the place of a type below another. -/
def parent? (value : Toml) : Reading ParentDef := do
  let record ← record? ["type", "child_to_parent", "parent_to_child"] value
  let type ← required Toml.asString? "type" record
  let childToParent ← required Toml.asString? "child_to_parent" record
  let parentToChild ← required Toml.asString? "parent_to_child" record
  some ⟨type, childToParent, parentToChild⟩

/-- Reads a type. -/
def type? (value : Toml) : Reading RawType := do
  let record ← record?
    ["name", "kind", "path", "base", "abstract", "allow", "parent", "uri_base",
      "type_parameters", "generic_arguments", "constructor", "properties"] value
  let name ← required Toml.asString? "name" record
  let kind ← required kind? "kind" record
  let path ← optional Toml.asString? "path" record
  let base ← optional Toml.asString? "base" record
  let isAbstract ← withDefault Toml.asBool? "abstract" false record
  let allow ← optional methods? "allow" record
  let parent ← optional parent? "parent" record
  let uriBase ← optional Toml.asString? "uri_base" record
  let typeParameters ← withDefault (list? Toml.asString?) "type_parameters" [] record
  let genericArguments ← withDefault (list? Toml.asString?) "generic_arguments" [] record
  let constructor ← optional (list? Toml.asString?) "constructor" record
  let properties ← withDefault (list? property?) "properties" [] record
  some ⟨name, kind, path, base, isAbstract, allow, parent, uriBase, typeParameters,
    genericArguments, constructor, properties⟩

/-- Reads a file. -/
def raw? (file : KeyedList Toml) : Reading Raw := do
  let record ← record? ["types", "enums", "proxies"] (.table .header file)
  let types ← withDefault (list? type?) "types" [] record
  let enums ← withDefault (values? (list? Toml.asString?)) "enums" [] record
  let proxies ← withDefault (values? Toml.asString?) "proxies" [] record
  some ⟨types, enums, proxies⟩

/-! ## Declarations -/

mutual

/-- The value of a default. A date needs a time and an offset, and a table is no value. -/
def defaultValue (property : String) : Toml → Except Error Value
  | .string s => .ok (.string s)
  | .integer n => .ok (.int n)
  | .float x => .ok (.float x)
  | .boolean b => .ok (.bool b)
  | .dateTime text =>
    match Timestamp.parse? text with
    | some t => .ok (.dateTime t)
    | none => .error (.config (.dateDefault property))
  | .array items => (defaultValues property items).map .list
  | .tables items => (defaultValues property items).map .list
  | .table .. => .error (.config (.tableDefault property))

/-- The values of a list of defaults. -/
def defaultValues (property : String) : List Toml → Except Error (List Value)
  | [] => .ok []
  | item :: rest => do
    let value ← defaultValue property item
    let values ← defaultValues property rest
    .ok (value :: values)

end

/-- The property that `raw` declares. -/
def toProperty (raw : RawProperty) : Except Error PropertyDef := do
  let type ← NativeType.parse raw.type
  let plain :=
    if raw.id then PropertyDef.primaryId raw.name type else PropertyDef.ofType raw.name type
  let default ←
    match raw.default with
    | none => .ok none
    | some value => (defaultValue raw.name value).map some
  .ok { plain with
    required := raw.required
    alwaysExpanded := raw.expanded
    access := raw.access.getD plain.access
    itemAccess := raw.itemAccess.getD plain.itemAccess
    default := default }

/-- The type that `raw` declares. -/
def toSource (raw : RawType) : Except Error SourceType := do
  let arguments ← raw.genericArguments.mapM NativeType.parse
  let properties ← raw.properties.mapM toProperty
  .ok { SourceType.bare raw.name raw.kind with
    path := raw.path.map Text.trimSlashes
    base := raw.base
    isAbstract := raw.isAbstract
    allowed := raw.allow.getD .all
    parent := raw.parent
    uriBase := raw.uriBase
    typeParameters := raw.typeParameters
    genericArguments := arguments
    properties := properties
    constructor := raw.constructor }

/-- The registry that `raw` declares. -/
def toRegistry (raw : Raw) : Except Error Registry := do
  let r ← raw.enums.foldlM (fun r (name, members) => r.registerEnum name members) Registry.empty
  let r ← raw.types.foldlM (fun r type => do r.register (← toSource type)) r
  raw.proxies.foldlM (fun r (name, target) => r.registerProxy name target) r

/-- What a file declares. -/
def parse (text : String) : Except Error Raw :=
  match (Toml.parse? text).bind raw? with
  | some raw => .ok raw
  | none => .error (.config .schema)

/-- The registry of a file. -/
def registryOf (text : String) : Except Error Registry := do
  toRegistry (← parse text)

end SchemaFile

end ResourceQuery
