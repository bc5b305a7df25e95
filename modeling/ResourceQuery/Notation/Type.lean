import ResourceQuery.Notation.Value

/-! # Types in JSON

Type expressions are arrays of a tag and their parts; declarations and resolved types are objects.
-/

namespace ResourceQuery

namespace NativeType

mutual

/-- The form of a type expression. -/
def toJson : NativeType → Json
  | .value k => Notation.strings ["value", k.name]
  | .named n => Notation.strings ["named", n]
  | .list t => .array [.string "list", toJson t]
  | .map k v => .array [.string "map", toJson k, toJson v]
  | .nullable t => .array [.string "nullable", toJson t]
  | .generic d ts => .array [.string "generic", .string d, .array (listToJson ts)]
  | .parameter i => .array [.string "param", Notation.nat i]

/-- The forms of a list of type expressions. -/
def listToJson : List NativeType → List Json
  | [] => []
  | t :: rest => toJson t :: listToJson rest

end

end NativeType

/-- The form of a set of methods. -/
def HttpMethods.toJson (s : HttpMethods) : Json :=
  Notation.strings (s.toList.map HttpMethod.verb)

/-- The form of a default value: a word if there is none. -/
def Notation.default (show_ : Value → Json) : Option Value → Json
  | none => .string "<none>"
  | some v => show_ v

/-- The form of a declared property; `show_` shows its default. -/
def PropertyDef.toJson (show_ : Value → Json) (p : PropertyDef) : Json :=
  Notation.members [("name", .string p.name), ("type", .string p.type.text),
    ("access", p.access.toJson), ("item", p.itemAccess.toJson), ("id", .bool p.isPrimaryId),
    ("required", .bool p.required), ("default", Notation.default show_ p.default),
    ("expanded", .bool p.alwaysExpanded), ("get", .bool p.readsField.isSome),
    ("set", .bool p.writesField.isSome)]

/-- The form of a source type. -/
def SourceType.toJson (show_ : Value → Json) (s : SourceType) : Json :=
  let kind :=
    match s.kind with
    | .resource => "Resource"
    | .valueObject => "ValueObject"
  let parent := fun (p : ParentDef) => Notation.strings [p.type, p.childToParent, p.parentToChild]
  Notation.members [("name", .string s.name), ("kind", .string kind),
    ("base", Notation.orNull Json.string s.base), ("abstract", .bool s.isAbstract),
    ("allow", s.allowed.toJson), ("path", Notation.orNull Json.string s.path),
    ("collection", .string s.collectionPath), ("parent", Notation.orNull parent s.parent),
    ("uri_base", Notation.orNull Json.string s.uriBase),
    ("tparams", Notation.strings s.typeParameters),
    ("gargs", .array (s.genericArguments.map NativeType.toJson)),
    ("ctor", Notation.orNull Notation.strings s.constructor),
    ("props", .array (s.properties.map (PropertyDef.toJson show_)))]

/-- The form of a registry. -/
def Registry.toJson (show_ : Value → Json) (r : Registry) : Json :=
  Notation.members [("types", .array (r.types.map fun (_, s) => s.toJson show_)),
    ("enums", .array (r.enums.map fun (n, ms) => .array [.string n, Notation.strings ms])),
    ("proxies", .array (r.proxies.map fun (n, t) => Notation.strings [n, t]))]

/-- The form of a type's number. -/
def TypeId.toJson (id : TypeId) : Json :=
  Notation.nat id.index

/-- The form of a property of a resolved type. -/
def Property.toJson (g : TypeGraph) (show_ : Value → Json) (p : Property) : Json :=
  Notation.members [("name", .string p.name), ("json", .string p.jsonName),
    ("uri", .string p.uriName), ("declaring", .string (g.nameOf p.declaringType)),
    ("type", .string (g.nameOf p.type)), ("access", p.access.toJson),
    ("item", p.itemAccess.toJson), ("id", .bool p.isPrimaryId), ("required", .bool p.required),
    ("readable", .bool p.isReadable), ("default", Notation.default show_ p.default),
    ("expanded", .bool p.alwaysExpanded)]

/-- The form of a shape, without its members. -/
def TypeShape.toJson : TypeShape → Json
  | .value k => Notation.strings ["value", k.name]
  | .enum ms => .array [.string "enum", Notation.strings ms]
  | .collection e => .array [.string "collection", e.toJson]
  | .dictionary k v => .array [.string "dictionary", k.toJson, v.toJson]
  | .structured _ => Notation.strings ["structured"]
  | .resource .. => Notation.strings ["resource"]

/-- The form of a resolved type. -/
def Descriptor.toJson (g : TypeGraph) (show_ : Value → Json) (d : Descriptor) : Json :=
  let parameter := fun (c : ConstructorParameter) =>
    Json.array [.string c.property, Notation.default show_ c.default]
  let parent := fun (p : ResourceParent) =>
    Json.array [p.type.toJson, .string p.childToParent, .string p.parentToChild]
  let members :=
    match d.members? with
    | none => []
    | some m => [("base", Notation.orNull TypeId.toJson m.base), ("abstract", .bool m.isAbstract),
        ("allow", m.allowed.toJson),
        ("primary_id", Notation.orNull (fun p => .string p.name) m.primaryId?),
        ("ctor", .array (m.constructor.map parameter)),
        ("props", .array (m.properties.map (Property.toJson g show_)))]
  let address :=
    match d.address? with
    | none => []
    | some a => [("path", .string a.relativePath), ("uri_base", a.uriBase.toJson),
        ("parent", Notation.orNull parent a.parent)]
  Notation.members ([("id", d.id.toJson), ("name", .string d.name), ("nullable", .bool d.nullable),
    ("mode", .string d.mode), ("args", .array (d.arguments.map TypeId.toJson)),
    ("kind", d.shape.toJson)] ++ members ++ address)

end ResourceQuery
