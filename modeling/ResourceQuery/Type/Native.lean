import ResourceQuery.Text.Basic
import ResourceQuery.Number.Decimal

/-! # Native types

The expressions in which types are declared: value kinds, names of declared types, lists, dictionaries,
optional values, instances of generic definitions, and the parameters of such definitions.

A type has many spellings: `int`, `Int32`, `IList<Hat>`, `List<Hat>`, `Hat??`. `canonical` folds them
into one, and `substitute` puts arguments in place of parameters. `NativeType.text` is the one text
that a type is known by.
-/

namespace ResourceQuery

/-! ## Value kinds -/

/-- The kinds of values that have no structure of their own. -/
inductive ValueKind where
  | boolean
  | int32
  | int64
  | double
  | string
  | dateTime
  /-- Anything at all. -/
  | any
  deriving DecidableEq

namespace ValueKind

/-- All kinds. Their order is that of their descriptors in every type graph. -/
def all : List ValueKind := [.boolean, .int32, .int64, .double, .string, .dateTime, .any]

/-- The name that the kind is written with. -/
def name : ValueKind → String
  | .boolean => "Boolean"
  | .int32 => "Int32"
  | .int64 => "Int64"
  | .double => "Double"
  | .string => "String"
  | .dateTime => "DateTime"
  | .any => "Object"

/-- The kind with the given name or alias, in small letters. -/
def ofLowerName? : String → Option ValueKind
  | "boolean" | "bool" => some .boolean
  | "int32" | "int" | "i32" => some .int32
  | "int64" | "long" | "i64" => some .int64
  | "double" | "float" | "f64" | "decimal" => some .double
  | "string" | "str" => some .string
  | "datetime" | "timestamp" => some .dateTime
  | "object" | "any" => some .any
  | _ => none

/-- The kind that `s` names, in any case. -/
def ofName? (s : String) : Option ValueKind :=
  ofLowerName? (Text.asciiLower s)

/-- Whether a slot of the kind holds null unless declared otherwise. -/
def isNullable : ValueKind → Bool
  | .string => true
  | .any => true
  | _ => false

/-- Whether the kind holds numbers. -/
def isNumeric : ValueKind → Bool
  | .int32 => true
  | .int64 => true
  | .double => true
  | _ => false

/-- The place of the kind in `all`. -/
def index : ValueKind → Nat
  | .boolean => 0
  | .int32 => 1
  | .int64 => 2
  | .double => 3
  | .string => 4
  | .dateTime => 5
  | .any => 6

theorem all_getElem?_index (k : ValueKind) : all[k.index]? = some k := by
  cases k <;> rfl

theorem ofName?_name (k : ValueKind) : ofName? k.name = some k := by
  cases k <;> decide

end ValueKind

/-! ## Type expressions -/

/-- The declared shape of a type. -/
inductive NativeType where
  | value (kind : ValueKind)
  /-- A declared type, enum or proxy. -/
  | named (name : String)
  | list (element : NativeType)
  | map (key value : NativeType)
  | nullable (inner : NativeType)
  /-- A generic definition applied to arguments. -/
  | generic (definition : String) (arguments : List NativeType)
  /-- The parameter of the surrounding generic definition with the given number. -/
  | parameter (index : Nat)

namespace NativeType

mutual

/-- Decides equality of type expressions. -/
def decEq : (a b : NativeType) → Decidable (a = b)
  | .value k, .value l => decidable_of_iff (k = l) (by simp)
  | .named m, .named n => decidable_of_iff (m = n) (by simp)
  | .list a, .list b =>
    match decEq a b with
    | isTrue h => isTrue (by rw [h])
    | isFalse h => isFalse (by simp [h])
  | .map k v, .map l w =>
    match decEq k l with
    | isTrue h =>
      match decEq v w with
      | isTrue h' => isTrue (by rw [h, h'])
      | isFalse h' => isFalse (by simp [h'])
    | isFalse h => isFalse (by simp [h])
  | .nullable a, .nullable b =>
    match decEq a b with
    | isTrue h => isTrue (by rw [h])
    | isFalse h => isFalse (by simp [h])
  | .generic m as, .generic n bs =>
    if h : m = n then
      match decEqList as bs with
      | isTrue h' => isTrue (by rw [h, h'])
      | isFalse h' => isFalse (by simp [h'])
    else isFalse (by simp [h])
  | .parameter i, .parameter j => decidable_of_iff (i = j) (by simp)
  | .value _, .named _ | .value _, .list _ | .value _, .map .. | .value _, .nullable _
  | .value _, .generic .. | .value _, .parameter _ => isFalse (by simp)
  | .named _, .value _ | .named _, .list _ | .named _, .map .. | .named _, .nullable _
  | .named _, .generic .. | .named _, .parameter _ => isFalse (by simp)
  | .list _, .value _ | .list _, .named _ | .list _, .map .. | .list _, .nullable _
  | .list _, .generic .. | .list _, .parameter _ => isFalse (by simp)
  | .map .., .value _ | .map .., .named _ | .map .., .list _ | .map .., .nullable _
  | .map .., .generic .. | .map .., .parameter _ => isFalse (by simp)
  | .nullable _, .value _ | .nullable _, .named _ | .nullable _, .list _ | .nullable _, .map ..
  | .nullable _, .generic .. | .nullable _, .parameter _ => isFalse (by simp)
  | .generic .., .value _ | .generic .., .named _ | .generic .., .list _ | .generic .., .map ..
  | .generic .., .nullable _ | .generic .., .parameter _ => isFalse (by simp)
  | .parameter _, .value _ | .parameter _, .named _ | .parameter _, .list _
  | .parameter _, .map .. | .parameter _, .nullable _ | .parameter _, .generic .. =>
    isFalse (by simp)

/-- Decides equality of lists of type expressions. -/
def decEqList : (as bs : List NativeType) → Decidable (as = bs)
  | [], [] => isTrue rfl
  | [], _ :: _ => isFalse (by simp)
  | _ :: _, [] => isFalse (by simp)
  | a :: as, b :: bs =>
    match decEq a b with
    | isTrue h =>
      match decEqList as bs with
      | isTrue h' => isTrue (by rw [h, h'])
      | isFalse h' => isFalse (by simp [h'])
    | isFalse h => isFalse (by simp [h])

end

instance : DecidableEq NativeType := decEq

/-! ## Text -/

mutual

/-- The text of a type. -/
def text : NativeType → String
  | .value kind => kind.name
  | .named name => name
  | .list element => "List<" ++ text element ++ ">"
  | .map k v => "Dictionary<" ++ text k ++ "," ++ text v ++ ">"
  | .nullable inner => "Nullable<" ++ text inner ++ ">"
  | .generic definition arguments =>
    definition ++ "<" ++ Text.join "," (texts arguments) ++ ">"
  | .parameter index => "T" ++ Decimal.naturalText index

/-- The texts of several types. -/
def texts : List NativeType → List String
  | [] => []
  | a :: as => text a :: texts as

end

/-! ## Arguments for parameters -/

mutual

/-- The type with `arguments` in place of its parameters. A parameter without argument stays. -/
def substitute (arguments : List NativeType) : NativeType → NativeType
  | .parameter index => (arguments[index]?).getD (.parameter index)
  | .list element => .list (substitute arguments element)
  | .map k v => .map (substitute arguments k) (substitute arguments v)
  | .nullable inner => .nullable (substitute arguments inner)
  | .generic definition inner => .generic definition (substituteAll arguments inner)
  | .value kind => .value kind
  | .named name => .named name

/-- Substitution in several types. -/
def substituteAll (arguments : List NativeType) : List NativeType → List NativeType
  | [] => []
  | a :: as => substitute arguments a :: substituteAll arguments as

end

/-! ## Canonical form -/

/-- The containers that have generic spellings. -/
inductive Container where
  | list
  | map
  | nullable

/-- The container that a generic definition's name spells, in any case. -/
def container? (definition : String) : Option Container :=
  match Text.asciiLower definition with
  | "list" | "ilist" | "icollection" | "ienumerable" | "vec" | "set" | "iset" => some .list
  | "dictionary" | "idictionary" | "map" => some .map
  | "nullable" | "option" => some .nullable
  | _ => none

/-- An optional value of a canonical type; optional once is optional enough. -/
def optional : NativeType → NativeType
  | .nullable inner => .nullable inner
  | inner => .nullable inner

/-- A definition applied to canonical arguments, folded if it spells a container. -/
def applied (definition : String) (arguments : List NativeType) : NativeType :=
  match container? definition, arguments with
  | some .list, [element] => .list element
  | some .map, [k, v] => .map k v
  | some .nullable, [inner] => optional inner
  | _, _ => .generic definition arguments

mutual

/-- The type with container spellings, names of value kinds and repeated optionality folded. -/
def canonical : NativeType → NativeType
  | .named name =>
    match ValueKind.ofName? name with
    | some kind => .value kind
    | none => .named name
  | .list element => .list (canonical element)
  | .map k v => .map (canonical k) (canonical v)
  | .nullable inner => optional (canonical inner)
  | .generic definition arguments => applied definition (canonicalAll arguments)
  | .value kind => .value kind
  | .parameter index => .parameter index

/-- The canonical forms of several types. -/
def canonicalAll : List NativeType → List NativeType
  | [] => []
  | a :: as => canonical a :: canonicalAll as

end

end NativeType

end ResourceQuery
