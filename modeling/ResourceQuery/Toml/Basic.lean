import ResourceQuery.Data.KeyedList
import ResourceQuery.Text.Basic

/-! # TOML documents

The tree of a configuration file. A table keeps its entries in the order of the file and
remembers how it came about, because that decides whether a later line may add to it; once a document
is read, only its entries matter.
-/

namespace ResourceQuery

/-- How a table was opened. -/
inductive TomlOrigin where
  /-- By a header of its own. -/
  | header
  /-- By a header of a table inside it. -/
  | implied
  /-- By a dotted key. -/
  | dotted
  /-- Between braces; nothing can be added. -/
  | inline
  deriving DecidableEq

/-- A value in a configuration file. -/
inductive Toml where
  | string (s : String)
  | integer (n : Int64)
  | float (x : Float)
  | boolean (b : Bool)
  /-- A date, a time, or both, in normal form. -/
  | dateTime (text : String)
  | array (items : List Toml)
  | table (origin : TomlOrigin) (entries : List (String × Toml))
  /-- The tables under a repeated header. -/
  | tables (items : List Toml)

namespace Toml

/-- The text of a value that is one. -/
def asString? : Toml → Option String
  | .string s => some s
  | _ => none

/-- The truth value of a value that is one. -/
def asBool? : Toml → Option Bool
  | .boolean b => some b
  | _ => none

/-- The number of a value that is a natural one. -/
def asNatural? : Toml → Option Nat
  | .integer n => if 0 ≤ n.toInt then some n.toInt.toNat else none
  | _ => none

/-- The items of an array or of a repeated header. -/
def asList? : Toml → Option (List Toml)
  | .array items => some items
  | .tables items => some items
  | _ => none

/-- The key under which the text of a date stands where a date is taken for a table. -/
def dateTimeKey : String := "$__toml_private_datetime"

/-- The entries of a table. A date counts as a table that holds its text. -/
def asTable? : Toml → Option (KeyedList Toml)
  | .table _ entries => some entries
  | .dateTime text => some [(dateTimeKey, .string text)]
  | _ => none

/-- Whether the value is an array or a table with nothing in it. -/
def isVoid : Toml → Bool
  | .array items => items.isEmpty
  | .tables items => items.isEmpty
  | .table _ entries => entries.isEmpty
  | _ => false

/-- The word that a value chooses among several: a text, or the only key of a table that has nothing
under it. -/
def asChoice? : Toml → Option String
  | .string s => some s
  | .table _ [(word, value)] => if value.isVoid then some word else none
  | _ => none

end Toml

end ResourceQuery
