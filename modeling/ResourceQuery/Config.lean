import ResourceQuery.Error
import ResourceQuery.Toml.Reader

/-! # Configuration

Limits of the query reader, sizes of pages, and the URI that resources are addressed from.
-/

namespace ResourceQuery

/-- Settings that queries, documents and clients share. -/
structure Config where
  /-- How many rows a listing has that asks for no number. -/
  defaultPageSize : Option UInt64
  /-- How many rows a listing has at most. -/
  maxPageSize : Option UInt64
  /-- How deep an expression may be nested. -/
  maxExpressionDepth : Nat
  /-- How many bytes a query string may have. -/
  maxQueryLength : Nat
  /-- How many parsed query strings are kept. -/
  queryCacheCapacity : Nat
  /-- What stands before the path of a resource. -/
  baseUri : String
  deriving DecidableEq

namespace Config

/-- No page sizes and moderate limits. -/
def standard : Config :=
  { defaultPageSize := none, maxPageSize := none, maxExpressionDepth := 256,
    maxQueryLength := 8192, queryCacheCapacity := 128, baseUri := "/" }

/-- Pages and tight limits, for strangers. -/
def strict : Config :=
  { standard with
    defaultPageSize := some 100
    maxPageSize := some 1000
    maxExpressionDepth := 64
    maxQueryLength := 4096
    queryCacheCapacity := 256 }

/-- Wide limits and no cache, for tools. -/
def permissive : Config :=
  { standard with
    maxExpressionDepth := 1024
    maxQueryLength := 1024 * 1024
    queryCacheCapacity := 0 }

/-- The number of rows of a listing that asks for `requested`; `none` is no limit. -/
def effectiveTop (config : Config) (requested : Option UInt64) : Option UInt64 :=
  match requested.or config.defaultPageSize, config.maxPageSize with
  | some top, some most => some (min top most)
  | none, some most => some most
  | top, none => top

/-! ## Files -/

/-- The configuration with one key of a file set. -/
def set? (config : Config) (key : String) (value : Toml) : Option Config :=
  match key with
  | "default_page_size" =>
    value.asNatural?.map fun n => { config with defaultPageSize := some (UInt64.ofNat n) }
  | "max_page_size" =>
    value.asNatural?.map fun n => { config with maxPageSize := some (UInt64.ofNat n) }
  | "max_expression_depth" => value.asNatural?.map fun n => { config with maxExpressionDepth := n }
  | "max_query_length" => value.asNatural?.map fun n => { config with maxQueryLength := n }
  | "query_cache_capacity" =>
    value.asNatural?.map fun n => { config with queryCacheCapacity := n }
  | "base_uri" => value.asString?.map fun s => { config with baseUri := s }
  | _ => none

/-- The configuration that a file writes; what it does not mention is standard, and a key that is not
one of a configuration is an error. -/
def parse (text : String) : Except Error Config :=
  let read := (Toml.parse? text).bind fun table =>
    table.foldlM (fun config (key, value) => config.set? key value) standard
  match read with
  | some config => .ok config
  | none => .error (.config .config)

end Config

end ResourceQuery
