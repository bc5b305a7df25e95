import ResourceQuery.Text.Basic

/-! # Expansion

Which of the resources below a document's root are written inline: all of them, or those at certain
paths. To reach a path, a writer passes its prefixes, so they are in the set as well.
-/

namespace ResourceQuery

/-- A set of paths, whose names have no ASCII capitals. -/
inductive Expansion where
  | all
  | only (paths : List String)

namespace Expansion

/-- The expansion of nothing. -/
def none : Expansion := .only []

/-- The paths that lead along segments, from `lead` on. -/
def prefixes (lead : String) : List String → List String
  | [] => []
  | segment :: rest =>
    let next := if lead.isEmpty then segment else lead ++ "." ++ segment
    next :: prefixes next rest

/-- The prefixes of a path; empty names do not count. -/
def prefixesOf (path : String) : List String :=
  prefixes "" ((Text.splitOn '.' (Text.asciiLower path)).filter (!·.isEmpty))

/-- The expansion of paths and all their prefixes. -/
def ofPaths (paths : List String) : Expansion :=
  .only (paths.flatMap prefixesOf)

/-- Whether resources at `path` are written inline. -/
def contains (e : Expansion) (path : String) : Bool :=
  match e with
  | .all => true
  | .only paths => paths.contains (Text.asciiLower path)

end Expansion

end ResourceQuery
