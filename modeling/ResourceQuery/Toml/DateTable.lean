import ResourceQuery.Toml.Scalar

/-! # Dates written as tables

Where any value may stand, a date can also be written as a table with its text under `dateTimeKey`, the
form that `Toml.asTable?` gives to a date. Only the first key of a table counts: what follows it is
passed over, and in any other place the key is one like all others.
-/

namespace ResourceQuery

namespace Toml

/-- The date whose text stands under `dateTimeKey`. -/
def quotedDate? : Toml → Option Toml
  | .string text => (dateTime? .quoted text.toList).map .dateTime
  | _ => none

mutual

/-- The value with a date in place of each table that writes one; none if such a table does not hold
the text of a date. -/
def resolveDates? : Toml → Option Toml
  | .array items => (resolveItems? items).map .array
  | .tables items => (resolveItems? items).map .tables
  | .table origin entries =>
    match entries with
    | (key, value) :: rest =>
      if key = dateTimeKey then quotedDate? value
      else do
        let value ← resolveDates? value
        let rest ← resolveEntries? rest
        some (.table origin ((key, value) :: rest))
    | [] => some (.table origin [])
  | value => some value

/-- The items of an array, with dates in place of tables that write them. -/
def resolveItems? : List Toml → Option (List Toml)
  | [] => some []
  | item :: rest => do
    let item ← resolveDates? item
    let rest ← resolveItems? rest
    some (item :: rest)

/-- The entries of a table that is none of these, with dates in place of those in them. -/
def resolveEntries? : List (String × Toml) → Option (List (String × Toml))
  | [] => some []
  | (key, value) :: rest => do
    let value ← resolveDates? value
    let rest ← resolveEntries? rest
    some ((key, value) :: rest)

end

end Toml

end ResourceQuery
