import ResourceQuery.Error
import ResourceQuery.Value.Basic

/-! # Sums and extremes

What a column of values adds up to, and its least and greatest value. Nulls do not count. A sum stays
whole until the first float, and a whole sum that leaves 64 bits is an error at once.
-/

namespace ResourceQuery

namespace Value

/-- A running sum. -/
inductive Total where
  | whole (n : Int64)
  | float (x : Float)

/-- The sum so far as a value. -/
def Total.value : Total → Value
  | .whole n => .int n
  | .float x => .float x

/-- Adds one value to a running sum. -/
def addTo (total : Total) (value : Value) : Except Error Total :=
  match value, total with
  | .null, total => .ok total
  | .int n, .whole m =>
    match Word.int64? (m.toInt + n.toInt) with
    | some sum => .ok (.whole sum)
    | none => .error (.invalidQuery (.overflow "sum"))
  | .int n, .float x => .ok (.float (x + n.toFloat))
  | .float y, .whole m => .ok (.float (m.toFloat + y))
  | .float y, .float x => .ok (.float (x + y))
  | other, _ => .error (.invalidQuery (.sumOperand other.kindName))

/-- The sum of `values`; zero if there are none. -/
def sum (values : List Value) : Except Error Value :=
  (values.foldlM addTo (.whole 0)).map Total.value

/-- The better of `best` and `value`: the one that is `wanted` relative to the other, the earlier of
equal ones. -/
def better (wanted : Ordering) (best value : Value) : Except Error Value :=
  match value.compare best with
  | some order => .ok (if order = wanted then value else best)
  | none => .error (.invalidQuery (.incomparable value.kindName best.kindName))

/-- The least (`.lt`) or greatest (`.gt`) of `values` that are not null; null if there is none. -/
def extreme (wanted : Ordering) (values : List Value) : Except Error Value :=
  match values.filter (!·.isNull) with
  | [] => .ok .null
  | first :: rest => rest.foldlM (better wanted) first

end Value

end ResourceQuery
