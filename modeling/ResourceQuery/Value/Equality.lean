import ResourceQuery.Value.Heap

/-! # Equality of values

Two values are equal if they look the same from outside, however they are shared: scalars by content,
collections item by item, objects by type and fields, where a field that was never set counts as null.
Objects may form cycles, so a pair of objects that is already being compared counts as equal; a
difference further on is found on another way.

`looselyEqual` adds that a whole number equals a float of the same size and an enum member equals a
string of the same text.
-/

namespace ResourceQuery

namespace Value

mutual

/-- Equality of values, given when two objects are the same. -/
def equalBy (same : ObjectId → ObjectId → Bool) : Value → Value → Bool
  | .null, .null => true
  | .bool a, .bool b => a == b
  | .int a, .int b => a == b
  | .float x, .float y => x == y
  | .string a, .string b => a == b
  | .enum a, .enum b => a == b
  | .dateTime s, .dateTime t => s.sameInstant t
  | .list xs, .list ys => equalItems same xs ys
  | .map xs, .map ys => equalEntries same xs ys
  | .object x, .object y => same x y
  | .group k xs, .group l ys => equalBy same k l && equalItems same xs ys
  | .reference r, .reference s => r.uri == s.uri && r.target == s.target
  | _, _ => false

/-- Equality item by item. -/
def equalItems (same : ObjectId → ObjectId → Bool) : List Value → List Value → Bool
  | [], [] => true
  | x :: xs, y :: ys => equalBy same x y && equalItems same xs ys
  | _, _ => false

/-- Equality of dictionaries, key by key. -/
def equalEntries (same : ObjectId → ObjectId → Bool) :
    List (String × Value) → List (String × Value) → Bool
  | [], [] => true
  | (k, x) :: xs, (l, y) :: ys => k == l && equalBy same x y && equalEntries same xs ys
  | _, _ => false

end

/-- Whether each field of `xs` equals the field of that name in `ys`. -/
def covers (same : ObjectId → ObjectId → Bool) (xs ys : Entries Value) : Bool :=
  xs.all fun (name, x) => equalBy same x ((Entries.get? name ys).getD .null)

end Value

namespace Heap

/-- Equality of objects. The pairs in `seen` are being compared; each step adds a pair, so the number
of pairs bounds the steps. -/
def sameObjects (h : Heap) : (fuel : Nat) → (seen : List (ObjectId × ObjectId)) →
    ObjectId → ObjectId → Bool
  | 0, _, _, _ => true
  | fuel + 1, seen, x, y =>
    if x = y ∨ (x, y) ∈ seen then true
    else
      let same := sameObjects h fuel ((x, y) :: seen)
      let a := h.record x
      let b := h.record y
      a.type == b.type && Value.covers same a.fields b.fields && Value.covers same b.fields a.fields

/-- Equality of values over the heap. -/
def equal (h : Heap) (a b : Value) : Bool :=
  Value.equalBy (h.sameObjects (h.records.size * h.records.size + 1) []) a b

/-- Equality up to the kind of numbers and the kind of texts. -/
def looselyEqual (h : Heap) (a b : Value) : Bool :=
  match a, b with
  | .int _, .float _ | .float _, .int _ | .string _, .enum _ | .enum _, .string _ =>
    Value.compare a b == some .eq
  | _, _ => h.equal a b

end Heap

end ResourceQuery
