import ResourceQuery.Value.Heap

/-! # Traits of values

What of a value decides where to look for values that are equal to it: its kind and content, as a sequence
of traits. Equal values have the same traits. Of an object only the type is told, so that no field is looked
at and no cycle is followed; of a reference only that it is one.

A digest makes one word of the traits. Values with different digests are not equal; values with the same
digest may or may not be.
-/

namespace ResourceQuery

/-- Something that is told of a value. -/
inductive Trait where
  | kind (name : String)
  | bool (b : Bool)
  | int (n : Int64)
  | bits (word : UInt64)
  | text (s : String)
  | instant (nanoseconds : Int)
  | length (n : Nat)
  | type (id : TypeId)
  deriving DecidableEq

namespace Value

/-- The bits of a float; both zeros have the same. -/
def floatBits (x : Float) : UInt64 :=
  if x == 0 then (0 : Float).toBits else x.toBits

mutual

/-- What is told of a value: its kind, and what it holds. -/
def traits (h : Heap) (v : Value) : List Trait :=
  .kind v.kindName ::
    match v with
    | .null => []
    | .bool b => [.bool b]
    | .int n => [.int n]
    | .float x => [.bits (floatBits x)]
    | .string s => [.text s]
    | .dateTime t => [.instant t.instant]
    | .enum member => [.text member]
    | .list items => .length items.length :: itemTraits h items
    | .map entries => entryTraits h entries
    | .object id => [.type (h.typeOf id)]
    | .group key _ => traits h key
    | .reference _ => []

/-- What is told of values, one after another. -/
def itemTraits (h : Heap) : List Value → List Trait
  | [] => []
  | v :: rest => traits h v ++ itemTraits h rest

/-- What is told of a dictionary: keys and values, one after another. -/
def entryTraits (h : Heap) : List (String × Value) → List Trait
  | [] => []
  | (key, v) :: rest => .text key :: traits h v ++ entryTraits h rest

end

end Value

namespace Trait

/-! ## Digests -/

/-- A digest with one more word in it. -/
def mix (digest word : UInt64) : UInt64 :=
  ((digest <<< 5 ||| digest >>> 59) ^^^ word) * 0x517cc1b727220a95

/-- A text as a word. -/
def textWord (s : String) : UInt64 :=
  s.toList.foldl (fun digest c => mix digest c.val.toUInt64) 0xff

/-- A trait as a word. -/
def word : Trait → UInt64
  | .kind name => textWord name
  | .bool b => if b then 1 else 0
  | .int n => n.toUInt64
  | .bits word => word
  | .text s => textWord s
  | .instant nanoseconds => (Int64.ofInt nanoseconds).toUInt64
  | .length n => UInt64.ofNat n
  | .type id => UInt64.ofNat id.index

/-- The digest of traits. -/
def digest (traits : List Trait) : UInt64 :=
  traits.foldl (fun digest trait => mix digest trait.word) 0

end Trait

end ResourceQuery
