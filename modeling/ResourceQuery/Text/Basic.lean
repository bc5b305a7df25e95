import ResourceQuery.Text.CharClass

/-! # Texts

Comparison of texts up to the case of ASCII letters, trimming, and splitting at a character. Names in
this library (types, properties, enum members, operators) are compared by `sameIgnoringCase`; letters
outside ASCII keep their case there.
-/

namespace ResourceQuery

namespace Text

/-! ## ASCII case -/

/-- `s` with its ASCII capitals made small. -/
def asciiLower (s : String) : String :=
  String.ofList (s.toList.map Char.toLower)

/-- Equality up to the case of ASCII letters. -/
def sameIgnoringCase (a b : String) : Bool :=
  a.toList.map Char.toLower == b.toList.map Char.toLower

theorem sameIgnoringCase_iff {a b : String} :
    sameIgnoringCase a b = true ↔ asciiLower a = asciiLower b := by
  simp [sameIgnoringCase, asciiLower, String.ofList_inj]

theorem sameIgnoringCase_refl (a : String) : sameIgnoringCase a a = true := by
  simp [sameIgnoringCase]

/-! ## Trimming -/

/-- `s` without the characters in `drop` at its start. -/
def trimStart (drop : Char → Bool) (s : String) : String :=
  String.ofList (s.toList.dropWhile drop)

/-- `s` without the characters in `drop` at its end. -/
def trimEnd (drop : Char → Bool) (s : String) : String :=
  String.ofList (s.toList.reverse.dropWhile drop).reverse

/-- `s` without the characters in `drop` at either end. -/
def trimBoth (drop : Char → Bool) (s : String) : String :=
  trimEnd drop (trimStart drop s)

/-- `s` without white space at either end. -/
def trim (s : String) : String :=
  trimBoth CharClass.isWhiteSpace s

/-- `s` without slashes at either end. -/
def trimSlashes (s : String) : String :=
  trimBoth (· == '/') s

/-- `s` without slashes at its end. -/
def trimEndSlashes (s : String) : String :=
  trimEnd (· == '/') s

/-- `s` after `lead`, if it starts with it. -/
def after? (lead s : String) : Option String :=
  if lead.toList.isPrefixOf s.toList then some (String.ofList (s.toList.drop lead.toList.length))
  else none

/-- Whether `s` starts with `lead`. -/
def startsWith (lead s : String) : Bool :=
  lead.toList.isPrefixOf s.toList

/-! ## Splitting -/

/-- The pieces of `cs` between the occurrences of `sep`; one more than there are occurrences. -/
def splitChars (sep : Char) : List Char → List (List Char)
  | [] => [[]]
  | c :: rest =>
    if c = sep then [] :: splitChars sep rest
    else
      match splitChars sep rest with
      | [] => [[c]]
      | piece :: pieces => (c :: piece) :: pieces

/-- The pieces of `s` between the occurrences of `sep`. -/
def splitOn (sep : Char) (s : String) : List String :=
  (splitChars sep s.toList).map String.ofList

/-- The parts of `s` before and after its first `sep`. -/
def splitOnce (sep : Char) (s : String) : Option (String × String) :=
  let lead := s.toList.takeWhile (· ≠ sep)
  match s.toList.dropWhile (· ≠ sep) with
  | [] => none
  | _ :: rest => some (String.ofList lead, String.ofList rest)

/-- `pieces` with `sep` between them. -/
def join (sep : String) : List String → String
  | [] => ""
  | [piece] => piece
  | piece :: rest => piece ++ sep ++ join sep rest

/-- Whether `needle` occurs in `hay`, and after how many characters it does first. -/
def indexOf? (needle : List Char) : List Char → Option Nat
  | [] => if needle.isEmpty then some 0 else none
  | c :: rest =>
    if needle.isPrefixOf (c :: rest) then some 0 else (indexOf? needle rest).map (· + 1)

/-- Whether `s` is written as an identifier: a letter or underscore, then letters, numerals and
underscores. -/
def isIdentifier (s : String) : Bool :=
  match s.toList with
  | [] => false
  | c :: rest => CharClass.isIdentifierStart c && rest.all CharClass.isIdentifierRest

/-- How many bytes `cs` takes. -/
def byteLength (cs : List Char) : Nat :=
  cs.foldr (fun c length => c.utf8Size + length) 0

/-- `s` filled up with blanks on the right to `width` characters. -/
def padRight (width : Nat) (s : String) : String :=
  s ++ String.ofList (List.replicate (width - s.length) ' ')

/-- `s` filled up with `fill` on the left to `width` characters. -/
def padLeft (fill : Char) (width : Nat) (s : String) : String :=
  String.ofList (List.replicate (width - s.length) fill) ++ s

end Text

end ResourceQuery
