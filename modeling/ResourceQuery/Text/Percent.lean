import ResourceQuery.Text.Basic

/-! # Percent-encoding

Texts inside URIs: the UTF-8 bytes outside a chosen set are written as `%` and two capital hexadecimal
digits. Each place where a text enters a URI has a set of its own, so the set is a parameter; bytes
outside ASCII are always encoded. Decoding takes `%` and two hexadecimal digits of either case as a
byte and leaves every other `%` as it stands.
-/

namespace ResourceQuery

namespace Percent

/-- The UTF-8 bytes of `s`. -/
def bytes (s : String) : List UInt8 :=
  s.toByteArray.data.toList

/-- The capital hexadecimal digit of `n`, for `n < 16`. -/
def hexDigit (n : Nat) : Char :=
  Char.ofNat (if n < 10 then 48 + n else 55 + n)

/-- The value of a hexadecimal digit of either case. -/
def hexValue? (b : UInt8) : Option Nat :=
  let n := b.toNat
  if 48 ≤ n ∧ n ≤ 57 then some (n - 48)
  else if 65 ≤ n ∧ n ≤ 70 then some (n - 55)
  else if 97 ≤ n ∧ n ≤ 102 then some (n - 87)
  else none

/-! ## Encoding -/

/-- One byte, as itself if `keep` holds it and as an escape if not. -/
def encodeByte (keep : Char → Bool) (b : UInt8) : List Char :=
  if b.toNat < 128 && keep (Char.ofNat b.toNat) then [Char.ofNat b.toNat]
  else ['%', hexDigit (b.toNat / 16), hexDigit (b.toNat % 16)]

/-- `s` with all but the ASCII characters in `keep` escaped. -/
def encode (keep : Char → Bool) (s : String) : String :=
  String.ofList ((bytes s).flatMap (encodeByte keep))

/-- What a path segment keeps: printable ASCII other than blank, quote, `# % / < > ?`, backtick and braces. -/
def keptInSegment (c : Char) : Bool :=
  33 ≤ c.toNat && c.toNat ≤ 126 &&
    !List.contains ['"', '#', '%', '/', '<', '>', '?', '\x60', '\x7b', '\x7d'] c

/-- What the value of a query parameter keeps: ASCII letters and digits and `- _ . ~ $ , : ( ) ' /`. -/
def keptInQueryValue (c : Char) : Bool :=
  c.isAlphanum || ['-', '_', '.', '~', '$', ',', ':', '(', ')', '\'', '/'].contains c

/-- What is kept where nothing but ASCII letters and digits is. -/
def keptAlphanumeric (c : Char) : Bool :=
  c.isAlphanum

/-! ## Decoding -/

/-- The bytes that an escaped byte string stands for. -/
def decodeBytes : List UInt8 → List UInt8
  | 37 :: hi :: lo :: rest =>
    match hexValue? hi, hexValue? lo with
    | some h, some l => UInt8.ofNat (16 * h + l) :: decodeBytes rest
    | _, _ => 37 :: decodeBytes (hi :: lo :: rest)
  | b :: rest => b :: decodeBytes rest
  | [] => []

/-- The text that `s` stands for, if its bytes are UTF-8. -/
def decode? (s : String) : Option String :=
  String.fromUTF8? ⟨(decodeBytes (bytes s)).toArray⟩

end Percent

end ResourceQuery
