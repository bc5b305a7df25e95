import ResourceQuery.Text.Basic
import ResourceQuery.Number.Shortest
import ResourceQuery.Number.Word

/-! # Numbers as texts

How the library reads and writes numbers in texts for people: query strings, type names, messages.
Whole numbers are plain decimal digits. A float is written with the fewest digits that read back,
never with an exponent and without a decimal point when it is whole.
-/

namespace ResourceQuery

namespace Decimal

/-! ## Whole numbers -/

/-- The number written by `digits`, read after the number `start`. -/
def valueFrom (start : Nat) (digits : List Char) : Nat :=
  digits.foldl (fun n c => 10 * n + (c.toNat - 48)) start

/-- The number that a nonempty run of digits writes. -/
def natural? (cs : List Char) : Option Nat :=
  if !cs.isEmpty && cs.all Char.isDigit then some (valueFrom 0 cs) else none

/-- The natural number in `s`, which may carry a plus sign, if it is below `2 ^ 64`. -/
def uint64? (s : String) : Option UInt64 :=
  let digits :=
    match s.toList with
    | '+' :: rest => rest
    | cs => cs
  (natural? digits).bind Word.uint64?

/-- The whole number in `s`, which may carry a sign, if it fits into 64 bits. -/
def int64? (s : String) : Option Int64 :=
  match s.toList with
  | '-' :: rest => (natural? rest).bind fun n => Word.int64? (-n)
  | '+' :: rest => (natural? rest).bind fun n => Word.int64? n
  | cs => (natural? cs).bind fun n => Word.int64? n

/-- Decimal digits of `n`. -/
def naturalText (n : Nat) : String :=
  String.ofList (Nat.toDigits 10 n)

/-- Decimal digits of `n`, after a minus sign if it is negative. -/
def intText (n : Int) : String :=
  match n with
  | .ofNat m => naturalText m
  | .negSucc m => "-" ++ naturalText (m + 1)

/-! ## Floats -/

/-- Positional notation of `digits * 10 ^ exponent`. -/
def positional (digits : Nat) (exponent : Int) : String :=
  let cs := Nat.toDigits 10 digits
  let point : Int := cs.length + exponent
  if 0 ≤ exponent then String.ofList (cs ++ List.replicate exponent.toNat '0')
  else if 0 < point then
    String.ofList (cs.take point.toNat ++ '.' :: cs.drop point.toNat)
  else String.ofList ('0' :: '.' :: (List.replicate (-point).toNat '0' ++ cs))

/-- The text of a float: shortest digits, positional, a tie going up. -/
def floatText (x : Float) : String :=
  match Binary64.ofFloat x with
  | .nan => "NaN"
  | .infinite negative => if negative then "-inf" else "inf"
  | .finite negative mantissa exponent =>
    let sign := if negative then "-" else ""
    if mantissa = 0 then sign ++ "0"
    else
      let (digits, k) := Shortest.decimal .up mantissa exponent
      sign ++ positional digits k

/-- Splits the digits at the start of `cs` from the rest. -/
def spanDigits (cs : List Char) : List Char × List Char :=
  (cs.takeWhile Char.isDigit, cs.dropWhile Char.isDigit)

/-- The exponent that `cs` writes after its `e`: nothing, or a sign and at least one digit. -/
def exponent? : List Char → Option Int
  | [] => some 0
  | e :: rest =>
    if e = 'e' ∨ e = 'E' then
      match rest with
      | '-' :: ds => (natural? ds).map fun n => -(n : Int)
      | '+' :: ds => (natural? ds).map fun n => (n : Int)
      | ds => (natural? ds).map fun n => (n : Int)
    else none

/-- The float nearest to `digits * 10 ^ exponent`, where `count` digits were written. Beyond 400 powers
of ten on either side the result no longer changes. -/
def clamped (negative : Bool) (digits count : Nat) (exponent : Int) : Float :=
  Binary64.ofDecimal negative digits (max (-(count : Int) - 400) (min 400 exponent))

/-- The float that unsigned digits, a point and an exponent write; at least one digit must stand beside
the point. -/
def unsignedFloat? (negative : Bool) (cs : List Char) : Option Float :=
  let (whole, afterWhole) := spanDigits cs
  let (fraction, rest) :=
    match afterWhole with
    | '.' :: more => spanDigits more
    | _ => ([], afterWhole)
  if whole.isEmpty && fraction.isEmpty then none
  else
    (exponent? rest).map fun e =>
      clamped negative (valueFrom 0 (whole ++ fraction)) (whole.length + fraction.length)
        (e - fraction.length)

/-- The float in `s`: an optional sign before digits, `inf`, `infinity` or `nan` in any case. -/
def float? (s : String) : Option Float :=
  let (negative, cs) :=
    match s.toList with
    | '-' :: rest => (true, rest)
    | '+' :: rest => (false, rest)
    | cs => (false, cs)
  match Text.asciiLower (String.ofList cs) with
  | "inf" => some (Binary64.infinity negative)
  | "infinity" => some (Binary64.infinity negative)
  | "nan" => some (Binary64.notANumber negative)
  | _ => unsignedFloat? negative cs

end Decimal

end ResourceQuery
