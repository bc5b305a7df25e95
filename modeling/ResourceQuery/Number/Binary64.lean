/-! # Binary floating point, exactly

A binary64 number is taken apart into a sign, a mantissa and a power of two, and put together again
from any ratio of natural numbers by rounding to the nearest, halves to even. All of it is arithmetic
on natural numbers: `Float.toBits` and `Float.ofBits` are the only doors to the machine's numbers.
-/

namespace ResourceQuery

/-- What a binary64 number is. A finite one is `mantissa * 2 ^ exponent`, up to its sign. -/
inductive Binary64 where
  | nan
  | infinite (negative : Bool)
  | finite (negative : Bool) (mantissa : Nat) (exponent : Int)
  deriving DecidableEq

namespace Binary64

/-- What the lowest bit of the exponent is worth, `2 ^ 52`. -/
def fractionUnit : Nat := 4503599627370496

/-- What the bit of the sign is worth, `2 ^ 63`. -/
def signUnit : Nat := 9223372036854775808

/-- Least exponent of a finite number's mantissa. -/
def minExponent : Int := -1074

/-- Takes a float apart. The mantissa of a normal number has 53 bits. -/
def ofFloat (x : Float) : Binary64 :=
  let bits := x.toBits.toNat
  let negative := bits / signUnit % 2 == 1
  let exponent : Nat := bits / fractionUnit % 2048
  let fraction : Nat := bits % fractionUnit
  if exponent = 2047 then
    if fraction = 0 then .infinite negative else .nan
  else if exponent = 0 then .finite negative fraction minExponent
  else .finite negative (fractionUnit + fraction) ((exponent : Int) - 1075)

/-- The whole number nearest to `num / den`, a half going to the even neighbour. -/
def roundHalfEven (num den : Nat) : Nat :=
  let quotient := num / den
  let twice := 2 * (num % den)
  if twice < den then quotient
  else if den < twice then quotient + 1
  else quotient + quotient % 2

/-- The float with the given sign bit, biased exponent and fraction. -/
def assemble (negative : Bool) (biased fraction : Nat) : Float :=
  Float.ofBits (UInt64.ofNat ((if negative then signUnit else 0) + biased * fractionUnit + fraction))

/-- The infinite float of a sign. -/
def infinity (negative : Bool) : Float :=
  assemble negative 2047 0

/-- The quiet float that is no number, with a sign. -/
def notANumber (negative : Bool) : Float :=
  assemble negative 2047 (fractionUnit / 2)

/-- The float nearest to `num / den`, for `0 < den`. The ratio is scaled so that its whole part has 53
bits, or by the least exponent if that is larger; a rounding that reaches 54 bits carries into the
exponent by itself, because fraction and exponent stand side by side in the bits. -/
def nearest (negative : Bool) (num den : Nat) : Float :=
  if num = 0 then assemble negative 0 0
  else
    let guess : Int := (num.log2 : Int) - den.log2 - 52
    let scaled (e : Int) : Nat × Nat :=
      if e < 0 then (num * Nat.pow 2 (-e).toNat, den) else (num, den * Nat.pow 2 e.toNat)
    let exponent :=
      let (n, d) := scaled guess
      max minExponent (if n / d < fractionUnit then guess - 1 else guess)
    let (n, d) := scaled exponent
    let mantissa := roundHalfEven n d
    let biased := exponent - minExponent
    if 2046 ≤ biased then infinity negative
    else
      let bits := biased.toNat * fractionUnit + mantissa
      if 2047 * fractionUnit ≤ bits then infinity negative
      else assemble negative 0 bits

/-- The float nearest to `digits * 10 ^ exponent`. -/
def ofDecimal (negative : Bool) (digits : Nat) (exponent : Int) : Float :=
  if exponent < 0 then nearest negative digits (Nat.pow 10 (-exponent).toNat)
  else nearest negative (digits * Nat.pow 10 exponent.toNat) 1

/-- The remainder of a division that rounds toward zero; it has the sign of the dividend. -/
def remainder (a b : Float) : Float :=
  match ofFloat a, ofFloat b with
  | .finite negative m e, .finite _ n f =>
    if n = 0 then 0.0 / 0.0
    else
      let least := min e f
      let left := m * Nat.pow 2 (e - least).toNat
      let right := n * Nat.pow 2 (f - least).toNat
      let rest := left % right
      if least < 0 then nearest negative rest (Nat.pow 2 (-least).toNat)
      else nearest negative (rest * Nat.pow 2 least.toNat) 1
  | .finite .., .infinite _ => a
  | _, _ => 0.0 / 0.0

end Binary64

end ResourceQuery
