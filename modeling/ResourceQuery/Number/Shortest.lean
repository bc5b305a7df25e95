import ResourceQuery.Number.Binary64

/-! # Shortest decimals

The fewest decimal digits that read back as a given binary64 number, and among those the nearest to
it. `Shortest.decimal` finds them; a `Tie` says which way an exact tie goes, because the two formats
of this library differ there: a number in a text for people rounds a tie up, a number in a document
rounds it to the even digit.
-/

namespace ResourceQuery

namespace Shortest

/-- Where a value in the middle of two candidates goes. -/
inductive Tie where
  | up
  | toEven

/-- The candidate nearer to `value` of `floor * step` and `(floor + 1) * step`, where each may be
missing. -/
def choose (tie : Tie) (value step floor : Nat) (lowHit highHit : Bool) : Option Nat :=
  match lowHit, highHit with
  | true, true =>
    let below := value - floor * step
    let above := (floor + 1) * step - value
    if below < above then some floor
    else if above < below then some (floor + 1)
    else
      match tie with
      | .up => some (floor + 1)
      | .toEven => some (if floor % 2 = 0 then floor else floor + 1)
  | true, false => some floor
  | false, true => some (floor + 1)
  | false, false => none

/-- The best multiple of `step` among those that read back as the number `value`, whose interval goes
from `value - below` to `value + above`, ends included iff `closed`. All four are on one scale. -/
def onGrid (tie : Tie) (value below above step : Nat) (closed : Bool) : Option Nat :=
  let floor := value / step
  let low := floor * step
  let high := (floor + 1) * step
  let lowHit := if closed then value ≤ low + below else value < low + below
  let highHit := if closed then high ≤ value + above else high < value + above
  choose tie value step floor (lowHit && 0 < floor) highHit

/-- The first grid `10 ^ k`, from `k` downward, that holds a number reading back as `value`. The scale
is `2 ^ two * 10 ^ ten`, which makes all quantities whole. -/
def search (tie : Tie) (mantissa below above : Nat) (two : Int) (closed : Bool) :
    Nat → Int → Nat × Int
  | 0, k => (mantissa, k)
  | fuel + 1, k =>
    let up := two.toNat
    let down := (-two).toNat
    let tenUp := k.toNat
    let tenDown := (-k).toNat
    let scale := Nat.pow 2 up * Nat.pow 10 tenDown
    let step := Nat.pow 2 down * Nat.pow 10 tenUp
    match onGrid tie (mantissa * scale) (below * scale) (above * scale) step closed with
    | some digits => (digits, k)
    | none => search tie mantissa below above two closed fuel (k - 1)

/-- Digits and power of ten of the shortest decimal of `mantissa * 2 ^ exponent`, for
`0 < mantissa`. The lower neighbour of a power of two is only half as far away. -/
def decimal (tie : Tie) (mantissa : Nat) (exponent : Int) : Nat × Int :=
  let narrow := mantissa = Binary64.fractionUnit ∧ Binary64.minExponent < exponent
  let start := ((mantissa.log2 + exponent + 1) * 30103) / 100000 + 1
  search tie (4 * mantissa) (if narrow then 1 else 2) 2 (exponent - 2) (mantissa % 2 = 0) 25 start

end Shortest

end ResourceQuery
