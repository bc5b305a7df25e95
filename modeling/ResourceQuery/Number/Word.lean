/-! # Machine words

Whole numbers that fit into words of a fixed width. A document, a query and a configuration file may
all write numbers of any size; what a value holds is a word, and `int64?` and `uint64?` are the only
ways from the one to the other. They answer nothing for a number that does not fit, so no number is
ever wrapped around.
-/

namespace ResourceQuery

namespace Word

/-- One more than the greatest signed 32-bit number, `2 ^ 31`. -/
def int32Bound : Int := 2147483648

/-- One more than the greatest signed 64-bit number, `2 ^ 63`. -/
def int64Bound : Int := 9223372036854775808

/-- One more than the greatest unsigned 64-bit number, `2 ^ 64`. -/
def uint64Bound : Nat := 18446744073709551616

/-- Whether `n` fits into 32 bits with a sign. -/
def fitsInt32 (n : Int) : Bool :=
  -int32Bound ≤ n && n < int32Bound

/-- `n` as a signed 64-bit number, if it fits. -/
def int64? (n : Int) : Option Int64 :=
  if -int64Bound ≤ n ∧ n < int64Bound then some (Int64.ofInt n) else none

/-- `n` as an unsigned 64-bit number, if it fits. -/
def uint64? (n : Nat) : Option UInt64 :=
  if n < uint64Bound then some (UInt64.ofNat n) else none

end Word

end ResourceQuery
