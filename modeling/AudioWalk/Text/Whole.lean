/-!
# Whole numbers in text

A run of digits in a base of at most sixteen is read from the left, `10 * value
+ digit` at each step.  Two spellings carry a sign: a natural number may open
with a plus, an integer with a plus or a minus.  A bound on the value is the
caller's to check, and a run of any length is read exactly.
-/

namespace AudioWalk
namespace Text

/-- The value of a digit, in bases up to sixteen; letters of either case stand
for ten to fifteen. -/
def digitValue? (base : Nat) (c : Char) : Option Nat :=
  let value? : Option Nat :=
    if '0' ≤ c ∧ c ≤ '9' then some (c.toNat - '0'.toNat)
    else if 'a' ≤ c ∧ c ≤ 'f' then some (c.toNat - 'a'.toNat + 10)
    else if 'A' ≤ c ∧ c ≤ 'F' then some (c.toNat - 'A'.toNat + 10)
    else none
  value?.filter (· < base)

/-- Reads digits behind a part that has been read to `value` already. -/
def digitsFrom? (base value : Nat) : List Char → Option Nat
  | [] => some value
  | c :: cs => (digitValue? base c).bind fun d => digitsFrom? base (base * value + d) cs

/-- A run of one or more digits. -/
def digits? (base : Nat) (cs : List Char) : Option Nat :=
  if cs = [] then none else digitsFrom? base 0 cs

/-- A natural number: digits, behind a plus or behind nothing. -/
def natural? (base : Nat) : List Char → Option Nat
  | '+' :: cs => digits? base cs
  | cs => digits? base cs

/-- An integer in base ten: digits, behind a plus, a minus or nothing. -/
def integer? : List Char → Option Int
  | '-' :: cs => (digits? 10 cs).map fun n => -(n : Int)
  | cs => (natural? 10 cs).map Int.ofNat

/-- A natural number that fits 32 bits. -/
def uint32? (cs : List Char) : Option UInt32 :=
  (natural? 10 cs).bind fun n => if n < UInt32.size then some (UInt32.ofNat n) else none

/-- An integer that fits 64 bits in two's complement. -/
def int64? (cs : List Char) : Option Int64 :=
  (integer? cs).bind fun i =>
    if Int64.minValue.toInt ≤ i ∧ i ≤ Int64.maxValue.toInt then some (Int64.ofInt i) else none

end Text
end AudioWalk
