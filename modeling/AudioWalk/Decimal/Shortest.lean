import AudioWalk.Decimal.Binary
import AudioWalk.Decimal.Numeral

/-!
# The decimal text of a binary number

A number is written with the fewest digits that read back to it, and of those
the nearest to it.  The numbers that read back to it form an interval around
it, reaching half way to its two neighbours; the ends belong to it if its
significand is even.  For each count of digits the two decimal neighbours of the
number on that grid are tried, so the first grid that meets the interval gives
the digits.

`fixed` writes a number with a set count of places behind the point instead.
-/

namespace AudioWalk
namespace Decimal

/-- An integer times a power of ten. -/
structure Scaled where
  significand : Nat
  exponent : Int
deriving DecidableEq, Repr

/-- The interval of the reals that round to a number, all over one denominator. -/
structure Interval where
  low : Nat
  middle : Nat
  high : Nat
  denominator : Nat
  closed : Bool

/-- Half way to the neighbours; at an edge the lower half is half as wide. -/
def Dyadic.interval (d : Dyadic) : Interval :=
  let (unit, denominator) := ({ d with significand := 1 } : Dyadic).ratio
  { low := (4 * d.significand - if d.edge then 1 else 2) * unit
    middle := 4 * d.significand * unit
    high := (4 * d.significand + 2) * unit
    denominator := 4 * denominator
    closed := d.significand % 2 = 0 }

/-- The quotient rounded to the nearest integer, ties to even. -/
def roundDiv (numerator denominator : Nat) : Nat :=
  let q := numerator / denominator
  let r := numerator % denominator
  if 2 * r < denominator ∨ (2 * r = denominator ∧ q % 2 = 0) then q else q + 1

namespace Interval

/-- Numerator and denominator of a power of ten. -/
def power (k : Int) : Nat × Nat := if 0 ≤ k then (tenTo k.toNat, 1) else (1, tenTo (-k).toNat)

/-- Whether `c * 10 ^ k` reads back to the number. -/
def contains (i : Interval) (c : Nat) (k : Int) : Bool :=
  let (p, q) := power k
  let x := c * p * i.denominator
  if i.closed then i.low * q ≤ x && x ≤ i.high * q else i.low * q < x && x < i.high * q

/-- The nearer of the two grid points around the number that read back to it. -/
def onGrid? (i : Interval) (k : Int) : Option Scaled :=
  let (p, q) := power k
  let below := i.middle * q / (p * i.denominator)
  let near := roundDiv (i.middle * q) (p * i.denominator)
  let far := if near = below then below + 1 else below
  let pick (c : Nat) : Option Scaled := if i.contains c k then some ⟨c, k⟩ else none
  (pick near).or (pick far)

/-- The power of ten of the first digit of the number. -/
def magnitude (i : Interval) : Int :=
  if i.denominator ≤ i.middle then (digitsOf (i.middle / i.denominator)).length - 1
  else -((digitsOf ((i.denominator - 1) / i.middle)).length : Int)

end Interval

/-- Takes zeros off the end of a significand. -/
def Scaled.strip (fuel : Nat) (s : Scaled) : Scaled :=
  match fuel with
  | 0 => s
  | fuel + 1 =>
    if s.significand % 10 = 0 ∧ s.significand ≠ 0 then
      strip fuel ⟨s.significand / 10, s.exponent + 1⟩
    else s

/-- The shortest text of a finite number.  Seventeen digits are enough for every
format in use here. -/
def Dyadic.shortest (d : Dyadic) : Scaled :=
  if d.significand = 0 then ⟨0, 0⟩
  else
    let i := d.interval
    let found? := (List.range 17).findSome? fun (n : Nat) => i.onGrid? (i.magnitude - n)
    (found?.getD ⟨0, 0⟩).strip 17

/-- Which numbers are written without a power of ten: those whose first digit
stands for a power from `leastPower` to `greatestPower`. -/
structure Layout where
  leastPower : Int
  greatestPower : Int

/-- Doubles from `1e-5` up to, but not including, `1e16` are written out, with a
digit on both sides of the point. -/
def Layout.double : Layout := { leastPower := -5, greatestPower := 15 }

/-- Singles are written out from `1e-6` up to, but not including, `1e13`. -/
def Layout.single : Layout := { leastPower := -6, greatestPower := 12 }

/-- Digits with a set count of them behind the point, and at least one in front of it. -/
def Numeral.pointed (negative : Bool) (digits : List Digit) (places : Nat) : Numeral :=
  let padded := List.replicate (places + 1 - digits.length) Digit.zero ++ digits
  ⟨negative, padded.take (padded.length - places), padded.drop (padded.length - places), none⟩

/-- Lays the digits of a number out. -/
def Layout.numeral (l : Layout) (negative : Bool) (s : Scaled) : Numeral :=
  let digits := digitsOf s.significand
  let power : Int := digits.length - 1 + s.exponent
  if s.significand = 0 then ⟨negative, [Digit.zero], [Digit.zero], none⟩
  else if power < l.leastPower ∨ l.greatestPower < power then
    ⟨negative, digits.take 1, digits.drop 1, some power⟩
  else if 0 ≤ s.exponent then
    ⟨negative, digits ++ List.replicate s.exponent.toNat Digit.zero, [Digit.zero], none⟩
  else .pointed negative digits (-s.exponent).toNat

/-- A finite number rounded to a set count of places behind the point. -/
def Dyadic.fixed (places : Nat) (d : Dyadic) : Numeral :=
  let (numerator, denominator) := d.ratio
  .pointed d.negative (digitsOf (roundDiv (numerator * tenTo places) denominator)) places

/-- The standard text of a double; none for what has no digits. -/
def Numeral.ofFloat? (x : Float) : Option Numeral :=
  (Dyadic.ofFloat? x).map fun d => Layout.double.numeral d.negative d.shortest

/-- The standard text of a single; none for what has no digits. -/
def Numeral.ofFloat32? (x : Float32) : Option Numeral :=
  (Dyadic.ofFloat32? x).map fun d => Layout.single.numeral d.negative d.shortest

end Decimal
end AudioWalk
