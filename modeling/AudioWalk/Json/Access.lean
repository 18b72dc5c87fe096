import AudioWalk.Json.Basic

/-!
# Typed access to JSON values

Numbers in a record are read in the way of streaming readers: the leading digits
that fit 64 bits make an integer, the digits behind them are dropped, and one
multiplication or division by a power of ten gives the number.  For up to fifteen
digits and small powers this is the nearest number; beyond that it may be a
neighbour of it.  Integers that fit 64 bits are exact until they are rounded.

A record is an object with known members, in any order and mixed with unknown
ones, or an array of the members' values in their order.
-/

namespace AudioWalk
namespace Json

def string? : Json → Option String
  | text ps => spelled? ps
  | _ => none

def list? : Json → Option (List Json)
  | array items => some items
  | _ => none

/-! ## Numbers -/

/-- Digits read behind `value`, as long as the result fits 64 bits, and the
digits that were not read. -/
def leading (value : Nat) : List Decimal.Digit → Nat × List Decimal.Digit
  | [] => (value, [])
  | d :: ds =>
    if 10 * value + d.val < UInt64.size then leading (10 * value + d.val) ds else (value, d :: ds)

/-- The integer a numeral spells, sign apart, if it is written as one and fits
64 bits. -/
def integer? (n : Decimal.Numeral) : Option Nat :=
  if n.isInteger then
    let v := Decimal.value n.whole
    if v < UInt64.size then some v else none
  else none

/-- Divides by a power of ten in steps that have one as a double. -/
def shrink (x : Float) (power : Nat) : Float :=
  if power ≤ 308 then x / Float.ofScientific 1 false power
  else if x == 0 then x
  else shrink (x / Float.ofScientific 1 false 308) (power - 308)
termination_by power

/-- Scales a double by a power of ten.  A number that is too large is none. -/
def scaleBy? (x : Float) (power : Int) : Option Float :=
  if power < 0 then some (shrink x power.natAbs)
  else if power ≤ 308 then
    let y := x * Float.ofScientific 1 false power.toNat
    if y.isInf then none else some y
  else if x == 0 then some x
  else none

/-- The size of a numeral as a double. -/
def magnitude? (n : Decimal.Numeral) : Option Float :=
  match integer? n with
  | some v => some (Float.ofNat v)
  | none =>
    let (head, dropped) := leading 0 n.whole
    let (all, unread) := leading head n.fraction
    let read := n.fraction.length - unread.length
    scaleBy? (Float.ofNat all) (n.exponent?.getD 0 + dropped.length - read)

def numeral? : Json → Option Decimal.Numeral
  | number n => some n
  | _ => none

/-- A double; integers are numbers too. -/
def float? (j : Json) : Option Float := do
  let n ← numeral? j
  let x ← magnitude? n
  return if n.negative then -x else x

/-- Whether a numeral is read as an integer: it fits 64 bits, unsigned without a
sign, and otherwise in two's complement and not zero. -/
def isWord (n : Decimal.Numeral) : Bool :=
  match integer? n with
  | some v => !n.negative || (0 < v && Int64.minValue.toInt ≤ -(v : Int))
  | none => false

/-- A single.  An integer is rounded once, any other number by way of a double. -/
def float32? (j : Json) : Option Float32 := do
  let n ← numeral? j
  if isWord n then
    let x := Float32.ofNat (Decimal.value n.whole)
    return if n.negative then -x else x
  else (float? j).map Float.toFloat32

/-- A natural number that fits 32 bits, written as an integer without a sign. -/
def uint32? (j : Json) : Option UInt32 := do
  let n ← numeral? j
  let v ← integer? n
  if !n.negative && v < UInt32.size then some (UInt32.ofNat v) else none

/-! ## Records -/

/-- The values of the members of a record that are known by name.  Every name
must be spelled in characters, and no known name may come twice. -/
def members? (names : List String) : Json → Option (List (String × Json))
  | array items => if items.length ≤ names.length then some (names.zip items) else none
  | object members => do
    let named ← members.mapM fun (name, value) => (spelled? name).map (·, value)
    let known := named.filter fun (name, _) => names.contains name
    if (known.map Prod.fst).Nodup then some known else none
  | _ => none

/-- A member that must be there. -/
def required? {α : Type} (members : List (String × Json)) (name : String)
    (read? : Json → Option α) : Option α :=
  (members.lookup name).bind read?

/-- A member that may be missing, but must be right where it is there. -/
def optional? {α : Type} (members : List (String × Json)) (name : String)
    (read? : Json → Option α) (default : α) : Option α :=
  match members.lookup name with
  | some j => read? j
  | none => some default

end Json
end AudioWalk
