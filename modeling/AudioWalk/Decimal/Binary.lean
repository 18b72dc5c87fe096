/-!
# Binary floating point, seen as integers

A finite number of a binary format is `significand * 2 ^ exponent`.  This view
gives its exact value, which is what the decimal texts of a number are chosen
by; no floating point operation is involved.
-/

namespace AudioWalk
namespace Decimal

/-- The widths of the fields of a format, below its sign bit. -/
structure Format where
  significandBits : Nat
  exponentBits : Nat

def Format.double : Format := { significandBits := 52, exponentBits := 11 }

def Format.single : Format := { significandBits := 23, exponentBits := 8 }

/-- A finite number.  At an `edge` the next smaller number of the format is only
half as far away as the next larger one. -/
structure Dyadic where
  negative : Bool
  significand : Nat
  exponent : Int
  edge : Bool
deriving DecidableEq, Repr

namespace Format

/-- The finite number with given bits; infinities and undefined values have none.
The leading bit of a significand is not stored, unless the exponent field is zero. -/
def dyadic? (f : Format) (bits : Nat) : Option Dyadic :=
  let leadingBit := 1 <<< f.significandBits
  let fieldCount := 1 <<< f.exponentBits
  let fraction := bits % leadingBit
  let field := bits / leadingBit % fieldCount
  let negative := 1 ≤ bits / leadingBit / fieldCount
  let least : Int := 2 - (fieldCount / 2 : Nat) - f.significandBits
  if field + 1 = fieldCount then none
  else if field = 0 then
    some { negative, significand := fraction, exponent := least, edge := false }
  else
    some { negative
           significand := fraction + leadingBit
           exponent := least + (field - 1)
           edge := fraction = 0 && 1 < field }

end Format

/-- A finite number as a fraction of natural numbers, without its sign. -/
def Dyadic.ratio (d : Dyadic) : Nat × Nat :=
  if 0 ≤ d.exponent then (d.significand <<< d.exponent.toNat, 1)
  else (d.significand, 1 <<< (-d.exponent).toNat)

def Dyadic.ofFloat? (x : Float) : Option Dyadic := Format.double.dyadic? x.toBits.toNat

def Dyadic.ofFloat32? (x : Float32) : Option Dyadic := Format.single.dyadic? x.toBits.toNat

end Decimal
end AudioWalk
