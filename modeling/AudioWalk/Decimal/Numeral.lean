/-!
# Decimal numerals

A numeral is a number as it is written: sign, digits before and behind the
point, power of ten.  It keeps every digit, so the rule that turns it into a
number of some type is chosen where the number is used.

Attributes of a story are read by `Numeral.read?` and rounded once, to the
nearest number of the type (`Numeral.toFloat`, `Numeral.toFloat32`).
-/

namespace AudioWalk
namespace Decimal

abbrev Digit := Fin 10

def Digit.zero : Digit := ⟨0, by decide⟩

def Digit.ofChar? (c : Char) : Option Digit :=
  if h : '0' ≤ c ∧ c.toNat - '0'.toNat < 10 then some ⟨c.toNat - '0'.toNat, h.2⟩ else none

def Digit.char (d : Digit) : Char := Char.ofNat ('0'.toNat + d.val)

/-- The value of digits behind a part that has the value `value` already. -/
def valueFrom (value : Nat) (ds : List Digit) : Nat :=
  ds.foldl (fun v d => 10 * v + d.val) value

def value (ds : List Digit) : Nat := valueFrom 0 ds

/-- The power of ten with a zero for each of `k` places. -/
def tenTo (k : Nat) : Nat := Nat.pow 10 k

/-- The digits of a natural number, without leading zeros. -/
def digitsOf (n : Nat) : List Digit :=
  if n < 10 then [Fin.ofNat 10 n] else digitsOf (n / 10) ++ [Fin.ofNat 10 n]
termination_by n

/-- The digits a text opens with, and the rest of the text. -/
def spanDigits : List Char → List Digit × List Char
  | [] => ([], [])
  | c :: cs =>
    match Digit.ofChar? c with
    | some d => let (ds, rest) := spanDigits cs; (d :: ds, rest)
    | none => ([], c :: cs)

structure Numeral where
  negative : Bool
  whole : List Digit
  fraction : List Digit
  /-- The power of ten, if one is written. -/
  exponent? : Option Int
deriving DecidableEq, Repr

namespace Numeral

/-- An integer has neither a point nor a power of ten, whatever its value. -/
def isInteger (n : Numeral) : Bool := n.fraction.isEmpty && n.exponent?.isNone

/-- All digits as one integer. -/
def significand (n : Numeral) : Nat := value (n.whole ++ n.fraction)

/-- The power of ten that goes with `significand`. -/
def scale (n : Numeral) : Int := n.exponent?.getD 0 - n.fraction.length

def ofNat (n : Nat) : Numeral :=
  { negative := false, whole := digitsOf n, fraction := [], exponent? := none }

def ofInt (i : Int) : Numeral := { ofNat i.natAbs with negative := i < 0 }

/-- The text of a numeral.  A power of ten always shows its sign. -/
def chars (n : Numeral) : List Char :=
  (if n.negative then ['-'] else []) ++ n.whole.map Digit.char ++
    (if n.fraction.isEmpty then [] else '.' :: n.fraction.map Digit.char) ++
    match n.exponent? with
    | none => []
    | some e =>
      'e' :: (if e < 0 then '-' else '+') :: (digitsOf e.natAbs).map Digit.char

/-- A power of ten, signed or not; at least one digit must follow. -/
def power? : List Char → Option (Int × List Char)
  | '-' :: cs => digits cs fun n => -(n : Int)
  | '+' :: cs => digits cs Int.ofNat
  | cs => digits cs Int.ofNat
where
  digits (cs : List Char) (sign : Nat → Int) : Option (Int × List Char) :=
    let (ds, rest) := spanDigits cs
    if ds.isEmpty then none else some (sign (value ds), rest)

/-- The digits behind a point, if there is one. -/
def spanFraction : List Char → List Digit × List Char
  | '.' :: cs => spanDigits cs
  | cs => ([], cs)

/-- A power of ten, or nothing, at the end of a text. -/
def spanExponent? : List Char → Option (Option Int)
  | [] => some none
  | c :: cs =>
    if c = 'e' ∨ c = 'E' then
      match power? cs with
      | some (e, []) => some (some e)
      | _ => none
    else none

/-- A whole text without its sign.  There must be a digit on one side of the
point, and the point may open or end the digits. -/
def unsigned? (negative : Bool) (cs : List Char) : Option Numeral :=
  let (whole, afterWhole) := spanDigits cs
  let (fraction, afterFraction) := spanFraction afterWhole
  if whole.isEmpty && fraction.isEmpty then none
  else (spanExponent? afterFraction).map fun e => ⟨negative, whole, fraction, e⟩

end Numeral

/-- Splits a sign from a text.  No sign reads as a plus. -/
def spanSign : List Char → Bool × List Char
  | '-' :: cs => (true, cs)
  | '+' :: cs => (false, cs)
  | cs => (false, cs)

/-- A numeral that makes up a whole text. -/
def Numeral.read? (cs : List Char) : Option Numeral :=
  let (negative, cs) := spanSign cs
  unsigned? negative cs

/-- The nearest number in double precision; ties go to the even neighbour and
what is too large becomes infinite. -/
def Numeral.toFloat (n : Numeral) : Float :=
  let x := Float.ofScientific n.significand (n.scale < 0) n.scale.natAbs
  if n.negative then -x else x

/-- The nearest number in single precision, rounded from the numeral itself. -/
def Numeral.toFloat32 (n : Numeral) : Float32 :=
  let x := Float32.ofScientific n.significand (n.scale < 0) n.scale.natAbs
  if n.negative then -x else x

/-- The words for the numbers that have no digits. -/
inductive Special where
  | infinite (negative : Bool)
  | undefined
deriving DecidableEq, Repr

/-- Case does not matter in these words, and a sign may precede each. -/
def Special.read? (cs : List Char) : Option Special :=
  let (negative, cs) := spanSign cs
  let word := String.ofList (cs.map Char.toLower)
  if word = "inf" ∨ word = "infinity" then some (.infinite negative)
  else if word = "nan" then some .undefined
  else none

/-- A text as a number in double precision. -/
def float? (cs : List Char) : Option Float :=
  match Special.read? cs with
  | some (.infinite negative) => some (if negative then -1.0 / 0.0 else 1.0 / 0.0)
  | some .undefined => some (0.0 / 0.0)
  | none => (Numeral.read? cs).map Numeral.toFloat

/-- A text as a number in single precision. -/
def float32? (cs : List Char) : Option Float32 :=
  match Special.read? cs with
  | some (.infinite negative) => some (if negative then -1.0 / 0.0 else 1.0 / 0.0)
  | some .undefined => some (0.0 / 0.0)
  | none => (Numeral.read? cs).map Numeral.toFloat32

theorem valueFrom_append (v : Nat) (ds es : List Digit) :
    valueFrom v (ds ++ es) = valueFrom (valueFrom v ds) es :=
  List.foldl_append

/-- Digits read back to the number they were made of. -/
theorem value_digitsOf (n : Nat) : value (digitsOf n) = n := by
  fun_induction digitsOf n with
  | case1 n h =>
    simp only [value, valueFrom, List.foldl_cons, List.foldl_nil, Fin.ofNat]
    omega
  | case2 n h ih =>
    rw [value, valueFrom_append, ← value, ih]
    simp only [valueFrom, List.foldl_cons, List.foldl_nil, Fin.ofNat]
    omega

end Decimal
end AudioWalk
