import AudioWalk.Json.Basic
import AudioWalk.Text.Blank
import AudioWalk.Text.Whole

/-!
# The tokens of JSON

Punctuation, three words, numbers and texts, with blanks between them.  The
grammar of numbers and texts is strict: no leading zeros, a digit behind each
point and each power, no bare control character in a text.
-/

namespace AudioWalk
namespace Json

inductive Token where
  | openArray
  | closeArray
  | openObject
  | closeObject
  | comma
  | colon
  | value (atom : Json)
deriving Repr

namespace Token

/-- Four digits in base sixteen. -/
def hexUnit? (a b c d : Char) : Option Nat := Text.digits? 16 [a, b, c, d]

/-- What the letter of an escape stands for. -/
def escaped? : Char → Option Nat
  | '"' => some 0x22
  | '\\' => some 0x5C
  | '/' => some 0x2F
  | 'b' => some 0x08
  | 'f' => some 0x0C
  | 'n' => some 0x0A
  | 'r' => some 0x0D
  | 't' => some 0x09
  | _ => none

/-- The points of a text, from behind its opening quote to its closing quote.
Escapes by number give one point each, halves of a pair included. -/
def unitsUpToQuote? : List Char → Option (List Nat × List Char)
  | [] => none
  | '"' :: rest => some ([], rest)
  | '\\' :: 'u' :: a :: b :: c :: d :: rest => do
    let unit ← hexUnit? a b c d
    let (units, rest) ← unitsUpToQuote? rest
    return (unit :: units, rest)
  | '\\' :: c :: rest => do
    let point ← escaped? c
    let (units, rest) ← unitsUpToQuote? rest
    return (point :: units, rest)
  | c :: rest =>
    if c.toNat < 32 ∨ c = '\\' then none
    else (unitsUpToQuote? rest).map fun (units, rest) => (c.toNat :: units, rest)

def isHighHalf (unit : Nat) : Bool := 0xD800 ≤ unit && unit < 0xDC00

def isLowHalf (unit : Nat) : Bool := 0xDC00 ≤ unit && unit < 0xE000

/-- Joins the two halves of each pair into the point they denote. -/
def joinHalves : List Nat → List Nat
  | high :: low :: rest =>
    if isHighHalf high && isLowHalf low then
      (0x10000 + (high - 0xD800) * 0x400 + (low - 0xDC00)) :: joinHalves rest
    else high :: joinHalves (low :: rest)
  | units => units

/-- The digits of a fraction: none without a point, at least one with it. -/
def fraction? : List Char → Option (List Decimal.Digit × List Char)
  | '.' :: cs =>
    let (ds, rest) := Decimal.spanDigits cs
    if ds.isEmpty then none else some (ds, rest)
  | cs => some ([], cs)

/-- The power of ten: none without its letter, at least one digit with it. -/
def power? : List Char → Option (Option Int × List Char)
  | [] => some (none, [])
  | c :: cs =>
    if c = 'e' ∨ c = 'E' then (Decimal.Numeral.power? cs).map fun (e, rest) => (some e, rest)
    else some (none, c :: cs)

/-- A number without its sign.  Zero is the only number that opens with zero. -/
def unsigned? (negative : Bool) (cs : List Char) : Option (Decimal.Numeral × List Char) := do
  let (whole, cs) := Decimal.spanDigits cs
  if whole.isEmpty || (whole.head? = some Decimal.Digit.zero && 1 < whole.length) then none
  else
    let (fraction, cs) ← fraction? cs
    let (exponent?, cs) ← power? cs
    return ({ negative, whole, fraction, exponent? }, cs)

def numeral? : List Char → Option (Decimal.Numeral × List Char)
  | '-' :: cs => unsigned? true cs
  | cs => unsigned? false cs

/-- The first token of a text that does not open with a blank. -/
def read? : List Char → Option (Token × List Char)
  | '[' :: rest => some (.openArray, rest)
  | ']' :: rest => some (.closeArray, rest)
  | '{' :: rest => some (.openObject, rest)
  | '}' :: rest => some (.closeObject, rest)
  | ',' :: rest => some (.comma, rest)
  | ':' :: rest => some (.colon, rest)
  | 'n' :: 'u' :: 'l' :: 'l' :: rest => some (.value null, rest)
  | 't' :: 'r' :: 'u' :: 'e' :: rest => some (.value (bool true), rest)
  | 'f' :: 'a' :: 'l' :: 's' :: 'e' :: rest => some (.value (bool false), rest)
  | '"' :: rest =>
    (unitsUpToQuote? rest).map fun (units, rest) => (.value (text (joinHalves units)), rest)
  | cs => (numeral? cs).map fun (n, rest) => (.value (number n), rest)

/-- All tokens of a text.  Each takes at least one character, so as many steps
as there are characters are enough. -/
def within : Nat → List Char → Option (List Token)
  | 0, cs => if (cs.dropWhile Text.isSpace).isEmpty then some [] else none
  | steps + 1, cs =>
    if (cs.dropWhile Text.isSpace).isEmpty then some []
    else do
      let (t, rest) ← read? (cs.dropWhile Text.isSpace)
      let ts ← within steps rest
      return t :: ts

def readAll? (cs : List Char) : Option (List Token) := within cs.length cs

end Token
end Json
end AudioWalk
