import AudioWalk.Json.Basic
import AudioWalk.Proofs.Markup.Marks
import AudioWalk.Proofs.Text.Literal

/-!
# The grammar of JSON

Which texts write which values, told without a reader.  A text may choose between
spellings wherever JSON lets it: blanks around every mark, an escape for any character,
digits of either case in an escape, any sign and any number of zeros in a power of ten.
-/

namespace AudioWalk
namespace Json

open Decimal (Digit Numeral)
open Markup (Blank)
open Text (HexDigit)

/-! ## Numbers -/

/-- Digits in front of a point.  Zero is the only number that opens with zero. -/
structure IsWhole (ds : List Digit) : Prop where
  nonempty : ds ≠ []
  shortest : ds.head? = some Digit.zero → ds.length = 1

inductive WritesSign : List Char → Bool → Prop
  | absent : WritesSign [] false
  | minus : WritesSign ['-'] true

inductive WritesFraction : List Char → List Digit → Prop
  | absent : WritesFraction [] []
  | point {ds : List Digit} (hds : ds ≠ []) : WritesFraction ('.' :: ds.map Digit.char) ds

inductive WritesPower : List Char → Option Int → Prop
  | absent : WritesPower [] none
  | letter {c : Char} {cs : List Char} {i : Int} (hc : c = 'e' ∨ c = 'E')
    (hspells : Text.Spells cs i) : WritesPower (c :: cs) (some i)

inductive WritesNumeral : List Char → Numeral → Prop
  | parts {sign point power : List Char} {negative : Bool} {whole fraction : List Digit}
    {exponent? : Option Int} (hsign : WritesSign sign negative) (hwhole : IsWhole whole)
    (hpoint : WritesFraction point fraction) (hpower : WritesPower power exponent?) :
    WritesNumeral (sign ++ (whole.map Digit.char ++ (point ++ power)))
      ⟨negative, whole, fraction, exponent?⟩

/-! ## Texts -/

/-- The escapes by a letter, with what they stand for. -/
def letters : List (Char × Nat) :=
  [('"', 0x22), ('\\', 0x5C), ('/', 0x2F), ('b', 0x08), ('f', 0x0C), ('n', 0x0A), ('r', 0x0D),
    ('t', 0x09)]

/-- One character, or one escape by a letter or by four digits. -/
inductive WritesUnit : List Char → Nat → Prop
  | plain {c : Char} (hcontrol : 32 ≤ c.toNat) (hquote : c ≠ '"') (hescape : c ≠ '\\') :
    WritesUnit [c] c.toNat
  | letter {c : Char} {p : Nat} (hletter : (c, p) ∈ letters) : WritesUnit ['\\', c] p
  | digits (a b c d : HexDigit) :
    WritesUnit ['\\', 'u', a.char, b.char, c.char, d.char] (HexDigit.number [a, b, c, d])

def IsHigh (unit : Nat) : Prop := 0xD800 ≤ unit ∧ unit < 0xDC00

def IsLow (unit : Nat) : Prop := 0xDC00 ≤ unit ∧ unit < 0xE000

/-- The point of the upper planes that two halves stand for. -/
def joined (high low : Nat) : Nat := 0x10000 + (high - 0xD800) * 0x400 + (low - 0xDC00)

/-- What stands between the quotes.  Two escapes may stand for one point, and a half
stands for itself unless its other half is next to it. -/
inductive WritesPoints : List Char → List Nat → Prop
  | nil : WritesPoints [] []
  | single {one cs : List Char} {u : Nat} {ps : List Nat} (hunit : WritesUnit one u)
    (halone : IsHigh u → ∀ low, ps.head? = some low → ¬ IsLow low)
    (hrest : WritesPoints cs ps) : WritesPoints (one ++ cs) (u :: ps)
  | pair {one other cs : List Char} {high low : Nat} {ps : List Nat} (hunit : WritesUnit one high)
    (hhigh : IsHigh high) (hother : WritesUnit other low) (hlow : IsLow low)
    (hrest : WritesPoints cs ps) :
    WritesPoints (one ++ (other ++ cs)) (joined high low :: ps)

inductive WritesText : List Char → List Nat → Prop
  | quoted {cs : List Char} {ps : List Nat} (h : WritesPoints cs ps) :
    WritesText ('"' :: (cs ++ ['"'])) ps

/-! ## Values -/

/-- A mark between the parts of a container, with blanks on both sides. -/
inductive IsMark (c : Char) : List Char → Prop
  | spaced {gap gap' : List Char} (hgap : Blank gap) (hgap' : Blank gap') :
    IsMark c (gap ++ c :: gap')

inductive WritesAtom : List Char → Json → Prop
  | null : WritesAtom ['n', 'u', 'l', 'l'] .null
  | true : WritesAtom ['t', 'r', 'u', 'e'] (.bool true)
  | false : WritesAtom ['f', 'a', 'l', 's', 'e'] (.bool false)
  | number {cs : List Char} {n : Numeral} (h : WritesNumeral cs n) : WritesAtom cs (.number n)
  | text {cs : List Char} {ps : List Nat} (h : WritesText cs ps) : WritesAtom cs (.text ps)

mutual

inductive Writes : List Char → Json → Prop
  | atom {cs : List Char} {j : Json} (h : WritesAtom cs j) : Writes cs j
  | emptyArray {opener closer : List Char} (hopener : IsMark '[' opener)
    (hcloser : IsMark ']' closer) : Writes (opener ++ closer) (.array [])
  | array {opener cs more closer : List Char} {item : Json} {items : List Json}
    (hopener : IsMark '[' opener) (hitem : Writes cs item) (hmore : WritesItems more items)
    (hcloser : IsMark ']' closer) :
    Writes (opener ++ (cs ++ (more ++ closer))) (.array (item :: items))
  | emptyObject {opener closer : List Char} (hopener : IsMark '{' opener)
    (hcloser : IsMark '}' closer) : Writes (opener ++ closer) (.object [])
  | object {opener name colon cs more closer : List Char} {ps : List Nat} {value : Json}
    {members : List (List Nat × Json)} (hopener : IsMark '{' opener)
    (hname : WritesText name ps) (hcolon : IsMark ':' colon) (hvalue : Writes cs value)
    (hmore : WritesMembers more members) (hcloser : IsMark '}' closer) :
    Writes (opener ++ (name ++ (colon ++ (cs ++ (more ++ closer)))))
      (.object ((ps, value) :: members))

/-- The items behind the first, each behind a comma. -/
inductive WritesItems : List Char → List Json → Prop
  | nil : WritesItems [] []
  | cons {comma cs more : List Char} {item : Json} {items : List Json} (hcomma : IsMark ',' comma)
    (hitem : Writes cs item) (hmore : WritesItems more items) :
    WritesItems (comma ++ (cs ++ more)) (item :: items)

/-- The members behind the first, each behind a comma. -/
inductive WritesMembers : List Char → List (List Nat × Json) → Prop
  | nil : WritesMembers [] []
  | cons {comma name colon cs more : List Char} {ps : List Nat} {value : Json}
    {members : List (List Nat × Json)} (hcomma : IsMark ',' comma) (hname : WritesText name ps)
    (hcolon : IsMark ':' colon) (hvalue : Writes cs value)
    (hmore : WritesMembers more members) :
    WritesMembers (comma ++ (name ++ (colon ++ (cs ++ more)))) ((ps, value) :: members)

end

/-- A whole text: one value with nothing but blanks around it. -/
inductive IsText : List Char → Json → Prop
  | spaced {gap cs gap' : List Char} {j : Json} (hgap : Blank gap) (h : Writes cs j)
    (hgap' : Blank gap') : IsText (gap ++ (cs ++ gap')) j

end Json
end AudioWalk
