import AudioWalk.Decimal.Shortest
import AudioWalk.Text.Point

/-!
# JSON values

Numbers keep their text as a numeral and objects keep their members in order,
repeated names included: which number type or which member counts is decided
where a value is used.  A text is a list of code points, because an escape may
denote half of a surrogate pair, which is no character.
-/

namespace AudioWalk

inductive Json where
  | null
  | bool (value : Bool)
  | number (numeral : Decimal.Numeral)
  | text (points : List Nat)
  | array (items : List Json)
  | object (members : List (List Nat × Json))
deriving Repr

namespace Json

/-- The code points of a string. -/
def points (s : String) : List Nat := s.toList.map Char.toNat

/-- The string that code points spell, if each is a character. -/
def spelled? (ps : List Nat) : Option String := (ps.mapM Text.character?).map String.ofList

def ofString (s : String) : Json := text (points s)

def ofNat (n : Nat) : Json := number (.ofNat n)

def ofInt (i : Int) : Json := number (.ofInt i)

/-- A number without digits has no JSON text; `null` stands for it. -/
def ofFloat (x : Float) : Json :=
  match Decimal.Numeral.ofFloat? x with
  | some n => number n
  | none => null

def ofFloat32 (x : Float32) : Json :=
  match Decimal.Numeral.ofFloat32? x with
  | some n => number n
  | none => null

def ofOption {α : Type} (f : α → Json) : Option α → Json
  | some a => f a
  | none => null

def ofList {α : Type} (f : α → Json) (as : List α) : Json := array (as.map f)

/-- An object with members in the given order. -/
def record (members : List (String × Json)) : Json :=
  object (members.map fun (name, value) => (points name, value))

end Json
end AudioWalk
