import AudioWalk.Json.Basic

/-!
# Writing JSON

Two layouts of the same text: all on one line without blanks, or spread over
lines with two blanks of indentation for each level, an empty container staying
on its line.
-/

namespace AudioWalk
namespace Json

/-- A digit in base sixteen, in lower case. -/
def hexDigit (n : Nat) : Char :=
  if n % 16 < 10 then Char.ofNat ('0'.toNat + n % 16) else Char.ofNat ('a'.toNat + n % 16 - 10)

/-- The escape by number, of a point that fits sixteen bits. -/
def unicodeEscape (point : Nat) : List Char :=
  ['\\', 'u', hexDigit (point / 4096), hexDigit (point / 256), hexDigit (point / 16),
    hexDigit point]

/-- Only the quote, the backslash and control characters are escaped, five of
the latter by a letter. -/
def pointChars (point : Nat) : List Char :=
  match Text.character? point with
  | some '"' => ['\\', '"']
  | some '\\' => ['\\', '\\']
  | some '\n' => ['\\', 'n']
  | some '\r' => ['\\', 'r']
  | some '\t' => ['\\', 't']
  | some c =>
    if point = 8 then ['\\', 'b']
    else if point = 12 then ['\\', 'f']
    else if point < 32 then unicodeEscape point
    else [c]
  | none => unicodeEscape point

def textChars (points : List Nat) : List Char := '"' :: points.flatMap pointChars ++ ['"']

/-- A layout: what stands between the parts of a container at a given depth. -/
structure Spacing where
  /-- Before an item, and before the end of a container that is not empty. -/
  line : Nat → List Char
  /-- Behind the colon of a member. -/
  afterColon : List Char

def Spacing.compact : Spacing := { line := fun _ => [], afterColon := [] }

def Spacing.pretty : Spacing :=
  { line := fun depth => '\n' :: List.replicate (2 * depth) ' ', afterColon := [' '] }

mutual

/-- The text of a value whose items stand at depth `depth + 1`. -/
def chars (spacing : Spacing) (depth : Nat) : Json → List Char
  | null => ['n', 'u', 'l', 'l']
  | bool true => ['t', 'r', 'u', 'e']
  | bool false => ['f', 'a', 'l', 's', 'e']
  | number n => n.chars
  | text points => textChars points
  | array [] => ['[', ']']
  | array (item :: items) =>
    '[' :: spacing.line (depth + 1) ++ chars spacing (depth + 1) item ++
      itemsChars spacing (depth + 1) items ++ spacing.line depth ++ [']']
  | object [] => ['{', '}']
  | object ((name, value) :: members) =>
    '{' :: spacing.line (depth + 1) ++ textChars name ++ ':' :: spacing.afterColon ++
      chars spacing (depth + 1) value ++ membersChars spacing (depth + 1) members ++
      spacing.line depth ++ ['}']

/-- The items behind the first, each behind a comma. -/
def itemsChars (spacing : Spacing) (depth : Nat) : List Json → List Char
  | [] => []
  | item :: items =>
    ',' :: spacing.line depth ++ chars spacing depth item ++ itemsChars spacing depth items

/-- The members behind the first, each behind a comma. -/
def membersChars (spacing : Spacing) (depth : Nat) : List (List Nat × Json) → List Char
  | [] => []
  | (name, value) :: members =>
    ',' :: spacing.line depth ++ textChars name ++ ':' :: spacing.afterColon ++
      chars spacing depth value ++ membersChars spacing depth members

end

def compact (j : Json) : String := String.ofList (chars .compact 0 j)

def pretty (j : Json) : String := String.ofList (chars .pretty 0 j)

end Json
end AudioWalk
