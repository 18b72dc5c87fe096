/-!
# The lexemes of story markup

A document is a sequence of lexemes: opening tags with their attributes,
closing tags, runs of text, and four kinds of enclosure that carry nothing for
a story (comments, character data, instructions, document types).

A lexeme keeps every character it was written with, so `Lexeme.chars` gives its
text back.  The places of elements in the source are counted on these texts, and
a document that differs from another in blanks and quotes only has the same
lexemes up to those fields.
-/

namespace AudioWalk
namespace Markup

def isNameStart (c : Char) : Bool :=
  ('a' ≤ c && c ≤ 'z') || ('A' ≤ c && c ≤ 'Z') || c == '_'

/-- Names are plain ASCII; other letters end them. -/
def isNameChar (c : Char) : Bool :=
  isNameStart c || ('0' ≤ c && c ≤ '9') || c == '-' || c == '.' || c == ':'

/-- A letter or an underscore, then any name characters. -/
def IsName (cs : List Char) : Prop :=
  ∃ c rest, cs = c :: rest ∧ isNameStart c ∧ rest.all isNameChar

/-- Parts of a document that a story does not see. -/
inductive Enclosure where
  | comment
  | characterData
  | instruction
  | documentType
deriving DecidableEq, Repr

namespace Enclosure

/-- What an enclosure opens with. -/
def opener : Enclosure → List Char
  | comment => ['<', '!', '-', '-']
  | characterData => ['<', '!', '[', 'C', 'D', 'A', 'T', 'A', '[']
  | instruction => ['<', '?']
  | documentType => ['<', '!', 'D', 'O', 'C', 'T', 'Y', 'P', 'E']

/-- The mark whose first occurrence ends an enclosure. -/
def closer : Enclosure → List Char
  | comment => ['-', '-', '>']
  | characterData => [']', ']', '>']
  | instruction => ['?', '>']
  | documentType => ['>']

/-- No opener starts another, so the order of the list does not matter. -/
def all : List Enclosure := [comment, characterData, instruction, documentType]

/-- May stand inside an element. -/
def standsInside : Enclosure → Bool
  | documentType => false
  | _ => true

/-- May stand before or after the root. -/
def standsOutside : Enclosure → Bool
  | characterData => false
  | _ => true

end Enclosure

/-- An attribute may be quoted either way; the other quote is then plain text. -/
inductive Quote where
  | single
  | double
deriving DecidableEq, Repr

def Quote.char : Quote → Char
  | single => '\''
  | double => '"'

/-- An attribute as it is written, the blanks around its parts included. -/
structure Attribute where
  gap : List Char
  name : List Char
  beforeEquals : List Char
  afterEquals : List Char
  quote : Quote
  value : List Char
deriving DecidableEq, Repr

def Attribute.chars (a : Attribute) : List Char :=
  a.gap ++ a.name ++ a.beforeEquals ++ '=' :: a.afterEquals ++ a.quote.char :: a.value ++
    [a.quote.char]

inductive Lexeme where
  | enclosed (kind : Enclosure) (body : List Char)
  | text (body : List Char)
  | opening (name : List Char) (attributes : List Attribute) (gap : List Char) (closed : Bool)
  | closing (name : List Char) (gap : List Char)
deriving DecidableEq, Repr

/-- The text of a lexeme. -/
def Lexeme.chars : Lexeme → List Char
  | enclosed kind body => kind.opener ++ body ++ kind.closer
  | text body => body
  | opening name attributes gap closed =>
    '<' :: name ++ attributes.flatMap Attribute.chars ++ gap ++
      (if closed then ['/', '>'] else ['>'])
  | closing name gap => '<' :: '/' :: name ++ gap ++ ['>']

end Markup
end AudioWalk
