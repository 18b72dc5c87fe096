import AudioWalk.Markup.Element
import AudioWalk.Markup.Lexing

/-!
# Documents

A document is one root element among comments, document types, instructions and
blanks.  The lexemes of a text are read one after the other on a stack of the
elements that are still open, innermost first.  Closing tags must match, with one
exception: the closing tag of the root may be missing at the end of the text.
-/

namespace AudioWalk
namespace Markup

/-- The lexemes with the lines on which they begin, counted from `line`. -/
def withLines (line : Nat) : List Lexeme → List (Nat × Lexeme)
  | [] => []
  | l :: ls => (line, l) :: withLines (line + l.chars.count '\n') ls

/-- An element whose closing tag has not been read. -/
structure OpenElement where
  name : String
  attributes : List (String × String)
  line : Nat
  /-- The children so far, the last one first. -/
  childrenReversed : List Element

namespace OpenElement

def ofTag (line : Nat) (name : List Char) (attributes : List Attribute) : OpenElement :=
  { name := String.ofList name
    attributes := attributes.map fun a => (String.ofList a.name, String.ofList a.value)
    line
    childrenReversed := [] }

def addChild (o : OpenElement) (child : Element) : OpenElement :=
  { o with childrenReversed := child :: o.childrenReversed }

def close (o : OpenElement) : Element :=
  ⟨o.name, o.attributes, o.childrenReversed.reverse, o.line⟩

end OpenElement

/-- How far a document has been read. -/
inductive Progress where
  | beforeRoot
  | inside (current : OpenElement) (outer : List OpenElement)
  | afterRoot (root : Element)

namespace Progress

/-- A complete element: a child of the innermost open element, or the root. -/
def complete (e : Element) : List OpenElement → Progress
  | [] => afterRoot e
  | parent :: outer => inside (parent.addChild e) outer

/-- Reads one lexeme that stands outside the root.  Opening tags are not among
them. -/
def allowsOutside : Lexeme → Bool
  | .enclosed kind _ => kind.standsOutside
  | .text body => body.all Text.isSpace
  | _ => false

def step : Progress → Nat × Lexeme → Option Progress
  | beforeRoot, (line, .opening name attributes _ closed) =>
    let o := OpenElement.ofTag line name attributes
    some (if closed then complete o.close [] else inside o [])
  | beforeRoot, (_, l) => if allowsOutside l then some beforeRoot else none
  | inside current outer, (line, .opening name attributes _ closed) =>
    let o := OpenElement.ofTag line name attributes
    some (if closed then complete o.close (current :: outer) else inside o (current :: outer))
  | inside current outer, (_, .closing name _) =>
    if String.ofList name = current.name then some (complete current.close outer) else none
  | inside current outer, (_, .enclosed kind _) =>
    if kind.standsInside then some (inside current outer) else none
  | inside current outer, (_, .text _) => some (inside current outer)
  | afterRoot root, (_, l) => if allowsOutside l then some (afterRoot root) else none

/-- The root of a document that ends here. -/
def finish : Progress → Option Element
  | beforeRoot => none
  | inside current [] => some current.close
  | inside _ (_ :: _) => none
  | afterRoot root => some root

end Progress

/-- The tree of a sequence of lexemes, values as written. -/
def treeOf? (ls : List Lexeme) : Option Element :=
  ((withLines 1 ls).foldlM Progress.step Progress.beforeRoot).bind Progress.finish

/-- Reads a document and returns its root. -/
def read (source : String) : Except Fault Element :=
  match (Lexeme.readAll? source.toList).bind treeOf? with
  | none => .error .form
  | some root => root.resolve

end Markup
end AudioWalk
