import AudioWalk.Markup.Document
import AudioWalk.Proofs.Markup.Lexemes

/-!
# The grammar of documents

What a document is, without any reader.  The text of an element, of the content
of an element and of a whole document is built from well-formed tags, enclosures
and text, in every way in which they fit together; the rules are not tried in an
order and nothing is as long as possible.  Each rule says beside the text what
the text stands for.

An element's line is found from all the text in front of it, so the rules carry
that text along as `before`.
-/

namespace AudioWalk
namespace Markup

/-- The line of what stands behind a text. -/
def lineBehind (before : List Char) : Nat := 1 + before.count '\n'

/-- What attributes say: their names with what the values stand for, no name
twice. -/
structure Denote (as : List Attribute) (pairs : List (String × String)) : Prop where
  values : List.Forall₂
    (fun a pair => pair.1 = String.ofList a.name ∧ decode a.value = .ok pair.2.toList) as pairs
  distinct : (pairs.map Prod.fst).Nodup

/-- The parts of an opening tag. -/
structure IsTag (name : List Char) (as : List Attribute) (gap : List Char)
    (pairs : List (String × String)) : Prop where
  name : IsName name
  attributes : ∀ a ∈ as, a.WellFormed
  denote : Denote as pairs
  gap : Blank gap

def openTag (name : List Char) (as : List Attribute) (gap : List Char) (closed : Bool) :
    List Char :=
  (Lexeme.opening name as gap closed).chars

def closeTag (name gap : List Char) : List Char := (Lexeme.closing name gap).chars

def enclosure (kind : Enclosure) (body : List Char) : List Char :=
  (Lexeme.enclosed kind body).chars

mutual

/-- An element closes itself, or a tag of the same name closes it. -/
inductive IsElement : (before cs : List Char) → Element → Prop
  | closed {before name gap : List Char} {as : List Attribute} {pairs : List (String × String)}
    (htag : IsTag name as gap pairs) :
    IsElement before (openTag name as gap true)
      ⟨String.ofList name, pairs, [], lineBehind before⟩
  | balanced {before name gap body gap' : List Char} {as : List Attribute}
    {pairs : List (String × String)} {children : List Element} (htag : IsTag name as gap pairs)
    (hbody : IsContent (before ++ openTag name as gap false) body children)
    (hgap : Blank gap') :
    IsElement before (openTag name as gap false ++ body ++ closeTag name gap')
      ⟨String.ofList name, pairs, children, lineBehind before⟩

/-- Text, comments, character data and instructions leave no trace among the
children. -/
inductive IsContent : (before cs : List Char) → List Element → Prop
  | nil {before : List Char} : IsContent before [] []
  | text {before body rest : List Char} {children : List Element} (hbody : '<' ∉ body)
    (hrest : IsContent (before ++ body) rest children) :
    IsContent before (body ++ rest) children
  | enclosed {before body rest : List Char} {kind : Enclosure} {children : List Element}
    (hkind : kind ≠ .documentType) (hbody : ¬ kind.closer <:+: body)
    (hrest : IsContent (before ++ enclosure kind body) rest children) :
    IsContent before (enclosure kind body ++ rest) children
  | element {before cs rest : List Char} {e : Element} {children : List Element}
    (helement : IsElement before cs e) (hrest : IsContent (before ++ cs) rest children) :
    IsContent before (cs ++ rest) (e :: children)

end

/-- What may stand around the root. -/
inductive IsMisc : List Char → Prop
  | nil : IsMisc []
  | blank {gap rest : List Char} (hgap : Blank gap) (hrest : IsMisc rest) : IsMisc (gap ++ rest)
  | enclosed {body rest : List Char} {kind : Enclosure} (hkind : kind ≠ .characterData)
    (hbody : ¬ kind.closer <:+: body) (hrest : IsMisc rest) :
    IsMisc (enclosure kind body ++ rest)

/-- The root is an element like others, or a tag that is never closed and has all
the rest of the text for its content. -/
inductive IsDocument : List Char → Element → Prop
  | complete {leading cs trailing : List Char} {root : Element} (hleading : IsMisc leading)
    (hroot : IsElement leading cs root) (htrailing : IsMisc trailing) :
    IsDocument (leading ++ cs ++ trailing) root
  | unclosed {leading name gap body : List Char} {as : List Attribute}
    {pairs : List (String × String)} {children : List Element} (hleading : IsMisc leading)
    (htag : IsTag name as gap pairs)
    (hbody : IsContent (leading ++ openTag name as gap false) body children) :
    IsDocument (leading ++ openTag name as gap false ++ body)
      ⟨String.ofList name, pairs, children, lineBehind leading⟩

end Markup
end AudioWalk
