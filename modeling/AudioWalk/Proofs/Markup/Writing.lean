import AudioWalk.Proofs.Markup.Decoding
import AudioWalk.Proofs.Markup.Scanning

/-!
# Writing a tree as markup

A tree is written with a closing tag for every element and a double quote around
every value.  Inside a value two characters need a reference, the ampersand and
the quote itself; all others stand as they are, line breaks and angle brackets
included.

Reading is the converse of writing (`Element.Writable.read`).  Only the lines differ,
which an element has from its place in the text.
-/

namespace AudioWalk
namespace Markup

/-! ## Values -/

/-- A character between double quotes. -/
def escape (c : Char) : List Char :=
  if c = '&' then ['&', 'a', 'm', 'p', ';']
  else if c = '"' then ['&', 'q', 'u', 'o', 't', ';']
  else [c]

/-- What is escaped stands for what it was. -/
theorem decode_escape (text : List Char) : decode (text.flatMap escape) = .ok text := by
  apply Piece.decode_spelled
  intro c
  by_cases hamp : c = '&'
  · rw [escape, if_pos hamp, hamp]
    exact Piece.exists_named .amp
  · by_cases hquote : c = '"'
    · rw [escape, if_neg hamp, if_pos hquote, hquote]
      exact Piece.exists_named .quot
    · rw [escape, if_neg hamp, if_neg hquote]
      exact Piece.exists_plain hamp

theorem quote_not_mem_escape (text : List Char) : '"' ∉ text.flatMap escape := by
  rw [List.mem_flatMap]
  intro ⟨c, _, hc⟩
  unfold escape at hc
  split at hc
  · exact absurd hc (by decide)
  · split at hc
    · exact absurd hc (by decide)
    · next hquote => exact hquote (List.mem_singleton.1 hc).symm

/-! ## Tags -/

/-- An attribute behind one blank. -/
def Attribute.of (pair : String × String) : Attribute where
  gap := [' ']
  name := pair.1.toList
  beforeEquals := []
  afterEquals := []
  quote := .double
  value := pair.2.toList.flatMap escape

theorem Attribute.wellFormed_of {pair : String × String} (h : IsName pair.1.toList) :
    (Attribute.of pair).WellFormed where
  gap_ne_nil := List.cons_ne_nil _ _
  gap := List.forall_mem_singleton.2 rfl
  name := h
  beforeEquals := List.forall_mem_nil _
  afterEquals := List.forall_mem_nil _
  value := quote_not_mem_escape _

instance : DecidablePred IsName
  | [] => isFalse fun ⟨_, _, h, _⟩ => nomatch h
  | c :: rest => decidable_of_iff (isNameStart c = true ∧ rest.all isNameChar = true)
    ⟨fun h => ⟨c, rest, rfl, h⟩, fun ⟨_, _, h, hstart, hrest⟩ => by
      cases h
      exact ⟨hstart, hrest⟩⟩

/-! ## Trees -/

namespace Element

mutual

/-- The text of a tree. -/
def chars : Element → List Char
  | ⟨name, attributes, children, _⟩ =>
    openTag name.toList (attributes.map Attribute.of) [] false ++ charsAll children ++
      closeTag name.toList []

def charsAll : List Element → List Char
  | [] => []
  | e :: es => chars e ++ charsAll es

end

/-- A tag with names for its own name and for its attributes, all different. -/
structure HasTag (e : Element) : Prop where
  name : IsName e.name.toList
  keys : ∀ key ∈ e.attributes.map Prod.fst, IsName key.toList
  distinct : (e.attributes.map Prod.fst).Nodup

inductive Writable : Element → Prop
  | mk {e : Element} (htag : e.HasTag) (hchildren : ∀ c ∈ e.children, Writable c) : Writable e

/-- The same tree, on whatever lines its elements stand. -/
inductive Alike : Element → Element → Prop
  | mk {name : String} {attributes : List (String × String)} {children children' : List Element}
    {line line' : Nat} (h : List.Forall₂ Alike children children') :
    Alike ⟨name, attributes, children, line⟩ ⟨name, attributes, children', line'⟩

namespace Alike

variable {e e' : Element}

theorem name (h : Alike e e') : e'.name = e.name := by
  cases h with
  | mk hchildren => rfl

theorem attribute? (h : Alike e e') (key : String) : e'.attribute? key = e.attribute? key := by
  cases h with
  | mk hchildren => rfl

theorem children (h : Alike e e') : List.Forall₂ Alike e.children e'.children := by
  cases h with
  | mk hchildren => exact hchildren

theorem childless (h : Alike e e') (he : e.children = []) : e'.children = [] := by
  have hchildren := h.children
  rwa [he, List.forall₂_nil_left_iff] at hchildren

end Alike

theorem HasTag.isTag {e : Element} (h : e.HasTag) :
    IsTag e.name.toList (e.attributes.map Attribute.of) [] e.attributes where
  name := h.name
  attributes a ha := by
    obtain ⟨pair, hpair, rfl⟩ := List.mem_map.1 ha
    exact Attribute.wellFormed_of (h.keys _ (List.mem_map_of_mem hpair))
  denote := by
    refine ⟨?_, h.distinct⟩
    rw [List.forall₂_map_left_iff, List.forall₂_same]
    exact fun pair _ => ⟨String.ofList_toList.symm, decode_escape _⟩
  gap := List.forall_mem_nil _

mutual

/-- Wherever it stands, the text of a tree is the text of an element like it. -/
theorem exists_isElement (e : Element) (h : e.Writable) (before : List Char) :
    ∃ e', IsElement before e.chars e' ∧ Alike e e' := by
  obtain ⟨name, attributes, children, line⟩ := e
  cases h with
  | mk htag hchildren =>
    obtain ⟨children', hcontent, halike⟩ := exists_isContent children hchildren
      (before ++ openTag name.toList (attributes.map Attribute.of) [] false)
    have helement := IsElement.balanced htag.isTag hcontent (List.forall_mem_nil _)
    rw [String.ofList_toList] at helement
    exact ⟨_, helement, .mk halike⟩

theorem exists_isContent (es : List Element) (h : ∀ e ∈ es, e.Writable) (before : List Char) :
    ∃ es', IsContent before (charsAll es) es' ∧ List.Forall₂ Alike es es' := by
  cases es with
  | nil => exact ⟨[], .nil, .nil⟩
  | cons e es =>
    obtain ⟨hfirst, hrest⟩ := List.forall_mem_cons.1 h
    obtain ⟨e', helement, halike⟩ := exists_isElement e hfirst before
    obtain ⟨es', hcontent, halikes⟩ := exists_isContent es hrest (before ++ e.chars)
    exact ⟨e' :: es', .element helement hcontent, .cons halike halikes⟩

end

/-- What is written is read. -/
theorem Writable.read {root : Element} (h : root.Writable) :
    ∃ root', Markup.read (String.ofList root.chars) = .ok root' ∧ Alike root root' := by
  obtain ⟨root', helement, halike⟩ := exists_isElement root h []
  have hdocument : IsDocument ([] ++ root.chars ++ []) root' := .complete .nil helement .nil
  rw [List.nil_append, List.append_nil] at hdocument
  refine ⟨root', IsDocument.read ?_, halike⟩
  rwa [String.toList_ofList]

end Element
end Markup
end AudioWalk
