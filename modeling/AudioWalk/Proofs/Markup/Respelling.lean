import AudioWalk.Proofs.Markup.Documents
import AudioWalk.Proofs.Markup.Writing

/-!
# Spellings of one tree

Quotes, references, blanks inside of tags, the two ways to write an element without
content, and all that stands between elements leave no trace in the tree of a
document.  Two things do: the order in which an element has its attributes, and the
line on which it stands.  `SameTree` is what is left when these are ignored.

A tree that is read has no name twice among the attributes of an element, so that an
attribute is found by its name in whatever order they are.
-/

namespace AudioWalk
namespace Markup
namespace Element

/-- The same elements, nested alike, with the same attributes in any order and on any
lines. -/
inductive SameTree : Element → Element → Prop
  | mk {name : String} {attributes attributes' : List (String × String)}
    {children children' : List Element} {line line' : Nat}
    (hattributes : attributes.Perm attributes')
    (hchildren : List.Forall₂ SameTree children children') :
    SameTree ⟨name, attributes, children, line⟩ ⟨name, attributes', children', line'⟩

/-- The same to whoever looks at names and children, and looks attributes up. -/
inductive Agrees : Element → Element → Prop
  | mk {e e' : Element} (hname : e'.name = e.name)
    (hattribute : ∀ key, e'.attribute? key = e.attribute? key)
    (hchildren : List.Forall₂ Agrees e.children e'.children) : Agrees e e'

namespace Agrees

variable {e e' : Element}

theorem name (h : Agrees e e') : e'.name = e.name := by
  cases h with
  | mk hname hattribute hchildren => exact hname

theorem attribute? (h : Agrees e e') (key : String) : e'.attribute? key = e.attribute? key := by
  cases h with
  | mk hname hattribute hchildren => exact hattribute key

theorem children (h : Agrees e e') : List.Forall₂ Agrees e.children e'.children := by
  cases h with
  | mk hname hattribute hchildren => exact hchildren

end Agrees

theorem lookup_perm {pairs pairs' : List (String × String)} (h : pairs.Perm pairs')
    (hdistinct : (pairs.map Prod.fst).Nodup) (key : String) :
    pairs'.lookup key = pairs.lookup key := by
  induction h with
  | nil => rfl
  | cons pair hrest ih =>
    rw [List.lookup_cons, List.lookup_cons, ih (List.nodup_cons.1 hdistinct).2]
  | swap first second rest =>
    obtain ⟨k, v⟩ := first
    obtain ⟨k', v'⟩ := second
    have hne : k ≠ k' := fun h => (List.nodup_cons.1 hdistinct).1 (h ▸ List.mem_cons_self)
    rw [List.lookup_cons, List.lookup_cons, List.lookup_cons, List.lookup_cons]
    by_cases hkey : key = k
    · rw [beq_false_of_ne (ne_of_eq_of_ne hkey hne)]
    · rw [beq_false_of_ne hkey]
  | trans hleft hright ihleft ihright =>
    exact (ihright ((hleft.map Prod.fst).nodup_iff.1 hdistinct)).trans (ihleft hdistinct)

mutual

theorem SameTree.agrees {e e' : Element} (h : SameTree e e') (hw : e.Writable) :
    Agrees e e' := by
  obtain ⟨name, attributes, children, line⟩ := e
  cases hw with
  | mk htag hchildren =>
    cases h with
    | mk hattributes hsame =>
      exact .mk rfl (lookup_perm hattributes htag.distinct) (agreesAll hsame hchildren)

theorem agreesAll {es es' : List Element} (h : List.Forall₂ SameTree es es')
    (hw : ∀ e ∈ es, e.Writable) : List.Forall₂ Agrees es es' := by
  cases es with
  | nil =>
    cases h
    exact .nil
  | cons e es =>
    cases h with
    | cons hfirst hrest =>
      obtain ⟨hwfirst, hwrest⟩ := List.forall_mem_cons.1 hw
      exact .cons (hfirst.agrees hwfirst) (agreesAll hrest hwrest)

end

end Element

/-! ## Trees that are read -/

theorem IsTag.hasTag {name gap : List Char} {as : List Attribute}
    {pairs : List (String × String)} (h : IsTag name as gap pairs) (children : List Element)
    (line : Nat) : Element.HasTag ⟨String.ofList name, pairs, children, line⟩ where
  name := by
    rw [String.toList_ofList]
    exact h.name
  keys := by
    rw [List.forall_mem_map]
    intro pair hpair
    obtain ⟨a, ha, hname, _⟩ := exists_of_forall₂ h.denote.values pair hpair
    rw [hname, String.toList_ofList]
    exact (h.attributes a ha).name
  distinct := h.denote.distinct

mutual

theorem IsElement.writable {before cs : List Char} {e : Element} :
    IsElement before cs e → e.Writable
  | .closed htag => .mk (htag.hasTag _ _) (List.forall_mem_nil _)
  | .balanced htag hbody _ => .mk (htag.hasTag _ _) hbody.writable

theorem IsContent.writable {before cs : List Char} {es : List Element} :
    IsContent before cs es → ∀ e ∈ es, e.Writable
  | .nil => List.forall_mem_nil _
  | .text _ hrest => hrest.writable
  | .enclosed _ _ hrest => hrest.writable
  | .element helement hrest => List.forall_mem_cons.2 ⟨helement.writable, hrest.writable⟩

end

theorem IsDocument.writable {cs : List Char} {root : Element} (h : IsDocument cs root) :
    root.Writable := by
  cases h with
  | complete hleading hroot htrailing => exact hroot.writable
  | unclosed hleading htag hbody => exact .mk (htag.hasTag _ _) hbody.writable

end Markup
end AudioWalk
