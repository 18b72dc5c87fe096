import AudioWalk.Proofs.Markup.Grammar

/-!
# Where elements stand

The line of an element is that of its tag.  `IsDocument.opensIn` says so of every
element of a document, at any depth: its opening tag stands in the text, with its name
and what its attributes say, and its line is counted from all that is in front of it.
-/

namespace AudioWalk
namespace Markup

/-- An element and all that stands in it, at any depth. -/
inductive Element.Contains : Element → Element → Prop
  | self {e : Element} : Contains e e
  | inside {e c d : Element} (hc : c ∈ e.children) (h : Contains c d) : Contains e d

theorem Element.Contains.child {e p c : Element} (h : e.Contains p) (hc : c ∈ p.children) :
    e.Contains c := by
  induction h with
  | self => exact .inside hc .self
  | inside hd _ ih => exact .inside hd (ih hc)

/-- The tag of the element opens in the text, on the line of the element. -/
structure OpensIn (text : List Char) (e : Element) : Prop where
  tag : ∃ before name as gap closed after, text = before ++ openTag name as gap closed ++ after ∧
    IsTag name as gap e.attributes ∧ e.name = String.ofList name ∧ e.line = lineBehind before

theorem OpensIn.append {text : List Char} {e : Element} (h : OpensIn text e)
    (rest : List Char) : OpensIn (text ++ rest) e := by
  obtain ⟨before, name, as, gap, closed, after, htext, hrest⟩ := h.tag
  refine ⟨before, name, as, gap, closed, after ++ rest, ?_, hrest⟩
  rw [htext, List.append_assoc _ after]

mutual

theorem IsElement.opensIn {before cs : List Char} {e : Element} : IsElement before cs e →
    ∀ d, e.Contains d → OpensIn (before ++ cs) d
  | @IsElement.closed before name gap as pairs htag => by
    intro d hd
    cases hd with
    | self => exact ⟨before, name, as, gap, true, [], by rw [List.append_nil], htag, rfl, rfl⟩
    | inside hc _ => exact absurd hc List.not_mem_nil
  | @IsElement.balanced before name gap body gap' as pairs children htag hbody hgap => by
    intro d hd
    cases hd with
    | self =>
      refine ⟨before, name, as, gap, false, body ++ closeTag name gap', ?_, htag, rfl, rfl⟩
      simp only [List.append_assoc]
    | inside hc hd =>
      have hopens := (hbody.opensIn _ hc d hd).append (closeTag name gap')
      simpa only [List.append_assoc] using hopens

theorem IsContent.opensIn {before cs : List Char} {es : List Element} : IsContent before cs es →
    ∀ e ∈ es, ∀ d, e.Contains d → OpensIn (before ++ cs) d
  | .nil => List.forall_mem_nil _
  | .text hbody hrest => by
    rw [← List.append_assoc]
    exact hrest.opensIn
  | .enclosed hkind hbody hrest => by
    rw [← List.append_assoc]
    exact hrest.opensIn
  | .element helement hrest => by
    rw [← List.append_assoc]
    exact List.forall_mem_cons.2
      ⟨fun d hd => (helement.opensIn d hd).append _, hrest.opensIn⟩

end

theorem IsDocument.opensIn {text : List Char} {root e : Element} (h : IsDocument text root)
    (he : root.Contains e) : OpensIn text e := by
  cases h with
  | complete hleading hroot htrailing => exact (hroot.opensIn e he).append _
  | @unclosed leading name gap body as pairs children hleading htag hbody =>
    cases he with
    | self => exact ⟨leading, name, as, gap, false, body, rfl, htag, rfl, rfl⟩
    | inside hc hd => exact hbody.opensIn _ hc e hd

end Markup
end AudioWalk
