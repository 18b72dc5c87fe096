import AudioWalk.Library
import AudioWalk.Proofs.Markup.Scanning

/-!
# Documents are what the grammar derives

Main statement, `read_iff_isDocument`: reading accepts exactly the documents of
the grammar and returns the tree that the grammar gives them.

That a derived document is read has been shown.  Here the lexemes of a text that
is read are followed from its end to its start.  `Finishes` says what a stack of
open elements still asks of the rest of a text, and each lexeme in front of the
rest turns what is asked behind it into what is asked before it.
-/

namespace AudioWalk
namespace Markup

open Text (isSpace)

/-! ## Every reading is derived -/

/-- The text stands for what the tree resolves to, if it does. -/
def ReadsElement (before cs : List Char) (raw : Element) : Prop :=
  ∀ e, raw.resolve = .ok e → IsElement before cs e

def ReadsContent (before cs : List Char) (raws : List Element) : Prop :=
  ∀ es, Element.resolveAll raws = .ok es → IsContent before cs es

theorem readsContent_nil (before : List Char) : ReadsContent before [] [] := by
  intro es hes
  cases hes
  exact .nil

theorem ReadsContent.element {before cs rest : List Char} {raw : Element} {raws : List Element}
    (h : ReadsElement before cs raw) (hrest : ReadsContent (before ++ cs) rest raws) :
    ReadsContent before (cs ++ rest) (raw :: raws) := by
  intro es hes
  obtain ⟨e, more, he, hmore, rfl⟩ := Element.resolveAll_cons_eq_ok.1 hes
  exact .element (h e he) (hrest more hmore)

theorem readsElement_closed {name gap : List Char} {as : List Attribute}
    (h : (Lexeme.opening name as gap true).WellFormed) (before : List Char) :
    ReadsElement before (openTag name as gap true)
      (OpenElement.ofTag (lineBehind before) name as).close := by
  intro e he
  obtain ⟨pairs, children, hdenote, hchildren, rfl⟩ := Element.resolve_written.1 he
  cases hchildren
  exact .closed ⟨h.1, h.2.1, hdenote, h.2.2⟩

theorem readsElement_balanced {before name gap body gap' : List Char} {as : List Attribute}
    {raws : List Element} (h : (Lexeme.opening name as gap false).WellFormed)
    (hbody : ReadsContent (before ++ openTag name as gap false) body raws) (hgap : Blank gap') :
    ReadsElement before (openTag name as gap false ++ body ++ closeTag name gap')
      ((OpenElement.ofTag (lineBehind before) name as).addChildren raws).close := by
  intro e he
  rw [OpenElement.close_ofTag_addChildren] at he
  obtain ⟨pairs, children, hdenote, hchildren, rfl⟩ := Element.resolve_written.1 he
  exact .balanced ⟨h.1, h.2.1, hdenote, h.2.2⟩ (hbody children hchildren) hgap

/-- What the elements of a stack ask of the rest of a text: content and a closing
tag for each.  The outermost one may also go without its closing tag, and if it
does not, what may stand behind the root follows. -/
def Finishes : List OpenElement → OpenElement → (before cs : List Char) → Element → Prop
  | [], o, before, cs, root =>
    ∃ body raws, ReadsContent before body raws ∧ root = (o.addChildren raws).close ∧
      (cs = body ∨ ∃ gap trailing, Blank gap ∧ IsMisc trailing ∧
        cs = body ++ (closeTag o.name.toList gap ++ trailing))
  | parent :: outer, o, before, cs, root =>
    ∃ body raws gap rest, ReadsContent before body raws ∧ Blank gap ∧
      cs = body ++ (closeTag o.name.toList gap ++ rest) ∧
      Finishes outer (parent.addChild (o.addChildren raws).close)
        (before ++ (body ++ closeTag o.name.toList gap)) rest root

/-- More content of the innermost element, in front of what is there. -/
theorem Finishes.prepend (raws : List Element) {outer : List OpenElement} {o : OpenElement}
    {before front rest : List Char} {root : Element}
    (hfront : ∀ body more, ReadsContent (before ++ front) body more →
      ReadsContent before (front ++ body) (raws ++ more))
    (h : Finishes outer (o.addChildren raws) (before ++ front) rest root) :
    Finishes outer o before (front ++ rest) root := by
  cases outer with
  | nil =>
    obtain ⟨body, more, hbody, hroot, hrest⟩ := h
    refine ⟨front ++ body, raws ++ more, hfront body more hbody, ?_, ?_⟩
    · rw [hroot, OpenElement.addChildren_append]
    · rcases hrest with rfl | ⟨gap, trailing, hgap, htrailing, rfl⟩
      · exact Or.inl rfl
      · exact Or.inr ⟨gap, trailing, hgap, htrailing, (List.append_assoc _ _ _).symm⟩
  | cons parent outer =>
    obtain ⟨body, more, gap, rest, hbody, hgap, rfl, h⟩ := h
    refine ⟨front ++ body, raws ++ more, gap, rest, hfront body more hbody, hgap,
      (List.append_assoc _ _ _).symm, ?_⟩
    rw [OpenElement.addChildren_append, List.append_assoc, ← List.append_assoc before]
    exact h

theorem isMisc_of_allowsOutside {l : Lexeme} (h : l.WellFormed)
    (hallowed : Progress.allowsOutside l = true) : IsMisc l.chars := by
  cases l with
  | enclosed kind body =>
    have hkind : kind ≠ .characterData := by
      rintro rfl
      cases hallowed
    have hmisc := IsMisc.enclosed hkind h .nil
    rwa [List.append_nil] at hmisc
  | text body =>
    have hmisc := IsMisc.blank (List.all_eq_true.1 hallowed) .nil
    rwa [List.append_nil] at hmisc
  | opening name as gap closed => cases hallowed
  | closing name gap => cases hallowed

theorem IsMisc.append {cs ds : List Char} (h : IsMisc cs) (hds : IsMisc ds) :
    IsMisc (cs ++ ds) := by
  induction h with
  | nil => exact hds
  | blank hgap hrest ih =>
    rw [List.append_assoc]
    exact .blank hgap ih
  | enclosed hkind hbody hrest ih =>
    rw [List.append_assoc]
    exact .enclosed hkind hbody ih

/-! ### Through the lexemes, from the end of the document to its start -/

theorem through_afterRoot {ls : List Lexeme} (hls : ∀ l ∈ ls, l.WellFormed) {before : List Char}
    {root root' : Element} (h : (Progress.afterRoot root).through before ls = some root') :
    root' = root ∧ IsMisc (ls.flatMap Lexeme.chars) := by
  induction ls generalizing before with
  | nil =>
    cases h
    exact ⟨rfl, .nil⟩
  | cons l ls ih =>
    rw [Progress.through_cons, Progress.step] at h
    by_cases hallowed : Progress.allowsOutside l = true
    · rw [if_pos hallowed] at h
      obtain ⟨hroot, hmisc⟩ := ih (fun m hm => hls m (List.mem_cons_of_mem l hm)) h
      rw [List.flatMap_cons]
      exact ⟨hroot, (isMisc_of_allowsOutside (hls l List.mem_cons_self) hallowed).append hmisc⟩
    · rw [if_neg hallowed] at h
      cases h

theorem through_inside {ls : List Lexeme} (hls : ∀ l ∈ ls, l.WellFormed) {o : OpenElement}
    {outer : List OpenElement} {before : List Char} {root : Element}
    (h : (Progress.inside o outer).through before ls = some root) :
    Finishes outer o before (ls.flatMap Lexeme.chars) root := by
  induction ls generalizing o outer before with
  | nil =>
    cases outer with
    | nil =>
      cases h
      exact ⟨[], [], readsContent_nil before, rfl, Or.inl rfl⟩
    | cons parent outer => cases h
  | cons l ls ih =>
    have hl := hls l List.mem_cons_self
    have hrest := fun m hm => hls m (List.mem_cons_of_mem l hm)
    rw [Progress.through_cons] at h
    rw [List.flatMap_cons]
    cases l with
    | text body =>
      refine Finishes.prepend [] (fun more raws hmore es hes => ?_) (ih hrest h)
      exact .text hl.2 (hmore es hes)
    | enclosed kind body =>
      have hkind : kind ≠ .documentType := by
        rintro rfl
        cases h
      rw [Progress.step_enclosed hkind] at h
      refine Finishes.prepend [] (fun more raws hmore es hes => ?_) (ih hrest h)
      exact .enclosed hkind hl (hmore es hes)
    | opening name as gap closed =>
      rw [show Progress.inside o outer = .within (o :: outer) from rfl, Progress.step_within] at h
      cases closed with
      | true =>
        exact Finishes.prepend [_]
          (fun more raws hmore => .element (readsElement_closed hl before) hmore) (ih hrest h)
      | false =>
        -- Above the new element the stack is the old one, which its end restores.
        obtain ⟨body, raws, gap', rest, hbody, hgap, hchars, hafter⟩ := ih hrest h
        rw [OpenElement.toList_name_ofTag] at hchars hafter
        have hfront : (Lexeme.opening name as gap false).chars ++ ls.flatMap Lexeme.chars =
            openTag name as gap false ++ body ++ closeTag name gap' ++ rest := by
          rw [hchars, List.append_assoc, List.append_assoc]
          rfl
        rw [hfront]
        refine Finishes.prepend [_]
          (fun more raws hmore => .element (readsElement_balanced hl hbody hgap) hmore) ?_
        rw [List.append_assoc (openTag name as gap false), ← List.append_assoc before]
        exact hafter
    | closing name gap =>
      by_cases hname : String.ofList name = o.name
      · rw [Progress.step, if_pos hname] at h
        have hchars : (Lexeme.closing name gap).chars = closeTag o.name.toList gap := by
          rw [← hname, String.toList_ofList]
          rfl
        rw [hchars] at h ⊢
        cases outer with
        | nil =>
          obtain ⟨hroot, hmisc⟩ := through_afterRoot hrest h
          exact ⟨[], [], readsContent_nil before, hroot, Or.inr ⟨gap, _, hl.2, hmisc, rfl⟩⟩
        | cons parent outer =>
          exact ⟨[], [], gap, _, readsContent_nil before, hl.2, rfl, ih hrest h⟩
      · rw [Progress.step, if_neg hname] at h
        cases h

theorem isDocument_of_through {ls : List Lexeme} (hls : ∀ l ∈ ls, l.WellFormed)
    {leading : List Char} (hleading : IsMisc leading) {raw root : Element}
    (h : Progress.beforeRoot.through leading ls = some raw) (hroot : raw.resolve = .ok root) :
    IsDocument (leading ++ ls.flatMap Lexeme.chars) root := by
  induction ls generalizing leading with
  | nil => cases h
  | cons l ls ih =>
    have hl := hls l List.mem_cons_self
    have hrest := fun m hm => hls m (List.mem_cons_of_mem l hm)
    rw [Progress.through_cons] at h
    rw [List.flatMap_cons, ← List.append_assoc]
    have houtside (hallowed : Progress.allowsOutside l = true)
        (h : Progress.beforeRoot.through (leading ++ l.chars) ls = some raw) :
        IsDocument (leading ++ l.chars ++ ls.flatMap Lexeme.chars) root :=
      ih hrest (hleading.append (isMisc_of_allowsOutside hl hallowed)) h
    cases l with
    | text body =>
      simp only [Progress.step] at h
      split at h
      · next hallowed => exact houtside hallowed h
      · cases h
    | enclosed kind body =>
      simp only [Progress.step] at h
      split at h
      · next hallowed => exact houtside hallowed h
      · cases h
    | closing name gap => cases h
    | opening name as gap closed =>
      rw [show Progress.beforeRoot = .within [] from rfl, Progress.step_within] at h
      cases closed with
      | true =>
        obtain ⟨rfl, htrailing⟩ := through_afterRoot hrest h
        exact .complete hleading (readsElement_closed hl leading root hroot) htrailing
      | false =>
        obtain ⟨body, raws, hbody, rfl, hcs⟩ := through_inside hrest h
        rcases hcs with hcs | ⟨gap', trailing, hgap, htrailing, hcs⟩
        · rw [OpenElement.close_ofTag_addChildren] at hroot
          obtain ⟨pairs, children, hdenote, hchildren, rfl⟩ := Element.resolve_written.1 hroot
          rw [hcs]
          exact .unclosed hleading ⟨hl.1, hl.2.1, hdenote, hl.2.2⟩ (hbody children hchildren)
        · have helement := readsElement_balanced hl hbody hgap root hroot
          have hdocument := IsDocument.complete hleading helement htrailing
          rw [hcs, OpenElement.toList_name_ofTag]
          simpa only [openTag, List.append_assoc] using hdocument

theorem isDocument_of_read {source : String} {root : Element} (h : read source = .ok root) :
    IsDocument source.toList root := by
  rw [read_eq_scan] at h
  split at h
  · cases h
  · next raw hscan =>
    obtain ⟨ls, hls, hthrough⟩ := Option.bind_eq_some_iff.1 hscan
    have hdocument :=
      isDocument_of_through (Lexeme.wellFormed_of_readAll? hls) .nil hthrough h
    rwa [List.nil_append, Lexeme.readAll?_chars hls] at hdocument

theorem read_of_lexemes {source : String} {lexemes : List Lexeme} {written root : Element}
    (hlexemes : Lexeme.readAll? source.toList = some lexemes)
    (htree : treeOf? lexemes = some written) (hresolve : written.resolve = .ok root) :
    read source = .ok root := by
  rw [read, hlexemes, Option.bind_some, htree]
  exact hresolve

/-- Reading accepts exactly the documents of the grammar, each with its tree, and
what is no document is reported as ill-formed markup and as nothing else. -/
theorem read_iff_isDocument (source : String) :
    (∀ root, read source = .ok root ↔ IsDocument source.toList root) ∧
    ∀ folder, (∃ detail, Story.read source folder = .error (.illFormedMarkup detail)) ↔
      ¬ ∃ root, IsDocument source.toList root := by
  have hread (root : Element) : read source = .ok root ↔ IsDocument source.toList root :=
    ⟨isDocument_of_read, IsDocument.read⟩
  refine ⟨hread, fun folder => ?_⟩
  simp only [← hread, Story.read]
  cases hsource : read source with
  | error fault =>
    exact ⟨fun _ h => (by obtain ⟨root, hroot⟩ := h; cases hroot), fun _ => ⟨_, rfl⟩⟩
  | ok root =>
    constructor
    · rintro ⟨detail, hdetail⟩
      dsimp only at hdetail
      split at hdetail <;> cases hdetail
    · exact fun h => absurd ⟨root, rfl⟩ h

end Markup
end AudioWalk
