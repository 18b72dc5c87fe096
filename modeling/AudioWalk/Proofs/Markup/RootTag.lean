import AudioWalk.Proofs.Markup.Documents
import AudioWalk.Proofs.Markup.Nesting

/-!
# The closing tag of the root

A text in which all is closed but the root may go on in two ways: it may end, or the
closing tag of the root may follow with what may stand around a root behind it.  Both
texts are read as the same tree, or are refused for the same value or attribute, and
so they are the same story.  No other element may go without its closing tag.

What is said here is said of the form of a text.  It holds as well where a value does
not stand for anything or a name is there twice.
-/

namespace AudioWalk
namespace Markup

/-! ## Only the form is a matter of the form -/

namespace Element

theorem resolveValue_ne_form (value : String) : resolveValue value ≠ .error .form := by
  unfold resolveValue
  split <;> nofun

theorem resolveAttributes_ne_form (line : Nat) (name : String)
    (done raws : List (String × String)) :
    resolveAttributes line name done raws ≠ .error .form := by
  induction raws generalizing done with
  | nil => nofun
  | cons raw rest ih =>
    obtain ⟨key, value⟩ := raw
    rw [resolveAttributes, Ne, bind_eq_error]
    rintro (hvalue | ⟨value', _, h⟩)
    · exact resolveValue_ne_form value hvalue
    · split at h
      · cases h
      · exact ih _ h

mutual

theorem resolve_ne_form (e : Element) : e.resolve ≠ .error .form := by
  obtain ⟨name, attributes, children, line⟩ := e
  rw [resolve, Ne, bind_eq_error]
  rintro (hattributes | ⟨pairs, _, h⟩)
  · exact resolveAttributes_ne_form line name [] attributes hattributes
  · rcases bind_eq_error.1 h with hchildren | ⟨children', _, h⟩
    · exact resolveAll_ne_form children hchildren
    · cases h

theorem resolveAll_ne_form (es : List Element) : resolveAll es ≠ .error .form := by
  cases es with
  | nil => nofun
  | cons e es =>
    rw [resolveAll, Ne, bind_eq_error]
    rintro (he | ⟨e', _, h⟩)
    · exact resolve_ne_form e he
    · rcases bind_eq_error.1 h with hes | ⟨es', _, h⟩
      · exact resolveAll_ne_form es hes
      · cases h

end

end Element

theorem read_ne_form_iff {source : String} :
    read source ≠ .error .form ↔ ∃ raw, scan .beforeRoot [] source.toList = some raw := by
  rw [read_eq_scan]
  cases hscan : scan .beforeRoot [] source.toList with
  | none => simp
  | some raw => simp [Element.resolve_ne_form raw]

/-! ## Texts with an open root -/

/-- All that is open behind the text is its root, an element of this name. -/
def OpenRoot (name cs : List Char) : Prop :=
  ∃ ls, Lexeme.readAll? cs = some ls ∧ RootOpen name ls

/-- A text whose form is that of a document. -/
inductive HasForm : List Char → Prop
  | empty {leading name gap trailing : List Char} {as : List Attribute}
    (hleading : IsMisc leading) (htag : (Lexeme.opening name as gap true).WellFormed)
    (htrailing : IsMisc trailing) : HasForm (leading ++ openTag name as gap true ++ trailing)
  | unclosed {name cs : List Char} (hroot : OpenRoot name cs) : HasForm cs
  | closed {name cs gap trailing : List Char} (hroot : OpenRoot name cs) (hgap : Blank gap)
    (htrailing : IsMisc trailing) : HasForm (cs ++ closeTag name gap ++ trailing)

theorem OpenRoot.isName {name cs : List Char} (h : OpenRoot name cs) : IsName name := by
  obtain ⟨ls, hls, hroot⟩ := h
  cases hroot with
  | @mk leading body as gap hleading hbody =>
    have htag := Lexeme.wellFormed_of_readAll? hls (.opening name as gap false) (by simp)
    exact htag.1

theorem OpenRoot.scan {name cs : List Char} (h : OpenRoot name cs) :
    ∃ o : OpenElement, o.name = String.ofList name ∧ ∀ rest, Stops (· ≠ '<') rest →
      Markup.scan .beforeRoot [] (cs ++ rest) = Markup.scan (.inside o []) cs rest := by
  obtain ⟨ls, hls, hroot⟩ := h
  obtain ⟨o, hname, hthrough⟩ := hroot.through
  refine ⟨o, hname, fun rest hrest => ?_⟩
  rw [Markup.scan, Lexeme.readAll?_append_of_stops hls hrest, Markup.scan, Option.bind_map]
  congr 1
  funext more
  rw [Function.comp_apply, hthrough, Lexeme.readAll?_chars hls]

theorem OpenRoot.exists_tree {name cs : List Char} (h : OpenRoot name cs) :
    ∃ raw, Markup.scan .beforeRoot [] cs = some raw ∧
      ∀ gap trailing, Blank gap → IsMisc trailing →
        Markup.scan .beforeRoot [] (cs ++ closeTag name gap ++ trailing) = some raw := by
  obtain ⟨o, hname, hscan⟩ := h.scan
  refine ⟨o.close, ?_, fun gap trailing hgap htrailing => ?_⟩
  · have hend := hscan [] nofun
    rw [List.append_nil, scan_nil] at hend
    exact hend
  · have htag : Stops (· ≠ '<') (closeTag name gap ++ trailing) := stops_cons (by decide)
    have hend := htrailing.scan (.afterRoot o.close) (fun _ _ => nofun)
      (cs ++ closeTag name gap) []
    rw [List.append_nil, scan_nil] at hend
    rw [List.append_assoc, hscan _ htag, scan_closeTag h.isName hgap hname]
    exact hend

/-- The closing tag of the root and what stands behind it add nothing to a tree. -/
theorem OpenRoot.read_closed {name cs gap trailing : List Char} (h : OpenRoot name cs)
    (hgap : Blank gap) (htrailing : IsMisc trailing) :
    read (String.ofList (cs ++ closeTag name gap ++ trailing)) = read (String.ofList cs) := by
  obtain ⟨raw, hcut, hwhole⟩ := h.exists_tree
  rw [read_eq_scan, read_eq_scan, String.toList_ofList, String.toList_ofList, hcut,
    hwhole gap trailing hgap htrailing]

/-! ## Every document has such a form -/

theorem Around.isMisc {ls : List Lexeme} (h : Around ls) (hls : ∀ l ∈ ls, l.WellFormed) :
    IsMisc (ls.flatMap Lexeme.chars) := by
  induction ls with
  | nil => exact .nil
  | cons l ls ih =>
    obtain ⟨hl, hrest⟩ := List.forall_mem_cons.1 h
    obtain ⟨hwl, hwrest⟩ := List.forall_mem_cons.1 hls
    rw [List.flatMap_cons]
    exact (isMisc_of_allowsOutside hwl hl).append (ih hrest hwrest)

theorem IsForm.hasForm {cs : List Char} {ls : List Lexeme} (hls : Lexeme.readAll? cs = some ls)
    (h : IsForm ls) : HasForm cs := by
  have hwellFormed := Lexeme.wellFormed_of_readAll? hls
  have hchars := Lexeme.readAll?_chars hls
  cases h with
  | unclosed hroot => exact .unclosed ⟨ls, hls, hroot⟩
  | @empty leading trailing name gap as hleading htrailing =>
    rw [List.forall_mem_append, List.forall_mem_cons] at hwellFormed
    obtain ⟨hwleading, htag, hwtrailing⟩ := hwellFormed
    rw [← hchars, List.flatMap_append, List.flatMap_cons, ← List.append_assoc]
    exact .empty (hleading.isMisc hwleading) htag (htrailing.isMisc hwtrailing)
  | @closed name gap front trailing hroot htrailing =>
    rw [List.forall_mem_append, List.forall_mem_cons] at hwellFormed
    obtain ⟨_, htag, hwtrailing⟩ := hwellFormed
    rw [← hchars, List.flatMap_append, List.flatMap_cons, ← List.append_assoc]
    exact .closed ⟨front, Lexeme.readAll?_front hls, hroot⟩ htag.2 (htrailing.isMisc hwtrailing)

theorem HasForm.exists_tree {cs : List Char} (h : HasForm cs) :
    ∃ raw, scan .beforeRoot [] cs = some raw := by
  cases h with
  | unclosed hroot =>
    obtain ⟨raw, hcut, _⟩ := hroot.exists_tree
    exact ⟨raw, hcut⟩
  | closed hroot hgap htrailing =>
    obtain ⟨raw, _, hwhole⟩ := hroot.exists_tree
    exact ⟨raw, hwhole _ _ hgap htrailing⟩
  | @empty leading name gap trailing as hleading htag htrailing =>
    let root := (OpenElement.ofTag (lineBehind leading) name as).close
    have hopen := scan_lexeme htag .beforeRoot leading trailing fun _ heq => by cases heq
    have hend := htrailing.scan (.afterRoot root) (fun _ _ => nofun)
      (leading ++ openTag name as gap true) []
    rw [List.append_nil, scan_nil] at hend
    refine ⟨root, ?_⟩
    rw [List.append_assoc, hleading.scan .beforeRoot (fun _ _ => nofun), List.nil_append]
    exact hopen.trans hend

theorem hasForm_iff {source : String} : read source ≠ .error .form ↔ HasForm source.toList := by
  rw [read_ne_form_iff]
  constructor
  · intro ⟨raw, hscan⟩
    obtain ⟨ls, hls, hthrough⟩ := Option.bind_eq_some_iff.1 hscan
    exact (isForm_iff.1 ⟨raw, hthrough⟩).hasForm hls
  · exact HasForm.exists_tree

/-- A text is read if its root closes itself, stands open at the end, or is closed
behind a text in which it stands open.  To close an open root, and to add what may
stand behind a root, changes nothing about the story or about what is wrong with it.
Behind the first tag, an element that is opened and not closed is never read. -/
theorem root_may_stay_open :
    (∀ source, read source ≠ .error .form ↔ HasForm source.toList) ∧
    (∀ name cs gap trailing, OpenRoot name cs → Blank gap → IsMisc trailing → ∀ folder,
      Story.read (String.ofList (cs ++ closeTag name gap ++ trailing)) folder =
        Story.read (String.ofList cs) folder) ∧
    ∀ source earlier name as gap later,
      Lexeme.readAll? source.toList = some (earlier ++ .opening name as gap false :: later) →
      (∃ l ∈ earlier, l.isOpening = true) →
      (¬ ∃ inner gap' rest, Balanced inner ∧ later = inner ++ .closing name gap' :: rest) →
      ∀ folder, ∃ detail, Story.read source folder = .error (.illFormedMarkup detail) := by
  refine ⟨fun source => hasForm_iff, ?_, ?_⟩
  · intro name cs gap trailing hroot hgap htrailing folder
    rw [Story.read, Story.read, hroot.read_closed hgap htrailing]
  · intro source earlier name as gap later hls hearlier hopen folder
    have hnone : (Lexeme.readAll? source.toList).bind treeOf? = none := by
      rw [hls, Option.bind_some, Option.eq_none_iff_forall_ne_some]
      intro raw htree
      have hthrough : Progress.beforeRoot.through [] _ = some raw := htree
      exact hopen (closed_of_through hthrough (Or.inr hearlier))
    have hread : read source = .error .form := by
      rw [read, hnone]
    have hstory : Story.read source folder = .error (.ofMarkupFault .form) := by
      simp only [Story.read, hread]
    exact ⟨_, hstory⟩

-- The tag that is there closes the inner element; the inner one may not stay open.
example : (read "<a><a></a>").toOption.isSome := by decide +kernel

example : (read "<a><a>").toOption.isNone := by decide +kernel

end Markup
end AudioWalk
