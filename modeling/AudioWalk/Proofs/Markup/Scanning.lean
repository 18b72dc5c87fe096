import AudioWalk.Markup.Document
import AudioWalk.Proofs.Markup.Values

/-!
# Reading on from a point of a document

`scan` is the reader from a point inside a document on, with the stack of the
elements that are open there.  Each piece of a document in front of a text takes
the reader to the state behind the piece.  So a derived element takes the stack
to where the finished element belongs to it (`IsElement.scan`), whatever stands
behind the element, and a derived document is read (`IsDocument.read`).
-/

namespace AudioWalk
namespace Markup

open Text (isSpace)

theorem lineBehind_append (before cs : List Char) :
    lineBehind (before ++ cs) = lineBehind before + cs.count '\n' := by
  rw [lineBehind, lineBehind, List.count_append]
  omega

/-! ## The reader from a point inside a document on -/

namespace OpenElement

theorem toList_name_ofTag (line : Nat) (name : List Char) (as : List Attribute) :
    (ofTag line name as).name.toList = name :=
  String.toList_ofList

def addChildren (o : OpenElement) (es : List Element) : OpenElement :=
  { o with childrenReversed := es.reverse ++ o.childrenReversed }

theorem addChildren_nil (o : OpenElement) : o.addChildren [] = o := rfl

theorem addChildren_append (o : OpenElement) (es fs : List Element) :
    o.addChildren (es ++ fs) = (o.addChildren es).addChildren fs := by
  simp [addChildren]

theorem addChildren_cons (o : OpenElement) (e : Element) (es : List Element) :
    o.addChildren (e :: es) = (o.addChild e).addChildren es := by
  simp [addChildren, addChild]

theorem close_ofTag_addChildren (line : Nat) (name : List Char) (as : List Attribute)
    (es : List Element) :
    ((ofTag line name as).addChildren es).close =
      ⟨String.ofList name, Element.written as, es, line⟩ := by
  simp [close, addChildren, ofTag, Element.written]

end OpenElement

/-- Inside the elements of a stack, or in front of the root. -/
def Progress.within : List OpenElement → Progress
  | [] => .beforeRoot
  | o :: os => .inside o os

/-- The root of a document that goes on with some lexemes. -/
def Progress.through (st : Progress) (before : List Char) (ls : List Lexeme) : Option Element :=
  ((withLines (lineBehind before) ls).foldlM step st).bind finish

def scan (st : Progress) (before cs : List Char) : Option Element :=
  (Lexeme.readAll? cs).bind (st.through before)

theorem Progress.through_cons (st : Progress) (before : List Char) (l : Lexeme)
    (ls : List Lexeme) :
    st.through before (l :: ls) =
      (st.step (lineBehind before, l)).bind fun st' => st'.through (before ++ l.chars) ls := by
  simp only [through, withLines, List.foldlM_cons, Option.bind_eq_bind, Option.bind_assoc,
    lineBehind_append]

theorem scan_nil (st : Progress) (before : List Char) : scan st before [] = st.finish := by
  rw [scan, Lexeme.readAll?_nil]
  rfl

theorem scan_lexeme {l : Lexeme} (h : l.WellFormed) (st : Progress) (before rest : List Char)
    (htext : ∀ body, l = .text body → Stops (· ≠ '<') rest) :
    scan st before (l.chars ++ rest) =
      (st.step (lineBehind before, l)).bind fun st' => scan st' (before ++ l.chars) rest := by
  rw [scan, Lexeme.readAll?_append h rest htext]
  cases hrest : Lexeme.readAll? rest with
  | none => cases st.step (lineBehind before, l) <;> simp [scan, hrest]
  | some ls =>
    rw [Option.map_some, Option.bind_some, Progress.through_cons]
    simp only [scan, hrest, Option.bind_some]

/-! ### Text -/

/-- Text that may stand here. -/
def Progress.admits : Progress → Char → Bool
  | inside _ _, _ => true
  | _, c => isSpace c

theorem Progress.step_text (st : Progress) (line : Nat) (body : List Char) :
    st.step (line, .text body) = if body.all st.admits then some st else none := by
  cases st with
  | beforeRoot => rfl
  | inside current outer => simp [step, admits]
  | afterRoot root => rfl

theorem scan_run {body rest : List Char} (hbody : '<' ∉ body) (hrest : Stops (· ≠ '<') rest)
    (st : Progress) (before : List Char) :
    scan st before (body ++ rest) =
      if body.all st.admits then scan st (before ++ body) rest else none := by
  by_cases hne : body = []
  · subst hne
    simp
  · have h := scan_lexeme (l := .text body) ⟨hne, hbody⟩ st before rest fun _ _ => hrest
    rw [Progress.step_text] at h
    refine h.trans ?_
    split <;> rfl

/-- A piece of a run of text can be taken off in front. -/
theorem scan_text {body : List Char} {st : Progress} (hbody : '<' ∉ body)
    (hadmits : body.all st.admits = true) (before rest : List Char) :
    scan st before (body ++ rest) = scan st (before ++ body) rest := by
  -- The run goes on into `rest`, up to the next tag.
  obtain ⟨more, tags, rfl, hmore, htags⟩ :
      ∃ more tags, rest = more ++ tags ∧ '<' ∉ more ∧ Stops (· ≠ '<') tags := by
    refine ⟨rest.takeWhile (· ≠ '<'), rest.dropWhile (· ≠ '<'), by simp, fun hmem => ?_,
      stops_dropWhile _ _⟩
    have hne := List.mem_takeWhile_imp hmem
    simp at hne
  have hboth : '<' ∉ body ++ more := fun hmem => (List.mem_append.1 hmem).elim hbody hmore
  rw [← List.append_assoc, scan_run hboth htags, scan_run hmore htags, List.all_append, hadmits,
    Bool.true_and, List.append_assoc]

theorem scan_content_text {body : List Char} (hbody : '<' ∉ body) (o : OpenElement)
    (os : List OpenElement) (before rest : List Char) :
    scan (.inside o os) before (body ++ rest) = scan (.inside o os) (before ++ body) rest :=
  scan_text hbody (List.all_eq_true.2 fun _ _ => rfl) before rest

/-! ### Tags and enclosures -/

theorem scan_enclosure {kind : Enclosure} {body : List Char} (hbody : ¬ kind.closer <:+: body)
    {st : Progress} (before rest : List Char)
    (hstep : st.step (lineBehind before, .enclosed kind body) = some st) :
    scan st before (enclosure kind body ++ rest) =
      scan st (before ++ enclosure kind body) rest := by
  have h := scan_lexeme (l := .enclosed kind body) hbody st before rest fun _ heq => by cases heq
  rw [hstep] at h
  exact h

theorem Progress.step_enclosed {kind : Enclosure} (hkind : kind ≠ .documentType)
    (o : OpenElement) (os : List OpenElement) (line : Nat) (body : List Char) :
    (inside o os).step (line, .enclosed kind body) = some (inside o os) := by
  cases kind with
  | documentType => exact absurd rfl hkind
  | comment => rfl
  | characterData => rfl
  | instruction => rfl

theorem Progress.step_within (stack : List OpenElement) (line : Nat) (name : List Char)
    (as : List Attribute) (gap : List Char) (closed : Bool) :
    (within stack).step (line, .opening name as gap closed) =
      some (if closed then complete (OpenElement.ofTag line name as).close stack
        else inside (OpenElement.ofTag line name as) stack) := by
  cases stack <;> rfl

theorem scan_openTag {name gap : List Char} {as : List Attribute}
    {pairs : List (String × String)} (htag : IsTag name as gap pairs) (closed : Bool)
    (stack : List OpenElement) (before rest : List Char) :
    scan (.within stack) before (openTag name as gap closed ++ rest) =
      scan (if closed then
          Progress.complete (OpenElement.ofTag (lineBehind before) name as).close stack
        else .inside (OpenElement.ofTag (lineBehind before) name as) stack)
        (before ++ openTag name as gap closed) rest := by
  have h := scan_lexeme (l := .opening name as gap closed)
    ⟨htag.name, htag.attributes, htag.gap⟩ (.within stack) before rest fun _ heq => by cases heq
  rw [Progress.step_within] at h
  exact h

theorem scan_closeTag {name gap : List Char} (hname : IsName name) (hgap : Blank gap)
    {o : OpenElement} (ho : o.name = String.ofList name) (os : List OpenElement)
    (before rest : List Char) :
    scan (.inside o os) before (closeTag name gap ++ rest) =
      scan (.complete o.close os) (before ++ closeTag name gap) rest := by
  have h := scan_lexeme (l := .closing name gap) ⟨hname, hgap⟩ (.inside o os) before rest
    fun _ heq => by cases heq
  rw [Progress.step, if_pos ho.symm] at h
  exact h

/-! ## Every derivation is read -/

mutual

/-- A derived element is read to a tree that resolves to it, wherever it stands
and whatever stands behind it. -/
theorem IsElement.scan {before cs : List Char} {e : Element} : IsElement before cs e →
    ∃ raw, raw.resolve = .ok e ∧ ∀ stack rest,
      Markup.scan (.within stack) before (cs ++ rest) =
        Markup.scan (.complete raw stack) (before ++ cs) rest
  | @IsElement.closed before name gap as pairs htag => by
    refine ⟨⟨String.ofList name, Element.written as, [], lineBehind before⟩, ?_,
      fun stack rest => ?_⟩
    · exact Element.resolve_written.2 ⟨pairs, [], htag.denote, rfl, rfl⟩
    · exact scan_openTag htag true stack before rest
  | @IsElement.balanced before name gap body gap' as pairs children htag hbody hgap => by
    obtain ⟨raws, hraws, hscan⟩ := hbody.scan
    refine ⟨⟨String.ofList name, Element.written as, raws, lineBehind before⟩, ?_,
      fun stack rest => ?_⟩
    · exact Element.resolve_written.2 ⟨pairs, children, htag.denote, hraws, rfl⟩
    · let o := OpenElement.ofTag (lineBehind before) name as
      have hclose : (o.addChildren raws).close =
          ⟨String.ofList name, Element.written as, raws, lineBehind before⟩ :=
        OpenElement.close_ofTag_addChildren _ name as raws
      rw [List.append_assoc, List.append_assoc, scan_openTag htag false, if_neg Bool.false_ne_true,
        hscan o stack, scan_closeTag htag.name hgap rfl, hclose, List.append_assoc,
        List.append_assoc, List.append_assoc]

theorem IsContent.scan {before cs : List Char} {es : List Element} : IsContent before cs es →
    ∃ raws, Element.resolveAll raws = .ok es ∧ ∀ o os rest,
      Markup.scan (.inside o os) before (cs ++ rest) =
        Markup.scan (.inside (o.addChildren raws) os) (before ++ cs) rest
  | .nil => ⟨[], rfl, fun o os rest => by simp [OpenElement.addChildren_nil]⟩
  | .text hbody hrest => by
    obtain ⟨raws, hraws, hscan⟩ := hrest.scan
    refine ⟨raws, hraws, fun o os rest => ?_⟩
    rw [List.append_assoc, scan_content_text hbody, hscan, List.append_assoc]
  | .enclosed hkind hbody hrest => by
    obtain ⟨raws, hraws, hscan⟩ := hrest.scan
    refine ⟨raws, hraws, fun o os rest => ?_⟩
    rw [List.append_assoc, scan_enclosure hbody _ _ (Progress.step_enclosed hkind o os _ _), hscan,
      List.append_assoc]
  | .element helement hrest => by
    obtain ⟨raw, hraw, hfirst⟩ := helement.scan
    obtain ⟨raws, hraws, hscan⟩ := hrest.scan
    refine ⟨raw :: raws, Element.resolveAll_cons_eq_ok.2 ⟨_, _, hraw, hraws, rfl⟩,
      fun o os rest => ?_⟩
    rw [List.append_assoc, show Progress.inside o os = .within (o :: os) from rfl, hfirst,
      Progress.complete, hscan, OpenElement.addChildren_cons, List.append_assoc]

end

theorem Progress.step_outside {kind : Enclosure} (hkind : kind ≠ .characterData) {st : Progress}
    (hst : ∀ o os, st ≠ .inside o os) (line : Nat) (body : List Char) :
    st.step (line, .enclosed kind body) = some st := by
  have hallowed : allowsOutside (.enclosed kind body) = true := by
    cases kind with
    | characterData => exact absurd rfl hkind
    | comment => rfl
    | instruction => rfl
    | documentType => rfl
  cases st with
  | beforeRoot => simp only [step, if_pos hallowed]
  | inside o os => exact absurd rfl (hst o os)
  | afterRoot root => simp only [step, if_pos hallowed]

theorem IsMisc.scan {cs : List Char} (h : IsMisc cs) (st : Progress)
    (hst : ∀ o os, st ≠ .inside o os) (before rest : List Char) :
    Markup.scan st before (cs ++ rest) = Markup.scan st (before ++ cs) rest := by
  induction h generalizing before with
  | nil => simp
  | @blank gap more hgap hmore ih =>
    have hbody : '<' ∉ gap := fun hmem => absurd (hgap '<' hmem) (by decide)
    have hadmits : gap.all st.admits = true := by
      refine List.all_eq_true.2 fun c hc => ?_
      cases st with
      | beforeRoot => exact hgap c hc
      | inside o os => exact absurd rfl (hst o os)
      | afterRoot root => exact hgap c hc
    rw [List.append_assoc, scan_text hbody hadmits, ih, List.append_assoc]
  | @enclosed body more kind hkind hbody hmore ih =>
    rw [List.append_assoc, scan_enclosure hbody _ _ (Progress.step_outside hkind hst _ _), ih,
      List.append_assoc]

theorem read_eq_scan (source : String) :
    read source =
      match scan .beforeRoot [] source.toList with
      | none => .error .form
      | some root => root.resolve := by
  rw [read, scan]
  rfl

theorem IsDocument.read {source : String} {root : Element}
    (h : IsDocument source.toList root) : Markup.read source = .ok root := by
  rw [read_eq_scan]
  generalize source.toList = cs at h
  cases h with
  | @complete leading cs trailing root hleading hroot htrailing =>
    obtain ⟨raw, hraw, hscan⟩ := hroot.scan
    have hfound : scan .beforeRoot [] (leading ++ cs ++ trailing) = some raw := by
      rw [List.append_assoc, hleading.scan .beforeRoot (fun _ _ h => by cases h), List.nil_append]
      refine (hscan [] trailing).trans ?_
      have hend := htrailing.scan (.afterRoot raw) (fun _ _ h => by cases h)
        (leading ++ cs) []
      rw [List.append_nil, scan_nil] at hend
      exact hend
    rw [hfound]
    exact hraw
  | @unclosed leading name gap body as pairs children hleading htag hbody =>
    obtain ⟨raws, hraws, hscan⟩ := hbody.scan
    let o := OpenElement.ofTag (lineBehind leading) name as
    have hfound : scan .beforeRoot [] (leading ++ openTag name as gap false ++ body) =
        some (o.addChildren raws).close := by
      rw [List.append_assoc, hleading.scan .beforeRoot (fun _ _ h => by cases h), List.nil_append]
      refine (scan_openTag htag false [] leading body).trans ?_
      have hend := hscan o [] []
      rw [List.append_nil, scan_nil] at hend
      exact hend
    rw [hfound, OpenElement.close_ofTag_addChildren]
    exact Element.resolve_written.2 ⟨pairs, children, htag.denote, hraws, rfl⟩

end Markup
end AudioWalk
