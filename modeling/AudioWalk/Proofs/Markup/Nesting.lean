import AudioWalk.Proofs.Markup.Scanning

/-!
# How tags nest

The form of a document, told by its lexemes alone and without a stack.  Content is
balanced: each opening tag in it has its own closing tag, of the same name and with
balanced content in front.  The root is a tag like others, but for one thing: its
closing tag may be left out.

`isForm_iff` is that this is the form that the reader demands.  The names of
attributes and what their values stand for play no part in it.
-/

namespace AudioWalk
namespace Markup

/-- May stand inside of an element and opens or closes none. -/
def Lexeme.isInert : Lexeme → Bool
  | .enclosed kind _ => kind.standsInside
  | .text _ => true
  | .opening _ _ _ closed => closed
  | .closing _ _ => false

def Lexeme.isOpening : Lexeme → Bool
  | .opening _ _ _ _ => true
  | _ => false

/-- Every element that is opened here is closed here, by a tag of its name. -/
inductive Balanced : List Lexeme → Prop
  | nil : Balanced []
  | inert {l : Lexeme} {rest : List Lexeme} (hl : l.isInert = true) (hrest : Balanced rest) :
    Balanced (l :: rest)
  | element {name gap gap' : List Char} {as : List Attribute} {inner rest : List Lexeme}
    (hinner : Balanced inner) (hrest : Balanced rest) :
    Balanced (.opening name as gap false :: inner ++ .closing name gap' :: rest)

/-- May stand around the root. -/
def Around (ls : List Lexeme) : Prop := ∀ l ∈ ls, Progress.allowsOutside l = true

/-- All that is open behind these lexemes is the root, an element of this name. -/
inductive RootOpen (name : List Char) : List Lexeme → Prop
  | mk {leading body : List Lexeme} {as : List Attribute} {gap : List Char}
    (hleading : Around leading) (hbody : Balanced body) :
    RootOpen name (leading ++ .opening name as gap false :: body)

/-- The lexemes of a document. -/
inductive IsForm : List Lexeme → Prop
  | empty {leading trailing : List Lexeme} {name gap : List Char} {as : List Attribute}
    (hleading : Around leading) (htrailing : Around trailing) :
    IsForm (leading ++ .opening name as gap true :: trailing)
  | unclosed {name : List Char} {ls : List Lexeme} (hroot : RootOpen name ls) : IsForm ls
  | closed {name gap : List Char} {ls trailing : List Lexeme} (hroot : RootOpen name ls)
    (htrailing : Around trailing) : IsForm (ls ++ .closing name gap :: trailing)

/-! ## What is well nested is read -/

/-- Balanced content adds children to the element around it, and leaves the stack as
it is. -/
theorem Balanced.through {ls : List Lexeme} (h : Balanced ls) (o : OpenElement)
    (outer : List OpenElement) (before : List Char) :
    ∃ o', o'.name = o.name ∧ ∀ more, (Progress.inside o outer).through before (ls ++ more) =
      (Progress.inside o' outer).through (before ++ ls.flatMap Lexeme.chars) more := by
  induction h generalizing o outer before with
  | nil => exact ⟨o, rfl, fun more => by rw [List.nil_append, List.flatMap_nil, List.append_nil]⟩
  | @inert l rest hl hrest ih =>
    obtain ⟨o₁, hname₁, hstep⟩ : ∃ o₁, o₁.name = o.name ∧
        (Progress.inside o outer).step (lineBehind before, l) = some (.inside o₁ outer) := by
      cases l with
      | enclosed kind body => exact ⟨o, rfl, if_pos hl⟩
      | text body => exact ⟨o, rfl, rfl⟩
      | opening name as gap closed =>
        cases hl
        exact ⟨o.addChild (OpenElement.ofTag (lineBehind before) name as).close, rfl, rfl⟩
      | closing name gap => cases hl
    obtain ⟨o₂, hname₂, hrest⟩ := ih o₁ outer (before ++ l.chars)
    refine ⟨o₂, hname₂.trans hname₁, fun more => ?_⟩
    rw [List.cons_append, Progress.through_cons, hstep, Option.bind_some, hrest,
      List.flatMap_cons, List.append_assoc]
  | @element name gap gap' as inner rest hinner hrest ih ih' =>
    let opened := OpenElement.ofTag (lineBehind before) name as
    have hopen : (Progress.inside o outer).step
        (lineBehind before, .opening name as gap false) = some (.inside opened (o :: outer)) := rfl
    obtain ⟨o₁, hname₁, hinner⟩ :=
      ih opened (o :: outer) (before ++ (Lexeme.opening name as gap false).chars)
    have hclose (line : Nat) : (Progress.inside o₁ (o :: outer)).step
        (line, .closing name gap') = some (.inside (o.addChild o₁.close) outer) :=
      if_pos hname₁.symm
    obtain ⟨o₂, hname₂, hrest⟩ := ih' (o.addChild o₁.close) outer
      (before ++ (Lexeme.opening name as gap false).chars ++ inner.flatMap Lexeme.chars ++
        (Lexeme.closing name gap').chars)
    refine ⟨o₂, hname₂, fun more => ?_⟩
    rw [List.append_assoc, List.cons_append, List.cons_append, Progress.through_cons, hopen,
      Option.bind_some, hinner, Progress.through_cons, hclose, Option.bind_some, hrest]
    simp

theorem Around.through {ls : List Lexeme} (h : Around ls) (st : Progress)
    (hst : ∀ o outer, st ≠ .inside o outer) (before : List Char) (more : List Lexeme) :
    st.through before (ls ++ more) = st.through (before ++ ls.flatMap Lexeme.chars) more := by
  induction ls generalizing before with
  | nil => rw [List.nil_append, List.flatMap_nil, List.append_nil]
  | cons l ls ih =>
    obtain ⟨hl, hrest⟩ := List.forall_mem_cons.1 h
    have hstep : st.step (lineBehind before, l) = some st := by
      cases st with
      | inside o outer => exact absurd rfl (hst o outer)
      | beforeRoot =>
        cases l with
        | opening name as gap closed => cases hl
        | enclosed kind body => exact if_pos hl
        | text body => exact if_pos hl
        | closing name gap => cases hl
      | afterRoot root => exact if_pos hl
    rw [List.cons_append, Progress.through_cons, hstep, Option.bind_some, ih hrest,
      List.flatMap_cons, List.append_assoc]

theorem RootOpen.through {name : List Char} {ls : List Lexeme} (h : RootOpen name ls) :
    ∃ o : OpenElement, o.name = String.ofList name ∧ ∀ more,
      Progress.beforeRoot.through [] (ls ++ more) =
        (Progress.inside o []).through (ls.flatMap Lexeme.chars) more := by
  cases h with
  | @mk leading body as gap hleading hbody =>
    let opened := OpenElement.ofTag (lineBehind (leading.flatMap Lexeme.chars)) name as
    have hopen : Progress.beforeRoot.step
        (lineBehind (leading.flatMap Lexeme.chars), .opening name as gap false) =
        some (.inside opened []) := rfl
    obtain ⟨o, hname, hbody⟩ := hbody.through opened []
      (leading.flatMap Lexeme.chars ++ (Lexeme.opening name as gap false).chars)
    refine ⟨o, hname, fun more => ?_⟩
    rw [List.append_assoc, hleading.through .beforeRoot (fun _ _ => nofun),
      List.nil_append, List.cons_append, Progress.through_cons, hopen, Option.bind_some, hbody]
    simp

theorem IsForm.exists_tree {ls : List Lexeme} (h : IsForm ls) :
    ∃ root, Progress.beforeRoot.through [] ls = some root := by
  have hend {root : Element} {before : List Char} {trailing : List Lexeme}
      (htrailing : Around trailing) :
      (Progress.afterRoot root).through before trailing = some root := by
    have hthrough := htrailing.through (.afterRoot root) (fun _ _ => nofun) before []
    rw [List.append_nil] at hthrough
    exact hthrough
  cases h with
  | @empty leading trailing name gap as hleading htrailing =>
    refine ⟨(OpenElement.ofTag (lineBehind (leading.flatMap Lexeme.chars)) name as).close, ?_⟩
    rw [hleading.through .beforeRoot (fun _ _ => nofun), Progress.through_cons]
    exact hend htrailing
  | unclosed hroot =>
    obtain ⟨o, _, hthrough⟩ := hroot.through
    have hall := hthrough []
    rw [List.append_nil] at hall
    exact ⟨o.close, hall⟩
  | @closed name gap ls trailing hroot htrailing =>
    obtain ⟨o, hname, hthrough⟩ := hroot.through
    refine ⟨o.close, ?_⟩
    rw [hthrough, Progress.through_cons, Progress.step, if_pos hname.symm, Option.bind_some]
    exact hend htrailing

/-! ## What is read is well nested -/

/-- What open elements ask of the lexemes that follow, told by their names, the
innermost one first: each is closed behind balanced content, but the outermost one
need not be. -/
def Closes : List String → String → List Lexeme → Prop
  | [], name, ls =>
    Balanced ls ∨ ∃ inner gap trailing, Balanced inner ∧ Around trailing ∧
      ls = inner ++ .closing name.toList gap :: trailing
  | parent :: outer, name, ls =>
    ∃ inner gap rest, Balanced inner ∧ Closes outer parent rest ∧
      ls = inner ++ .closing name.toList gap :: rest

theorem Closes.prepend (front : List Lexeme) {outer : List String} {name : String}
    {rest : List Lexeme} (hfront : ∀ more, Balanced more → Balanced (front ++ more))
    (h : Closes outer name rest) : Closes outer name (front ++ rest) := by
  cases outer with
  | nil =>
    rcases h with h | ⟨inner, gap, trailing, hinner, htrailing, rfl⟩
    · exact Or.inl (hfront rest h)
    · exact Or.inr ⟨front ++ inner, gap, trailing, hfront inner hinner, htrailing,
        (List.append_assoc _ _ _).symm⟩
  | cons parent outer =>
    obtain ⟨inner, gap, rest, hinner, hrest, rfl⟩ := h
    exact ⟨front ++ inner, gap, rest, hfront inner hinner, hrest,
      (List.append_assoc _ _ _).symm⟩

theorem around_of_through {ls : List Lexeme} {before : List Char} {root root' : Element}
    (h : (Progress.afterRoot root).through before ls = some root') : Around ls := by
  induction ls generalizing before with
  | nil => exact List.forall_mem_nil _
  | cons l ls ih =>
    rw [Progress.through_cons, Progress.step] at h
    by_cases hl : Progress.allowsOutside l = true
    · rw [if_pos hl] at h
      exact List.forall_mem_cons.2 ⟨hl, ih h⟩
    · rw [if_neg hl] at h
      cases h

theorem closes_of_through {ls : List Lexeme} {o : OpenElement} {outer : List OpenElement}
    {before : List Char} {root : Element}
    (h : (Progress.inside o outer).through before ls = some root) :
    Closes (outer.map OpenElement.name) o.name ls := by
  induction ls generalizing o outer before with
  | nil =>
    cases outer with
    | nil => exact Or.inl .nil
    | cons parent outer => cases h
  | cons l ls ih =>
    rw [Progress.through_cons] at h
    have hinert (hl : l.isInert = true) (hrest : Closes (outer.map OpenElement.name) o.name ls) :
        Closes (outer.map OpenElement.name) o.name (l :: ls) :=
      hrest.prepend [l] fun more => .inert hl
    cases l with
    | text body => exact hinert rfl (ih h)
    | enclosed kind body =>
      by_cases hkind : kind.standsInside = true
      · rw [Progress.step, if_pos hkind] at h
        exact hinert hkind (ih h)
      · rw [Progress.step, if_neg hkind] at h
        cases h
    | opening name as gap closed =>
      cases closed with
      | true =>
        let child := (OpenElement.ofTag (lineBehind before) name as).close
        exact hinert rfl (ih (o := o.addChild child) h)
      | false =>
        -- Behind its end the stack is the old one, up to the children.
        obtain ⟨inner, gap', rest, hinner, hrest, rfl⟩ := ih h
        rw [OpenElement.toList_name_ofTag]
        have hfront := hrest.prepend
          (.opening name as gap false :: inner ++ [.closing name gap']) fun more hmore => by
            rw [List.append_assoc]
            exact .element hinner hmore
        simpa using hfront
    | closing name gap =>
      by_cases hname : String.ofList name = o.name
      · rw [Progress.step, if_pos hname] at h
        have hlist : name = o.name.toList := by rw [← hname, String.toList_ofList]
        rw [hlist]
        cases outer with
        | nil => exact Or.inr ⟨[], gap, ls, .nil, around_of_through h, rfl⟩
        | cons parent outer =>
          exact ⟨[], gap, ls, .nil, ih (o := parent.addChild o.close) h, rfl⟩
      · rw [Progress.step, if_neg hname] at h
        cases h

theorem isForm_of_through {leading ls : List Lexeme} (hleading : Around leading)
    {before : List Char} {root : Element}
    (h : Progress.beforeRoot.through before ls = some root) : IsForm (leading ++ ls) := by
  induction ls generalizing leading before with
  | nil => cases h
  | cons l ls ih =>
    rw [Progress.through_cons] at h
    have houtside (hl : Progress.allowsOutside l = true)
        (h : Progress.beforeRoot.through (before ++ l.chars) ls = some root) :
        IsForm (leading ++ l :: ls) := by
      rw [List.append_cons]
      exact ih (List.forall_mem_append.2 ⟨hleading, List.forall_mem_singleton.2 hl⟩) h
    cases l with
    | text body =>
      simp only [Progress.step] at h
      split at h
      · next hl => exact houtside hl h
      · cases h
    | enclosed kind body =>
      simp only [Progress.step] at h
      split at h
      · next hl => exact houtside hl h
      · cases h
    | closing name gap => cases h
    | opening name as gap closed =>
      cases closed with
      | true => exact .empty hleading (around_of_through h)
      | false =>
        rcases closes_of_through h with hbody | ⟨inner, gap', trailing, hinner, htrailing, rfl⟩
        · exact .unclosed (.mk hleading hbody)
        · rw [OpenElement.toList_name_ofTag]
          have hclosed : IsForm ((leading ++ .opening name as gap false :: inner) ++
              .closing name gap' :: trailing) :=
            .closed (.mk hleading hinner) htrailing
          simpa using hclosed

/-- The reader demands that a document is well nested, and nothing else. -/
theorem isForm_iff {ls : List Lexeme} : (∃ root, treeOf? ls = some root) ↔ IsForm ls := by
  refine ⟨fun ⟨root, h⟩ => ?_, IsForm.exists_tree⟩
  have hthrough : Progress.beforeRoot.through [] ls = some root := h
  exact isForm_of_through (List.forall_mem_nil _) hthrough

theorem Progress.eq_beforeRoot_of_step {st : Progress} {line : Nat} {l : Lexeme}
    (h : st.step (line, l) = some .beforeRoot) : st = .beforeRoot ∧ l.isOpening = false := by
  cases st with
  | beforeRoot =>
    cases l with
    | opening name as gap closed => cases closed <;> cases h
    | enclosed kind body => exact ⟨rfl, rfl⟩
    | text body => exact ⟨rfl, rfl⟩
    | closing name gap => cases h
  | inside o outer =>
    cases l with
    | opening name as gap closed => cases closed <;> cases h
    | enclosed kind body => rw [step] at h; split at h <;> cases h
    | text body => cases h
    | closing name gap =>
      rw [step] at h
      split at h
      · cases outer <;> cases h
      · cases h
  | afterRoot root => rw [step] at h; split at h <;> cases h

/-- Behind the first tag, an element that is opened is closed. -/
theorem closed_of_through {st : Progress} {before name gap : List Char} {as : List Attribute}
    {earlier later : List Lexeme} {root : Element}
    (h : st.through before (earlier ++ .opening name as gap false :: later) = some root)
    (hinner : st ≠ .beforeRoot ∨ ∃ l ∈ earlier, l.isOpening = true) :
    ∃ inner gap' rest, Balanced inner ∧ later = inner ++ .closing name gap' :: rest := by
  induction earlier generalizing st before with
  | nil =>
    rw [List.nil_append, Progress.through_cons] at h
    cases st with
    | beforeRoot => exact hinner.elim (absurd rfl) fun ⟨l, hl, _⟩ => absurd hl List.not_mem_nil
    | afterRoot root => cases h
    | inside o outer =>
      have hopened : (Progress.inside (OpenElement.ofTag (lineBehind before) name as)
          (o :: outer)).through (before ++ (Lexeme.opening name as gap false).chars) later =
            some root := h
      obtain ⟨inner, gap', rest, hbalanced, _, hlater⟩ := closes_of_through hopened
      rw [OpenElement.toList_name_ofTag] at hlater
      exact ⟨inner, gap', rest, hbalanced, hlater⟩
  | cons l earlier ih =>
    rw [List.cons_append, Progress.through_cons] at h
    obtain ⟨st', hstep, hrest⟩ := Option.bind_eq_some_iff.1 h
    refine ih hrest ?_
    by_cases hst' : st' = .beforeRoot
    · rw [hst'] at hstep
      obtain ⟨hst, hl⟩ := Progress.eq_beforeRoot_of_step hstep
      obtain ⟨m, hm, hopening⟩ := hinner.resolve_left (absurd hst)
      rcases List.mem_cons.1 hm with rfl | hm
      · rw [hl] at hopening
        cases hopening
      · exact Or.inr ⟨m, hm, hopening⟩
    · exact Or.inl hst'

end Markup
end AudioWalk
