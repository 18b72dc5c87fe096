import AudioWalk.Proofs.Markup.Decoding
import AudioWalk.Proofs.Markup.Documents
import AudioWalk.Proofs.Story.Rules

/-!
# What is refused, and in whose name

A fault of a story names an element by its tag and line.  Reader by reader: where one
refuses an element, the fault names an element in it that breaks a rule (`Blamed`).
The readers of children pass the blame on, and add what a child does wrong by standing
where it stands; for the parts of an `if` and the children of the root this depends on
what stands in front of the child.
-/

namespace AudioWalk
namespace Story

open Markup (Element)

/-- The fault names an element of the tree, and a rule that it breaks. -/
def Blamed (e : Element) (f : Fault) : Prop :=
  ∃ d cause, Wrong e d cause ∧ f = ⟨d.name, d.line, cause⟩

section

variable {α : Type} {e c : Element} {f : Fault} {cause : Cause}

theorem Blamed.inside (hc : c ∈ e.children) (h : Blamed c f) : Blamed e f := by
  obtain ⟨d, cause, hwrong, hf⟩ := h
  exact ⟨d, cause, hwrong.inside hc, hf⟩

theorem Breaks.blamed (h : Breaks e cause) : Blamed e ⟨e.name, e.line, cause⟩ :=
  ⟨e, cause, .own .self h, rfl⟩

theorem BreaksIn.blamed (h : BreaksIn e c cause) : Blamed e ⟨c.name, c.line, cause⟩ :=
  ⟨c, cause, .placed .self h, rfl⟩

theorem fault_eq_error : (fault e cause : Except Fault α) = .error f ↔
    f = ⟨e.name, e.line, cause⟩ := by
  rw [fault, Except.error.injEq, eq_comm]

theorem guarded_eq_error {p : Prop} [Decidable p] {x : Except Fault α} :
    (if p then x else fault e cause) = .error f ↔
      p ∧ x = .error f ∨ ¬ p ∧ f = ⟨e.name, e.line, cause⟩ := by
  by_cases hp : p
  · simp [hp]
  · simp [hp, fault_eq_error]

theorem refused_eq_error {p : Prop} [Decidable p] {x : Except Fault α} :
    (if p then fault e cause else x) = .error f ↔
      p ∧ f = ⟨e.name, e.line, cause⟩ ∨ ¬ p ∧ x = .error f := by
  by_cases hp : p
  · simp [hp, fault_eq_error]
  · simp [hp]

theorem pure_ne_error (a : α) : (pure a : Except Fault α) ≠ .error f := nofun

end

/-! ## Attributes -/

section

variable {α : Type} {read? : List Char → Option α} {e : Element} {key : String} {f : Fault}

theorem required_eq_error :
    required e key = .error f ↔
      e.attribute? key = none ∧ f = ⟨e.name, e.line, .missingAttribute key⟩ := by
  rw [required]
  cases e.attribute? key with
  | none => simp [fault_eq_error]
  | some value => simp

theorem number_eq_error {raw : String} :
    number read? e key raw = .error f ↔
      read? (Text.trim raw.toList) = none ∧ f = ⟨e.name, e.line, .notNumber key raw⟩ := by
  rw [number]
  cases read? (Text.trim raw.toList) with
  | none => simp [fault_eq_error]
  | some a => simp

variable {tag : String} {kind : Quantity}

theorem required_blames (htag : e.name = tag) (hkey : key ∈ mandatory tag)
    (h : required e key = .error f) : Blamed e f := by
  obtain ⟨hnone, hf⟩ := required_eq_error.1 h
  rw [← htag] at hkey
  rw [hf]
  exact (Breaks.missing hkey fun ⟨text, htext⟩ => nomatch htext.symm.trans hnone).blamed

/-- The reader takes every text of a kind of number. -/
def Takes (read? : List Char → Option α) (kind : Quantity) : Prop :=
  ∀ {cs}, kind.Spells cs → ∃ a, read? cs = some a

theorem takes_int64 : Takes Text.int64? .integer := id

theorem takes_uint32 : Takes Text.uint32? .metres := id

theorem takes_float (limit : Nat) : Takes Decimal.float? (.degrees limit) := id

theorem takes_float32 : Takes Decimal.float32? .volume := id

theorem number_blames (hread : Takes read? kind) (htag : e.name = tag)
    (hkind : (key, kind) ∈ quantities tag) {raw : String} (hraw : e.attribute? key = some raw)
    (h : number read? e key raw = .error f) : Blamed e f := by
  obtain ⟨hnone, hf⟩ := number_eq_error.1 h
  rw [← htag] at hkind
  rw [hf]
  refine (Breaks.unreadable hkind hraw fun hspells => ?_).blamed
  obtain ⟨a, ha⟩ := hread hspells
  exact nomatch ha.symm.trans hnone

theorem requiredNumber_blames (hread : Takes read? kind) (htag : e.name = tag)
    (hkey : key ∈ mandatory tag) (hkind : (key, kind) ∈ quantities tag)
    (h : requiredNumber read? e key = .error f) : Blamed e f := by
  rcases bind_eq_error.1 h with hmissing | ⟨raw, hraw, hnumber⟩
  · exact required_blames htag hkey hmissing
  · exact number_blames hread htag hkind (required_eq_ok.1 hraw) hnumber

theorem optionalNumber_blames (hread : Takes read? kind) (htag : e.name = tag)
    (hkind : (key, kind) ∈ quantities tag) {default : α}
    (h : optionalNumber read? e key default = .error f) : Blamed e f := by
  rw [optionalNumber] at h
  split at h
  · next raw hraw => exact number_blames hread htag hkind hraw h
  · cases h

theorem degrees_blames {limit : Nat} (htag : e.name = tag) (hkey : key ∈ mandatory tag)
    (hkind : (key, .degrees limit) ∈ quantities tag) (h : degrees e key limit = .error f) :
    Blamed e f := by
  rcases bind_eq_error.1 h with hnumber | ⟨x, hx, hrange⟩
  · exact requiredNumber_blames (takes_float limit) htag hkey hkind hnumber
  · rcases guarded_eq_error.1 hrange with ⟨_, hpure⟩ | ⟨hout, hf⟩
    · exact absurd hpure (pure_ne_error x)
    · rw [← htag] at hkind
      rw [hf]
      refine (Breaks.degrees hkind (requiredNumber_eq_ok.1 hx) fun hin => hout ?_).blamed
      rwa [Bool.and_eq_true, decide_eq_true_eq]

end

/-! ## Elements without children -/

section

variable {e : Element} {f : Fault}

theorem leaf_blames (htag : e.name ∈ leafTags) (h : leaf e = .error f) : Blamed e f := by
  rw [leaf] at h
  split at h
  · cases h
  · next child rest hchildren =>
    have hchild : child ∈ e.children := by
      rw [hchildren]
      exact List.mem_cons_self
    rw [fault_eq_error.1 h]
    exact (BreaksIn.childOfLeaf hchild htag).blamed

theorem assignment_blames (htag : e.name = "assign") (h : assignment e = .error f) :
    Blamed e f := by
  rcases bind_eq_error.1 h with hleaf | ⟨_, _, h⟩
  · exact leaf_blames (by rw [htag]; decide) hleaf
  · rcases bind_eq_error.1 h with hname | ⟨_, _, h⟩
    · exact required_blames htag (by decide) hname
    · exact requiredNumber_blames takes_int64 htag (by decide) (by decide) (bind_pure_eq_error.1 h)

theorem incrementation_blames (htag : e.name = "increment") (h : incrementation e = .error f) :
    Blamed e f := by
  rcases bind_eq_error.1 h with hleaf | ⟨_, _, h⟩
  · exact leaf_blames (by rw [htag]; decide) hleaf
  · rcases bind_eq_error.1 h with hname | ⟨_, _, h⟩
    · exact required_blames htag (by decide) hname
    · exact optionalNumber_blames takes_int64 htag (by decide) (bind_pure_eq_error.1 h)

theorem volume_default : (0.0 : Float32) ≤ 1.0 ∧ (1.0 : Float32) ≤ 1.0 := by
  decide +kernel

theorem playing_blames (htag : e.name = "play") (h : playing e = .error f) : Blamed e f := by
  rcases bind_eq_error.1 h with hleaf | ⟨_, _, h⟩
  · exact leaf_blames (by rw [htag]; decide) hleaf
  · rcases bind_eq_error.1 h with hvolume | ⟨v, hv, h⟩
    · exact optionalNumber_blames takes_float32 htag (by decide) hvolume
    · rcases guarded_eq_error.1 h with ⟨_, h⟩ | ⟨hout, hf⟩
      · exact required_blames htag (by decide) (bind_pure_eq_error.1 h)
      · rw [Bool.and_eq_true, decide_eq_true_eq, decide_eq_true_eq] at hout
        rw [hf]
        rcases optionalNumber_eq_ok.1 hv with hreads | ⟨_, hdefault⟩
        · exact (Breaks.volume (by rw [htag]; decide) hreads hout).blamed
        · rw [hdefault] at hout
          exact absurd volume_default hout

theorem endMark_blames (htag : e.name = "end") (h : endMark e = .error f) : Blamed e f :=
  leaf_blames (by rw [htag]; decide) (bind_pure_eq_error.1 h)

theorem condition_blames (htag : e.name = "equals") (h : condition e = .error f) :
    Blamed e f := by
  rcases bind_eq_error.1 h with hleaf | ⟨_, _, h⟩
  · exact leaf_blames (by rw [htag]; decide) hleaf
  · rcases bind_eq_error.1 h with hleft | ⟨_, _, h⟩
    · exact required_blames htag (by decide) hleft
    · exact required_blames htag (by decide) (bind_pure_eq_error.1 h)

theorem statement_blames (kind : Leaf) (htag : e.name = kind.tag)
    (h : kind.statement e = .error f) : Blamed e f := by
  cases kind with
  | assign => exact assignment_blames htag h
  | increment => exact incrementation_blames htag h
  | play => exact playing_blames htag h
  | ending => exact endMark_blames htag h

end

/-! ## Elements with children -/

section

variable {β : Type} {e c : Element} {f : Fault}

theorem unknownTag_blames (hc : c ∈ e.children) (hname : c.name ∉ allowedIn e.name)
    (h : (unknownTag c e : Except Fault β) = .error f) : Blamed e f := by
  rw [fault_eq_error.1 h]
  exact (BreaksIn.unknownTag hc hname).blamed

theorem mapM_blames {read : Element → Except Fault β}
    (hread : ∀ c ∈ e.children, read c = .error f → Blamed e f)
    (h : e.children.mapM read = .error f) : Blamed e f := by
  obtain ⟨c, hfirst, hc⟩ := mapM_eq_error.1 h
  exact hread c hfirst.mem hc

/-- Children of a single kind. -/
theorem tagged_blames {read : Element → Except Fault β} {outer tag : String}
    (houter : e.name = outer) (hallowed : allowedIn outer = [tag])
    (hread : ∀ {c}, c.name = tag → read c = .error f → Blamed c f)
    (h : (e.children.mapM fun c => if c.name = tag then read c else unknownTag c e) = .error f) :
    Blamed e f := by
  refine mapM_blames (fun c hc hchild => ?_) h
  split at hchild
  · next htag => exact (hread htag hchild).inside hc
  · next htag =>
    refine unknownTag_blames hc ?_ hchild
    rw [houter, hallowed, List.mem_singleton]
    exact htag

theorem leafStatement_blames (hc : c ∈ e.children)
    (hallowed : c.name ∈ allowedIn e.name → ∃ kind : Leaf, c.name = kind.tag)
    (h : (match Leaf.ofTag? c.name with
      | some kind => kind.statement c
      | none => unknownTag c e) = .error f) : Blamed e f := by
  split at h
  · next kind hkind => exact (statement_blames kind (Leaf.ofTag?_eq_some.1 hkind) h).inside hc
  · next hnone =>
    refine unknownTag_blames hc (fun hname => ?_) h
    obtain ⟨kind, hkind⟩ := hallowed hname
    exact nomatch (Leaf.ofTag?_eq_some.2 hkind).symm.trans hnone

theorem initBlock_blames (htag : e.name = "init") (h : initBlock e = .error f) : Blamed e f :=
  tagged_blames htag rfl assignment_blames h

theorem conditions_blames (htag : e.name = "condition") (h : conditions e = .error f) :
    Blamed e f :=
  tagged_blames htag rfl condition_blames h

theorem branchBlock_blames (htag : e.name = "then" ∨ e.name = "else")
    (h : branchBlock e = .error f) : Blamed e f := by
  have hallowed : allowedIn e.name = ["assign", "increment", "play", "end"] := by
    rcases htag with htag | htag
    · rw [htag, allowedIn]
    · rw [htag, allowedIn]
  refine mapM_blames (fun c hc hchild => leafStatement_blames hc (fun hname => ?_) hchild) h
  rw [hallowed] at hname
  exact Leaf.mem_tags.1 hname

/-! ## Conditionals -/

/-- The rank that has been reached is that of a part which is done. -/
def Parts.Reached (done : List Element) (parts : Parts) : Prop :=
  parts.rank = 0 ∨ ∃ d ∈ done, ∃ part : Part, d.name = part.tag ∧ parts.rank = part.rank

theorem Parts.Reached.add {parent : Element} {done : List Element} {parts next : Parts}
    (hnext : Parts.add parent parts c = .ok next) : next.Reached (done ++ [c]) := by
  obtain ⟨part, htag, _, hfills⟩ := Parts.add_eq_ok.1 hnext
  exact Or.inr ⟨c, List.mem_append_right _ List.mem_cons_self, part, htag, hfills.rank⟩

theorem Parts.add_blames {before after : List Element} {parts : Parts} (htag : e.name = "if")
    (hsplit : e.children = before ++ c :: after) (hreached : parts.Reached before)
    (h : Parts.add e parts c = .error f) : Blamed e f := by
  have hc : c ∈ e.children := by
    rw [hsplit]
    exact List.mem_append_right _ List.mem_cons_self
  rw [Parts.add] at h
  split at h
  · next hnone =>
    refine unknownTag_blames hc (fun hname => ?_) h
    rw [htag] at hname
    obtain ⟨part, hpart⟩ := Part.mem_tags.1 hname
    rw [Part.ofTag?_eq_some.2 hpart] at hnone
    cases hnone
  · next part hpart =>
    have hname := Part.ofTag?_eq_some.1 hpart
    rcases refused_eq_error.1 h with ⟨hrank, hf⟩ | ⟨_, h⟩
    · -- A part has at least rank one, so one has been read that does not come before it.
      rcases hreached with hzero | ⟨earlier, hearlier, last, hlast, hrankLast⟩
      · rw [hzero] at hrank
        cases part <;> exact absurd hrank (by decide)
      · rw [hrankLast] at hrank
        rw [hf]
        exact (BreaksIn.partOrder htag hsplit hname hearlier hlast hrank).blamed
    · cases part with
      | condition => exact (conditions_blames hname (bind_pure_eq_error.1 h)).inside hc
      | whenTrue => exact (branchBlock_blames (Or.inl hname) (bind_pure_eq_error.1 h)).inside hc
      | whenFalse => exact (branchBlock_blames (Or.inr hname) (bind_pure_eq_error.1 h)).inside hc

theorem conditional_blames (htag : e.name = "if") (h : conditional e = .error f) :
    Blamed e f := by
  obtain ⟨before, c, after, parts, hsplit, hparts, hc⟩ :=
    foldlM_eq_error.1 (bind_pure_eq_error.1 h)
  have hnone : Parts.none.Reached [] := Or.inl rfl
  have hreached := foldlM_invariant (fun _ hnext => Parts.Reached.add hnext) hnone hparts
  exact Parts.add_blames htag hsplit hreached hc

/-! ## Circles, spots and the story -/

theorem circleBlock_blames (htag : e.name = "circle") (h : circleBlock e = .error f) :
    Blamed e f := by
  refine mapM_blames (fun c hc hchild => ?_) h
  split at hchild
  · next hif => exact (conditional_blames hif hchild).inside hc
  · next hif =>
    refine leafStatement_blames hc (fun hname => ?_) hchild
    rw [htag] at hname
    rcases List.mem_append.1 (show c.name ∈ ["assign", "increment", "play", "end"] ++ ["if"]
      from hname) with hplain | hother
    · exact Leaf.mem_tags.1 hplain
    · exact absurd (List.mem_singleton.1 hother) hif

theorem circle_blames (htag : e.name = "circle") (h : circle e = .error f) : Blamed e f := by
  rcases bind_eq_error.1 h with hradius | ⟨_, _, h⟩
  · exact requiredNumber_blames takes_uint32 htag (by decide) (by decide) hradius
  · exact circleBlock_blames htag (bind_pure_eq_error.1 h)

theorem spot_blames (htag : e.name = "spot") (h : spot e = .error f) : Blamed e f := by
  rcases bind_eq_error.1 h with hlatitude | ⟨_, _, h⟩
  · exact degrees_blames htag (by decide) (by decide) hlatitude
  · rcases bind_eq_error.1 h with hlongitude | ⟨_, _, h⟩
    · exact degrees_blames htag (by decide) (by decide) hlongitude
    · rcases bind_eq_error.1 h with hcircles | ⟨circles, hcircles, h⟩
      · exact tagged_blames htag rfl circle_blames hcircles
      · rcases refused_eq_error.1 h with ⟨hempty, hf⟩ | ⟨_, h⟩
        · have hchildren : e.children = [] :=
            (eq_nil_iff_of_forall₂ (circlesOf_lowers.tells hcircles)).2 (List.isEmpty_iff.1 hempty)
          rw [hf]
          refine (Breaks.noCircles htag ?_).blamed
          rw [hchildren]
          exact List.forall_mem_nil _
        · exact absurd h (pure_ne_error _)

theorem Contents.add_blames {before after : List Element} {contents : Contents}
    (htag : e.name = "story") (hsplit : e.children = before ++ c :: after)
    (hcontents : before.foldlM (Contents.add e) Contents.none = .ok contents)
    (h : Contents.add e contents c = .error f) : Blamed e f := by
  have hc : c ∈ e.children := by
    rw [hsplit]
    exact List.mem_append_right _ List.mem_cons_self
  rw [Contents.add] at h
  split at h
  · next hinit =>
    rcases refused_eq_error.1 h with ⟨hsome, hf⟩ | ⟨_, h⟩
    · -- What has been read stands in a child in front of this one.
      have hdone := (contents_tells hcontents).init
      obtain ⟨ss, hss⟩ := Option.isSome_iff_exists.1 hsome
      rw [hss] at hdone
      obtain ⟨first, hfirst, _⟩ := exists_of_forall₂ hdone ss (List.mem_singleton.2 rfl)
      obtain ⟨hbefore, hname⟩ := List.mem_filter.1 hfirst
      rw [hf]
      exact (BreaksIn.secondInit htag hsplit hinit hbefore (of_decide_eq_true hname)).blamed
    · exact (initBlock_blames hinit (bind_pure_eq_error.1 h)).inside hc
  · next hinit =>
    rcases guarded_eq_error.1 h with ⟨hspot, h⟩ | ⟨hspot, hf⟩
    · exact (spot_blames hspot (bind_pure_eq_error.1 h)).inside hc
    · rw [hf]
      refine (BreaksIn.unknownTag hc fun hname => ?_).blamed
      rw [htag] at hname
      rcases List.mem_cons.1 hname with hname | hname
      · exact hinit hname
      · exact hspot (List.mem_singleton.1 hname)

theorem ofElement_blames {folder : String} {root : Element} (h : ofElement folder root = .error f) :
    ∃ e cause, Guilty root e cause ∧ f = ⟨e.name, e.line, cause⟩ := by
  rw [ofElement] at h
  rcases guarded_eq_error.1 h with ⟨htag, h⟩ | ⟨htag, hf⟩
  · have hblamed : Blamed root f := by
      rcases bind_eq_error.1 h with htitle | ⟨title, _, h⟩
      · exact required_blames htag (by decide) htitle
      · rcases bind_eq_error.1 h with hchild | ⟨contents, hcontents, h⟩
        · obtain ⟨before, c, after, done, hsplit, hdone, hc⟩ := foldlM_eq_error.1 hchild
          exact Contents.add_blames htag hsplit hdone hc
        · rcases refused_eq_error.1 h with ⟨hempty, hf⟩ | ⟨_, h⟩
          · have hspots : tagged root.children "spot" = [] :=
              (eq_nil_iff_of_forall₂ (contents_tells hcontents).spots).2 (List.isEmpty_iff.1 hempty)
            rw [hf]
            refine (Breaks.noSpots htag fun c hc hname => ?_).blamed
            exact List.filter_eq_nil_iff.1 hspots c hc (decide_eq_true hname)
          · exact absurd h (pure_ne_error _)
    obtain ⟨e, cause, hwrong, hf⟩ := hblamed
    exact ⟨e, cause, .wrong hwrong, hf⟩
  · exact ⟨root, .wrongRoot, .wrongRoot htag, hf⟩

end

/-- A tree is refused exactly if an element of it is guilty. -/
theorem refused_iff_guilty (folder : String) (root : Element) :
    (∃ f, ofElement folder root = .error f) ↔ ∃ e cause, Guilty root e cause := by
  constructor
  · intro ⟨f, hf⟩
    obtain ⟨e, cause, hguilty, _⟩ := ofElement_blames hf
    exact ⟨e, cause, hguilty⟩
  · intro ⟨e, cause, hguilty⟩
    cases hread : ofElement folder root with
    | error f => exact ⟨f, rfl⟩
    | ok s =>
      have hstory : IsStory root := (exists_story folder root).1 ⟨s, hread⟩
      exact absurd hguilty hstory.not_guilty

/-! ## The lines in reasons -/

theorem colon_not_mem_toDigits (n : Nat) : ':' ∉ Nat.toDigits 10 n := by
  intro h
  have hdigit : Char.isDigit ':' = true := Nat.isDigit_of_mem_toDigits (by decide) (by decide) h
  exact absurd hdigit (by decide)

/-- A reason gives its line, and no other. -/
theorem line_of_prefix {f : Fault} {line : Nat}
    (h : s!"line {line}: ".toList <+: f.reason.toList) : line = f.line := by
  obtain ⟨rest, hrest⟩ := h
  have hnumbers : Nat.toDigits 10 line ++ ':' :: ' ' :: rest =
      Nat.toDigits 10 f.line ++ ':' :: ' ' :: f.cause.message.toList := by
    simp only [Nat.toString_eq_repr, String.toList_append, Nat.toList_repr, List.append_assoc,
      Fault.reason, List.append_cancel_left_eq] at hrest
    exact hrest
  have hsame := Markup.eq_of_append_cons (colon_not_mem_toDigits _) (colon_not_mem_toDigits _)
    hnumbers
  rw [← Nat.ofDigitChars_ten_toDigits (n := line), hsame, Nat.ofDigitChars_ten_toDigits]

/-! ## Texts of which no story comes -/

theorem read_eq_illFormed {source folder detail : String} :
    Story.read source folder = .error (.illFormedMarkup detail) ↔
      ∃ fault, Markup.read source = .error fault ∧ fault.message = detail := by
  rw [Story.read]
  cases Markup.read source with
  | error fault => simp [Failure.ofMarkupFault]
  | ok root =>
    cases hread : ofElement folder root with
    | error f => simp [hread, Failure.ofStoryFault]
    | ok s => simp [hread]

theorem read_eq_malformed {source folder tag reason : String} :
    Story.read source folder = .error (.malformedStory tag reason) ↔
      ∃ root f, Markup.read source = .ok root ∧ ofElement folder root = .error f ∧
        f.tag = tag ∧ f.reason = reason := by
  rw [Story.read]
  cases Markup.read source with
  | error fault => simp [Failure.ofMarkupFault]
  | ok root =>
    cases hread : ofElement folder root with
    | error f => simp [hread, Failure.ofStoryFault]
    | ok s => simp [hread]

/-- A text of which no story comes is ill-formed markup, or an element of its tree is
guilty of breaking a rule, and it is a malformed story just where one is.  The tag, the
line and the wording of the report are then those of a guilty element, which opens in
the text on that line. -/
theorem reports_name_the_guilty (source folder : String) :
    (∀ failure, Story.read source folder = .error failure →
      (∃ detail, failure = .illFormedMarkup detail) ∨
        ∃ tag reason, failure = .malformedStory tag reason) ∧
    ((∃ detail, Story.read source folder = .error (.illFormedMarkup detail)) ↔
      ∃ fault, Markup.read source = .error fault) ∧
    ((∃ tag reason, Story.read source folder = .error (.malformedStory tag reason)) ↔
      ∃ root e cause, Markup.read source = .ok root ∧ Guilty root e cause) ∧
    ∀ tag reason, Story.read source folder = .error (.malformedStory tag reason) →
      ∃ root e cause, Markup.read source = .ok root ∧ root.Contains e ∧ Guilty root e cause ∧
        tag = e.name ∧ reason = s!"line {e.line}: {cause.message}" ∧
        Markup.OpensIn source.toList e ∧
        ∀ line : Nat, s!"line {line}: ".toList <+: reason.toList → line = e.line := by
  refine ⟨fun failure hfailure => ?_, ?_, ?_, fun tag reason hreport => ?_⟩
  · rw [Story.read] at hfailure
    split at hfailure
    · cases hfailure
      exact Or.inl ⟨_, rfl⟩
    · split at hfailure
      · cases hfailure
        exact Or.inr ⟨_, _, rfl⟩
      · cases hfailure
  · simp only [read_eq_illFormed]
    constructor
    · intro h
      obtain ⟨_, fault, hfault, _⟩ := h
      exact ⟨fault, hfault⟩
    · intro h
      obtain ⟨fault, hfault⟩ := h
      exact ⟨_, fault, hfault, rfl⟩
  · simp only [read_eq_malformed]
    constructor
    · intro h
      obtain ⟨_, _, root, f, hroot, hf, _⟩ := h
      obtain ⟨e, cause, hguilty⟩ := (refused_iff_guilty folder root).1 ⟨f, hf⟩
      exact ⟨root, e, cause, hroot, hguilty⟩
    · intro h
      obtain ⟨root, e, cause, hroot, hguilty⟩ := h
      obtain ⟨f, hf⟩ := (refused_iff_guilty folder root).2 ⟨e, cause, hguilty⟩
      exact ⟨_, _, root, f, hroot, hf, rfl, rfl⟩
  · obtain ⟨root, f, hroot, hf, rfl, rfl⟩ := read_eq_malformed.1 hreport
    obtain ⟨e, cause, hguilty, rfl⟩ := ofElement_blames hf
    have hopens := (Markup.isDocument_of_read hroot).opensIn hguilty.contains
    exact ⟨root, e, cause, hroot, hguilty.contains, hguilty, rfl, rfl, hopens,
      fun line h => line_of_prefix h⟩

end Story
end AudioWalk
