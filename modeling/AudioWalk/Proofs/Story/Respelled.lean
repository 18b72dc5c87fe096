import AudioWalk.Proofs.Markup.Respelling
import AudioWalk.Proofs.Story.Lowering

/-!
# The spelling of a document never shows

Two documents of one tree are read alike: as the same story, or as faults that name
the same tag and give the same reason, whatever the lines they give.

A reader looks at names, at attributes by their names, and at children, in which
trees that agree do not differ.  The line goes into a fault and nowhere else.  So
each reader has one lemma here, which says that it does not tell trees that agree
apart, and is put together as the reader is.
-/

namespace AudioWalk
namespace Story

open Markup (Element)

variable {α β σ : Type}

/-! ## Results -/

/-- The same result, or the same fault on whatever line. -/
inductive SameUpToLine : Except Fault α → Except Fault α → Prop
  | ok (a : α) : SameUpToLine (.ok a) (.ok a)
  | error (tag : String) (line line' : Nat) (cause : Cause) :
    SameUpToLine (.error ⟨tag, line, cause⟩) (.error ⟨tag, line', cause⟩)

namespace SameUpToLine

protected theorem pure (a : α) : SameUpToLine (pure a) (pure a) := .ok a

protected theorem bind {x x' : Except Fault α} {f f' : α → Except Fault β} (h : SameUpToLine x x')
    (hnext : ∀ a, SameUpToLine (f a) (f' a)) : SameUpToLine (x >>= f) (x' >>= f') := by
  cases h with
  | ok a => exact hnext a
  | error tag line line' cause => exact .error tag line line' cause

protected theorem ite {p : Prop} [Decidable p] {x x' y y' : Except Fault α}
    (hthen : SameUpToLine x x') (helse : SameUpToLine y y') :
    SameUpToLine (if p then x else y) (if p then x' else y') := by
  split
  · exact hthen
  · exact helse

/-- Readers of elements that do not tell trees that agree apart. -/
protected theorem mapM {f f' : Element → Except Fault α} {es es' : List Element}
    (hread : ∀ e e', Element.Agrees e e' → SameUpToLine (f e) (f' e'))
    (h : List.Forall₂ Element.Agrees es es') : SameUpToLine (es.mapM f) (es'.mapM f') := by
  induction h with
  | nil => exact .pure []
  | cons hfirst hrest ih =>
    rw [List.mapM_cons, List.mapM_cons]
    exact (hread _ _ hfirst).bind fun a => ih.bind fun as => .pure (a :: as)

protected theorem foldlM {f f' : σ → Element → Except Fault σ} {es es' : List Element} {s : σ}
    (hread : ∀ s e e', Element.Agrees e e' → SameUpToLine (f s e) (f' s e'))
    (h : List.Forall₂ Element.Agrees es es') :
    SameUpToLine (es.foldlM f s) (es'.foldlM f' s) := by
  induction h generalizing s with
  | nil => exact .pure s
  | cons hfirst hrest ih =>
    rw [List.foldlM_cons, List.foldlM_cons]
    exact (hread s _ _ hfirst).bind fun next => ih

end SameUpToLine

/-! ## One lemma for each reader -/

section Readers

variable {e e' parent parent' : Element} {read? : List Char → Option α}

theorem fault_agrees (h : e.Agrees e') (cause : Cause) :
    SameUpToLine (fault e cause : Except Fault α) (fault e' cause) := by
  rw [fault, fault, h.name]
  exact .error e.name e.line e'.line cause

theorem unknownTag_agrees (h : e.Agrees e') (hparent : parent.Agrees parent') :
    SameUpToLine (unknownTag e parent : Except Fault α) (unknownTag e' parent') := by
  rw [unknownTag, unknownTag, hparent.name]
  exact fault_agrees h _

/-- A choice by the name of the element. -/
theorem ifNamed_agrees (h : e.Agrees e') (tag : String) {x x' y y' : Except Fault α}
    (hthen : SameUpToLine x x') (helse : SameUpToLine y y') :
    SameUpToLine (if e.name = tag then x else y) (if e'.name = tag then x' else y') := by
  rw [h.name]
  exact .ite hthen helse

theorem required_agrees (h : e.Agrees e') (key : String) :
    SameUpToLine (required e key) (required e' key) := by
  rw [required, required, h.attribute? key]
  cases e.attribute? key with
  | none => exact fault_agrees h _
  | some value => exact .ok value

theorem number_agrees (h : e.Agrees e') (key raw : String) :
    SameUpToLine (number read? e key raw) (number read? e' key raw) := by
  rw [number, number]
  cases read? (Text.trim raw.toList) with
  | none => exact fault_agrees h _
  | some a => exact .ok a

theorem requiredNumber_agrees (h : e.Agrees e') (key : String) :
    SameUpToLine (requiredNumber read? e key) (requiredNumber read? e' key) :=
  (required_agrees h key).bind fun raw => number_agrees h key raw

theorem optionalNumber_agrees (h : e.Agrees e') (key : String) (default : α) :
    SameUpToLine (optionalNumber read? e key default) (optionalNumber read? e' key default) := by
  rw [optionalNumber, optionalNumber, h.attribute? key]
  cases e.attribute? key with
  | none => exact .ok default
  | some raw => exact number_agrees h key raw

theorem degrees_agrees (h : e.Agrees e') (key : String) (limit : Nat) :
    SameUpToLine (degrees e key limit) (degrees e' key limit) :=
  (requiredNumber_agrees h key).bind fun _ => .ite (.pure _) (fault_agrees h _)

theorem leaf_agrees (h : e.Agrees e') : SameUpToLine (leaf e) (leaf e') := by
  have hchildren := h.children
  rw [leaf, leaf, h.name]
  cases hchildren' : e.children with
  | nil =>
    rw [hchildren', List.forall₂_nil_left_iff] at hchildren
    rw [hchildren]
    exact .ok ()
  | cons child rest =>
    rw [hchildren', List.forall₂_cons_left_iff] at hchildren
    obtain ⟨child', rest', hchild, _, hcons⟩ := hchildren
    rw [hcons]
    exact fault_agrees hchild _

theorem assignment_agrees (h : e.Agrees e') : SameUpToLine (assignment e) (assignment e') :=
  (leaf_agrees h).bind fun _ => (required_agrees h _).bind fun _ =>
    (requiredNumber_agrees h _).bind fun _ => .pure _

theorem incrementation_agrees (h : e.Agrees e') :
    SameUpToLine (incrementation e) (incrementation e') :=
  (leaf_agrees h).bind fun _ => (required_agrees h _).bind fun _ =>
    (optionalNumber_agrees h _ _).bind fun _ => .pure _

theorem playing_agrees (h : e.Agrees e') : SameUpToLine (playing e) (playing e') := by
  rw [playing, playing, h.attribute? "text"]
  exact (leaf_agrees h).bind fun _ => (optionalNumber_agrees h _ _).bind fun _ =>
    .ite ((required_agrees h _).bind fun _ => .pure _) (fault_agrees h _)

theorem endMark_agrees (h : e.Agrees e') : SameUpToLine (endMark e) (endMark e') :=
  (leaf_agrees h).bind fun _ => .pure _

theorem statement_agrees (kind : Leaf) (h : e.Agrees e') :
    SameUpToLine (kind.statement e) (kind.statement e') := by
  cases kind with
  | assign => exact assignment_agrees h
  | increment => exact incrementation_agrees h
  | play => exact playing_agrees h
  | ending => exact endMark_agrees h

theorem initBlock_agrees (h : e.Agrees e') : SameUpToLine (initBlock e) (initBlock e') :=
  .mapM (fun _ _ hchild =>
    ifNamed_agrees hchild _ (assignment_agrees hchild) (unknownTag_agrees hchild h)) h.children

/-- A statement without children, or a tag that the parent does not take. -/
theorem leafStatement_agrees (h : e.Agrees e') (hparent : parent.Agrees parent') :
    SameUpToLine
      (match Leaf.ofTag? e.name with
        | some kind => kind.statement e
        | none => unknownTag e parent)
      (match Leaf.ofTag? e'.name with
        | some kind => kind.statement e'
        | none => unknownTag e' parent') := by
  rw [h.name]
  cases Leaf.ofTag? e.name with
  | none => exact unknownTag_agrees h hparent
  | some kind => exact statement_agrees kind h

theorem branchBlock_agrees (h : e.Agrees e') : SameUpToLine (branchBlock e) (branchBlock e') :=
  .mapM (fun _ _ hchild => leafStatement_agrees hchild h) h.children

theorem condition_agrees (h : e.Agrees e') : SameUpToLine (condition e) (condition e') :=
  (leaf_agrees h).bind fun _ => (required_agrees h _).bind fun _ =>
    (required_agrees h _).bind fun _ => .pure _

theorem conditions_agrees (h : e.Agrees e') : SameUpToLine (conditions e) (conditions e') :=
  .mapM (fun _ _ hchild =>
    ifNamed_agrees hchild _ (condition_agrees hchild) (unknownTag_agrees hchild h)) h.children

theorem Parts.add_agrees (hparent : parent.Agrees parent') (parts : Parts) (h : e.Agrees e') :
    SameUpToLine (Parts.add parent parts e) (Parts.add parent' parts e') := by
  rw [Parts.add, Parts.add, h.name]
  cases Part.ofTag? e.name with
  | none => exact unknownTag_agrees h hparent
  | some part =>
    refine .ite (fault_agrees h _) ?_
    cases part with
    | condition => exact (conditions_agrees h).bind fun _ => .pure _
    | whenTrue => exact (branchBlock_agrees h).bind fun _ => .pure _
    | whenFalse => exact (branchBlock_agrees h).bind fun _ => .pure _

theorem conditional_agrees (h : e.Agrees e') : SameUpToLine (conditional e) (conditional e') :=
  .bind (.foldlM (fun parts _ _ hpart => Parts.add_agrees h parts hpart) h.children)
    fun _ => .pure _

theorem circleBlock_agrees (h : e.Agrees e') : SameUpToLine (circleBlock e) (circleBlock e') :=
  .mapM (fun _ _ hchild =>
    ifNamed_agrees hchild _ (conditional_agrees hchild) (leafStatement_agrees hchild h))
    h.children

theorem circle_agrees (h : e.Agrees e') : SameUpToLine (circle e) (circle e') := by
  rw [circle, circle, h.attribute? "title"]
  exact (requiredNumber_agrees h _).bind fun _ => (circleBlock_agrees h).bind fun _ => .pure _

theorem circlesOf_agrees (h : e.Agrees e') : SameUpToLine (circlesOf e) (circlesOf e') :=
  .mapM (fun _ _ hchild =>
    ifNamed_agrees hchild _ (circle_agrees hchild) (unknownTag_agrees hchild h)) h.children

theorem spot_agrees (h : e.Agrees e') : SameUpToLine (spot e) (spot e') :=
  (degrees_agrees h _ _).bind fun _ => (degrees_agrees h _ _).bind fun _ =>
    (circlesOf_agrees h).bind fun _ => .ite (fault_agrees h _) (.pure _)

theorem Contents.add_agrees (hparent : parent.Agrees parent') (contents : Contents)
    (h : e.Agrees e') :
    SameUpToLine (Contents.add parent contents e) (Contents.add parent' contents e') :=
  ifNamed_agrees h _ (.ite (fault_agrees h _) ((initBlock_agrees h).bind fun _ => .pure _))
    (ifNamed_agrees h _ ((spot_agrees h).bind fun _ => .pure _) (unknownTag_agrees h hparent))

theorem ofElement_agrees (folder : String) (h : e.Agrees e') :
    SameUpToLine (ofElement folder e) (ofElement folder e') := by
  have hcontents : SameUpToLine _ _ := .foldlM (s := Contents.none)
    (fun contents _ _ hchild => Contents.add_agrees h contents hchild) h.children
  rw [ofElement, ofElement, h.attribute? "introfile", h.attribute? "introtext"]
  exact ifNamed_agrees h _ ((required_agrees h _).bind fun _ => hcontents.bind fun _ =>
    .ite (fault_agrees h _) (.pure _)) (fault_agrees h _)

end Readers

/-! ## Documents -/

/-- The same story, or refusals that name the same tag and give the same reason behind
the line. -/
inductive SameVerdict : Except Failure Story → Except Failure Story → Prop
  | story (s : Story) : SameVerdict (.ok s) (.ok s)
  | malformed (tag message : String) (line other : Nat) :
    SameVerdict (.error (.malformedStory tag s!"line {line}: {message}"))
      (.error (.malformedStory tag s!"line {other}: {message}"))

/-- Documents of one tree are read alike, whatever else they differ in. -/
theorem spelling_never_shows {source source' : String} {root root' : Element}
    (h : Markup.IsDocument source.toList root) (h' : Markup.IsDocument source'.toList root')
    (hsame : Element.SameTree root root') (folder : String) :
    SameVerdict (read source folder) (read source' folder) := by
  have hverdict := ofElement_agrees folder (hsame.agrees h.writable)
  simp only [read, h.read, h'.read]
  generalize ofElement folder root = x at hverdict ⊢
  generalize ofElement folder root' = x' at hverdict ⊢
  cases hverdict with
  | ok s => exact .story s
  | error tag line line' cause => exact .malformed tag cause.message line line'

/-- Tags in a comment, in character data and in an instruction are no tags. -/
theorem spelling_of_intro_never_shows :
    let source := "<story title='A &amp; B' introtext=\"<spot>\">" ++
      "<spot latitude='0' longitude='0'><circle radius='5'/></spot></story>"
    let source' := "<!DOCTYPE story><!-- <story> -->\n" ++
      "<story introtext = '&lt;spot>'\ntitle=\"A &#38; B\">x" ++
      "<spot longitude='0' latitude='0'><![CDATA[<spot/>]]>" ++
      "<circle radius=\"&#x35;\" ></circle></spot></story ><?y </story>?>"
    ∃ root root', Markup.IsDocument source.toList root ∧
      Markup.IsDocument source'.toList root' ∧ Element.SameTree root root' ∧
      SameVerdict (read source "walk") (read source' "walk") := by
  intro source source'
  let quoted (name value : String) : Markup.Attribute :=
    ⟨[' '], name.toList, [], [], .single, value.toList⟩
  let lexemes : List Markup.Lexeme :=
    [.opening "story".toList [quoted "title" "A &amp; B",
        { quoted "introtext" "<spot>" with quote := .double }] [] false,
      .opening "spot".toList [quoted "latitude" "0", quoted "longitude" "0"] [] false,
      .opening "circle".toList [quoted "radius" "5"] [] true,
      .closing "spot".toList [], .closing "story".toList []]
  let lexemes' : List Markup.Lexeme :=
    [.enclosed .documentType " story".toList, .enclosed .comment " <story> ".toList,
      .text ['\n'],
      .opening "story".toList
        [{ quoted "introtext" "&lt;spot>" with beforeEquals := [' '], afterEquals := [' '] },
          { quoted "title" "A &#38; B" with gap := ['\n'], quote := .double }] [] false,
      .text ['x'],
      .opening "spot".toList [quoted "longitude" "0", quoted "latitude" "0"] [] false,
      .enclosed .characterData "<spot/>".toList,
      .opening "circle".toList [{ quoted "radius" "&#x35;" with quote := .double }] [' '] false,
      .closing "circle".toList [], .closing "spot".toList [], .closing "story".toList [' '],
      .enclosed .instruction "y </story>".toList]
  let written : Element := ⟨"story", [("title", "A &amp; B"), ("introtext", "<spot>")],
    [⟨"spot", [("latitude", "0"), ("longitude", "0")],
      [⟨"circle", [("radius", "5")], [], 1⟩], 1⟩], 1⟩
  let written' : Element := ⟨"story", [("introtext", "&lt;spot>"), ("title", "A &#38; B")],
    [⟨"spot", [("longitude", "0"), ("latitude", "0")],
      [⟨"circle", [("radius", "&#x35;")], [], 3⟩], 3⟩], 2⟩
  let root : Element := { written with attributes := [("title", "A & B"), ("introtext", "<spot>")] }
  let root' : Element := ⟨"story", [("introtext", "<spot>"), ("title", "A & B")],
    [⟨"spot", [("longitude", "0"), ("latitude", "0")],
      [⟨"circle", [("radius", "5")], [], 3⟩], 3⟩], 2⟩
  have hlexemes : Markup.Lexeme.readAll? source.toList = some lexemes := by decide +kernel
  have hlexemes' : Markup.Lexeme.readAll? source'.toList = some lexemes' := by decide +kernel
  have htree : Markup.treeOf? lexemes = some written := by cbv
  have htree' : Markup.treeOf? lexemes' = some written' := by cbv
  have hdocument : Markup.IsDocument source.toList root :=
    Markup.isDocument_of_read (Markup.read_of_lexemes hlexemes htree rfl)
  have hdocument' : Markup.IsDocument source'.toList root' :=
    Markup.isDocument_of_read (Markup.read_of_lexemes hlexemes' htree' rfl)
  have hsame : Element.SameTree root root' :=
    .mk (.swap _ _ []) (.cons (.mk (.swap _ _ []) (.cons (.mk (.refl _) .nil) .nil)) .nil)
  exact ⟨root, root', hdocument, hdocument', hsame,
    spelling_never_shows hdocument hdocument' hsame "walk"⟩

end Story
end AudioWalk
