import Mathlib.Data.List.Infix
import Mathlib.Data.List.TakeWhile
import AudioWalk.Markup.Lexing

/-!
# Blanks, marks and names at the front of a text

The parts of a tag are runs of characters of a class, marks and names.  Each of
the readers of these is the converse of writing the part in front of a text, as
long as the text does not go on in the class of the part; `Stops` says that it
does not.

Bodies run up to the first occurrence of a mark.  That a body has no occurrence
of its mark is enough for it to be read back, because no mark of the language
ends as it begins (`Borderless`), so none can lie across the end of the body.
-/

namespace AudioWalk
namespace Markup

open Text (isSpace)

/-! ## Where a run of characters stops -/

/-- No character of the class opens the text. -/
def Stops (p : Char → Bool) (cs : List Char) : Prop := ∀ c, cs.head? = some c → p c = false

def Blank (cs : List Char) : Prop := ∀ c ∈ cs, isSpace c = true

theorem stops_cons {p : Char → Bool} {c : Char} {cs : List Char} (h : p c = false) :
    Stops p (c :: cs) := by
  intro d hd
  cases hd
  exact h

/-- What stops a class behind characters outside of it stops it in front of them
as well. -/
theorem Stops.append {p : Char → Bool} {xs ys : List Char} (hxs : ∀ c ∈ xs, p c = false)
    (hys : Stops p ys) : Stops p (xs ++ ys) := by
  cases xs with
  | nil => exact hys
  | cons x xs => exact stops_cons (hxs x List.mem_cons_self)

theorem Stops.mono {p q : Char → Bool} {cs : List Char} (h : Stops p cs)
    (hpq : ∀ c, q c = true → p c = true) : Stops q cs := by
  intro c hc
  rw [Bool.eq_false_iff]
  intro hq
  exact Bool.false_ne_true ((h c hc).symm.trans (hpq c hq))

theorem stops_dropWhile (p : Char → Bool) (cs : List Char) : Stops p (cs.dropWhile p) := by
  intro c hc
  have h := List.head?_dropWhile_not p cs
  rw [hc] at h
  simpa using h

theorem takeWhile_append_of_stops {p : Char → Bool} {xs ys : List Char} (hxs : ∀ c ∈ xs, p c = true)
    (hys : Stops p ys) : (xs ++ ys).takeWhile p = xs := by
  rw [List.takeWhile_append_of_pos hxs]
  cases ys with
  | nil => simp
  | cons y ys =>
    rw [List.takeWhile_cons_of_neg (by simp [hys y rfl]), List.append_nil]

theorem dropWhile_append_of_stops {p : Char → Bool} {xs ys : List Char} (hxs : ∀ c ∈ xs, p c = true)
    (hys : Stops p ys) : (xs ++ ys).dropWhile p = ys := by
  rw [List.dropWhile_append_of_pos hxs]
  cases ys with
  | nil => rfl
  | cons y ys => exact List.dropWhile_cons_of_neg (by simp [hys y rfl])

theorem blank_takeWhile (cs : List Char) : Blank (cs.takeWhile isSpace) :=
  fun _ hc => List.mem_takeWhile_imp hc

theorem isNameChar_of_isSpace {c : Char} (h : isSpace c = true) : isNameChar c = false := by
  simp only [isSpace, Bool.or_eq_true, beq_iff_eq] at h
  rcases h with ((rfl | rfl) | rfl) | rfl <;> decide

theorem isNameChar_of_isNameStart {c : Char} (h : isNameStart c = true) : isNameChar c = true := by
  simp [isNameChar, h]

theorem isSpace_of_isNameStart {c : Char} (h : isNameStart c = true) : isSpace c = false := by
  cases hspace : isSpace c with
  | false => rfl
  | true =>
    have hname := isNameChar_of_isSpace hspace
    rw [isNameChar_of_isNameStart h] at hname
    cases hname

theorem Blank.stops_isNameChar {gap rest : List Char} (hgap : Blank gap)
    (hrest : Stops isNameChar rest) : Stops isNameChar (gap ++ rest) :=
  hrest.append fun c hc => isNameChar_of_isSpace (hgap c hc)

/-! ## Marks -/

theorem after?_append (mark rest : List Char) : after? mark (mark ++ rest) = some rest := by
  induction mark with
  | nil => rfl
  | cons m mark ih => simp only [List.cons_append, after?, if_true, ih]

theorem after?_eq_none {mark cs : List Char} (h : ¬ mark <+: cs) : after? mark cs = none := by
  cases hafter : after? mark cs with
  | none => rfl
  | some rest => exact absurd ⟨rest, after?_eq_some hafter⟩ h

theorem not_prefix_of_after? {mark cs : List Char} (h : after? mark cs = none) :
    ¬ mark <+: cs := by
  rintro ⟨rest, rfl⟩
  rw [after?_append] at h
  cases h

/-- No end of the mark opens it, so two occurrences of it never overlap. -/
def Borderless (mark : List Char) : Prop := ∀ ys ∈ mark.tail.tails, ys <+: mark → ys = []

theorem borderless_closer (kind : Enclosure) : Borderless kind.closer := by
  cases kind <;> unfold Borderless <;> decide

theorem borderless_quote (q : Quote) : Borderless [q.char] := by
  cases q <;> unfold Borderless <;> decide

/-- An occurrence that begins inside `body` ends inside `body`. -/
theorem infix_of_prefix_append {mark body rest : List Char} (hmark : Borderless mark)
    (hbody : body ≠ []) (h : mark <+: body ++ (mark ++ rest)) : mark <:+: body := by
  rcases List.prefix_or_prefix_of_prefix h (List.prefix_append body _) with hshort | ⟨ys, hys⟩
  · exact hshort.isInfix
  · -- The mark reaches beyond the body by `ys`, which then opens the mark as well.
    have hopens : ys <+: mark ++ rest := by
      rw [← hys] at h
      rw [List.append_assoc] at h
      have h' := (List.prefix_append_right_inj body).1 h
      rwa [← List.append_assoc, hys] at h'
    have hlength : ys.length ≤ mark.length := by
      rw [← hys, List.length_append]
      omega
    have hborder : ys <+: mark :=
      List.prefix_of_prefix_length_le hopens (List.prefix_append mark rest) hlength
    have htail : ys ∈ mark.tail.tails := by
      obtain ⟨b, bs, rfl⟩ := List.exists_cons_of_ne_nil hbody
      rw [List.mem_tails, ← hys]
      exact List.suffix_append bs ys
    have hnil := hmark ys htail hborder
    rw [hnil, List.append_nil] at hys
    rw [hys]

theorem upTo?_append {mark body : List Char} (hmark : Borderless mark) (hne : mark ≠ [])
    (hbody : ¬ mark <:+: body) (rest : List Char) :
    upTo? mark (body ++ (mark ++ rest)) = some (body, rest) := by
  induction body with
  | nil =>
    obtain ⟨m, ms, rfl⟩ := List.exists_cons_of_ne_nil hne
    rw [List.nil_append, List.cons_append, upTo?]
    rw [← List.cons_append, after?_append]
  | cons b body ih =>
    have hhere : after? mark (b :: (body ++ (mark ++ rest))) = none := by
      refine after?_eq_none fun hopens => hbody ?_
      exact infix_of_prefix_append hmark (List.cons_ne_nil b body) hopens
    have hrest : ¬ mark <:+: body := fun h => hbody (List.infix_cons_iff.2 (Or.inr h))
    rw [List.cons_append, upTo?, hhere, ih hrest]
    rfl

theorem not_infix_of_upTo? {mark cs body rest : List Char} (hne : mark ≠ [])
    (h : upTo? mark cs = some (body, rest)) : ¬ mark <:+: body := by
  induction cs generalizing body with
  | nil =>
    obtain ⟨r, hr, heq⟩ := Option.map_eq_some_iff.1 h
    cases heq
    rwa [List.infix_nil]
  | cons c cs ih =>
    rw [upTo?] at h
    split at h
    · cases h
      rwa [List.infix_nil]
    · next hnone =>
      obtain ⟨⟨body', rest'⟩, hbr, heq⟩ := Option.map_eq_some_iff.1 h
      cases heq
      rw [List.infix_cons_iff]
      rintro (hopens | hinside)
      · refine not_prefix_of_after? hnone (hopens.trans ?_)
        rw [← upTo?_eq_some hbr, List.append_assoc]
        exact List.prefix_append (c :: body') (mark ++ rest)
      · exact ih hbr hinside

/-! ## Names -/

theorem name?_append {name rest : List Char} (h : IsName name) (hrest : Stops isNameChar rest) :
    name? (name ++ rest) = some (name, rest) := by
  obtain ⟨c, cs, rfl, hc, hcs⟩ := h
  have hall : ∀ d ∈ cs, isNameChar d = true := List.all_eq_true.1 hcs
  rw [List.cons_append, name?, if_pos hc, takeWhile_append_of_stops hall hrest,
    dropWhile_append_of_stops hall hrest]

theorem name?_eq_none {cs : List Char} (h : Stops isNameStart cs) : name? cs = none := by
  cases cs with
  | nil => rfl
  | cons c cs => rw [name?, if_neg (by simp [h c rfl])]

theorem isName_of_name? {cs name rest : List Char} (h : name? cs = some (name, rest)) :
    IsName name := by
  cases cs with
  | nil => cases h
  | cons c cs =>
    rw [name?] at h
    split at h
    · next hc =>
      cases h
      exact ⟨c, _, rfl, hc, List.all_eq_true.2 fun d hd => List.mem_takeWhile_imp hd⟩
    · cases h

end Markup
end AudioWalk
