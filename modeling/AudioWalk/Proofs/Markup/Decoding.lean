import AudioWalk.Failure
import AudioWalk.Proofs.Markup.Marks
import AudioWalk.Proofs.Markup.References

/-!
# Values with references

A value that is put together from references and from texts without an ampersand
stands for the characters and the texts in a row.  What a reference stands for is
never read again (`pieces_stand_for_meanings`).

In the other direction, a value is read only where each of its ampersands opens a
reference, and all others are faults of the markup (`value_read_iff_references`).
Here a number may have a plus in front, so the reader takes some values that the
language of references does not have (`signed_number_is_read`).
-/

namespace AudioWalk
namespace Markup

open Text (IsSign)

/-! ## One step of reading -/

theorem decode_append {cs : List Char} (h : '&' ∉ cs) (rest : List Char) :
    decode (cs ++ rest) = (decode rest).map (cs ++ ·) := by
  induction cs with
  | nil =>
    show decode rest = (decode rest).map id
    cases decode rest <;> rfl
  | cons c cs ih =>
    obtain ⟨hc, hcs⟩ := not_or.1 (mt List.mem_cons.2 h)
    show (if c = '&' then _ else (decode (cs ++ rest)).map (c :: ·)) = _
    rw [if_neg (Ne.symm hc), ih hcs]
    cases decode rest <;> rfl

theorem decode_of_plain {cs : List Char} (h : '&' ∉ cs) : decode cs = .ok cs := by
  have hread := decode_append h []
  rw [List.append_nil] at hread
  rw [hread]
  exact congrArg Except.ok (List.append_nil cs)

/-- A reference goes on up to the next semicolon, whatever stands between. -/
theorem expand_some_append {r : List Char} (h : ';' ∉ r) (read rest : List Char) :
    expand (some read) (r ++ rest) = expand (some (r.reverse ++ read)) rest := by
  induction r generalizing read with
  | nil => rfl
  | cons c r ih =>
    obtain ⟨hc, hr⟩ := not_or.1 (mt List.mem_cons.2 h)
    show (if c = ';' then _ else expand (some (c :: read)) (r ++ rest)) = _
    rw [if_neg (Ne.symm hc), ih hr, List.reverse_cons, List.append_assoc, List.singleton_append]

theorem decode_unterminated {r : List Char} (h : ';' ∉ r) :
    decode ('&' :: r) = .error .unterminated := by
  have hread := expand_some_append h [] []
  rw [List.append_nil] at hread
  exact hread

theorem decode_reference {r : List Char} (h : ';' ∉ r) (rest : List Char) :
    decode ('&' :: (r ++ ';' :: rest)) =
      match referenced? r with
      | some c => (decode rest).map (c :: ·)
      | none => .error (.unknown r) := by
  have hread : decode ('&' :: (r ++ ';' :: rest)) = expand (some (r.reverse ++ [])) (';' :: rest) :=
    expand_some_append h [] (';' :: rest)
  rw [hread, List.append_nil]
  show (match referenced? r.reverse.reverse with
    | some c => (decode rest).map (c :: ·)
    | none => .error (.unknown r.reverse.reverse)) = _
  rw [List.reverse_reverse]

/-! ## Pieces -/

/-- A text without an ampersand, or a reference. -/
inductive Piece where
  | text (cs : List Char) (plain : '&' ∉ cs)
  | reference (r : List Char) (c : Char) (refers : Refers [] r c)

namespace Piece

def written : Piece → List Char
  | text cs _ => cs
  | reference r _ _ => '&' :: (r ++ [';'])

def meaning : Piece → List Char
  | text cs _ => cs
  | reference _ c _ => [c]

theorem decode_written (p : Piece) (rest : List Char) :
    decode (p.written ++ rest) = (decode rest).map (p.meaning ++ ·) := by
  cases p with
  | text cs plain => exact decode_append plain rest
  | reference r c refers =>
    have hsign : IsSign [] := Or.inl rfl
    have hread := decode_reference (refers.not_mem hsign).2 rest
    rw [referenced?_eq_some.2 ⟨[], hsign, refers⟩] at hread
    show decode ('&' :: ((r ++ [';']) ++ rest)) = _
    rw [List.append_assoc]
    exact hread

theorem decode_flatMap_written (pieces : List Piece) :
    decode (pieces.flatMap written) = .ok (pieces.flatMap meaning) := by
  induction pieces with
  | nil => rfl
  | cons p pieces ih =>
    rw [List.flatMap_cons, decode_written, ih]
    rfl

/-- A piece spells a character that it stands for. -/
def Spells (p : Piece) (written : List Char) (c : Char) : Prop :=
  p.written = written ∧ p.meaning = [c]

theorem exists_plain {c : Char} (h : c ≠ '&') : ∃ p : Piece, p.Spells [c] c :=
  ⟨text [c] fun hmem => h (List.mem_singleton.1 hmem).symm, rfl, rfl⟩

theorem exists_named {r : List Char} {c : Char} (h : Named r c) :
    ∃ p : Piece, p.Spells ('&' :: (r ++ [';'])) c :=
  ⟨reference r c (.named h), rfl, rfl⟩

/-- A text that is written character by character stands for itself. -/
theorem decode_spelled {spell : Char → List Char} (h : ∀ c, ∃ p : Piece, p.Spells (spell c) c)
    (text : List Char) : decode (text.flatMap spell) = .ok text := by
  induction text with
  | nil => rfl
  | cons c text ih =>
    obtain ⟨p, hwritten, hmeaning⟩ := h c
    rw [List.flatMap_cons, ← hwritten, decode_written, ih, hmeaning]
    rfl

end Piece

/-- Any pieces in a row stand for what each of them stands for, and a text in which
every ampersand is written as a reference stands for itself. -/
theorem pieces_stand_for_meanings :
    (∀ pieces : List Piece,
      decode (pieces.flatMap Piece.written) = .ok (pieces.flatMap Piece.meaning)) ∧
    ∀ text : List Char,
      decode (text.flatMap fun c => if c = '&' then ['&', 'a', 'm', 'p', ';'] else [c]) =
        .ok text := by
  refine ⟨Piece.decode_flatMap_written, Piece.decode_spelled fun c => ?_⟩
  by_cases hc : c = '&'
  · rw [if_pos hc, hc]
    exact Piece.exists_named .amp
  · rw [if_neg hc]
    exact Piece.exists_plain hc

/-- The ampersand that a reference stands for opens no reference of its own. -/
example : decode "Tom &amp;lt; &#x0041;&#228;".toList = .ok "Tom &lt; Aä".toList := rfl

/-! ## Ampersands -/

/-- Every ampersand of a text opens something that goes up to a semicolon. -/
def EveryOpens (p : List Char → Prop) (value : List Char) : Prop :=
  ∀ front back, value = front ++ '&' :: back → ∃ r rest, back = r ++ ';' :: rest ∧ p r

theorem everyOpens_cons {p : List Char → Prop} {c : Char} {cs : List Char} :
    EveryOpens p (c :: cs) ↔
      (c = '&' → ∃ r rest, cs = r ++ ';' :: rest ∧ p r) ∧ EveryOpens p cs := by
  constructor
  · intro h
    refine ⟨fun hc => ?_, fun front back hcs => ?_⟩
    · apply h [] cs
      rw [hc, List.nil_append]
    · apply h (c :: front) back
      rw [hcs, List.cons_append]
  · intro ⟨hfirst, hrest⟩ front back hcs
    rcases List.cons_eq_append_iff.1 hcs with ⟨_, hback⟩ | ⟨front', _, hcs'⟩
    · obtain ⟨hc, hback⟩ := List.cons.inj hback
      rw [hback]
      exact hfirst hc.symm
    · exact hrest front' back hcs'

theorem everyOpens_append {p : List Char → Prop} {cs rest : List Char} (h : '&' ∉ cs) :
    EveryOpens p (cs ++ rest) ↔ EveryOpens p rest := by
  induction cs with
  | nil => exact Iff.rfl
  | cons c cs ih =>
    obtain ⟨hc, hcs⟩ := not_or.1 (mt List.mem_cons.2 h)
    rw [List.cons_append, everyOpens_cons, ih hcs]
    exact and_iff_right fun hamp => absurd hamp.symm hc

theorem everyOpens_of_plain {p : List Char → Prop} {cs : List Char} (h : '&' ∉ cs) :
    EveryOpens p cs := by
  intro front back hcs
  rw [hcs] at h
  exact absurd (List.mem_append_right _ List.mem_cons_self) h

/-! ## Values that are read -/

/-- A text goes up to its first ampersand, and a reference from there to the next
semicolon: this is how a value is read, and how a proof about all values goes. -/
theorem value_induction {P : List Char → Prop} (plain : ∀ cs, '&' ∉ cs → P cs)
    (unterminated : ∀ cs r, '&' ∉ cs → ';' ∉ r → P (cs ++ '&' :: r))
    (reference : ∀ cs r rest, '&' ∉ cs → ';' ∉ r → P rest → P (cs ++ '&' :: (r ++ ';' :: rest)))
    (value : List Char) : P value := by
  induction hn : value.length using Nat.strongRecOn generalizing value with
  | ind n ih =>
    by_cases hamp : '&' ∈ value
    · obtain ⟨cs, back, hvalue, hcs⟩ := List.eq_append_cons_of_mem hamp
      rw [hvalue]
      by_cases hsemi : ';' ∈ back
      · obtain ⟨r, rest, hback, hr⟩ := List.eq_append_cons_of_mem hsemi
        rw [hback]
        apply reference cs r rest hcs hr
        refine ih rest.length ?_ rest rfl
        rw [← hn, hvalue, hback]
        simp only [List.length_append, List.length_cons]
        omega
      · exact unterminated cs back hcs hsemi
    · exact plain value hamp

/-- The reader takes it for a reference: a number may have a plus in front. -/
def IsRead (r : List Char) : Prop := ∃ sign c, IsSign sign ∧ Refers sign r c

theorem isRead_iff {r : List Char} : IsRead r ↔ ∃ c, referenced? r = some c := by
  simp only [referenced?_eq_some]
  exact exists_comm

theorem IsRead.not_mem {r : List Char} (h : IsRead r) : '&' ∉ r ∧ ';' ∉ r := by
  obtain ⟨sign, c, hsign, hrefers⟩ := h
  exact hrefers.not_mem hsign

theorem everyOpens_reference {r rest : List Char} (hr : IsRead r)
    (hrest : EveryOpens IsRead rest) : EveryOpens IsRead ('&' :: (r ++ ';' :: rest)) := by
  have hbehind : EveryOpens IsRead (';' :: rest) :=
    everyOpens_cons.2 ⟨fun h => absurd h (by decide), hrest⟩
  exact everyOpens_cons.2
    ⟨fun _ => ⟨r, rest, rfl, hr⟩, (everyOpens_append hr.not_mem.1).2 hbehind⟩

/-- Why what stands behind an ampersand opens no reference. -/
inductive Refused : List Char → ReferenceFault → Prop
  | unterminated {back : List Char} (h : ';' ∉ back) : Refused back .unterminated
  | unknown {r rest : List Char} (hr : ';' ∉ r) (h : ¬ IsRead r) :
    Refused (r ++ ';' :: rest) (.unknown r)

/-- The text in front of the first mark is known from the whole. -/
theorem eq_of_append_cons {mark : Char} {r r' rest rest' : List Char} (hr : mark ∉ r)
    (hr' : mark ∉ r') (h : r ++ mark :: rest = r' ++ mark :: rest') : r = r' := by
  have hfront {front back : List Char} (hnone : mark ∉ front) :
      (front ++ mark :: back).takeWhile (· != mark) = front := by
    apply takeWhile_append_of_stops
    · intro c hc
      rw [bne_iff_ne]
      exact ne_of_mem_of_not_mem hc hnone
    · exact stops_cons (bne_self_eq_false mark)
  rw [← hfront hr, h, hfront hr']

theorem Refused.opens_none {back : List Char} {fault : ReferenceFault} (h : Refused back fault) :
    ¬ ∃ r rest, back = r ++ ';' :: rest ∧ IsRead r := by
  intro ⟨r, rest, hback, hread⟩
  cases h with
  | unterminated hnone =>
    rw [hback] at hnone
    exact hnone (List.mem_append_right _ List.mem_cons_self)
  | unknown hr hunread =>
    rw [eq_of_append_cons hr hread.not_mem.2 hback] at hunread
    exact hunread hread

/-- What a reading tells of the value: all of its ampersands open references, or there
is one that does not, for the reason that is given. -/
def Tells (value : List Char) : Except ReferenceFault (List Char) → Prop
  | .ok _ => EveryOpens IsRead value
  | .error fault => ∃ front back, value = front ++ '&' :: back ∧ Refused back fault

theorem tells_decode (value : List Char) : Tells value (decode value) := by
  induction value using value_induction with
  | plain cs hcs =>
    rw [decode_of_plain hcs]
    exact everyOpens_of_plain hcs
  | unterminated cs r hcs hr =>
    rw [decode_append hcs, decode_unterminated hr]
    exact ⟨cs, r, rfl, .unterminated hr⟩
  | reference cs r rest hcs hr ih =>
    rw [decode_append hcs, decode_reference hr]
    cases hread : referenced? r with
    | none =>
      refine ⟨cs, r ++ ';' :: rest, rfl, .unknown hr fun h => ?_⟩
      obtain ⟨c, hc⟩ := isRead_iff.1 h
      rw [hread] at hc
      cases hc
    | some c =>
      cases hrest : decode rest with
      | ok text =>
        rw [hrest] at ih
        exact (everyOpens_append hcs).2 (everyOpens_reference (isRead_iff.2 ⟨c, hread⟩) ih)
      | error fault =>
        rw [hrest] at ih
        obtain ⟨front, back, hsplit, hrefused⟩ := ih
        -- The ampersand to blame stands behind the reference that was read.
        refine ⟨cs ++ '&' :: (r ++ ';' :: front), back, ?_, hrefused⟩
        simp only [hsplit, List.append_assoc, List.cons_append]

theorem exists_decode_eq_ok_iff {value : List Char} :
    (∃ text, decode value = .ok text) ↔ EveryOpens IsRead value := by
  have htells := tells_decode value
  cases hread : decode value with
  | ok text =>
    rw [hread] at htells
    exact iff_of_true ⟨text, rfl⟩ htells
  | error fault =>
    rw [hread] at htells
    obtain ⟨front, back, hsplit, hrefused⟩ := htells
    exact iff_of_false nofun fun h => hrefused.opens_none (h front back hsplit)

/-- A value is read where every ampersand of it opens a reference.  Any other value is
a fault of the markup, over an ampersand that has no semicolon behind it, or over one
whose reference is unknown. -/
theorem value_read_iff_references (raw : String) :
    ((∃ text, Element.resolveValue raw = .ok text) ↔ EveryOpens IsRead raw.toList) ∧
    ∀ fault, Element.resolveValue raw = .error fault →
      (∃ detail, Failure.ofMarkupFault fault = .illFormedMarkup detail) ∧
      ∃ front back, raw.toList = front ++ '&' :: back ∧
        (fault = .unterminatedReference raw ∧ ';' ∉ back ∨
          ∃ r rest, fault = .unknownReference (String.ofList r) ∧ back = r ++ ';' :: rest ∧
            ';' ∉ r ∧ ¬ IsRead r) := by
  have htells := tells_decode raw.toList
  rw [← exists_decode_eq_ok_iff, Element.resolveValue]
  cases hread : decode raw.toList with
  | ok text => exact ⟨iff_of_true ⟨_, rfl⟩ ⟨text, rfl⟩, nofun⟩
  | error reason =>
    rw [hread] at htells
    obtain ⟨front, back, hsplit, hrefused⟩ := htells
    cases hrefused with
    | unterminated hnone =>
      refine ⟨iff_of_false nofun nofun, fun fault hfault => ⟨⟨_, rfl⟩, front, back, hsplit, ?_⟩⟩
      exact Or.inl ⟨(Except.error.inj hfault).symm, hnone⟩
    | @unknown r rest hr hunread =>
      refine ⟨iff_of_false nofun nofun, fun fault hfault => ⟨⟨_, rfl⟩, front, _, hsplit, ?_⟩⟩
      exact Or.inr ⟨r, rest, (Except.error.inj hfault).symm, rfl, hr, hunread⟩

/-- A number with a plus in front is read, and is no reference of the language. -/
theorem signed_number_is_read :
    Element.resolveValue "&#+65;" = .ok "A" ∧
      ¬ EveryOpens (fun r => ∃ c, Refers [] r c) "&#+65;".toList := by
  refine ⟨rfl, fun h => ?_⟩
  obtain ⟨r, rest, hsplit, c, hrefers⟩ := h [] ['#', '+', '6', '5', ';'] rfl
  have hsplit' : ['#', '+', '6', '5'] ++ ';' :: [] = r ++ ';' :: rest := hsplit
  have hr : ['#', '+', '6', '5'] = r :=
    eq_of_append_cons (by decide) (hrefers.not_mem (Or.inl rfl)).2 hsplit'
  have hplus : '+' ∈ r := by
    rw [← hr]
    decide
  exact absurd (hrefers.of_mem hplus) (by decide)

end Markup
end AudioWalk
