import AudioWalk.Proofs.Markup.Marks

/-!
# Well-formed lexemes

`Lexeme.WellFormed` says of a lexeme, without any reader, that it could have come
from a text.  Reading is the converse of writing on these: what is read is well
formed (`Lexeme.wellFormed_of_read?`), and what is well formed and written in
front of a text is read back from it (`Lexeme.read?_append`), whatever the text
is.  A run of text needs a tag or the end of the text behind it.

So no order in which the readers try their cases, and no length to which they
run, can lose a lexeme that is there.
-/

namespace AudioWalk
namespace Markup

open Text (isSpace)

structure Attribute.WellFormed (a : Attribute) : Prop where
  gap_ne_nil : a.gap ≠ []
  gap : Blank a.gap
  name : IsName a.name
  beforeEquals : Blank a.beforeEquals
  afterEquals : Blank a.afterEquals
  value : a.quote.char ∉ a.value

def Lexeme.WellFormed : Lexeme → Prop
  | enclosed kind body => ¬ kind.closer <:+: body
  | text body => body ≠ [] ∧ '<' ∉ body
  | opening name attributes gap _ => IsName name ∧ (∀ a ∈ attributes, a.WellFormed) ∧ Blank gap
  | closing name gap => IsName name ∧ Blank gap

/-! ## Attributes -/

theorem Quote.ofChar?_char (q : Quote) : Quote.ofChar? q.char = some q := by
  cases q <;> rfl

theorem Quote.isSpace_char (q : Quote) : isSpace q.char = false := by
  cases q <;> decide

theorem quoted?_append {q : Quote} {value : List Char} (h : q.char ∉ value) (rest : List Char) :
    quoted? (q.char :: (value ++ q.char :: rest)) = some (q, value, rest) := by
  have hvalue : ¬ [q.char] <:+: value := fun hinside =>
    h (hinside.subset List.mem_cons_self)
  have hupTo : upTo? [q.char] (value ++ q.char :: rest) = some (value, rest) :=
    upTo?_append (borderless_quote q) (List.cons_ne_nil _ _) hvalue rest
  rw [quoted?, Quote.ofChar?_char]
  simp only [Option.bind_eq_bind, Option.bind_some]
  rw [hupTo]
  rfl

theorem not_mem_of_quoted? {cs value rest : List Char} {q : Quote}
    (h : quoted? cs = some (q, value, rest)) : q.char ∉ value := by
  cases cs with
  | nil => cases h
  | cons c cs =>
    simp only [quoted?, Option.bind_eq_bind, Option.bind_eq_some_iff] at h
    obtain ⟨q', -, ⟨v, r⟩, hv, heq⟩ := h
    cases heq
    intro hmem
    obtain ⟨xs, ys, hxy⟩ := List.append_of_mem hmem
    refine not_infix_of_upTo? (List.cons_ne_nil _ _) hv ⟨xs, ys, ?_⟩
    rw [List.append_assoc, List.singleton_append]
    exact hxy.symm

theorem Attribute.read?_append {a : Attribute} (h : a.WellFormed) (rest : List Char) :
    Attribute.read? (a.chars ++ rest) = some (a, rest) := by
  obtain ⟨gap, name, beforeEquals, afterEquals, quote, value⟩ := a
  obtain ⟨hne, hgap, hname, hbefore, hafter, hvalue⟩ := h
  simp only at hne hgap hname hbefore hafter hvalue
  -- The text behind each part, from the last part to the first.
  let atQuote := quote.char :: (value ++ quote.char :: rest)
  let atEquals := '=' :: (afterEquals ++ atQuote)
  let atName := name ++ (beforeEquals ++ atEquals)
  have hchars : Attribute.chars ⟨gap, name, beforeEquals, afterEquals, quote, value⟩ ++ rest =
      gap ++ atName := by
    simp [Attribute.chars, atName, atEquals, atQuote]
  have hstopsName : Stops isSpace atName := by
    obtain ⟨c, cs, rfl, hc, -⟩ := hname
    exact stops_cons (isSpace_of_isNameStart hc)
  have hstopsEquals : Stops isSpace atEquals := stops_cons (by decide)
  have hstopsQuote : Stops isSpace atQuote := stops_cons quote.isSpace_char
  have hnameEnd : Stops isNameChar (beforeEquals ++ atEquals) :=
    Blank.stops_isNameChar hbefore (stops_cons (by decide))
  have hequals : after? ['='] atEquals = some (afterEquals ++ atQuote) :=
    after?_append ['='] (afterEquals ++ atQuote)
  rw [hchars, Attribute.read?, takeWhile_append_of_stops hgap hstopsName,
    dropWhile_append_of_stops hgap hstopsName, if_neg hne, name?_append hname hnameEnd]
  simp only [Option.bind_eq_bind, Option.bind_some]
  rw [takeWhile_append_of_stops hbefore hstopsEquals,
    dropWhile_append_of_stops hbefore hstopsEquals, hequals]
  simp only [Option.bind_some]
  rw [takeWhile_append_of_stops hafter hstopsQuote, dropWhile_append_of_stops hafter hstopsQuote,
    quoted?_append hvalue rest]
  rfl

theorem Attribute.wellFormed_of_read? {cs rest : List Char} {a : Attribute}
    (h : Attribute.read? cs = some (a, rest)) : a.WellFormed := by
  unfold Attribute.read? at h
  split at h
  · cases h
  · next hne =>
    simp only [Option.bind_eq_bind, Option.bind_eq_some_iff] at h
    obtain ⟨⟨name, afterName⟩, hname, atValue, -, ⟨quote, value, r⟩, hquoted, heq⟩ := h
    cases heq
    exact ⟨hne, blank_takeWhile cs, isName_of_name? hname, blank_takeWhile afterName,
      blank_takeWhile atValue, not_mem_of_quoted? hquoted⟩

theorem Attribute.stops_isNameChar {a : Attribute} (h : a.WellFormed) (rest : List Char) :
    Stops isNameChar (a.chars ++ rest) := by
  obtain ⟨c, cs, hgap⟩ := List.exists_cons_of_ne_nil h.gap_ne_nil
  have hc : isSpace c = true := h.gap c (hgap ▸ List.mem_cons_self)
  simp only [Attribute.chars, hgap, List.cons_append]
  exact stops_cons (isNameChar_of_isSpace hc)

theorem attributes_append {as : List Attribute} {rest : List Char}
    (h : ∀ a ∈ as, a.WellFormed) (hrest : Attribute.read? rest = none) :
    attributes (as.flatMap Attribute.chars ++ rest) = (as, rest) := by
  induction as with
  | nil =>
    rw [List.flatMap_nil, List.nil_append, attributes]
    split
    · rfl
    · next hread =>
      rw [hrest] at hread
      cases hread
  | cons a as ih =>
    have hhere : Attribute.read? (a.chars ++ (as.flatMap Attribute.chars ++ rest)) =
        some (a, as.flatMap Attribute.chars ++ rest) :=
      Attribute.read?_append (h a List.mem_cons_self) _
    have hmore := ih fun b hb => h b (List.mem_cons_of_mem a hb)
    rw [List.flatMap_cons, List.append_assoc, attributes]
    split
    · next hread =>
      rw [hhere] at hread
      cases hread
    · next hread =>
      rw [hhere] at hread
      cases hread
      rw [hmore]

theorem wellFormed_of_attributes (cs : List Char) : ∀ a ∈ (attributes cs).1, a.WellFormed := by
  fun_induction attributes cs with
  | case1 => exact fun a ha => absurd ha List.not_mem_nil
  | case2 cs a rest h more rest' heq ih =>
    rw [heq] at ih
    intro b hb
    rcases List.mem_cons.1 hb with rfl | hb
    · exact Attribute.wellFormed_of_read? h
    · exact ih b hb

/-! ## Tags -/

def tagEnd (closed : Bool) : List Char := if closed then ['/', '>'] else ['>']

theorem tagEnd?_append (closed : Bool) (rest : List Char) :
    tagEnd? (tagEnd closed ++ rest) = some (closed, rest) := by
  cases closed <;> rfl

theorem stops_tagEnd {p : Char → Bool} (hslash : p '/' = false) (hbracket : p '>' = false)
    (closed : Bool) (rest : List Char) : Stops p (tagEnd closed ++ rest) := by
  cases closed with
  | false => exact stops_cons hbracket
  | true => exact stops_cons hslash

/-- Behind the last attribute no further one can be read. -/
theorem Attribute.read?_gap {gap : List Char} (hgap : Blank gap) (closed : Bool)
    (rest : List Char) : Attribute.read? (gap ++ (tagEnd closed ++ rest)) = none := by
  have hspace := stops_tagEnd (p := isSpace) (by decide) (by decide) closed rest
  have hname := name?_eq_none (stops_tagEnd (p := isNameStart) (by decide) (by decide) closed rest)
  rw [Attribute.read?, takeWhile_append_of_stops hgap hspace,
    dropWhile_append_of_stops hgap hspace, hname]
  split <;> rfl

theorem opening?_append {name gap : List Char} {as : List Attribute} {closed : Bool}
    (h : (Lexeme.opening name as gap closed).WellFormed) (rest : List Char) :
    opening? (name ++ (as.flatMap Attribute.chars ++ (gap ++ (tagEnd closed ++ rest)))) =
      some (.opening name as gap closed, rest) := by
  obtain ⟨hname, has, hgap⟩ := h
  have hspace := stops_tagEnd (p := isSpace) (by decide) (by decide) closed rest
  have hnameEnd :
      Stops isNameChar (as.flatMap Attribute.chars ++ (gap ++ (tagEnd closed ++ rest))) := by
    cases as with
    | nil =>
      have hend := stops_tagEnd (p := isNameChar) (by decide) (by decide) closed rest
      rw [List.flatMap_nil, List.nil_append]
      exact Blank.stops_isNameChar hgap hend
    | cons a as =>
      rw [List.flatMap_cons, List.append_assoc]
      exact Attribute.stops_isNameChar (has a List.mem_cons_self) _
  rw [opening?, name?_append hname hnameEnd]
  simp only [Option.bind_eq_bind, Option.bind_some]
  rw [attributes_append has (Attribute.read?_gap hgap closed rest)]
  dsimp only
  rw [takeWhile_append_of_stops hgap hspace, dropWhile_append_of_stops hgap hspace,
    tagEnd?_append]
  rfl

theorem closing?_append {name gap : List Char} (h : (Lexeme.closing name gap).WellFormed)
    (rest : List Char) :
    closing? (name ++ (gap ++ '>' :: rest)) = some (.closing name gap, rest) := by
  obtain ⟨hname, hgap⟩ := h
  have hspace : Stops isSpace ('>' :: rest) := stops_cons (by decide)
  have hnameEnd : Stops isNameChar (gap ++ '>' :: rest) :=
    Blank.stops_isNameChar hgap (stops_cons (by decide))
  rw [closing?, name?_append hname hnameEnd]
  simp only [Option.bind_eq_bind, Option.bind_some]
  rw [takeWhile_append_of_stops hgap hspace, dropWhile_append_of_stops hgap hspace]
  rfl

/-! ## Enclosures -/

theorem Enclosure.closer_ne_nil (kind : Enclosure) : kind.closer ≠ [] := by
  cases kind <;> decide

/-- An opener is not mistaken for another. -/
theorem Enclosure.after?_opener {kind other : Enclosure} (h : other ≠ kind) (cs : List Char) :
    after? other.opener (kind.opener ++ cs) = none := by
  cases kind <;> cases other <;> first | rfl | exact absurd rfl h

theorem enclosed?_append {kind : Enclosure} {body : List Char}
    (h : (Lexeme.enclosed kind body).WellFormed) (rest : List Char) :
    enclosed? (kind.opener ++ (body ++ (kind.closer ++ rest))) =
      some (.enclosed kind body, rest) := by
  have hbody := upTo?_append (borderless_closer kind) kind.closer_ne_nil h rest
  have hopener := after?_append kind.opener (body ++ (kind.closer ++ rest))
  have hother := fun (other : Enclosure) (hne : other ≠ kind) =>
    Enclosure.after?_opener hne (body ++ (kind.closer ++ rest))
  cases kind <;> simp [enclosed?, Enclosure.all, List.findSome?, hopener, hbody, hother]

/-- What follows the angle bracket of a tag opens no enclosure. -/
theorem enclosed?_eq_none {c : Char} (hc : isNameStart c = true) (cs : List Char) :
    enclosed? ('<' :: c :: cs) = none := by
  have hbang : c ≠ '!' := by
    rintro rfl
    exact absurd hc (by decide)
  have hquestion : c ≠ '?' := by
    rintro rfl
    exact absurd hc (by decide)
  simp [enclosed?, Enclosure.all, List.findSome?, Enclosure.opener, after?, Ne.symm hbang,
    Ne.symm hquestion]

/-! ## Lexemes -/

namespace Lexeme

theorem chars_opening (name : List Char) (as : List Attribute) (gap : List Char) (closed : Bool)
    (rest : List Char) :
    (opening name as gap closed).chars ++ rest =
      '<' :: (name ++ (as.flatMap Attribute.chars ++ (gap ++ (tagEnd closed ++ rest)))) := by
  simp [chars, tagEnd]

theorem read?_of_enclosed? {cs rest : List Char} {l : Lexeme} {c : Char} (hc : c ≠ '/')
    (h : enclosed? ('<' :: c :: cs) = some (l, rest)) :
    read? ('<' :: c :: cs) = some (l, rest) := by
  rw [read?]
  · rw [h]
    rfl
  · rintro ds heq
    cases heq
    exact hc rfl

/-- A well-formed lexeme is read back from the front of any text.  Text has to
run up to a tag or to the end. -/
theorem read?_append {l : Lexeme} (h : l.WellFormed) (rest : List Char)
    (htext : ∀ body, l = text body → Stops (· ≠ '<') rest) :
    read? (l.chars ++ rest) = some (l, rest) := by
  cases l with
  | enclosed kind body =>
    have hread := enclosed?_append h rest
    have hchars : (enclosed kind body).chars ++ rest =
        kind.opener ++ (body ++ (kind.closer ++ rest)) := by
      simp [chars]
    rw [hchars]
    cases kind <;> exact read?_of_enclosed? (by decide) hread
  | text body =>
    obtain ⟨hne, hbody⟩ := h
    obtain ⟨c, cs, rfl⟩ := List.exists_cons_of_ne_nil hne
    have hc : c ≠ '<' := fun heq => hbody (heq ▸ List.mem_cons_self)
    have hcs : ∀ d ∈ cs, decide (d ≠ '<') = true := by
      intro d hd
      refine decide_eq_true fun heq => hbody ?_
      exact heq ▸ List.mem_cons_of_mem c hd
    show read? (c :: (cs ++ rest)) = _
    rw [read?]
    · rw [takeWhile_append_of_stops hcs (htext _ rfl), dropWhile_append_of_stops hcs (htext _ rfl)]
    · rintro ds rfl
      exact absurd rfl hc
    · rintro rfl
      exact hc rfl
  | opening name as gap closed =>
    have hread := opening?_append h rest
    obtain ⟨c, cs, rfl, hc, -⟩ := h.1
    have hslash : c ≠ '/' := by
      rintro rfl
      exact absurd hc (by decide)
    rw [chars_opening, List.cons_append, read?]
    · rw [enclosed?_eq_none hc, Option.none_or]
      exact hread
    · rintro ds heq
      cases heq
      exact hslash rfl
  | closing name gap =>
    have hchars : (closing name gap).chars ++ rest =
        '<' :: '/' :: (name ++ (gap ++ '>' :: rest)) := by
      simp [chars]
    rw [hchars, read?]
    exact closing?_append h rest

theorem wellFormed_of_read? {cs rest : List Char} {l : Lexeme} (h : read? cs = some (l, rest)) :
    l.WellFormed := by
  unfold read? at h
  split at h
  · cases h
  · simp only [closing?, Option.bind_eq_bind, Option.bind_eq_some_iff] at h
    obtain ⟨⟨name, afterName⟩, hname, r, -, heq⟩ := h
    cases heq
    exact ⟨isName_of_name? hname, blank_takeWhile afterName⟩
  · rcases Option.or_eq_some_iff.1 h with h | ⟨-, h⟩
    · obtain ⟨kind, -, hkind⟩ := List.exists_of_findSome?_eq_some h
      simp only [Option.bind_eq_bind, Option.bind_eq_some_iff] at hkind
      obtain ⟨inside, -, ⟨body, r⟩, hbody, heq⟩ := hkind
      cases heq
      exact not_infix_of_upTo? kind.closer_ne_nil hbody
    · simp only [opening?, Option.bind_eq_bind, Option.bind_eq_some_iff] at h
      obtain ⟨⟨name, afterName⟩, hname, ⟨closed, r⟩, -, heq⟩ := h
      cases heq
      exact ⟨isName_of_name? hname, wellFormed_of_attributes afterName, blank_takeWhile _⟩
  · next c cs hbracket hc =>
    cases h
    refine ⟨List.cons_ne_nil c _, fun hmem => ?_⟩
    rcases List.mem_cons.1 hmem with heq | hmem
    · exact hc heq.symm
    · have hne := List.mem_takeWhile_imp hmem
      simp at hne

/-! ## Texts of lexemes -/

theorem readAll?_nil : readAll? [] = some [] := by
  rw [readAll?]
  rfl

theorem readAll?_append {l : Lexeme} (h : l.WellFormed) (rest : List Char)
    (htext : ∀ body, l = text body → Stops (· ≠ '<') rest) :
    readAll? (l.chars ++ rest) = (readAll? rest).map (l :: ·) := by
  have hhere := read?_append h rest htext
  rw [readAll?]
  split
  · next hread =>
    rw [hhere] at hread
    cases hread
  · next hread =>
    rw [hhere] at hread
    cases hread
    rfl

theorem wellFormed_of_readAll? {cs : List Char} {ls : List Lexeme} (h : readAll? cs = some ls) :
    ∀ l ∈ ls, l.WellFormed := by
  induction ls generalizing cs with
  | nil => exact fun l hl => absurd hl List.not_mem_nil
  | cons l ls ih =>
    rw [readAll?] at h
    split at h
    · split at h <;> cases h
    · next l' rest hread =>
      obtain ⟨ls', hls, heq⟩ := Option.map_eq_some_iff.1 h
      cases heq
      intro m hm
      rcases List.mem_cons.1 hm with rfl | hm
      · exact wellFormed_of_read? hread
      · exact ih hls m hm

theorem readAll?_eq_some_cons {cs : List Char} {l : Lexeme} {ls : List Lexeme} :
    readAll? cs = some (l :: ls) ↔
      ∃ rest, read? cs = some (l, rest) ∧ readAll? rest = some ls := by
  rw [readAll?]
  split
  · next hread =>
    constructor
    · intro h
      split at h <;> cases h
    · intro ⟨rest, h, _⟩
      rw [hread] at h
      cases h
  · next l' rest hread =>
    constructor
    · intro h
      obtain ⟨ls', hls, heq⟩ := Option.map_eq_some_iff.1 h
      cases heq
      exact ⟨rest, hread, hls⟩
    · intro ⟨rest', h, hls⟩
      rw [hread] at h
      cases h
      rw [hls]
      rfl

/-- A run of text ends in front of a tag or at the end. -/
theorem stops_of_read?_text {cs rest body : List Char} (h : read? cs = some (text body, rest)) :
    Stops (· ≠ '<') rest := by
  unfold read? at h
  split at h
  · cases h
  · simp only [closing?, Option.bind_eq_bind, Option.bind_eq_some_iff] at h
    obtain ⟨_, _, _, _, heq⟩ := h
    cases heq
  · rcases Option.or_eq_some_iff.1 h with h | ⟨_, h⟩
    · obtain ⟨kind, _, hkind⟩ := List.exists_of_findSome?_eq_some h
      simp only [Option.bind_eq_bind, Option.bind_eq_some_iff] at hkind
      obtain ⟨_, _, _, _, heq⟩ := hkind
      cases heq
    · simp only [opening?, Option.bind_eq_bind, Option.bind_eq_some_iff] at h
      obtain ⟨_, _, _, _, heq⟩ := h
      cases heq
  · cases h
    exact stops_dropWhile _ _

/-- A text that begins with a tag may follow any text of lexemes. -/
theorem readAll?_append_of_stops {cs rest : List Char} {ls : List Lexeme}
    (h : readAll? cs = some ls) (hrest : Stops (· ≠ '<') rest) :
    readAll? (cs ++ rest) = (readAll? rest).map (ls ++ ·) := by
  induction ls generalizing cs with
  | nil =>
    rw [← readAll?_chars h]
    simp
  | cons l ls ih =>
    obtain ⟨behind, hread, hls⟩ := readAll?_eq_some_cons.1 h
    have htext : ∀ body, l = text body → Stops (· ≠ '<') (behind ++ rest) := by
      rintro body rfl
      have hbehind := stops_of_read?_text hread
      cases behind with
      | nil => exact hrest
      | cons c cs => exact stops_cons (hbehind c rfl)
    rw [← read?_chars hread, List.append_assoc,
      readAll?_append (wellFormed_of_read? hread) _ htext, ih hls, Option.map_map]
    rfl

/-- The first lexemes of a text are the lexemes of their own text. -/
theorem readAll?_front {cs : List Char} {ls more : List Lexeme}
    (h : readAll? cs = some (ls ++ more)) : readAll? (ls.flatMap chars) = some ls := by
  induction ls generalizing cs with
  | nil => exact readAll?_nil
  | cons l ls ih =>
    rw [List.cons_append] at h
    obtain ⟨behind, hread, hrest⟩ := readAll?_eq_some_cons.1 h
    have htext : ∀ body, l = text body → Stops (· ≠ '<') (ls.flatMap chars) := by
      rintro body rfl
      have hbehind := stops_of_read?_text hread
      rw [← readAll?_chars hrest, List.flatMap_append] at hbehind
      cases hls : ls.flatMap chars with
      | nil => exact fun c hc => by cases hc
      | cons c cs =>
        rw [hls] at hbehind
        exact stops_cons (hbehind c rfl)
    rw [List.flatMap_cons, readAll?_append (wellFormed_of_read? hread) _ htext, ih hrest]
    rfl

end Lexeme
end Markup
end AudioWalk
