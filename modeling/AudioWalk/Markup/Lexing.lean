import AudioWalk.Markup.Lexeme
import AudioWalk.Text.Blank

/-!
# From text to lexemes

Each reader takes what it reads from the front of a text and returns the rest.
What a lexeme is depends on its first characters alone, so a text has at most
one reading and nothing is ever read twice.

Main statement, `Lexeme.readAll?_chars`: the lexemes of a text, written one
after the other, are the text.
-/

namespace AudioWalk
namespace Markup

open Text (isSpace)

/-- The text behind `mark`, where the text opens with it. -/
def after? : List Char → List Char → Option (List Char)
  | [], cs => some cs
  | m :: mark, c :: cs => if m = c then after? mark cs else none
  | _ :: _, [] => none

/-- Splits a text around the first occurrence of `mark`. -/
def upTo? (mark : List Char) : List Char → Option (List Char × List Char)
  | [] => (after? mark []).map fun rest => ([], rest)
  | c :: cs =>
    match after? mark (c :: cs) with
    | some rest => some ([], rest)
    | none => (upTo? mark cs).map fun (body, rest) => (c :: body, rest)

def name? : List Char → Option (List Char × List Char)
  | [] => none
  | c :: cs =>
    if isNameStart c then some (c :: cs.takeWhile isNameChar, cs.dropWhile isNameChar) else none

def Quote.ofChar? (c : Char) : Option Quote :=
  if c = '"' then some .double else if c = '\'' then some .single else none

/-- The quoted value of an attribute, up to the next quote of the same kind. -/
def quoted? : List Char → Option (Quote × List Char × List Char)
  | [] => none
  | c :: cs => do
    let quote ← Quote.ofChar? c
    let (value, rest) ← upTo? [quote.char] cs
    return (quote, value, rest)

/-- An attribute stands behind at least one blank. -/
def Attribute.read? (cs : List Char) : Option (Attribute × List Char) :=
  if cs.takeWhile isSpace = [] then none
  else do
    let (name, afterName) ← name? (cs.dropWhile isSpace)
    let atValue ← after? ['='] (afterName.dropWhile isSpace)
    let (quote, value, rest) ← quoted? (atValue.dropWhile isSpace)
    return ({ gap := cs.takeWhile isSpace
              name
              beforeEquals := afterName.takeWhile isSpace
              afterEquals := atValue.takeWhile isSpace
              quote
              value }, rest)

theorem after?_eq_some {mark cs rest : List Char} (h : after? mark cs = some rest) :
    mark ++ rest = cs := by
  induction mark generalizing cs with
  | nil => simpa [after?, eq_comm] using h
  | cons m mark ih =>
    cases cs with
    | nil => simp [after?] at h
    | cons c cs =>
      by_cases hmc : m = c
      · simp only [after?, if_pos hmc] at h
        rw [List.cons_append, ih h, hmc]
      · simp [after?, hmc] at h

theorem upTo?_eq_some {mark cs body rest : List Char} (h : upTo? mark cs = some (body, rest)) :
    body ++ mark ++ rest = cs := by
  induction cs generalizing body with
  | nil =>
    obtain ⟨r, hr, heq⟩ := Option.map_eq_some_iff.1 h
    cases heq
    exact after?_eq_some hr
  | cons c cs ih =>
    rw [upTo?] at h
    split at h
    · next r hr =>
      cases h
      exact after?_eq_some hr
    · obtain ⟨⟨b, r⟩, hbr, heq⟩ := Option.map_eq_some_iff.1 h
      cases heq
      simp [← ih hbr]

theorem name?_eq_some {cs name rest : List Char} (h : name? cs = some (name, rest)) :
    name ++ rest = cs := by
  cases cs with
  | nil => simp [name?] at h
  | cons c cs =>
    by_cases hc : isNameStart c
    · simp only [name?, if_pos hc] at h
      cases h
      simp
    · simp [name?, hc] at h

theorem Quote.char_ofChar? {c : Char} {q : Quote} (h : Quote.ofChar? c = some q) : q.char = c := by
  unfold Quote.ofChar? at h
  split at h
  · cases h
    simp_all [Quote.char]
  · split at h
    · cases h
      simp_all [Quote.char]
    · cases h

theorem quoted?_eq_some {cs value rest : List Char} {q : Quote}
    (h : quoted? cs = some (q, value, rest)) : q.char :: value ++ q.char :: rest = cs := by
  cases cs with
  | nil => simp [quoted?] at h
  | cons c cs =>
    simp only [quoted?, Option.bind_eq_bind, Option.bind_eq_some_iff] at h
    obtain ⟨q', hq, ⟨v, r⟩, hv, heq⟩ := h
    cases heq
    rw [← upTo?_eq_some hv, Quote.char_ofChar? hq]
    simp

/-- An attribute and the rest of the text are the text. -/
theorem Attribute.read?_chars {cs rest : List Char} {a : Attribute}
    (h : Attribute.read? cs = some (a, rest)) : a.chars ++ rest = cs := by
  unfold Attribute.read? at h
  split at h
  · cases h
  · simp only [Option.bind_eq_bind, Option.bind_eq_some_iff] at h
    obtain ⟨⟨name, afterName⟩, hname, atValue, hvalue, ⟨quote, value, r⟩, hquoted, heq⟩ := h
    cases heq
    have h1 := name?_eq_some hname
    have h2 := after?_eq_some hvalue
    have h3 := quoted?_eq_some hquoted
    have h4 : cs = cs.takeWhile isSpace ++ cs.dropWhile isSpace := by simp
    have h5 : afterName = afterName.takeWhile isSpace ++ afterName.dropWhile isSpace := by simp
    have h6 : atValue = atValue.takeWhile isSpace ++ atValue.dropWhile isSpace := by simp
    conv => rhs; rw [h4, ← h1]
    conv => rhs; rw [h5, ← h2]
    conv => rhs; rw [h6, ← h3]
    simp [Attribute.chars]

theorem Attribute.read?_length {cs rest : List Char} {a : Attribute}
    (h : Attribute.read? cs = some (a, rest)) : rest.length < cs.length := by
  rw [← Attribute.read?_chars h]
  simp [Attribute.chars]
  omega

/-- Reads attributes until none follows. -/
def attributes (cs : List Char) : List Attribute × List Char :=
  match _h : Attribute.read? cs with
  | none => ([], cs)
  | some (a, rest) =>
    let (more, rest') := attributes rest
    (a :: more, rest')
termination_by cs.length
decreasing_by exact Attribute.read?_length _h

theorem attributes_chars (cs : List Char) :
    (attributes cs).1.flatMap Attribute.chars ++ (attributes cs).2 = cs := by
  fun_induction attributes cs with
  | case1 => simp
  | case2 cs a rest h more rest' heq ih =>
    rw [heq] at ih
    rw [← Attribute.read?_chars h, List.flatMap_cons, List.append_assoc, ih]

/-- What ends an opening tag, and whether it closes the element at once. -/
def tagEnd? : List Char → Option (Bool × List Char)
  | '>' :: rest => some (false, rest)
  | '/' :: '>' :: rest => some (true, rest)
  | _ => none

/-- An opening tag, from behind its angle bracket. -/
def opening? (cs : List Char) : Option (Lexeme × List Char) := do
  let (name, afterName) ← name? cs
  let (attributes, afterAttributes) := attributes afterName
  let (closed, rest) ← tagEnd? (afterAttributes.dropWhile isSpace)
  return (.opening name attributes (afterAttributes.takeWhile isSpace) closed, rest)

/-- A closing tag, from behind its slash. -/
def closing? (cs : List Char) : Option (Lexeme × List Char) := do
  let (name, afterName) ← name? cs
  let rest ← after? ['>'] (afterName.dropWhile isSpace)
  return (.closing name (afterName.takeWhile isSpace), rest)

def enclosed? (cs : List Char) : Option (Lexeme × List Char) :=
  Enclosure.all.findSome? fun kind => do
    let inside ← after? kind.opener cs
    let (body, rest) ← upTo? kind.closer inside
    return (.enclosed kind body, rest)

/-- The first lexeme of a text.  Text runs up to the next angle bracket. -/
def Lexeme.read? : List Char → Option (Lexeme × List Char)
  | [] => none
  | '<' :: '/' :: cs => closing? cs
  | '<' :: cs => (enclosed? ('<' :: cs)).or (opening? cs)
  | c :: cs => some (.text (c :: cs.takeWhile (· ≠ '<')), cs.dropWhile (· ≠ '<'))

theorem tagEnd?_eq_some {cs rest : List Char} {closed : Bool}
    (h : tagEnd? cs = some (closed, rest)) :
    (if closed then ['/', '>'] else ['>']) ++ rest = cs := by
  unfold tagEnd? at h
  split at h <;> cases h <;> rfl

theorem opening?_chars {cs rest : List Char} {l : Lexeme} (h : opening? cs = some (l, rest)) :
    l.chars ++ rest = '<' :: cs := by
  simp only [opening?, Option.bind_eq_bind, Option.bind_eq_some_iff] at h
  obtain ⟨⟨name, afterName⟩, hname, ⟨closed, r⟩, hend, heq⟩ := h
  cases heq
  have h1 := name?_eq_some hname
  have h2 := attributes_chars afterName
  have h3 := tagEnd?_eq_some hend
  rw [← h1]
  conv => rhs; rw [← h2]
  conv => rhs; rw [← List.takeWhile_append_dropWhile (p := isSpace) (l := (attributes afterName).2),
    ← h3]
  simp [Lexeme.chars]

theorem closing?_chars {cs rest : List Char} {l : Lexeme} (h : closing? cs = some (l, rest)) :
    l.chars ++ rest = '<' :: '/' :: cs := by
  simp only [closing?, Option.bind_eq_bind, Option.bind_eq_some_iff] at h
  obtain ⟨⟨name, afterName⟩, hname, r, hend, heq⟩ := h
  cases heq
  have h1 := name?_eq_some hname
  have h2 := after?_eq_some hend
  rw [← h1]
  conv => rhs; rw [← List.takeWhile_append_dropWhile (p := isSpace) (l := afterName), ← h2]
  simp [Lexeme.chars]

theorem enclosed?_chars {cs rest : List Char} {l : Lexeme} (h : enclosed? cs = some (l, rest)) :
    l.chars ++ rest = cs := by
  obtain ⟨kind, _, hkind⟩ := List.exists_of_findSome?_eq_some h
  simp only [Option.bind_eq_bind, Option.bind_eq_some_iff] at hkind
  obtain ⟨inside, hinside, ⟨body, r⟩, hbody, heq⟩ := hkind
  cases heq
  rw [← after?_eq_some hinside, ← upTo?_eq_some hbody]
  simp [Lexeme.chars]

/-- A lexeme and the rest of the text are the text. -/
theorem Lexeme.read?_chars {cs rest : List Char} {l : Lexeme}
    (h : Lexeme.read? cs = some (l, rest)) : l.chars ++ rest = cs := by
  unfold Lexeme.read? at h
  split at h
  · cases h
  · exact closing?_chars h
  · rcases Option.or_eq_some_iff.1 h with h | ⟨_, h⟩
    · exact enclosed?_chars h
    · exact opening?_chars h
  · cases h
    simp [Lexeme.chars]

theorem Lexeme.read?_length {cs rest : List Char} {l : Lexeme}
    (h : Lexeme.read? cs = some (l, rest)) : rest.length < cs.length := by
  have hchars := Lexeme.read?_chars h
  have hpos : 0 < l.chars.length := by
    unfold Lexeme.read? at h
    split at h
    · cases h
    · simp only [closing?, Option.bind_eq_bind, Option.bind_eq_some_iff] at h
      obtain ⟨_, _, _, _, heq⟩ := h
      cases heq
      simp [Lexeme.chars]
    · rcases Option.or_eq_some_iff.1 h with h | ⟨_, h⟩
      · obtain ⟨kind, _, hkind⟩ := List.exists_of_findSome?_eq_some h
        simp only [Option.bind_eq_bind, Option.bind_eq_some_iff] at hkind
        obtain ⟨_, _, _, _, heq⟩ := hkind
        cases heq
        cases kind <;> simp [Lexeme.chars, Enclosure.opener]
      · simp only [opening?, Option.bind_eq_bind, Option.bind_eq_some_iff] at h
        obtain ⟨_, _, _, _, heq⟩ := h
        cases heq
        simp [Lexeme.chars]
    · cases h
      simp [Lexeme.chars]
  rw [← hchars, List.length_append]
  omega

/-- All lexemes of a text, if the text consists of lexemes. -/
def Lexeme.readAll? (cs : List Char) : Option (List Lexeme) :=
  match _h : Lexeme.read? cs with
  | none => if cs = [] then some [] else none
  | some (l, rest) => (Lexeme.readAll? rest).map (l :: ·)
termination_by cs.length
decreasing_by exact Lexeme.read?_length _h

theorem Lexeme.readAll?_chars {cs : List Char} {ls : List Lexeme}
    (h : Lexeme.readAll? cs = some ls) : ls.flatMap Lexeme.chars = cs := by
  induction ls generalizing cs with
  | nil =>
    rw [Lexeme.readAll?] at h
    split at h
    · split at h
      · next hcs => simp [hcs]
      · cases h
    · obtain ⟨_, _, heq⟩ := Option.map_eq_some_iff.1 h
      cases heq
  | cons l ls ih =>
    rw [Lexeme.readAll?] at h
    split at h
    · split at h <;> cases h
    · next l' rest hread =>
      obtain ⟨ls', hls, heq⟩ := Option.map_eq_some_iff.1 h
      cases heq
      rw [List.flatMap_cons, ih hls, Lexeme.read?_chars hread]

end Markup
end AudioWalk
