import AudioWalk.Proofs.Json.Reading
import AudioWalk.Proofs.Json.Taken

/-!
# No other text is read

What is read is in the grammar.  The tokens that come to a value are its tokens: at every
step of the reader those that have been read are told by the open containers and the stage
(`consumed`).  And a text that is cut into the tokens of a value writes it, the blanks in
front of each token going to the mark in front of them.
-/

namespace AudioWalk
namespace Json

open Markup (Blank)

/-! ## From texts to tokens -/

theorem WritesToken.ne_nil {cs : List Char} {t : Token} (h : WritesToken cs t) : cs ≠ [] := by
  cases h with
  | value h =>
    cases h with
    | number h =>
      cases h with
      | parts _ hwhole => simp [hwhole.nonempty]
    | text h =>
      cases h with
      | quoted => exact List.cons_ne_nil _ _
    | _ => exact List.cons_ne_nil _ _
  | _ => exact List.cons_ne_nil _ _

theorem lexes_of_within {steps : Nat} {cs : List Char} {ts : List Token}
    (h : Token.within steps cs = some ts) : Lexes cs ts := by
  have hblank {cs : List Char} (hdone : (cs.dropWhile Text.isSpace).isEmpty = true) :
      Lexes cs [] :=
    .blank (List.dropWhile_eq_nil_iff.1 (List.isEmpty_iff.1 hdone))
  induction steps generalizing cs ts with
  | zero =>
    obtain ⟨hdone, h⟩ := Option.ite_none_right_eq_some.1 h
    cases h
    exact hblank hdone
  | succ steps ih =>
    rw [Token.within] at h
    split at h
    · next hdone =>
      cases h
      exact hblank hdone
    · obtain ⟨⟨t, rest⟩, hread, h⟩ := Option.bind_eq_some_iff.1 h
      obtain ⟨ts', hrest, h⟩ := Option.bind_eq_some_iff.1 h
      cases h
      obtain ⟨text, htext, hdrop⟩ := Token.read?_taken hread
      obtain ⟨c, text, rfl⟩ := List.exists_cons_of_ne_nil htext.ne_nil
      have hhead : (cs.dropWhile Text.isSpace).head? = some c := by
        rw [hdrop]
        rfl
      have hc : Text.isSpace c = false := Markup.stops_dropWhile Text.isSpace cs c hhead
      rw [← List.takeWhile_append_dropWhile (p := Text.isSpace) (l := cs), hdrop]
      rw [hdrop] at hread
      exact .token (Markup.blank_takeWhile cs) hc hread (ih hrest)

/-- The front of a text that is cut into tokens. -/
theorem Lexes.taken {cs : List Char} {t : Token} {ts : List Token} (h : Lexes cs (t :: ts)) :
    ∃ gap text rest, Blank gap ∧ WritesToken text t ∧ cs = gap ++ (text ++ rest) ∧
      Lexes rest ts := by
  cases h with
  | token hgap hc hread hrest =>
    obtain ⟨text, htext, hcs⟩ := Token.read?_taken hread
    exact ⟨_, text, _, hgap, htext, by rw [hcs], hrest⟩

/-! ## From tokens to values -/

def memberTokens (m : List Nat × Json) : List Token := .value (text m.1) :: .colon :: tokens m.2

theorem itemsTokens_eq (items : List Json) :
    itemsTokens items = items.flatMap fun v => .comma :: tokens v := by
  induction items with
  | nil => rfl
  | cons item items ih => rw [itemsTokens, ih, List.flatMap_cons, List.cons_append]

theorem membersTokens_eq (members : List (List Nat × Json)) :
    membersTokens members = members.flatMap fun m => .comma :: memberTokens m := by
  induction members with
  | nil => rfl
  | cons m members ih => rw [membersTokens, ih, List.flatMap_cons]; rfl

/-- Parts with a comma behind each. -/
def beforeCommas {α : Type} (f : α → List Token) (as : List α) : List Token :=
  as.flatMap fun a => f a ++ [.comma]

theorem beforeCommas_append_singleton {α : Type} (f : α → List Token) (as : List α) (a : α) :
    beforeCommas f (as ++ [a]) = beforeCommas f as ++ (f a ++ [.comma]) := by
  rw [beforeCommas, List.flatMap_append, List.flatMap_singleton, ← beforeCommas]

/-- All parts but the first are behind a comma, and all but the last in front of one. -/
theorem behind_commas {α : Type} (f : α → List Token) (a : α) (as : List α) (last : α) :
    f a ++ (as ++ [last]).flatMap (fun a => .comma :: f a) =
      beforeCommas f (a :: as) ++ f last := by
  induction as generalizing a with
  | nil => simp [beforeCommas]
  | cons b as ih =>
    rw [List.cons_append, List.flatMap_cons, List.cons_append, ih b]
    simp [beforeCommas]

theorem tokens_array_append (items : List Json) (last : Json) :
    tokens (array (items ++ [last])) =
      .openArray :: (beforeCommas tokens items ++ (tokens last ++ [.closeArray])) := by
  cases items with
  | nil => rfl
  | cons item items =>
    rw [List.cons_append, tokens, itemsTokens_eq, ← List.append_assoc, behind_commas,
      List.append_assoc]

theorem tokens_object_append (members : List (List Nat × Json)) (last : List Nat × Json) :
    tokens (object (members ++ [last])) = .openObject ::
      (beforeCommas memberTokens members ++ (memberTokens last ++ [.closeObject])) := by
  cases members with
  | nil => rfl
  | cons m members =>
    have hfirst : tokens (object (m :: members ++ [last])) = .openObject ::
        (memberTokens m ++ (membersTokens (members ++ [last]) ++ [.closeObject])) := rfl
    rw [hfirst, membersTokens_eq, ← List.append_assoc, behind_commas, List.append_assoc]

/-- What has been read of the containers that are open. -/
def framesTokens : List Frame → List Token
  | [] => []
  | .items done :: frames => framesTokens frames ++ .openArray :: beforeCommas tokens done.reverse
  | .member done name :: frames =>
    framesTokens frames ++
      .openObject :: (beforeCommas memberTokens done.reverse ++ [.value (text name), .colon])

/-- What has been read behind that. -/
def stageTokens : Stage → List Token
  | .value => []
  | .itemOrEnd => [.openArray]
  | .nameOrEnd => [.openObject]
  | .name done => .openObject :: beforeCommas memberTokens done.reverse
  | .colon done name =>
    .openObject :: (beforeCommas memberTokens done.reverse ++ [.value (text name)])
  | .complete v => tokens v

def consumed (s : Stage × List Frame) : List Token := framesTokens s.2 ++ stageTokens s.1

/-- Tokens other than marks are values of one token. -/
def Token.IsAtomic (t : Token) : Prop := ∀ atom, t = .value atom → tokens atom = [t]

theorem consumed_startValue? {frames : List Frame} {t : Token} {s : Stage × List Frame}
    (ht : t.IsAtomic) (h : startValue? frames t = some s) :
    consumed s = framesTokens frames ++ [t] := by
  rw [startValue?.eq_def] at h
  split at h
  · cases h; rfl
  · cases h; rfl
  · cases h; exact congrArg (framesTokens frames ++ ·) (ht _ rfl)
  · cases h

theorem consumed_step {s s' : Stage × List Frame} {t : Token} (ht : t.IsAtomic)
    (h : step s t = some s') : consumed s' = consumed s ++ [t] := by
  rw [step.eq_def] at h
  split at h
  · rw [consumed_startValue? ht h]
    simp [consumed, stageTokens]
  · cases h
    simp [consumed, stageTokens, tokens]
  · rw [consumed_startValue? ht h]
    simp [consumed, stageTokens, framesTokens, beforeCommas]
  · cases h
    simp [consumed, stageTokens, tokens]
  · cases h
    simp [consumed, stageTokens, beforeCommas]
  · cases h
    simp [consumed, stageTokens]
  · cases h
    simp [consumed, stageTokens, framesTokens]
  · cases h
    simp [consumed, stageTokens, framesTokens, beforeCommas_append_singleton]
  · cases h
    simp [consumed, stageTokens, framesTokens, tokens_array_append]
  · cases h
    simp [consumed, stageTokens, framesTokens, beforeCommas_append_singleton, memberTokens]
  · cases h
    simp [consumed, stageTokens, framesTokens, tokens_object_append, memberTokens]
  · cases h

theorem consumed_run {ts : List Token} {s s' : Stage × List Frame} (hts : ∀ t ∈ ts, t.IsAtomic)
    (h : ts.foldlM step s = some s') : consumed s' = consumed s ++ ts := by
  induction ts generalizing s with
  | nil =>
    cases h
    exact (List.append_nil _).symm
  | cons t ts ih =>
    obtain ⟨ht, hts⟩ := List.forall_mem_cons.1 hts
    rw [List.foldlM_cons] at h
    obtain ⟨next, hnext, hrest⟩ := Option.bind_eq_some_iff.1 h
    rw [ih hts hrest, consumed_step ht hnext, List.append_assoc, List.singleton_append]

/-- No other tokens come to a value than its own. -/
theorem eq_tokens_of_ofTokens? {ts : List Token} {j : Json} (hts : ∀ t ∈ ts, t.IsAtomic)
    (h : ofTokens? ts = some j) : ts = tokens j := by
  rw [ofTokens?] at h
  split at h
  · next v hrun =>
    cases h
    exact (consumed_run hts hrun).symm
  · cases h

/-! ## From the tokens of a value to its text -/

theorem WritesAtom.isAtomic {cs : List Char} {atom : Json} (h : WritesAtom cs atom) :
    tokens atom = [.value atom] := by
  cases h <;> rfl

theorem WritesToken.isAtomic {cs : List Char} {t : Token} (h : WritesToken cs t) : t.IsAtomic := by
  intro atom ht
  rw [ht] at h ⊢
  cases h with
  | value h => exact h.isAtomic

theorem Lexes.isAtomic {cs : List Char} {ts : List Token} (h : Lexes cs ts) :
    ∀ t ∈ ts, t.IsAtomic := by
  induction h with
  | blank => exact List.forall_mem_nil _
  | token _ _ hread _ ih =>
    obtain ⟨_, htext, _⟩ := Token.read?_taken hread
    exact List.forall_mem_cons.2 ⟨htext.isAtomic, ih⟩

/-- A text opens with blanks and something of a kind, and goes on with some tokens. -/
def Opens (kind : List Char → Prop) (cs : List Char) (ts : List Token) : Prop :=
  ∃ gap text rest, Blank gap ∧ kind text ∧ cs = gap ++ (text ++ rest) ∧ Lexes rest ts

/-- The character of a mark. -/
def Token.mark? : Token → Option Char
  | openArray => some '['
  | closeArray => some ']'
  | openObject => some '{'
  | closeObject => some '}'
  | comma => some ','
  | colon => some ':'
  | value _ => none

theorem WritesToken.eq_mark {text : List Char} {t : Token} {c : Char} (h : WritesToken text t)
    (hc : t.mark? = some c) : text = [c] := by
  cases h <;> cases hc <;> rfl

section

variable {cs : List Char} {ts : List Token}

theorem Lexes.mark {t : Token} {c : Char} (h : Lexes cs (t :: ts)) (hc : t.mark? = some c) :
    ∃ gap rest, Blank gap ∧ cs = gap ++ c :: rest ∧ Lexes rest ts := by
  obtain ⟨gap, text, rest, hgap, htext, rfl, hrest⟩ := h.taken
  rw [htext.eq_mark hc]
  exact ⟨gap, rest, hgap, rfl, hrest⟩

theorem Lexes.atom {atom : Json} (h : Lexes cs (.value atom :: ts)) :
    Opens (WritesAtom · atom) cs ts := by
  obtain ⟨gap, text, rest, hgap, htext, hcs, hrest⟩ := h.taken
  cases htext with
  | value htext => exact ⟨gap, text, rest, hgap, htext, hcs, hrest⟩

theorem Lexes.name {ps : List Nat} (h : Lexes cs (.value (text ps) :: ts)) :
    Opens (WritesText · ps) cs ts := by
  obtain ⟨gap, text, rest, hgap, htext, hcs, hrest⟩ := h.atom
  cases htext with
  | text htext => exact ⟨gap, text, rest, hgap, htext, hcs, hrest⟩

theorem Opens.mono {kind kind' : List Char → Prop} (h : Opens kind cs ts)
    (hkind : ∀ {text}, kind text → kind' text) : Opens kind' cs ts := by
  obtain ⟨gap, text, rest, hgap, htext, hcs, hrest⟩ := h
  exact ⟨gap, text, rest, hgap, hkind htext, hcs, hrest⟩

end

mutual

theorem writes_of_lexes : ∀ (j : Json) {cs : List Char} {ts : List Token},
    Lexes cs (tokens j ++ ts) → Opens (Writes · j) cs ts
  | null, _, _, h => h.atom.mono .atom
  | bool _, _, _, h => h.atom.mono .atom
  | number _, _, _, h => h.atom.mono .atom
  | text _, _, _, h => h.atom.mono .atom
  | array [], _, _, h => by
    obtain ⟨gap, _, hgap, rfl, hend⟩ := Lexes.mark h rfl
    obtain ⟨gap', rest, hgap', rfl, hrest⟩ := hend.mark rfl
    exact ⟨gap, '[' :: (gap' ++ [']']), rest, hgap,
      .emptyArray (.spaced (List.forall_mem_nil _) (List.forall_mem_nil _))
        (.spaced hgap' (List.forall_mem_nil _)), by simp, hrest⟩
  | array (item :: items), _, _, h => by
    simp only [tokens, List.append_assoc, List.cons_append] at h
    obtain ⟨gap, _, hgap, rfl, hinside⟩ := h.mark rfl
    obtain ⟨gap', cs, _, hgap', hitem, rfl, hbehind⟩ := writes_of_lexes item hinside
    obtain ⟨more, _, hmore, rfl, hend⟩ := writesItems_of_lexes items hbehind
    obtain ⟨gap'', rest, hgap'', rfl, hrest⟩ := hend.mark rfl
    exact ⟨gap, ('[' :: gap') ++ (cs ++ (more ++ (gap'' ++ [']']))), rest, hgap,
      .array (.spaced (List.forall_mem_nil _) hgap') hitem hmore
        (.spaced hgap'' (List.forall_mem_nil _)), by simp, hrest⟩
  | object [], _, _, h => by
    obtain ⟨gap, _, hgap, rfl, hend⟩ := Lexes.mark h rfl
    obtain ⟨gap', rest, hgap', rfl, hrest⟩ := hend.mark rfl
    exact ⟨gap, '{' :: (gap' ++ ['}']), rest, hgap,
      .emptyObject (.spaced (List.forall_mem_nil _) (List.forall_mem_nil _))
        (.spaced hgap' (List.forall_mem_nil _)), by simp, hrest⟩
  | object ((name, value) :: members), _, _, h => by
    simp only [tokens, List.append_assoc, List.cons_append] at h
    obtain ⟨gap, _, hgap, rfl, hmember⟩ := h.mark rfl
    obtain ⟨gap₁, name, _, hgap₁, hname, rfl, hcolon⟩ := hmember.name
    obtain ⟨gap₂, _, hgap₂, rfl, hinside⟩ := hcolon.mark rfl
    obtain ⟨gap₃, cs, _, hgap₃, hvalue, rfl, hbehind⟩ := writes_of_lexes value hinside
    obtain ⟨more, _, hmore, rfl, hend⟩ := writesMembers_of_lexes members hbehind
    obtain ⟨gap₄, rest, hgap₄, rfl, hrest⟩ := hend.mark rfl
    exact ⟨gap, ('{' :: gap₁) ++ (name ++ ((gap₂ ++ ':' :: gap₃) ++ (cs ++ (more ++
        (gap₄ ++ ['}']))))), rest, hgap,
      .object (.spaced (List.forall_mem_nil _) hgap₁) hname (.spaced hgap₂ hgap₃) hvalue hmore
        (.spaced hgap₄ (List.forall_mem_nil _)), by simp, hrest⟩

theorem writesItems_of_lexes : ∀ (items : List Json) {cs : List Char} {ts : List Token},
    Lexes cs (itemsTokens items ++ ts) →
      ∃ more rest, WritesItems more items ∧ cs = more ++ rest ∧ Lexes rest ts
  | [], cs, _, h => ⟨[], cs, .nil, rfl, h⟩
  | item :: items, _, _, h => by
    simp only [itemsTokens, List.append_assoc, List.cons_append] at h
    obtain ⟨gap, _, hgap, rfl, hinside⟩ := h.mark rfl
    obtain ⟨gap', cs, _, hgap', hitem, rfl, hbehind⟩ := writes_of_lexes item hinside
    obtain ⟨more, rest, hmore, rfl, hrest⟩ := writesItems_of_lexes items hbehind
    exact ⟨(gap ++ ',' :: gap') ++ (cs ++ more), rest,
      .cons (.spaced hgap hgap') hitem hmore, by simp, hrest⟩

theorem writesMembers_of_lexes : ∀ (members : List (List Nat × Json)) {cs : List Char}
    {ts : List Token}, Lexes cs (membersTokens members ++ ts) →
      ∃ more rest, WritesMembers more members ∧ cs = more ++ rest ∧ Lexes rest ts
  | [], cs, _, h => ⟨[], cs, .nil, rfl, h⟩
  | (name, value) :: members, _, _, h => by
    simp only [membersTokens, List.append_assoc, List.cons_append] at h
    obtain ⟨gap, _, hgap, rfl, hmember⟩ := h.mark rfl
    obtain ⟨gap₁, name, _, hgap₁, hname, rfl, hcolon⟩ := hmember.name
    obtain ⟨gap₂, _, hgap₂, rfl, hinside⟩ := hcolon.mark rfl
    obtain ⟨gap₃, cs, _, hgap₃, hvalue, rfl, hbehind⟩ := writes_of_lexes value hinside
    obtain ⟨more, rest, hmore, rfl, hrest⟩ := writesMembers_of_lexes members hbehind
    exact ⟨(gap ++ ',' :: gap₁) ++ (name ++ ((gap₂ ++ ':' :: gap₃) ++ (cs ++ more))), rest,
      .cons (.spaced hgap hgap₁) hname (.spaced hgap₂ hgap₃) hvalue hmore, by simp, hrest⟩

end

/-- The texts that are read to a value are those that write it. -/
theorem read?_eq_some {source : String} {j : Json} :
    read? source = some j ↔ IsText source.toList j := by
  constructor
  · intro h
    obtain ⟨ts, hts, hj⟩ := Option.bind_eq_some_iff.1 h
    have hlexes := lexes_of_within hts
    rw [eq_tokens_of_ofTokens? hlexes.isAtomic hj, ← List.append_nil (tokens j)] at hlexes
    obtain ⟨gap, text, rest, hgap, htext, hsource, hrest⟩ := writes_of_lexes j hlexes
    cases hrest with
    | blank hrest =>
      rw [hsource]
      exact .spaced hgap htext hrest
  · exact read?_of_isText

end Json
end AudioWalk
