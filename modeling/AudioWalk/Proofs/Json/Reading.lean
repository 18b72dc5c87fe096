import AudioWalk.Json.Reader
import AudioWalk.Proofs.Json.Tokens

/-!
# Values read back

A value has one sequence of tokens, whatever its text.  That a text is read to the value it
writes comes in two halves which meet in that sequence: a text that writes the value is cut
into these tokens, and these tokens are put together to the value.
-/

namespace AudioWalk
namespace Json

open Markup (Blank Stops)

/-! ## The tokens of a value -/

mutual

def tokens : Json → List Token
  | array [] => [.openArray, .closeArray]
  | array (item :: items) => .openArray :: (tokens item ++ (itemsTokens items ++ [.closeArray]))
  | object [] => [.openObject, .closeObject]
  | object ((name, value) :: members) =>
    .openObject :: .value (text name) :: .colon ::
      (tokens value ++ (membersTokens members ++ [.closeObject]))
  | atom => [.value atom]

def itemsTokens : List Json → List Token
  | [] => []
  | item :: items => .comma :: (tokens item ++ itemsTokens items)

def membersTokens : List (List Nat × Json) → List Token
  | [] => []
  | (name, value) :: members =>
    .comma :: .value (text name) :: .colon :: (tokens value ++ membersTokens members)

end

/-! ## From texts to tokens -/

/-- A text is cut into tokens, with blanks between them. -/
inductive Lexes : List Char → List Token → Prop
  | blank {gap : List Char} (hgap : Blank gap) : Lexes gap []
  | token {gap cs rest : List Char} {c : Char} {t : Token} {ts : List Token} (hgap : Blank gap)
    (hc : Text.isSpace c = false) (hread : Token.read? (c :: cs ++ rest) = some (t, rest))
    (hrest : Lexes rest ts) : Lexes (gap ++ (c :: cs ++ rest)) (t :: ts)

theorem Lexes.within {cs : List Char} {ts : List Token} (h : Lexes cs ts) :
    ∀ {steps}, cs.length ≤ steps → Token.within steps cs = some ts := by
  induction h with
  | @blank gap hgap =>
    intro steps _
    have hdone : gap.dropWhile Text.isSpace = [] := List.dropWhile_eq_nil_iff.2 hgap
    cases steps with
    | zero => rw [Token.within, hdone]; rfl
    | succ steps => rw [Token.within, hdone]; rfl
  | @token gap cs rest c t ts hgap hc hread _ ih =>
    intro steps hsteps
    have hstart : (gap ++ (c :: cs ++ rest)).dropWhile Text.isSpace = c :: cs ++ rest :=
      Markup.dropWhile_append_of_stops hgap (Markup.stops_cons hc)
    cases steps with
    | zero => simp at hsteps
    | succ steps =>
      have hshorter : rest.length ≤ steps := by
        simp only [List.length_append, List.length_cons] at hsteps
        omega
      rw [Token.within, hstart, if_neg (by simp), hread]
      simp [ih hshorter]

section

variable {cs rest gap mark : List Char} {c : Char} {t : Token} {ts : List Token}

theorem Lexes.behind (hgap : Blank gap) (h : Lexes cs ts) : Lexes (gap ++ cs) ts := by
  have hboth {gap' : List Char} (hgap' : Blank gap') : Blank (gap ++ gap') :=
    List.forall_mem_append.2 ⟨hgap, hgap'⟩
  cases h with
  | blank hgap' => exact .blank (hboth hgap')
  | token hgap' hc hread hrest =>
    rw [← List.append_assoc]
    exact .token (hboth hgap') hc hread hrest

theorem Lexes.front (hc : Text.isSpace c = false)
    (hread : Token.read? (c :: cs ++ rest) = some (t, rest)) (hrest : Lexes rest ts) :
    Lexes (c :: cs ++ rest) (t :: ts) :=
  @Lexes.token [] cs rest c t ts (List.forall_mem_nil _) hc hread hrest

theorem IsMark.lexes (h : IsMark c mark) (hc : Text.isSpace c = false)
    (hread : ∀ rest, Token.read? (c :: rest) = some (t, rest)) (hrest : Lexes rest ts) :
    Lexes (mark ++ rest) (t :: ts) := by
  cases h with
  | @spaced gap gap' hgap hgap' =>
    rw [List.append_assoc, List.cons_append]
    have hfront : Lexes ([c] ++ (gap' ++ rest)) (t :: ts) :=
      .front hc (hread _) (hrest.behind hgap')
    exact hfront.behind hgap

theorem continues_of_isSpace (h : Text.isSpace c = true) : continues c = false := by
  simp only [Text.isSpace, Bool.or_eq_true, beq_iff_eq] at h
  rcases h with ((rfl | rfl) | rfl) | rfl <;> decide

theorem IsMark.stops (h : IsMark c mark) (hc : continues c = false) :
    Stops continues (mark ++ rest) := by
  cases h with
  | spaced hgap _ =>
    rw [List.append_assoc]
    exact Stops.append (fun c hc => continues_of_isSpace (hgap c hc)) (Markup.stops_cons hc)

theorem WritesItems.stops {items : List Json} (h : WritesItems cs items)
    (hrest : Stops continues rest) : Stops continues (cs ++ rest) := by
  cases h with
  | nil => exact hrest
  | cons hcomma =>
    rw [List.append_assoc]
    exact hcomma.stops rfl

theorem WritesMembers.stops {members : List (List Nat × Json)} (h : WritesMembers cs members)
    (hrest : Stops continues rest) : Stops continues (cs ++ rest) := by
  cases h with
  | nil => exact hrest
  | cons hcomma =>
    rw [List.append_assoc]
    exact hcomma.stops rfl

theorem WritesText.lexes {ps : List Nat} (h : WritesText cs ps) (hrest : Lexes rest ts) :
    Lexes (cs ++ rest) (.value (text ps) :: ts) := by
  have hread := Token.read?_text h rest
  cases h with
  | quoted => exact .front rfl hread hrest

theorem WritesNumeral.lexes {n : Decimal.Numeral} (h : WritesNumeral cs n)
    (hstops : Stops continues rest) (hrest : Lexes rest ts) :
    Lexes (cs ++ rest) (.value (number n) :: ts) := by
  have hread := Token.read?_number h hstops
  cases h with
  | parts hsign hwhole =>
    cases hsign with
    | absent =>
      obtain ⟨d, ds, rfl⟩ := List.exists_cons_of_ne_nil hwhole.nonempty
      have hd : Text.isSpace d.char = false := Bool.eq_false_iff.2 fun h =>
        nomatch d.isBlank_char.symm.trans (Text.isBlank_of_isSpace h)
      exact .front hd hread hrest
    | minus => exact .front rfl hread hrest

theorem WritesAtom.lexes {j : Json} (h : WritesAtom cs j) (hstops : Stops continues rest)
    (hrest : Lexes rest ts) : Lexes (cs ++ rest) (tokens j ++ ts) := by
  cases h with
  | null => exact .front rfl rfl hrest
  | true => exact .front rfl rfl hrest
  | false => exact .front rfl rfl hrest
  | number h => exact h.lexes hstops hrest
  | text h => exact h.lexes hrest

end

mutual

theorem Writes.lexes : ∀ {cs : List Char} {j : Json}, Writes cs j → ∀ {rest : List Char}
    {ts : List Token}, Stops continues rest → Lexes rest ts →
      Lexes (cs ++ rest) (tokens j ++ ts)
  | _, _, .atom h, _, _, hstops, hrest => h.lexes hstops hrest
  | _, _, .emptyArray hopener hcloser, _, _, _, hrest => by
    rw [List.append_assoc]
    exact hopener.lexes rfl (fun _ => rfl) (hcloser.lexes rfl (fun _ => rfl) hrest)
  | _, _, .array hopener hitem hmore hcloser, rest, _, _, hrest => by
    have hend := hcloser.lexes rfl (fun _ => rfl) hrest
    have hstops : Stops continues (_ ++ rest) := hcloser.stops rfl
    simp only [tokens, List.append_assoc, List.cons_append]
    exact hopener.lexes rfl (fun _ => rfl)
      (hitem.lexes (hmore.stops hstops) (hmore.lexes hstops hend))
  | _, _, .emptyObject hopener hcloser, _, _, _, hrest => by
    rw [List.append_assoc]
    exact hopener.lexes rfl (fun _ => rfl) (hcloser.lexes rfl (fun _ => rfl) hrest)
  | _, _, .object hopener hname hcolon hvalue hmore hcloser, rest, _, _, hrest => by
    have hend := hcloser.lexes rfl (fun _ => rfl) hrest
    have hstops : Stops continues (_ ++ rest) := hcloser.stops rfl
    simp only [tokens, List.append_assoc, List.cons_append]
    exact hopener.lexes rfl (fun _ => rfl) (hname.lexes (hcolon.lexes rfl (fun _ => rfl)
      (hvalue.lexes (hmore.stops hstops) (hmore.lexes hstops hend))))

theorem WritesItems.lexes : ∀ {cs : List Char} {items : List Json}, WritesItems cs items →
    ∀ {rest : List Char} {ts : List Token}, Stops continues rest → Lexes rest ts →
      Lexes (cs ++ rest) (itemsTokens items ++ ts)
  | _, _, .nil, _, _, _, hrest => hrest
  | _, _, .cons hcomma hitem hmore, _, _, hstops, hrest => by
    simp only [itemsTokens, List.append_assoc, List.cons_append]
    exact hcomma.lexes rfl (fun _ => rfl)
      (hitem.lexes (hmore.stops hstops) (hmore.lexes hstops hrest))

theorem WritesMembers.lexes : ∀ {cs : List Char} {members : List (List Nat × Json)},
    WritesMembers cs members → ∀ {rest : List Char} {ts : List Token}, Stops continues rest →
      Lexes rest ts → Lexes (cs ++ rest) (membersTokens members ++ ts)
  | _, _, .nil, _, _, _, hrest => hrest
  | _, _, .cons hcomma hname hcolon hvalue hmore, _, _, hstops, hrest => by
    simp only [membersTokens, List.append_assoc, List.cons_append]
    exact hcomma.lexes rfl (fun _ => rfl) (hname.lexes (hcolon.lexes rfl (fun _ => rfl)
      (hvalue.lexes (hmore.stops hstops) (hmore.lexes hstops hrest))))

end

/-! ## From tokens to values -/

/-- Behind an opening bracket a value begins as it does elsewhere, inside one more array. -/
theorem foldlM_tokens_itemOrEnd (j : Json) (ts : List Token) (frames : List Frame) :
    (tokens j ++ ts).foldlM step (.itemOrEnd, frames) =
      (tokens j ++ ts).foldlM step (.value, .items [] :: frames) := by
  cases j with
  | array items => cases items <;> rfl
  | object members => cases members <;> rfl
  | _ => rfl

mutual

theorem foldlM_tokens : ∀ (j : Json) (ts : List Token) (frames : List Frame),
    (tokens j ++ ts).foldlM step (.value, frames) = ts.foldlM step (.complete j, frames)
  | null, _, _ => rfl
  | bool _, _, _ => rfl
  | number _, _, _ => rfl
  | text _, _, _ => rfl
  | array [], _, _ => rfl
  | array (item :: items), ts, frames => by
    have hopen : (tokens (array (item :: items)) ++ ts).foldlM step (.value, frames) =
        (tokens item ++ (itemsTokens items ++ (.closeArray :: ts))).foldlM step
          (.itemOrEnd, frames) := by
      simp only [tokens, List.append_assoc, List.cons_append, List.nil_append]
      rfl
    rw [hopen, foldlM_tokens_itemOrEnd, foldlM_tokens item]
    exact foldlM_itemsTokens items item [] ts frames
  | object [], _, _ => rfl
  | object ((name, value) :: members), ts, frames => by
    have hopen : (tokens (object ((name, value) :: members)) ++ ts).foldlM step (.value, frames) =
        (tokens value ++ (membersTokens members ++ (.closeObject :: ts))).foldlM step
          (.value, .member [] name :: frames) := by
      simp only [tokens, List.append_assoc, List.cons_append, List.nil_append]
      rfl
    rw [hopen, foldlM_tokens value]
    exact foldlM_membersTokens members name value [] ts frames

theorem foldlM_itemsTokens : ∀ (items : List Json) (v : Json) (done : List Json)
    (ts : List Token) (frames : List Frame),
    (itemsTokens items ++ (.closeArray :: ts)).foldlM step (.complete v, .items done :: frames) =
      ts.foldlM step (.complete (array (done.reverse ++ v :: items)), frames)
  | [], v, done, ts, frames => by
    rw [← List.reverse_cons]
    rfl
  | item :: items, v, done, ts, frames => by
    have hcomma : (itemsTokens (item :: items) ++ (.closeArray :: ts)).foldlM step
        (.complete v, .items done :: frames) =
          (tokens item ++ (itemsTokens items ++ (.closeArray :: ts))).foldlM step
            (.value, .items (v :: done) :: frames) := by
      simp only [itemsTokens, List.append_assoc, List.cons_append]
      rfl
    rw [hcomma, foldlM_tokens item, foldlM_itemsTokens items, List.reverse_cons,
      List.append_assoc, List.singleton_append]

theorem foldlM_membersTokens : ∀ (members : List (List Nat × Json)) (name : List Nat) (v : Json)
    (done : List (List Nat × Json)) (ts : List Token) (frames : List Frame),
    (membersTokens members ++ (.closeObject :: ts)).foldlM step
        (.complete v, .member done name :: frames) =
      ts.foldlM step (.complete (object (done.reverse ++ (name, v) :: members)), frames)
  | [], name, v, done, ts, frames => by
    rw [← List.reverse_cons]
    rfl
  | (name', value) :: members, name, v, done, ts, frames => by
    have hcomma : (membersTokens ((name', value) :: members) ++ (.closeObject :: ts)).foldlM step
        (.complete v, .member done name :: frames) =
          (tokens value ++ (membersTokens members ++ (.closeObject :: ts))).foldlM step
            (.value, .member ((name, v) :: done) name' :: frames) := by
      simp only [membersTokens, List.append_assoc, List.cons_append]
      rfl
    rw [hcomma, foldlM_tokens value, foldlM_membersTokens members, List.reverse_cons,
      List.append_assoc, List.singleton_append]

end

theorem ofTokens?_tokens (j : Json) : ofTokens? (tokens j) = some j := by
  have h := foldlM_tokens j [] []
  rw [List.append_nil] at h
  rw [ofTokens?, h]
  rfl

/-! ## Whole texts -/

theorem IsText.lexes {cs : List Char} {j : Json} (h : IsText cs j) : Lexes cs (tokens j) := by
  cases h with
  | @spaced gap cs gap' j hgap hwrites hgap' =>
    have hstops : Stops continues gap' := by
      rw [← List.append_nil gap']
      exact Stops.append (fun c hc => continues_of_isSpace (hgap' c hc)) nofun
    have hlexes := hwrites.lexes hstops (.blank hgap')
    rw [List.append_nil] at hlexes
    exact hlexes.behind hgap

/-- A text is read to the value that it writes. -/
theorem read?_of_isText {source : String} {j : Json} (h : IsText source.toList j) :
    read? source = some j := by
  rw [read?, Token.readAll?, h.lexes.within (Nat.le_refl _), Option.bind_some, ofTokens?_tokens]

end Json
end AudioWalk
