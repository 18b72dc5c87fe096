import AudioWalk.Markup.Reference
import AudioWalk.Proofs.Text.Literal

/-!
# Character references

A reference stands for one character: by one of five names, or by the number of the
character in base ten or sixteen (`Refers`).  `referenced?_eq_some` says that these
are the references which the reader takes, except that the number may carry a plus.
-/

namespace AudioWalk
namespace Markup

open Decimal (Digit)
open Text (HexDigit IsSign)

/-- The names of characters. -/
inductive Named : List Char → Char → Prop
  | amp : Named ['a', 'm', 'p'] '&'
  | lt : Named ['l', 't'] '<'
  | gt : Named ['g', 't'] '>'
  | quot : Named ['q', 'u', 'o', 't'] '"'
  | apos : Named ['a', 'p', 'o', 's'] '\''

/-- What stands between an ampersand and a semicolon, and the character it stands for.
A number has the sign in front. -/
inductive Refers (sign : List Char) : List Char → Char → Prop
  | named {r : List Char} {c : Char} (h : Named r c) : Refers sign r c
  | decimal (ds : List Digit) (c : Char) (hds : ds ≠ []) (hc : c.toNat = Decimal.value ds) :
    Refers sign ('#' :: (sign ++ ds.map Digit.char)) c
  | hexadecimal (x : Char) (hx : x = 'x' ∨ x = 'X') (ds : List HexDigit) (c : Char) (hds : ds ≠ [])
    (hc : c.toNat = HexDigit.number ds) :
    Refers sign ('#' :: x :: (sign ++ ds.map HexDigit.char)) c

theorem Named.isAlphanum {r : List Char} {c : Char} (h : Named r c) :
    ∀ x ∈ r, x.isAlphanum = true := by
  have hall : r.all Char.isAlphanum = true := by
    cases h <;> rfl
  exact List.all_eq_true.1 hall

theorem isAlphanum_digit (d : Digit) : d.char.isAlphanum = true := by
  revert d
  decide

theorem isAlphanum_hexDigit (d : HexDigit) : d.char.isAlphanum = true := by
  obtain ⟨value, upper⟩ := d
  revert value upper
  decide

theorem Refers.of_mem {sign r : List Char} {c x : Char} (h : Refers sign r c) (hx : x ∈ r) :
    x.isAlphanum = true ∨ x = '#' ∨ x ∈ sign := by
  cases h with
  | named hnamed => exact Or.inl (hnamed.isAlphanum x hx)
  | decimal ds c hds hc =>
    rw [List.mem_cons, List.mem_append, List.mem_map] at hx
    rcases hx with hx | hx | ⟨d, _, hd⟩
    · exact Or.inr (Or.inl hx)
    · exact Or.inr (Or.inr hx)
    · rw [← hd]
      exact Or.inl (isAlphanum_digit d)
  | hexadecimal y hy ds c hds hc =>
    rw [List.mem_cons, List.mem_cons, List.mem_append, List.mem_map] at hx
    rcases hx with hx | hx | hx | ⟨d, _, hd⟩
    · exact Or.inr (Or.inl hx)
    · rcases hy with hy | hy
      · rw [hx, hy]
        exact Or.inl rfl
      · rw [hx, hy]
        exact Or.inl rfl
    · exact Or.inr (Or.inr hx)
    · rw [← hd]
      exact Or.inl (isAlphanum_hexDigit d)

/-- A reference holds neither of the two characters around it. -/
theorem Refers.not_mem {sign r : List Char} {c : Char} (hsign : IsSign sign)
    (h : Refers sign r c) : '&' ∉ r ∧ ';' ∉ r := by
  have hnone {x : Char} (hx : x.isAlphanum = false ∧ x ≠ '#' ∧ x ≠ '+') : x ∉ r := by
    intro hmem
    rcases h.of_mem hmem with halnum | hhash | hplus
    · rw [hx.1] at halnum
      cases halnum
    · exact hx.2.1 hhash
    · rcases hsign with hsign | hsign
      · rw [hsign] at hplus
        exact List.not_mem_nil hplus
      · rw [hsign] at hplus
        exact hx.2.2 (List.mem_singleton.1 hplus)
  exact ⟨hnone (by decide), hnone (by decide)⟩

/-! ## What the reader takes -/

theorem named?_eq_some {r : List Char} {c : Char} : named? r = some c ↔ Named r c := by
  constructor
  · intro h
    obtain ⟨front, back, hsplit, _⟩ := List.lookup_eq_some_iff.1 h
    have hmem : (String.ofList r, c) ∈ [("amp", '&'), ("lt", '<'), ("gt", '>'), ("quot", '"'),
        ("apos", '\'')] := by
      rw [hsplit]
      exact List.mem_append_right _ List.mem_cons_self
    have hr {name : String} (hname : String.ofList r = name) : r = name.toList := by
      rw [← hname, String.toList_ofList]
    simp only [List.mem_cons, Prod.mk.injEq, List.not_mem_nil, or_false] at hmem
    rcases hmem with ⟨h, hc⟩ | ⟨h, hc⟩ | ⟨h, hc⟩ | ⟨h, hc⟩ | ⟨h, hc⟩
    · rw [hr h, hc]
      exact .amp
    · rw [hr h, hc]
      exact .lt
    · rw [hr h, hc]
      exact .gt
    · rw [hr h, hc]
      exact .quot
    · rw [hr h, hc]
      exact .apos
  · intro h
    cases h <;> decide

theorem character?_eq_some {n : Nat} {c : Char} : Text.character? n = some c ↔ c.toNat = n := by
  constructor
  · exact Text.toNat_of_character?
  · intro h
    rw [← h]
    exact Text.character?_toNat c

/-- A character by its number: digits, behind a sign or behind nothing. -/
theorem numeral_eq_some {base : Nat} {δ : Type} {char : δ → Char} {value : δ → Nat}
    (h : Text.DigitsOf base char value) {cs : List Char} {c : Char} :
    (Text.natural? base cs).bind Text.character? = some c ↔
      ∃ sign ds, IsSign sign ∧ ds ≠ [] ∧ cs = sign ++ ds.map char ∧
        c.toNat = ds.foldl (fun v d => base * v + value d) 0 := by
  rw [Option.bind_eq_some_iff]
  constructor
  · intro ⟨n, hn, hc⟩
    obtain ⟨sign, digits, hsign, hcs, hdigits⟩ := Text.natural?_eq_some.1 hn
    obtain ⟨ds, hds, hmap, hvalue⟩ := h.digits?_eq_some.1 hdigits
    refine ⟨sign, ds, hsign, hds, ?_, ?_⟩
    · rw [hcs, hmap]
    · rw [character?_eq_some.1 hc, hvalue]
  · intro ⟨sign, ds, hsign, hds, hcs, hvalue⟩
    refine ⟨c.toNat, ?_, Text.character?_toNat c⟩
    exact Text.natural?_eq_some.2
      ⟨sign, ds.map char, hsign, hcs, h.digits?_eq_some.2 ⟨ds, hds, rfl, hvalue⟩⟩

theorem refers_of_numbered? {r : List Char} {c : Char} (h : numbered? r = some c) :
    ∃ sign, IsSign sign ∧ Refers sign r c := by
  rw [numbered?.eq_def] at h
  split at h
  · obtain ⟨sign, ds, hsign, hds, hdigits, hc⟩ := (numeral_eq_some HexDigit.digitsOf).1 h
    rw [hdigits]
    exact ⟨sign, hsign, .hexadecimal 'x' (Or.inl rfl) ds c hds hc⟩
  · obtain ⟨sign, ds, hsign, hds, hdigits, hc⟩ := (numeral_eq_some HexDigit.digitsOf).1 h
    rw [hdigits]
    exact ⟨sign, hsign, .hexadecimal 'X' (Or.inr rfl) ds c hds hc⟩
  · obtain ⟨sign, ds, hsign, hds, hdigits, hc⟩ := (numeral_eq_some Text.digitsOf_ten).1 h
    rw [hdigits]
    exact ⟨sign, hsign, .decimal ds c hds hc⟩
  · cases h

theorem numbered?_decimal {sign : List Char} (hsign : IsSign sign) {ds : List Digit} {c : Char}
    (hds : ds ≠ []) (hc : c.toNat = Decimal.value ds) :
    numbered? ('#' :: (sign ++ ds.map Digit.char)) = some c := by
  have hread : (Text.natural? 10 (sign ++ ds.map Digit.char)).bind Text.character? = some c :=
    (numeral_eq_some Text.digitsOf_ten).2 ⟨sign, ds, hsign, hds, rfl, hc⟩
  rw [numbered?.eq_def]
  -- Neither letter is read as the first digit of a number in base ten.
  split
  · next h =>
    rw [(List.cons.inj h).2] at hread
    cases hread
  · next h =>
    rw [(List.cons.inj h).2] at hread
    cases hread
  · next h =>
    rw [← (List.cons.inj h).2]
    exact hread
  · next h => exact absurd rfl (h _)

theorem numbered?_hexadecimal {sign : List Char} (hsign : IsSign sign) {x : Char}
    (hx : x = 'x' ∨ x = 'X') {ds : List HexDigit} {c : Char} (hds : ds ≠ [])
    (hc : c.toNat = HexDigit.number ds) :
    numbered? ('#' :: x :: (sign ++ ds.map HexDigit.char)) = some c := by
  have hread : (Text.natural? 16 (sign ++ ds.map HexDigit.char)).bind Text.character? = some c :=
    (numeral_eq_some HexDigit.digitsOf).2 ⟨sign, ds, hsign, hds, rfl, hc⟩
  rcases hx with hx | hx
  · rw [hx]
    exact hread
  · rw [hx]
    exact hread

/-- What the reader takes for a reference: its number may carry a plus. -/
theorem referenced?_eq_some {r : List Char} {c : Char} :
    referenced? r = some c ↔ ∃ sign, IsSign sign ∧ Refers sign r c := by
  rw [referenced?, Option.or_eq_some_iff]
  constructor
  · intro h
    rcases h with hnamed | ⟨_, hnumbered⟩
    · exact ⟨[], Or.inl rfl, .named (named?_eq_some.1 hnamed)⟩
    · exact refers_of_numbered? hnumbered
  · intro ⟨sign, hsign, h⟩
    have hunnamed {cs : List Char} : named? ('#' :: cs) = none := by
      rw [Option.eq_none_iff_forall_ne_some]
      intro d hd
      cases named?_eq_some.1 hd
    cases h with
    | named hnamed => exact Or.inl (named?_eq_some.2 hnamed)
    | decimal ds _ hds hc => exact Or.inr ⟨hunnamed, numbered?_decimal hsign hds hc⟩
    | hexadecimal x hx ds _ hds hc =>
      exact Or.inr ⟨hunnamed, numbered?_hexadecimal hsign hx hds hc⟩

end Markup
end AudioWalk
