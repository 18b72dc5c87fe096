import AudioWalk.Proofs.Json.Tokens

/-!
# Tokens taken

What a reader of a token takes off a text is in the grammar, and what it leaves is the rest
of the text.  Nothing is asked of the rest here: a number that is taken has ended.
-/

namespace AudioWalk

/-! ## Digits -/

namespace Decimal

theorem Digit.char_of_ofChar? {c : Char} {d : Digit} (h : Digit.ofChar? c = some d) :
    c = d.char := by
  rw [Digit.ofChar?] at h
  split at h
  · next hrange =>
    cases h
    exact (Text.ofNat_add_sub hrange.1).symm
  · cases h

theorem spanDigits_taken {cs rest : List Char} {ds : List Digit}
    (h : spanDigits cs = (ds, rest)) : cs = ds.map Digit.char ++ rest := by
  induction cs generalizing ds with
  | nil =>
    cases h
    rfl
  | cons c cs ih =>
    rw [spanDigits] at h
    split at h
    · next d hd =>
      cases h
      rw [Digit.char_of_ofChar? hd]
      exact congrArg (d.char :: ·) (ih rfl)
    · cases h
      rfl

theorem power?_taken {cs rest : List Char} {i : Int} (h : Numeral.power? cs = some (i, rest)) :
    ∃ power, Text.Spells power i ∧ cs = power ++ rest := by
  have hdigits {cs : List Char} {sign : Nat → Int}
      (h : Numeral.power?.digits cs sign = some (i, rest)) :
      ∃ ds, ds ≠ [] ∧ i = sign (value ds) ∧ cs = ds.map Digit.char ++ rest := by
    obtain ⟨hne, htaken⟩ := Option.ite_none_left_eq_some.1 h
    cases htaken
    exact ⟨_, fun hnil => hne (List.isEmpty_iff.2 hnil), rfl, spanDigits_taken rfl⟩
  rw [Numeral.power?.eq_def] at h
  split at h
  · obtain ⟨ds, hds, rfl, hcs⟩ := hdigits h
    exact ⟨_, .minus ds hds, congrArg ('-' :: ·) hcs⟩
  · obtain ⟨ds, hds, rfl, hcs⟩ := hdigits h
    exact ⟨_, .plus ds hds, congrArg ('+' :: ·) hcs⟩
  · obtain ⟨ds, hds, rfl, hcs⟩ := hdigits h
    exact ⟨_, .bare ds hds, hcs⟩

end Decimal

namespace Json

open Decimal (Digit Numeral)

section

variable {cs rest : List Char}

namespace Token

/-! ## Numbers -/

theorem fraction?_taken {ds : List Digit} (h : fraction? cs = some (ds, rest)) :
    ∃ point, WritesFraction point ds ∧ cs = point ++ rest := by
  rw [fraction?.eq_def] at h
  split at h
  · obtain ⟨hne, htaken⟩ := Option.ite_none_left_eq_some.1 h
    cases htaken
    exact ⟨_, .point fun hnil => hne (List.isEmpty_iff.2 hnil),
      congrArg ('.' :: ·) (Decimal.spanDigits_taken rfl)⟩
  · cases h
    exact ⟨[], .absent, rfl⟩

theorem power?_taken {exponent? : Option Int} (h : power? cs = some (exponent?, rest)) :
    ∃ power, WritesPower power exponent? ∧ cs = power ++ rest := by
  rw [power?.eq_def] at h
  split at h
  · cases h
    exact ⟨[], .absent, rfl⟩
  · next c cs =>
    split at h
    · next hc =>
      obtain ⟨⟨i, rest'⟩, hpower, htaken⟩ := Option.map_eq_some_iff.1 h
      cases htaken
      obtain ⟨power, hspells, rfl⟩ := Decimal.power?_taken hpower
      exact ⟨c :: power, .letter hc hspells, rfl⟩
    · cases h
      exact ⟨[], .absent, rfl⟩

theorem unsigned?_taken {negative : Bool} {n : Numeral}
    (h : unsigned? negative cs = some (n, rest)) :
    n.negative = negative ∧ IsWhole n.whole ∧ ∃ point power, WritesFraction point n.fraction ∧
      WritesPower power n.exponent? ∧
        cs = n.whole.map Digit.char ++ (point ++ (power ++ rest)) := by
  obtain ⟨hguard, h⟩ := Option.ite_none_left_eq_some.1 h
  obtain ⟨⟨fraction, afterFraction⟩, hfraction, h⟩ := Option.bind_eq_some_iff.1 h
  obtain ⟨⟨exponent?, afterPower⟩, hpower, h⟩ := Option.bind_eq_some_iff.1 h
  cases h
  obtain ⟨point, hpoint, hfractionTaken⟩ := fraction?_taken hfraction
  obtain ⟨power, hwrites, hpowerTaken⟩ := power?_taken hpower
  have hwhole : IsWhole (Decimal.spanDigits cs).1 := by
    simp only [Bool.or_eq_true, List.isEmpty_iff, Bool.and_eq_true, decide_eq_true_eq, not_or,
      not_and] at hguard
    refine ⟨hguard.1, fun hzero => ?_⟩
    have hshort := hguard.2 hzero
    have hlong := List.length_pos_iff.2 hguard.1
    omega
  refine ⟨rfl, hwhole, point, power, hpoint, hwrites, ?_⟩
  rw [← hpowerTaken, ← hfractionTaken]
  exact Decimal.spanDigits_taken rfl

theorem numeral?_taken {n : Numeral} (h : numeral? cs = some (n, rest)) :
    ∃ text, WritesNumeral text n ∧ cs = text ++ rest := by
  obtain ⟨negative, whole, fraction, exponent?⟩ := n
  rw [numeral?.eq_def] at h
  split at h
  · obtain ⟨rfl, hwhole, point, power, hpoint, hpower, rfl⟩ := unsigned?_taken h
    exact ⟨_, .parts .minus hwhole hpoint hpower, by simp⟩
  · obtain ⟨rfl, hwhole, point, power, hpoint, hpower, rfl⟩ := unsigned?_taken h
    exact ⟨_, .parts .absent hwhole hpoint hpower, by simp⟩

end Token

/-! ## Texts -/

/-- What stands between the quotes, each escape for itself. -/
inductive WritesUnits : List Char → List Nat → Prop
  | nil : WritesUnits [] []
  | cons {one cs : List Char} {u : Nat} {us : List Nat} (hunit : WritesUnit one u)
    (hrest : WritesUnits cs us) : WritesUnits (one ++ cs) (u :: us)

theorem WritesUnits.points {us : List Nat} (h : WritesUnits cs us) :
    WritesPoints cs (Token.joinHalves us) := by
  fun_induction Token.joinHalves us generalizing cs with
  | case1 high low rest hpair ih =>
    rw [Bool.and_eq_true, isHighHalf_eq_true, isLowHalf_eq_true] at hpair
    cases h with
    | cons hunit hrest =>
      cases hrest with
      | cons hother hrest => exact .pair hunit hpair.1 hother hpair.2 (ih hrest)
  | case2 high low rest hsingle ih =>
    rw [Bool.and_eq_true, isHighHalf_eq_true, isLowHalf_eq_true] at hsingle
    cases h with
    | cons hunit hrest =>
      refine .single hunit (fun hhigh low' hhead hlow => ?_) (ih hrest)
      cases (head?_joinHalves hlow).1 hhead
      exact hsingle ⟨hhigh, hlow⟩
  | case3 us hshort =>
    cases h with
    | nil => exact .nil
    | cons hunit hrest =>
      cases hrest with
      | nil => exact .single hunit (fun _ _ => nofun) .nil
      | cons hother hrest => exact (hshort _ _ _ rfl).elim

namespace Token

theorem escaped?_taken {c : Char} {p : Nat} (h : escaped? c = some p) : (c, p) ∈ letters := by
  rw [escaped?.eq_def] at h
  split at h <;> cases h <;> decide

theorem hexUnit?_taken {a b c d : Char} {u : Nat} (h : hexUnit? a b c d = some u) :
    WritesUnit ['\\', 'u', a, b, c, d] u := by
  obtain ⟨ds, _, hchars, hnumber⟩ := Text.HexDigit.digitsOf.digits?_eq_some.1 h
  obtain ⟨x, _, rfl, hx, hchars⟩ := List.map_eq_cons_iff.1 hchars.symm
  obtain ⟨y, _, rfl, hy, hchars⟩ := List.map_eq_cons_iff.1 hchars
  obtain ⟨z, _, rfl, hz, hchars⟩ := List.map_eq_cons_iff.1 hchars
  obtain ⟨w, _, rfl, hw, hchars⟩ := List.map_eq_cons_iff.1 hchars
  rw [List.map_eq_nil_iff.1 hchars] at hnumber
  rw [hnumber, ← hx, ← hy, ← hz, ← hw]
  exact .digits x y z w

theorem unitsUpToQuote?_taken {us : List Nat} (h : unitsUpToQuote? cs = some (us, rest)) :
    ∃ body, WritesUnits body us ∧ cs = body ++ '"' :: rest := by
  fun_induction unitsUpToQuote? cs generalizing us with
  | case1 => cases h
  | case2 cs =>
    cases h
    exact ⟨[], .nil, rfl⟩
  | case3 a b c d cs ih =>
    obtain ⟨u, hunit, h⟩ := Option.bind_eq_some_iff.1 h
    obtain ⟨⟨us', rest'⟩, hrest, h⟩ := Option.bind_eq_some_iff.1 h
    cases h
    obtain ⟨body, hbody, rfl⟩ := ih hrest
    exact ⟨_, .cons (hexUnit?_taken hunit) hbody, rfl⟩
  | case4 c cs _ ih =>
    obtain ⟨p, hletter, h⟩ := Option.bind_eq_some_iff.1 h
    obtain ⟨⟨us', rest'⟩, hrest, h⟩ := Option.bind_eq_some_iff.1 h
    cases h
    obtain ⟨body, hbody, rfl⟩ := ih hrest
    exact ⟨_, .cons (.letter (escaped?_taken hletter)) hbody, rfl⟩
  | case5 c cs hquote hunit hescape hguard => cases h
  | case6 c cs hquote _ _ hguard ih =>
    obtain ⟨⟨us', rest'⟩, hrest, h⟩ := Option.map_eq_some_iff.1 h
    cases h
    obtain ⟨body, hbody, rfl⟩ := ih hrest
    obtain ⟨hcontrol, hescape⟩ := not_or.1 hguard
    exact ⟨_, .cons (.plain (Nat.not_lt.1 hcontrol) hquote hescape) hbody, rfl⟩

end Token

/-! ## Tokens -/

inductive WritesToken : List Char → Token → Prop
  | openArray : WritesToken ['['] .openArray
  | closeArray : WritesToken [']'] .closeArray
  | openObject : WritesToken ['{'] .openObject
  | closeObject : WritesToken ['}'] .closeObject
  | comma : WritesToken [','] .comma
  | colon : WritesToken [':'] .colon
  | value {cs : List Char} {atom : Json} (h : WritesAtom cs atom) : WritesToken cs (.value atom)

theorem Token.read?_taken {t : Token} (h : Token.read? cs = some (t, rest)) :
    ∃ text, WritesToken text t ∧ cs = text ++ rest := by
  rw [Token.read?.eq_def] at h
  split at h
  · cases h; exact ⟨_, .openArray, rfl⟩
  · cases h; exact ⟨_, .closeArray, rfl⟩
  · cases h; exact ⟨_, .openObject, rfl⟩
  · cases h; exact ⟨_, .closeObject, rfl⟩
  · cases h; exact ⟨_, .comma, rfl⟩
  · cases h; exact ⟨_, .colon, rfl⟩
  · cases h; exact ⟨_, .value .null, rfl⟩
  · cases h; exact ⟨_, .value .true, rfl⟩
  · cases h; exact ⟨_, .value .false, rfl⟩
  · obtain ⟨⟨us, rest'⟩, htaken, h⟩ := Option.map_eq_some_iff.1 h
    cases h
    obtain ⟨body, hbody, rfl⟩ := unitsUpToQuote?_taken htaken
    exact ⟨_, .value (.text (.quoted hbody.points)), by simp⟩
  · obtain ⟨⟨n, rest'⟩, htaken, h⟩ := Option.map_eq_some_iff.1 h
    cases h
    obtain ⟨text, htext, rfl⟩ := numeral?_taken htaken
    exact ⟨_, .value (.number htext), rfl⟩

end
end Json
end AudioWalk
