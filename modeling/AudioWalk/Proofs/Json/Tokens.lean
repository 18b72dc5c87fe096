import Mathlib.Tactic.IntervalCases
import AudioWalk.Json.Token
import AudioWalk.Proofs.Json.Grammar

/-!
# Tokens read back

Each token is read off the front of a text that writes it, whatever follows; behind a
number something must follow that does not go on with it.
-/

namespace AudioWalk

/-! ## Digits -/

namespace Decimal

open Markup (Stops)

theorem Digit.ofChar?_char (d : Digit) : Digit.ofChar? d.char = some d := by
  revert d
  decide

def isDigit (c : Char) : Bool := (Digit.ofChar? c).isSome

theorem spanDigits_append {rest : List Char} (ds : List Digit) (hrest : Stops isDigit rest) :
    spanDigits (ds.map Digit.char ++ rest) = (ds, rest) := by
  induction ds with
  | nil =>
    cases rest with
    | nil => rfl
    | cons c rest =>
      have hc : Digit.ofChar? c = none := by
        rw [← Option.isNone_iff_eq_none, ← Option.isSome_eq_false_iff]
        exact hrest c rfl
      rw [List.map_nil, List.nil_append, spanDigits, hc]
  | cons d ds ih => rw [List.map_cons, List.cons_append, spanDigits, d.ofChar?_char, ih]

theorem power?_append {cs rest : List Char} {i : Int} (h : Text.Spells cs i)
    (hrest : Stops isDigit rest) : Numeral.power? (cs ++ rest) = some (i, rest) := by
  have hdigits (ds : List Digit) (hds : ds ≠ []) (sign : Nat → Int) :
      Numeral.power?.digits (ds.map Digit.char ++ rest) sign = some (sign (value ds), rest) := by
    rw [Numeral.power?.digits, spanDigits_append ds hrest]
    simp [hds]
  cases h with
  | bare ds hds =>
    obtain ⟨d, ds, rfl⟩ := List.exists_cons_of_ne_nil hds
    have hread : Numeral.power? ((d :: ds).map Digit.char ++ rest) =
        Numeral.power?.digits ((d :: ds).map Digit.char ++ rest) Int.ofNat := by
      rw [List.map_cons, List.cons_append, Numeral.power?.eq_def]
      split
      · next h => exact absurd (List.cons.inj h).1 d.char_ne_sign.2
      · next h => exact absurd (List.cons.inj h).1 d.char_ne_sign.1
      · rfl
    exact hread.trans (hdigits (d :: ds) hds Int.ofNat)
  | plus ds hds => exact hdigits ds hds Int.ofNat
  | minus ds hds => exact hdigits ds hds fun n => -(n : Int)

end Decimal

namespace Json

open Decimal (Digit Numeral isDigit)
open Markup (Stops)
open Text (HexDigit)

/-! ## Numbers -/

/-- The characters with which a number may go on. -/
def continues (c : Char) : Bool := isDigit c || c == '.' || c == 'e' || c == 'E'

section

variable {cs rest : List Char}

theorem WritesFraction.stops {p : Char → Bool} {ds : List Digit} (h : WritesFraction cs ds)
    (hpoint : p '.' = false) (hrest : Stops p rest) : Stops p (cs ++ rest) := by
  cases h with
  | absent => exact hrest
  | point hds => exact Markup.stops_cons hpoint

theorem WritesPower.stops {p : Char → Bool} {exponent? : Option Int} (h : WritesPower cs exponent?)
    (hsmall : p 'e' = false) (hlarge : p 'E' = false) (hrest : Stops p rest) :
    Stops p (cs ++ rest) := by
  cases h with
  | absent => exact hrest
  | letter hc hspells =>
    rcases hc with rfl | rfl
    · exact Markup.stops_cons hsmall
    · exact Markup.stops_cons hlarge

namespace Token

theorem fraction?_append {ds : List Digit} (h : WritesFraction cs ds)
    (hrest : Stops (fun c => isDigit c || c == '.') rest) :
    fraction? (cs ++ rest) = some (ds, rest) := by
  have hdigit : Stops isDigit rest := hrest.mono fun c hc => by simp [hc]
  cases h with
  | absent =>
    rw [List.nil_append, fraction?.eq_def]
    split
    · next cs => exact absurd (hrest '.' rfl) (by decide)
    · rfl
  | point hds =>
    rw [List.cons_append, fraction?, Decimal.spanDigits_append ds hdigit]
    simp [hds]

theorem power?_append {exponent? : Option Int} (h : WritesPower cs exponent?)
    (hrest : Stops continues rest) : power? (cs ++ rest) = some (exponent?, rest) := by
  have hdigit : Stops isDigit rest := hrest.mono fun c hc => by simp [continues, hc]
  cases h with
  | absent =>
    cases rest with
    | nil => rfl
    | cons c rest =>
      have hc : ¬ (c = 'e' ∨ c = 'E') := by
        have hcontinues := hrest c rfl
        simp only [continues, Bool.or_eq_false_iff, beq_eq_false_iff_ne] at hcontinues
        exact not_or.2 ⟨hcontinues.1.2, hcontinues.2⟩
      rw [List.nil_append, power?, if_neg hc]
  | letter hc hspells =>
    rw [List.cons_append, power?, if_pos hc, Decimal.power?_append hspells hdigit, Option.map_some]

theorem unsigned?_append {whole fraction : List Digit} {point power : List Char}
    {exponent? : Option Int} (negative : Bool) (hwhole : IsWhole whole)
    (hpoint : WritesFraction point fraction) (hpower : WritesPower power exponent?)
    (hrest : Stops continues rest) :
    unsigned? negative (whole.map Digit.char ++ (point ++ (power ++ rest))) =
      some (⟨negative, whole, fraction, exponent?⟩, rest) := by
  have hplaces : Stops (fun c => isDigit c || c == '.') (power ++ rest) :=
    hpower.stops (by decide) (by decide) (hrest.mono fun c hc => by simp_all [continues])
  have hdigits : Stops isDigit (point ++ (power ++ rest)) :=
    hpoint.stops (by decide) (hplaces.mono fun c hc => by simp [hc])
  have hguard : ¬ (whole.isEmpty || (whole.head? = some Digit.zero && 1 < whole.length)) := by
    simp only [Bool.or_eq_true, List.isEmpty_iff, Bool.and_eq_true, decide_eq_true_eq]
    rintro (hnil | ⟨hzero, hlong⟩)
    · exact hwhole.nonempty hnil
    · exact absurd hlong (by rw [hwhole.shortest hzero]; decide)
  simp only [unsigned?, Decimal.spanDigits_append whole hdigits, if_neg hguard,
    fraction?_append hpoint hplaces, power?_append hpower hrest, Option.bind_eq_bind,
    Option.bind_some]
  rfl

theorem numeral?_append {n : Numeral} (h : WritesNumeral cs n) (hrest : Stops continues rest) :
    numeral? (cs ++ rest) = some (n, rest) := by
  cases h with
  | parts hsign hwhole hpoint hpower =>
    rw [List.append_assoc, List.append_assoc, List.append_assoc]
    cases hsign with
    | absent =>
      have hread := unsigned?_append false hwhole hpoint hpower hrest
      obtain ⟨d, ds, rfl⟩ := List.exists_cons_of_ne_nil hwhole.nonempty
      rw [List.nil_append, List.map_cons, List.cons_append, numeral?.eq_def]
      split
      · next h => exact absurd (List.cons.inj h).1 d.char_ne_sign.2
      · exact hread
    | minus => exact unsigned?_append true hwhole hpoint hpower hrest

/-- No other token opens with a digit. -/
theorem read?_digit (d : Digit) (cs : List Char) :
    read? (d.char :: cs) =
      (numeral? (d.char :: cs)).map fun (n, rest) => (.value (number n), rest) := by
  obtain ⟨v, hv⟩ := d
  interval_cases v <;> rfl

theorem read?_number {n : Numeral} (h : WritesNumeral cs n) (hrest : Stops continues rest) :
    read? (cs ++ rest) = some (.value (number n), rest) := by
  have hnumeral := numeral?_append h hrest
  have hread : read? (cs ++ rest) =
      (numeral? (cs ++ rest)).map fun (n, rest) => (.value (number n), rest) := by
    cases h with
    | parts hsign hwhole =>
      cases hsign with
      | absent =>
        obtain ⟨d, ds, rfl⟩ := List.exists_cons_of_ne_nil hwhole.nonempty
        exact read?_digit d _
      | minus => rfl
  rw [hread, hnumeral, Option.map_some]

end Token
end

/-! ## Texts -/

section

open Token (joinHalves isHighHalf isLowHalf unitsUpToQuote?)

variable {u low : Nat} {units : List Nat}

theorem isHighHalf_eq_true : isHighHalf u = true ↔ IsHigh u := by
  rw [isHighHalf, IsHigh, Bool.and_eq_true, decide_eq_true_eq, decide_eq_true_eq]

theorem isLowHalf_eq_true : isLowHalf u = true ↔ IsLow u := by
  rw [isLowHalf, IsLow, Bool.and_eq_true, decide_eq_true_eq, decide_eq_true_eq]

theorem joinHalves_pair {high : Nat} (hhigh : IsHigh high) (hlow : IsLow low) :
    joinHalves (high :: low :: units) = joined high low :: joinHalves units := by
  rw [joinHalves, isHighHalf_eq_true.2 hhigh, isLowHalf_eq_true.2 hlow]
  rfl

theorem joinHalves_single (halone : IsHigh u → ∀ low, units.head? = some low → ¬ IsLow low) :
    joinHalves (u :: units) = u :: joinHalves units := by
  cases units with
  | nil => rfl
  | cons low units =>
    have hsingle : ¬ (isHighHalf u && isLowHalf low) = true := by
      rw [Bool.and_eq_true, isHighHalf_eq_true, isLowHalf_eq_true]
      exact fun ⟨hhigh, hlow⟩ => halone hhigh low rfl hlow
    rw [joinHalves, if_neg hsingle]

/-- A half in front stays in front, and no point that two halves come to is a half. -/
theorem head?_joinHalves (hlow : IsLow low) :
    (joinHalves units).head? = some low ↔ units.head? = some low := by
  fun_cases joinHalves units with
  | case1 high low' rest hpair =>
    rw [Bool.and_eq_true, isHighHalf_eq_true] at hpair
    have hhigh := hpair.1.2
    have hbounds := hlow
    rw [IsLow] at hbounds
    simp only [List.head?_cons, Option.some.injEq]
    omega
  | case2 => exact Iff.rfl
  | case3 => exact Iff.rfl

end

namespace Token

variable {cs rest : List Char} {units : List Nat} {u : Nat}

theorem unitsUpToQuote?_plain {c : Char} (hcontrol : 32 ≤ c.toNat) (hquote : c ≠ '"')
    (hescape : c ≠ '\\') (hrest : unitsUpToQuote? cs = some (units, rest)) :
    unitsUpToQuote? (c :: cs) = some (c.toNat :: units, rest) := by
  have hguard : ¬ (c.toNat < 32 ∨ c = '\\') := not_or.2 ⟨Nat.not_lt.2 hcontrol, hescape⟩
  rw [unitsUpToQuote?.eq_def]
  split
  · next h => cases h
  · next h => exact absurd (List.cons.inj h).1 hquote
  · next h => exact absurd (List.cons.inj h).1 hescape
  · next h => exact absurd (List.cons.inj h).1 hescape
  · next h =>
    cases h
    rw [if_neg hguard, hrest, Option.map_some]

theorem unitsUpToQuote?_letter {c : Char} {p : Nat} (h : (c, p) ∈ letters)
    (hrest : unitsUpToQuote? cs = some (units, rest)) :
    unitsUpToQuote? ('\\' :: c :: cs) = some (p :: units, rest) := by
  simp only [letters, List.mem_cons, List.not_mem_nil, or_false, Prod.mk.injEq] at h
  rcases h with h | h | h | h | h | h | h | h <;> obtain ⟨rfl, rfl⟩ := h <;>
    simp [unitsUpToQuote?, escaped?, hrest]

theorem unitsUpToQuote?_unit {one : List Char} (h : WritesUnit one u)
    (hrest : unitsUpToQuote? cs = some (units, rest)) :
    unitsUpToQuote? (one ++ cs) = some (u :: units, rest) := by
  cases h with
  | plain hcontrol hquote hescape => exact unitsUpToQuote?_plain hcontrol hquote hescape hrest
  | letter hletter => exact unitsUpToQuote?_letter hletter hrest
  | digits a b c d =>
    have hunit : hexUnit? a.char b.char c.char d.char = some (HexDigit.number [a, b, c, d]) :=
      HexDigit.digitsOf.digits?_eq_some.2 ⟨[a, b, c, d], List.cons_ne_nil _ _, rfl, rfl⟩
    simp [unitsUpToQuote?, hunit, hrest]

/-- Between the quotes stand units, of which the points are what the halves leave when
they are joined. -/
theorem unitsUpToQuote?_append {ps : List Nat} (h : WritesPoints cs ps) :
    ∃ units, joinHalves units = ps ∧
      ∀ rest, unitsUpToQuote? (cs ++ '"' :: rest) = some (units, rest) := by
  induction h with
  | nil => exact ⟨[], rfl, fun rest => rfl⟩
  | @single one cs u ps hunit halone _ ih =>
    obtain ⟨units, hjoin, hread⟩ := ih
    refine ⟨u :: units, ?_, fun rest => ?_⟩
    · rw [joinHalves_single, hjoin]
      intro hhigh low hhead hlow
      exact halone hhigh low (hjoin ▸ (head?_joinHalves hlow).2 hhead) hlow
    · rw [List.append_assoc]
      exact unitsUpToQuote?_unit hunit (hread rest)
  | @pair one other cs high low ps hunit hhigh hother hlow _ ih =>
    obtain ⟨units, hjoin, hread⟩ := ih
    refine ⟨high :: low :: units, ?_, fun rest => ?_⟩
    · rw [joinHalves_pair hhigh hlow, hjoin]
    · rw [List.append_assoc, List.append_assoc]
      exact unitsUpToQuote?_unit hunit (unitsUpToQuote?_unit hother (hread rest))

theorem read?_text {ps : List Nat} (h : WritesText cs ps) (rest : List Char) :
    read? (cs ++ rest) = some (.value (text ps), rest) := by
  cases h with
  | @quoted cs _ h =>
    obtain ⟨units, rfl, hread⟩ := unitsUpToQuote?_append h
    have hquote : read? ('"' :: (cs ++ '"' :: rest)) =
        (unitsUpToQuote? (cs ++ '"' :: rest)).map fun taken =>
          (.value (text (joinHalves taken.1)), taken.2) := rfl
    rw [List.cons_append, List.append_assoc, List.singleton_append, hquote, hread,
      Option.map_some]

end Token
end Json
end AudioWalk
