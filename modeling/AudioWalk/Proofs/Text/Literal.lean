import AudioWalk.Proofs.Text.Digits
import AudioWalk.Proofs.Text.Whole

/-!
# Integer literals

Which texts spell an integer, told without a reader: one or more digits behind a
plus, a minus or nothing, in any length and with any number of leading zeros.
`integer?_eq_some` says that these are the texts which the reader takes, with the
number that their digits have, and `int64?_eq_some` is the same with the bounds of
64 bits.
-/

namespace AudioWalk
namespace Text

open Decimal (Digit)

inductive Spells : List Char → Int → Prop
  | bare (ds : List Digit) (hds : ds ≠ []) : Spells (ds.map Digit.char) (Decimal.value ds)
  | plus (ds : List Digit) (hds : ds ≠ []) : Spells ('+' :: ds.map Digit.char) (Decimal.value ds)
  | minus (ds : List Digit) (hds : ds ≠ []) :
    Spells ('-' :: ds.map Digit.char) (-(Decimal.value ds : Int))

/-! ## Digits -/

theorem digitsOf_ten : DigitsOf 10 Digit.char fun d => d.val where
  read_iff {c v} := by
    constructor
    · intro h
      obtain ⟨hvalue, hsmall⟩ := Option.filter_eq_some_iff.1 h
      have hv : v < 10 := of_decide_eq_true hsmall
      split at hvalue
      · next hrange =>
        have hdigit : c.toNat - '0'.toNat = v := Option.some.inj hvalue
        refine ⟨⟨v, hv⟩, ?_, rfl⟩
        show c = Char.ofNat ('0'.toNat + v)
        rw [← hdigit]
        exact (ofNat_add_sub hrange.1).symm
      · -- The letters stand for ten and more.
        split at hvalue
        · have hvalue := Option.some.inj hvalue
          omega
        · split at hvalue
          · have hvalue := Option.some.inj hvalue
            omega
          · cases hvalue
    · rintro ⟨d, rfl, rfl⟩
      exact d.value_char

theorem digits?_eq_some {cs : List Char} {n : Nat} :
    digits? 10 cs = some n ↔
      ∃ ds : List Digit, ds ≠ [] ∧ cs = ds.map Digit.char ∧ n = Decimal.value ds :=
  digitsOf_ten.digits?_eq_some

/-! ## Signs -/

/-- No sign is a digit, so a text that opens with a digit has none. -/
theorem head_digits {ds : List Digit} {c : Char} {cs : List Char}
    (h : ds.map Digit.char = c :: cs) : c ≠ '+' ∧ c ≠ '-' := by
  obtain ⟨d, _, _, rfl, _⟩ := List.map_eq_cons_iff.1 h
  exact d.char_ne_sign

theorem integer?_digits (ds : List Digit) :
    integer? (ds.map Digit.char) = (digits? 10 (ds.map Digit.char)).map Int.ofNat := by
  rw [integer?.eq_def]
  split
  · next cs h => exact absurd rfl (head_digits h).2
  · rw [natural?.eq_def]
    split
    · next cs h => exact absurd rfl (head_digits h).1
    · rfl

theorem integer?_eq_some {cs : List Char} {i : Int} : integer? cs = some i ↔ Spells cs i := by
  constructor
  · intro h
    rw [integer?.eq_def] at h
    split at h
    · obtain ⟨j, hj, rfl⟩ := Option.map_eq_some_iff.1 h
      obtain ⟨n, hn, hcast⟩ := Option.bind_eq_some_iff.1 hj
      obtain ⟨ds, hds, rfl, rfl⟩ := digits?_eq_some.1 hn
      rw [← Option.some.inj hcast]
      exact .minus ds hds
    · obtain ⟨n, hn, rfl⟩ := Option.map_eq_some_iff.1 h
      rw [natural?.eq_def] at hn
      split at hn
      · obtain ⟨ds, hds, rfl, rfl⟩ := digits?_eq_some.1 hn
        exact .plus ds hds
      · obtain ⟨ds, hds, rfl, rfl⟩ := digits?_eq_some.1 hn
        exact .bare ds hds
  · intro h
    cases h with
    | bare ds hds =>
      rw [integer?_digits, digits?_eq_some.2 ⟨ds, hds, rfl, rfl⟩]
      rfl
    | plus ds hds =>
      have hread : natural? 10 ('+' :: ds.map Digit.char) = some (Decimal.value ds) :=
        digits?_eq_some.2 ⟨ds, hds, rfl, rfl⟩
      exact congrArg (Option.map Int.ofNat) hread
    | minus ds hds =>
      rw [integer?, digits?_eq_some.2 ⟨ds, hds, rfl, rfl⟩]
      rfl

/-! ## Numbers of 64 bits -/

theorem int64?_eq_some {cs : List Char} {v : Int64} :
    int64? cs = some v ↔ Spells cs v.toInt := by
  rw [int64?, Option.bind_eq_some_iff]
  simp only [integer?_eq_some, Option.ite_none_right_eq_some]
  constructor
  · rintro ⟨i, hi, hbounds, hv⟩
    have htoInt : v.toInt = i := by
      rw [← Option.some.inj hv]
      exact Int64.toInt_ofInt_of_le hbounds.1 (Int.lt_of_le_of_lt hbounds.2 (by decide))
    rwa [htoInt]
  · intro h
    refine ⟨v.toInt, h, ⟨Int64.minValue_le_toInt v, Int64.toInt_le v⟩, ?_⟩
    rw [Int64.ofInt_toInt]

theorem int64?_eq_none {cs : List Char} :
    int64? cs = none ↔ ¬ ∃ v : Int64, Spells cs v.toInt := by
  simp only [Option.eq_none_iff_forall_ne_some, Ne, int64?_eq_some, not_exists]

/-! ## Blanks -/

theorem Spells.not_blank {cs : List Char} {i : Int} (h : Spells cs i) :
    ∀ c ∈ cs, isBlank c = false := by
  have hdigits : ∀ ds : List Digit, ∀ c ∈ ds.map Digit.char, isBlank c = false :=
    fun ds => List.forall_mem_map.2 fun d _ => d.isBlank_char
  cases h with
  | bare ds hds => exact hdigits ds
  | plus ds hds => exact List.forall_mem_cons.2 ⟨rfl, hdigits ds⟩
  | minus ds hds => exact List.forall_mem_cons.2 ⟨rfl, hdigits ds⟩

/-- A text is an integer as it stands if it is one without its blanks and has none. -/
theorem int64?_eq_some_iff_trim {cs : List Char} {v : Int64} :
    int64? cs = some v ↔ int64? (trim cs) = some v ∧ trim cs = cs := by
  constructor
  · intro h
    have htrim : trim cs = cs := trim_of_not_blank (int64?_eq_some.1 h).not_blank
    exact ⟨htrim.symm ▸ h, htrim⟩
  · intro ⟨h, htrim⟩
    rwa [htrim] at h

end Text
end AudioWalk
