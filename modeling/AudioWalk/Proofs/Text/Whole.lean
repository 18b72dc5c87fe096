import AudioWalk.Decimal.Numeral
import AudioWalk.Text.Blank
import AudioWalk.Text.Whole

/-!
# Whole numbers read back

A whole number that is written with the digits of a numeral is read to the number
it was, and trimming does nothing to it.
-/

namespace AudioWalk

namespace Decimal

/-! ## Digits -/

theorem digitsOf_ne_nil (n : Nat) : digitsOf n ≠ [] := by
  rw [digitsOf]
  by_cases h : n < 10
  · rw [if_pos h]
    exact List.cons_ne_nil _ _
  · rw [if_neg h]
    exact List.append_ne_nil_of_right_ne_nil _ (List.cons_ne_nil _ _)

theorem Digit.value_char (d : Digit) : Text.digitValue? 10 d.char = some d.val := by
  revert d
  decide

theorem Digit.isBlank_char (d : Digit) : Text.isBlank d.char = false := by
  revert d
  decide

theorem Digit.char_ne_sign (d : Digit) : d.char ≠ '+' ∧ d.char ≠ '-' := by
  revert d
  decide

/-- Digits are read as they are valued, behind whatever has been read before. -/
theorem digitsFrom?_char (v : Nat) (ds : List Digit) :
    Text.digitsFrom? 10 v (ds.map Digit.char) = some (valueFrom v ds) := by
  induction ds generalizing v with
  | nil => rfl
  | cons d ds ih =>
    rw [List.map_cons, Text.digitsFrom?, d.value_char, Option.bind_some, ih]
    rfl

theorem digits?_digitsOf (n : Nat) : Text.digits? 10 ((digitsOf n).map Digit.char) = some n := by
  have hne : (digitsOf n).map Digit.char ≠ [] := by
    rw [Ne, List.map_eq_nil_iff]
    exact digitsOf_ne_nil n
  rw [Text.digits?, if_neg hne, digitsFrom?_char]
  exact congrArg some (value_digitsOf n)

/-! ## Numerals of whole numbers -/

namespace Numeral

theorem chars_ofNat (n : Nat) : (ofNat n).chars = (digitsOf n).map Digit.char := by
  simp [chars, ofNat]

theorem chars_ofInt (i : Int) :
    (ofInt i).chars = (if i < 0 then ['-'] else []) ++ (ofNat i.natAbs).chars := by
  simp [chars, ofInt, ofNat]

theorem natural?_ofNat (n : Nat) : Text.natural? 10 (ofNat n).chars = some n := by
  rw [chars_ofNat, Text.natural?.eq_def]
  split
  · next cs h =>
    obtain ⟨d, _, _, hd, _⟩ := List.map_eq_cons_iff.1 h
    exact absurd hd d.char_ne_sign.1
  · exact digits?_digitsOf n

theorem integer?_ofInt (i : Int) : Text.integer? (ofInt i).chars = some i := by
  rw [chars_ofInt]
  by_cases hi : i < 0
  · have habs : -(i.natAbs : Int) = i := by omega
    rw [if_pos hi, List.singleton_append, Text.integer?, chars_ofNat, digits?_digitsOf]
    exact congrArg some habs
  · have habs : (i.natAbs : Int) = i := by omega
    have hread : Text.integer? (ofNat i.natAbs).chars =
        (Text.natural? 10 (ofNat i.natAbs).chars).map Int.ofNat := by
      rw [Text.integer?.eq_def]
      split
      · next cs h =>
        rw [chars_ofNat] at h
        obtain ⟨d, _, _, hd, _⟩ := List.map_eq_cons_iff.1 h
        exact absurd hd d.char_ne_sign.2
      · rfl
    rw [if_neg hi, List.nil_append, hread, natural?_ofNat, Option.map_some]
    exact congrArg some habs

theorem isBlank_of_mem_ofNat {n : Nat} {c : Char} (h : c ∈ (ofNat n).chars) :
    Text.isBlank c = false := by
  rw [chars_ofNat] at h
  obtain ⟨d, _, rfl⟩ := List.mem_map.1 h
  exact d.isBlank_char

theorem isBlank_of_mem_ofInt {i : Int} {c : Char} (h : c ∈ (ofInt i).chars) :
    Text.isBlank c = false := by
  rw [chars_ofInt, List.mem_append] at h
  rcases h with hsign | hdigit
  · split at hsign
    · rw [List.mem_singleton.1 hsign]
      decide
    · exact absurd hsign List.not_mem_nil
  · exact isBlank_of_mem_ofNat hdigit

end Numeral
end Decimal

/-! ## Numbers of bounded size -/

namespace Text

open Decimal (Numeral)

theorem trim_of_not_blank {cs : List Char} (h : ∀ c ∈ cs, isBlank c = false) : trim cs = cs := by
  have hkeep : ∀ ds : List Char, (∀ c ∈ ds, isBlank c = false) → ds.dropWhile isBlank = ds := by
    intro ds hds
    cases ds with
    | nil => rfl
    | cons d ds => rw [List.dropWhile_cons_of_neg (by simp [hds d])]
  exact trim_eq_self (hkeep _ h) (hkeep _ fun c hc => h c (List.mem_reverse.1 hc))

theorem int64?_ofInt (i : Int64) : int64? (trim (Numeral.ofInt i.toInt).chars) = some i := by
  have hbounds : Int64.minValue.toInt ≤ i.toInt ∧ i.toInt ≤ Int64.maxValue.toInt :=
    ⟨Int64.minValue_le_toInt i, Int64.toInt_le i⟩
  rw [trim_of_not_blank fun c => Numeral.isBlank_of_mem_ofInt, int64?, Numeral.integer?_ofInt,
    Option.bind_some, if_pos hbounds, Int64.ofInt_toInt]

theorem uint32?_ofNat (n : UInt32) : uint32? (trim (Numeral.ofNat n.toNat).chars) = some n := by
  have hbound : n.toNat < UInt32.size := n.toNat_lt_size
  rw [trim_of_not_blank fun c => Numeral.isBlank_of_mem_ofNat, uint32?, Numeral.natural?_ofNat,
    Option.bind_some, if_pos hbound, UInt32.ofNat_toNat]

end Text
end AudioWalk
