import AudioWalk.Text.Whole

/-!
# Runs of digits

Which texts are runs of digits, told without a reader, in any base for which the
digits are known one by one (`DigitsOf`).  A run may be of any length and open with
any number of zeros, and its number is the one that the digits have by their places.
-/

namespace AudioWalk
namespace Text

/-- Each digit of a base as a character, and what it counts for. -/
structure DigitsOf (base : Nat) {δ : Type} (char : δ → Char) (value : δ → Nat) : Prop where
  read_iff : ∀ {c v}, digitValue? base c = some v ↔ ∃ d, c = char d ∧ v = value d

namespace DigitsOf

variable {base : Nat} {δ : Type} {char : δ → Char} {value : δ → Nat}

theorem digitsFrom?_eq_some (h : DigitsOf base char value) {cs : List Char} {v n : Nat} :
    digitsFrom? base v cs = some n ↔
      ∃ ds : List δ, cs = ds.map char ∧ n = ds.foldl (fun v d => base * v + value d) v := by
  induction cs generalizing v with
  | nil =>
    constructor
    · intro hn
      exact ⟨[], rfl, (Option.some.inj hn).symm⟩
    · rintro ⟨ds, hds, hn⟩
      rw [List.map_eq_nil_iff.1 hds.symm] at hn
      exact congrArg some hn.symm
  | cons c cs ih =>
    rw [digitsFrom?, Option.bind_eq_some_iff]
    constructor
    · rintro ⟨w, hw, hrest⟩
      obtain ⟨d, rfl, rfl⟩ := h.read_iff.1 hw
      obtain ⟨ds, rfl, rfl⟩ := ih.1 hrest
      exact ⟨d :: ds, rfl, rfl⟩
    · rintro ⟨ds, hds, hn⟩
      obtain ⟨d, ds, rfl, rfl, rfl⟩ := List.map_eq_cons_iff.1 hds.symm
      exact ⟨value d, h.read_iff.2 ⟨d, rfl, rfl⟩, ih.2 ⟨ds, rfl, hn⟩⟩

theorem digits?_eq_some (h : DigitsOf base char value) {cs : List Char} {n : Nat} :
    digits? base cs = some n ↔ ∃ ds : List δ, ds ≠ [] ∧ cs = ds.map char ∧
      n = ds.foldl (fun v d => base * v + value d) 0 := by
  rw [digits?, Option.ite_none_left_eq_some, h.digitsFrom?_eq_some]
  constructor
  · rintro ⟨hne, ds, rfl, rfl⟩
    exact ⟨ds, fun hds => hne (by rw [hds, List.map_nil]), rfl, rfl⟩
  · rintro ⟨ds, hds, rfl, rfl⟩
    exact ⟨fun hnil => hds (List.map_eq_nil_iff.1 hnil), ds, rfl, rfl⟩

end DigitsOf

/-- A character is known by its distance from another that is not greater. -/
theorem ofNat_add_sub {low c : Char} (h : low ≤ c) :
    Char.ofNat (low.toNat + (c.toNat - low.toNat)) = c := by
  have hle : low.toNat ≤ c.toNat := h
  rw [Nat.add_sub_cancel' hle, Char.ofNat_toNat]

/-! ## Base sixteen -/

/-- A digit in base sixteen, with the case of the letter that ten and more have. -/
structure HexDigit where
  value : Fin 16
  upper : Bool

namespace HexDigit

def char (d : HexDigit) : Char :=
  if d.value.val < 10 then Char.ofNat ('0'.toNat + d.value.val)
  else Char.ofNat ((if d.upper then 'A'.toNat else 'a'.toNat) + (d.value.val - 10))

/-- The number that a run of digits stands for. -/
def number (ds : List HexDigit) : Nat := ds.foldl (fun v d => 16 * v + d.value.val) 0

theorem digitValue?_char (d : HexDigit) : digitValue? 16 d.char = some d.value.val := by
  obtain ⟨value, upper⟩ := d
  revert value upper
  decide

theorem char_of_lt_ten {v : Nat} (hv : v < 16) (upper : Bool) (h : v < 10) :
    char ⟨⟨v, hv⟩, upper⟩ = Char.ofNat ('0'.toNat + v) := if_pos h

theorem char_of_ten_le {v : Nat} (hv : v < 16) (upper : Bool) (h : 10 ≤ v) :
    char ⟨⟨v, hv⟩, upper⟩ =
      Char.ofNat ((if upper then 'A'.toNat else 'a'.toNat) + (v - 10)) :=
  if_neg (Nat.not_lt.2 h)

theorem digitsOf : DigitsOf 16 char fun d => d.value.val where
  read_iff {c v} := by
    constructor
    · intro h
      obtain ⟨hvalue, hsmall⟩ := Option.filter_eq_some_iff.1 h
      have hv : v < 16 := of_decide_eq_true hsmall
      split at hvalue
      · next hrange =>
        have hdigit : c.toNat - '0'.toNat = v := Option.some.inj hvalue
        have hten : v < 10 := by
          have hlast : c.toNat ≤ '9'.toNat := hrange.2
          have hgap : '9'.toNat = '0'.toNat + 9 := rfl
          omega
        refine ⟨⟨⟨v, hv⟩, false⟩, ?_, rfl⟩
        rw [char_of_lt_ten hv false hten, ← hdigit]
        exact (ofNat_add_sub hrange.1).symm
      · -- A letter shows its case, and counts for ten more than its place among letters.
        split at hvalue
        · next hrange =>
          have hdigit : c.toNat - 'a'.toNat + 10 = v := Option.some.inj hvalue
          have hplace : v - 10 = c.toNat - 'a'.toNat := by omega
          refine ⟨⟨⟨v, hv⟩, false⟩, ?_, rfl⟩
          rw [char_of_ten_le hv false (by omega), hplace]
          exact (ofNat_add_sub hrange.1).symm
        · split at hvalue
          · next hrange =>
            have hdigit : c.toNat - 'A'.toNat + 10 = v := Option.some.inj hvalue
            have hplace : v - 10 = c.toNat - 'A'.toNat := by omega
            refine ⟨⟨⟨v, hv⟩, true⟩, ?_, rfl⟩
            rw [char_of_ten_le hv true (by omega), hplace]
            exact (ofNat_add_sub hrange.1).symm
          · cases hvalue
    · rintro ⟨d, rfl, rfl⟩
      exact d.digitValue?_char

end HexDigit

/-! ## Signs -/

/-- What may stand in front of a natural number. -/
def IsSign (sign : List Char) : Prop := sign = [] ∨ sign = ['+']

/-- A sign opens no run of digits. -/
theorem digits?_plus (base : Nat) (cs : List Char) : digits? base ('+' :: cs) = none := rfl

theorem natural?_eq_some {base : Nat} {cs : List Char} {n : Nat} :
    natural? base cs = some n ↔
      ∃ sign ds, IsSign sign ∧ cs = sign ++ ds ∧ digits? base ds = some n := by
  rw [natural?.eq_def]
  constructor
  · intro h
    split at h
    · next rest => exact ⟨['+'], rest, Or.inr rfl, rfl, h⟩
    · exact ⟨[], cs, Or.inl rfl, rfl, h⟩
  · intro ⟨sign, digits, hsign, hcs, hdigits⟩
    rcases hsign with hsign | hsign
    · rw [hsign, List.nil_append] at hcs
      rw [hcs]
      split
      · rw [digits?_plus] at hdigits
        cases hdigits
      · exact hdigits
    · rw [hsign, List.singleton_append] at hcs
      rw [hcs]
      exact hdigits

end Text
end AudioWalk
