/-!
# Code points

A character is a code point outside the gap of the surrogates, up to the last
plane.  References in markup and escapes in JSON write characters by number.
-/

namespace AudioWalk
namespace Text

/-- The character with a code point, if there is one. -/
def character? (point : Nat) : Option Char :=
  if h : point.isValidChar then some (Char.ofNatAux point h) else none

theorem character?_toNat (c : Char) : character? c.toNat = some c := by
  exact dif_pos c.valid

theorem toNat_of_character? {point : Nat} {c : Char} (h : character? point = some c) :
    c.toNat = point := by
  by_cases hvalid : point.isValidChar
  · rw [character?, dif_pos hvalid] at h
    cases h
    rfl
  · rw [character?, dif_neg hvalid] at h
    cases h

end Text
end AudioWalk
