/-!
# Blanks

Two sets of blank characters.  Numbers in a story may stand between any of those
that Unicode calls white space; the parts of markup and of JSON are separated by
four of them only.
-/

namespace AudioWalk
namespace Text

/-- Unicode's property White_Space: 25 code points. -/
def isBlank (c : Char) : Bool :=
  let n := c.toNat
  (9 ≤ n && n ≤ 13) || n == 0x20 || n == 0x85 || n == 0xA0 || n == 0x1680 ||
    (0x2000 ≤ n && n ≤ 0x200A) || n == 0x2028 || n == 0x2029 || n == 0x202F ||
    n == 0x205F || n == 0x3000

/-- Space, tab, carriage return and line feed. -/
def isSpace (c : Char) : Bool := c == ' ' || c == '\t' || c == '\r' || c == '\n'

/-- The text without the blanks at its two ends. -/
def trim (cs : List Char) : List Char :=
  ((cs.dropWhile isBlank).reverse.dropWhile isBlank).reverse

theorem isBlank_of_isSpace {c : Char} (h : isSpace c) : isBlank c := by
  simp only [isSpace, Bool.or_eq_true, beq_iff_eq] at h
  rcases h with ((h | h) | h) | h <;> subst h <;> rfl

@[simp]
theorem trim_nil : trim [] = [] := rfl

/-- A text that a blank neither opens nor closes is trimmed already. -/
theorem trim_eq_self {cs : List Char} (hfirst : cs.dropWhile isBlank = cs)
    (hlast : cs.reverse.dropWhile isBlank = cs.reverse) : trim cs = cs := by
  rw [trim, hfirst, hlast, List.reverse_reverse]

end Text
end AudioWalk
