import AudioWalk.Json.Writer
import AudioWalk.Proofs.Json.Reading
import AudioWalk.Proofs.Text.Whole

/-!
# Values written and read back

The text that is written for a value is one of those that write it, in either layout.  This
takes a value whose texts are made of characters: two halves that stand apart in a text
would come to stand next to each other.
-/

namespace AudioWalk

/-! ## Numbers -/

namespace Decimal

theorem head?_digitsOf {n : Nat} (h : 0 < n) : (digitsOf n).head? ≠ some Digit.zero := by
  fun_induction digitsOf n with
  | case1 n hn =>
    intro hzero
    have hvalue : n % 10 = 0 := congrArg Fin.val (Option.some.inj hzero)
    omega
  | case2 n hn ih =>
    rw [List.head?_append_of_ne_nil _ (digitsOf_ne_nil _)]
    exact ih (by omega)

theorem isWhole_digitsOf (n : Nat) : Json.IsWhole (digitsOf n) where
  nonempty := digitsOf_ne_nil n
  shortest hzero := by
    rcases Nat.eq_zero_or_pos n with rfl | hpos
    · rw [digitsOf, if_pos (by decide), List.length_singleton]
    · exact absurd hzero (head?_digitsOf hpos)

end Decimal

namespace Json

open Decimal (Digit Numeral digitsOf)
open Markup (Blank)
open Text (HexDigit)

theorem writesNumeral_chars {n : Numeral} (h : IsWhole n.whole) : WritesNumeral n.chars n := by
  obtain ⟨negative, whole, fraction, exponent?⟩ := n
  have hsign : WritesSign (if negative then ['-'] else []) negative := by
    cases negative with
    | false => exact .absent
    | true => exact .minus
  have hpoint : WritesFraction (if fraction.isEmpty then [] else '.' :: fraction.map Digit.char)
      fraction := by
    cases fraction with
    | nil => exact .absent
    | cons d ds => exact .point (List.cons_ne_nil d ds)
  rw [Numeral.chars, List.append_assoc, List.append_assoc]
  refine .parts hsign h hpoint ?_
  cases exponent? with
  | none => exact .absent
  | some e =>
    refine .letter (Or.inl rfl) ?_
    have hvalue : (Decimal.value (digitsOf e.natAbs) : Int) = e.natAbs := by
      rw [Decimal.value_digitsOf]
    by_cases he : e < 0
    · have habs : -(Decimal.value (digitsOf e.natAbs) : Int) = e := by omega
      have hspells := Text.Spells.minus _ (Decimal.digitsOf_ne_nil e.natAbs)
      rw [habs] at hspells
      rwa [if_pos he]
    · have habs : (Decimal.value (digitsOf e.natAbs) : Int) = e := by omega
      have hspells := Text.Spells.plus _ (Decimal.digitsOf_ne_nil e.natAbs)
      rw [habs] at hspells
      rwa [if_neg he]

/-! ## Texts -/

/-- The last digit of a number in base sixteen. -/
def lastDigit (n : Nat) : HexDigit := ⟨⟨n % 16, Nat.mod_lt n (by decide)⟩, false⟩

theorem hexDigit_eq_char (n : Nat) : hexDigit n = (lastDigit n).char := by
  rw [hexDigit, HexDigit.char, lastDigit]
  by_cases h : n % 16 < 10
  · rw [if_pos h, if_pos h]
  · have hplace : 'a'.toNat + n % 16 - 10 = 'a'.toNat + (n % 16 - 10) :=
      Nat.add_sub_assoc (Nat.not_lt.1 h) _
    rw [if_neg h, if_neg h, hplace]
    rfl

theorem writesUnit_unicodeEscape {point : Nat} (h : point < 0x10000) :
    WritesUnit (unicodeEscape point) point := by
  have hnumber : HexDigit.number [lastDigit (point / 4096), lastDigit (point / 256),
      lastDigit (point / 16), lastDigit point] = point := by
    simp only [HexDigit.number, lastDigit, List.foldl_cons, List.foldl_nil]
    omega
  have hdigits := WritesUnit.digits (lastDigit (point / 4096)) (lastDigit (point / 256))
    (lastDigit (point / 16)) (lastDigit point)
  rw [hnumber] at hdigits
  simpa only [unicodeEscape, hexDigit_eq_char] using hdigits

theorem writesUnit_pointChars (c : Char) : WritesUnit (pointChars c.toNat) c.toNat := by
  simp only [pointChars, Text.character?_toNat]
  split
  · next h => cases h; exact .letter (by decide)
  · next h => cases h; exact .letter (by decide)
  · next h => cases h; exact .letter (by decide)
  · next h => cases h; exact .letter (by decide)
  · next h => cases h; exact .letter (by decide)
  · next d hquote hescape _ _ _ h =>
    cases h
    split
    · next hback => rw [hback]; exact .letter (by decide)
    · split
      · next hfeed => rw [hfeed]; exact .letter (by decide)
      · split
        · next hcontrol => exact writesUnit_unicodeEscape (by omega)
        · next hcontrol => exact .plain (Nat.not_lt.1 hcontrol) hquote hescape
  · next h => cases h

theorem not_isHigh_toNat (c : Char) : ¬ IsHigh c.toNat := by
  rintro ⟨hlow, hhigh⟩
  have hvalid : c.toNat < 0xD800 ∨ 0xDFFF < c.toNat ∧ c.toNat < 0x110000 := c.valid
  omega

theorem writesText_textChars (s : String) : WritesText (textChars (points s)) (points s) := by
  have hpoints : ∀ cs : List Char, WritesPoints ((cs.map Char.toNat).flatMap pointChars)
      (cs.map Char.toNat) := by
    intro cs
    induction cs with
    | nil => exact .nil
    | cons c cs ih =>
      exact .single (writesUnit_pointChars c) (fun hhigh => absurd hhigh (not_isHigh_toNat c)) ih
  exact .quoted (hpoints s.toList)

/-! ## Values -/

/-- Numbers have digits in front of the point as JSON wants them, and all texts are made of
characters. -/
inductive IsPlain : Json → Prop
  | null : IsPlain .null
  | bool (b : Bool) : IsPlain (.bool b)
  | number {n : Numeral} (h : IsWhole n.whole) : IsPlain (.number n)
  | text (s : String) : IsPlain (.text (points s))
  | array {items : List Json} (h : ∀ item ∈ items, IsPlain item) : IsPlain (.array items)
  | object {members : List (List Nat × Json)} (hnames : ∀ m ∈ members, ∃ s, m.1 = points s)
    (h : ∀ m ∈ members, IsPlain m.2) : IsPlain (.object members)

theorem isPlain_ofString (s : String) : IsPlain (ofString s) := .text s

theorem isPlain_ofNat (n : Nat) : IsPlain (ofNat n) := .number (Decimal.isWhole_digitsOf n)

theorem isPlain_record {members : List (String × Json)} (h : ∀ m ∈ members, IsPlain m.2) :
    IsPlain (record members) :=
  .object (List.forall_mem_map.2 fun m _ => ⟨m.1, rfl⟩) (List.forall_mem_map.2 h)

/-- Nothing but blanks stands between the parts. -/
structure Spacing.IsBlank (s : Spacing) : Prop where
  line : ∀ depth, Blank (s.line depth)
  afterColon : Blank s.afterColon

theorem Spacing.isBlank_compact : compact.IsBlank where
  line _ := List.forall_mem_nil _
  afterColon := List.forall_mem_nil _

theorem Spacing.isBlank_pretty : pretty.IsBlank where
  line depth := List.forall_mem_cons.2 ⟨rfl, fun c hc => by rw [List.eq_of_mem_replicate hc]; rfl⟩
  afterColon := List.forall_mem_singleton.2 rfl

section

variable {s : Spacing}

theorem isMark_opener (hs : s.IsBlank) (c : Char) (depth : Nat) : IsMark c (c :: s.line depth) :=
  .spaced (List.forall_mem_nil _) (hs.line depth)

theorem isMark_closer (hs : s.IsBlank) (c : Char) (depth : Nat) : IsMark c (s.line depth ++ [c]) :=
  .spaced (hs.line depth) (List.forall_mem_nil _)

theorem isMark_colon (hs : s.IsBlank) : IsMark ':' (':' :: s.afterColon) :=
  .spaced (List.forall_mem_nil _) hs.afterColon

mutual

theorem writes_chars (hs : s.IsBlank) : ∀ (depth : Nat) (j : Json), IsPlain j →
    Writes (chars s depth j) j
  | _, .null, _ => .atom .null
  | _, .bool true, _ => .atom .true
  | _, .bool false, _ => .atom .false
  | _, .number n, .number h => .atom (.number (writesNumeral_chars h))
  | _, .text _, .text t => .atom (.text (writesText_textChars t))
  | _, .array [], _ => .emptyArray (.spaced (List.forall_mem_nil _) (List.forall_mem_nil _))
      (.spaced (List.forall_mem_nil _) (List.forall_mem_nil _))
  | depth, .array (item :: items), .array h => by
    obtain ⟨hitem, hitems⟩ := List.forall_mem_cons.1 h
    simp only [chars, List.append_assoc]
    exact .array (isMark_opener hs '[' _) (writes_chars hs (depth + 1) item hitem)
      (writesItems_itemsChars hs (depth + 1) items hitems) (isMark_closer hs ']' depth)
  | _, .object [], _ => .emptyObject (.spaced (List.forall_mem_nil _) (List.forall_mem_nil _))
      (.spaced (List.forall_mem_nil _) (List.forall_mem_nil _))
  | depth, .object ((name, value) :: members), .object hnames h => by
    obtain ⟨⟨t, rfl⟩, hothers⟩ := List.forall_mem_cons.1 hnames
    obtain ⟨hvalue, hmembers⟩ := List.forall_mem_cons.1 h
    simp only [chars, List.append_assoc]
    exact .object (isMark_opener hs '{' _) (writesText_textChars t) (isMark_colon hs)
      (writes_chars hs (depth + 1) value hvalue)
      (writesMembers_membersChars hs (depth + 1) members hothers hmembers)
      (isMark_closer hs '}' depth)

theorem writesItems_itemsChars (hs : s.IsBlank) : ∀ (depth : Nat) (items : List Json),
    (∀ item ∈ items, IsPlain item) → WritesItems (itemsChars s depth items) items
  | _, [], _ => .nil
  | depth, item :: items, h => by
    obtain ⟨hitem, hitems⟩ := List.forall_mem_cons.1 h
    simp only [itemsChars, List.append_assoc]
    exact .cons (isMark_opener hs ',' depth) (writes_chars hs depth item hitem)
      (writesItems_itemsChars hs depth items hitems)

theorem writesMembers_membersChars (hs : s.IsBlank) : ∀ (depth : Nat)
    (members : List (List Nat × Json)), (∀ m ∈ members, ∃ t, m.1 = points t) →
    (∀ m ∈ members, IsPlain m.2) → WritesMembers (membersChars s depth members) members
  | _, [], _, _ => .nil
  | depth, (name, value) :: members, hnames, h => by
    obtain ⟨⟨t, rfl⟩, hothers⟩ := List.forall_mem_cons.1 hnames
    obtain ⟨hvalue, hmembers⟩ := List.forall_mem_cons.1 h
    simp only [membersChars, List.append_assoc]
    exact .cons (isMark_opener hs ',' depth) (writesText_textChars t) (isMark_colon hs)
      (writes_chars hs depth value hvalue)
      (writesMembers_membersChars hs depth members hothers hmembers)

end

end

theorem isText_chars {s : Spacing} (hs : s.IsBlank) {j : Json} (h : IsPlain j) :
    IsText (chars s 0 j) j := by
  have htext := IsText.spaced (List.forall_mem_nil _) (writes_chars hs 0 j h)
    (List.forall_mem_nil _)
  rwa [List.nil_append, List.append_nil] at htext

theorem isText_compact {j : Json} (h : IsPlain j) : IsText (compact j).toList j := by
  rw [compact, String.toList_ofList]
  exact isText_chars Spacing.isBlank_compact h

theorem isText_pretty {j : Json} (h : IsPlain j) : IsText (pretty j).toList j := by
  rw [pretty, String.toList_ofList]
  exact isText_chars Spacing.isBlank_pretty h

end Json
end AudioWalk
