import Mathlib.Data.Rat.Defs
import Mathlib.Algebra.Field.Rat

/-!
# Decimal numerals

Texts of decimal digits, and the numerals that are written with them: a sign, a
whole part and, after a point, a fraction.

* `digitsValue_toDigits`: a numeral is read back as its number.
* `wholeValue_toDigits`: and so is a signed one.
-/

namespace Numerals

/-- A text of decimal digits, at least one. -/
structure IsDigits (text : List Char) : Prop where
  ne_nil : text ≠ []
  isDigit : ∀ ch ∈ text, ch.isDigit

/-- The number that a text of decimal digits is written for. -/
abbrev digitsValue (text : List Char) : Nat :=
  Nat.ofDigitChars 10 text 0

def sign (negative : Bool) : List Char :=
  if negative then ['-'] else []

def signed (negative : Bool) (q : ℚ) : ℚ :=
  if negative then -q else q

/-- A numeral without a fraction. -/
def wholeNumeral (negative : Bool) (whole : List Char) : String :=
  .ofList (sign negative ++ whole)

def wholeValue (negative : Bool) (whole : List Char) : Int :=
  if negative then -digitsValue whole else digitsValue whole

/-- A numeral with a fraction. -/
def pointNumeral (negative : Bool) (whole fraction : List Char) : String :=
  .ofList (sign negative ++ (whole ++ '.' :: fraction))

def pointValue (negative : Bool) (whole fraction : List Char) : ℚ :=
  signed negative (digitsValue (whole ++ fraction) / 10 ^ fraction.length)

/-- The numeral of a number has digits only. -/
theorem isDigits_toDigits (n : Nat) : IsDigits (Nat.toDigits 10 n) where
  ne_nil := Nat.toDigits_ne_nil
  isDigit _ hch := Nat.isDigit_of_mem_toDigits (by decide) (by decide) hch

/-- A numeral is read back as its number. -/
@[simp] theorem digitsValue_toDigits (n : Nat) : digitsValue (Nat.toDigits 10 n) = n :=
  Nat.ofDigitChars_ten_toDigits

/-- A digit is none of the other characters. -/
theorem ne_of_isDigit {digit ch : Char} (h : digit.isDigit) (hch : ch.isDigit = false) :
    digit ≠ ch := by
  rintro rfl
  rw [h] at hch
  cases hch

/-- No other character stands among digits. -/
theorem IsDigits.notMem {text : List Char} (h : IsDigits text) {ch : Char}
    (hch : ch.isDigit = false) : ch ∉ text :=
  fun hmem => ne_of_isDigit (h.isDigit ch hmem) hch rfl

/-- A text of digits is taken whole, up to a character that is no digit. -/
theorem IsDigits.takeWhile {digits : List Char} (h : IsDigits digits) {ch : Char}
    (hch : ch.isDigit = false) (rest : List Char) :
    (digits ++ ch :: rest).takeWhile Char.isDigit = digits := by
  rw [List.takeWhile_append_of_pos h.isDigit, List.takeWhile_cons_of_neg (by simp [hch]),
    List.append_nil]

/-- A reader of digits stops at the first other character. -/
theorem IsDigits.dropWhile {digits : List Char} (h : IsDigits digits) {ch : Char}
    (hch : ch.isDigit = false) (rest : List Char) :
    (digits ++ ch :: rest).dropWhile Char.isDigit = ch :: rest := by
  rw [List.dropWhile_append_of_pos h.isDigit, List.dropWhile_cons_of_neg (by simp [hch])]

/-- The canonical numeral of an integer. -/
theorem toString_eq_wholeNumeral (n : Int) :
    toString n = wholeNumeral (decide (n < 0)) (Nat.toDigits 10 n.natAbs) := by
  rw [Int.toString_eq_repr, Int.repr_eq_if, wholeNumeral, sign]
  by_cases hn : n < 0
  · rw [if_neg (by omega), if_pos (decide_eq_true hn)]
    have habs : (-n).toNat = n.natAbs := by omega
    rw [habs, Nat.repr_eq_ofList_toDigits, String.ofList_append]
  · rw [if_pos (by omega), if_neg (by simpa using hn)]
    have habs : n.toNat = n.natAbs := by omega
    rw [habs, Nat.repr_eq_ofList_toDigits]
    rfl

/-- A signed numeral is read back as its integer. -/
theorem wholeValue_toDigits (n : Int) :
    wholeValue (decide (n < 0)) (Nat.toDigits 10 n.natAbs) = n := by
  rw [wholeValue, digitsValue_toDigits]
  by_cases hn : n < 0
  · rw [if_pos (decide_eq_true hn)]
    omega
  · rw [if_neg (by simpa using hn)]
    omega

end Numerals
